import Idhan.Tags.Support

/-!
# When the inherited tags are exact

Without aliases, a record should inherit exactly the tags above the tags mapped on it.  The
reference counts of `active_tag_mappings_parents` lose track in three ways: an insert sets the count
of a row that it meets to `2` (`atmp_internal_on_insert`), so a third derivation of a tag is not
counted; it does so for a row without references too, so the first derivation of a mapped tag counts
twice; and a delete takes the rows of a tag with its last derivation (`atmp_internal_on_delete`),
whether the tag is mapped or not.  `Tracked` excludes the three, in terms of the base facts before
and after a statement.

## The condition and the runs

`Db.support` counts, from the base facts alone, how many of the tags of a record give it a tag; so
the condition on a statement does not mention the derived tables.  In a state whose counts are right
it is what `Roomy` and `Unseeded` of `Idhan.Lib.Derivation` ask for, and a statement that meets it
leaves the counts right again (`Accounted`).  `inherited_tags_exact` follows for every run whose
statements meet it, and `inherited_tag_lost` has two runs that lose an inherited tag.
-/

namespace Idhan.Tags

open Relation Idhan.Derivation List

/-! ## The condition -/

/-- The tags of a record: those that are mapped on it, and those above them. -/
def Db.carriedTags (db : Db) (domain : DomainId) (record : RecordId) : List TagId :=
  (reachUpTo (db.rawParents domain) db.tagParents.length
    ((db.tagMappings.filter fun m => m.recordId = record ∧ m.tagDomainId = domain).map
      (·.tagId))).dedup

/-- How many of the tags of the record give it the tag. -/
def Db.support (db : Db) (x : TagMapping) : ℕ :=
  (db.carriedTags x.tagDomainId x.recordId).countP fun c => x.tagId ∈ db.rawParents x.tagDomainId c

/-- The base facts after a statement. -/
def Db.baseAfter (db : Db) : Op → Db
  | .insertTagMappings rows => { db with tagMappings := (upsert id none db.tagMappings rows).table }
  | .deleteTagMappings rows => { db with tagMappings := db.tagMappings.filter fun m => m ∉ rows }
  | .insertTagParent domain parent child =>
      if ∃ tp ∈ db.tagParents, tp.key = (parent, child, domain) then db
      else db.withParent domain parent child
  | .deleteTagParent domain parent child => db.withoutParent domain parent child
  | _ => db

/-- The counts keep track of the tag of `x`: it gets no third derivation, as a mapped tag it gets no
first derivation, and as a mapped tag it does not lose its last one. -/
def Tracked (before after : Db) (x : TagMapping) : Prop :=
  (before.support x < after.support x →
    after.support x ≤ 2 ∧ (before.support x = 0 → x ∉ after.tagMappings)) ∧
  (0 < before.support x → after.support x = 0 → x ∉ after.tagMappings)

/-- The counts keep track of every tag that has a parent, on every record. -/
def Supported (db : Db) (op : Op) : Prop :=
  ∀ tp ∈ (db.baseAfter op).tagParents, ∀ m ∈ db.tagMappings ++ (db.baseAfter op).tagMappings,
    m.tagDomainId = tp.tagDomainId →
      Tracked db (db.baseAfter op) ⟨m.recordId, tp.childId, m.tagDomainId⟩

/-- Statements on single rows, for records that have a file, and without aliases. -/
def SingleRow (db : Db) : Op → Prop
  | .insertTagMappings rows => rows.length = 1 ∧ ∀ row ∈ rows, row.recordId ∈ db.fileInfo
  | .deleteTagMappings rows => rows.length = 1
  | .insertTagAlias _ _ _ | .deleteTagAlias _ _ _ => False
  | _ => True

instance (before after : Db) (x : TagMapping) : Decidable (Tracked before after x) :=
  inferInstanceAs (Decidable (_ ∧ _))

instance (db : Db) (op : Op) : Decidable (Supported db op) :=
  inferInstanceAs (Decidable (∀ tp ∈ _, ∀ m ∈ _, _ → _))

instance (db : Db) (op : Op) : Decidable (SingleRow db op) := by
  cases op <;> unfold SingleRow <;> infer_instance

/-! ## The support of a tag -/

variable {db db' : Db} {x y m : TagMapping} {op : Op} {domain : DomainId} {parent child : TagId}

/-- An edge of `tag_parents`, on a record. -/
def Db.RawGives (db : Db) (x y : TagMapping) : Prop :=
  y.recordId = x.recordId ∧ y.tagDomainId = x.tagDomainId ∧
    EdgeOf (TagParent.Edge x.tagDomainId) db.tagParents x.tagId y.tagId

theorem rawGives_transGen :
    TransGen db.RawGives x y ↔ y.recordId = x.recordId ∧ y.tagDomainId = x.tagDomainId ∧
      TransGen (EdgeOf (TagParent.Edge x.tagDomainId) db.tagParents) x.tagId y.tagId :=
  transGen_onRecord (E := fun d => EdgeOf (TagParent.Edge d) db.tagParents)

theorem rawGives_path :
    ReflTransGen db.RawGives x y ↔ y.recordId = x.recordId ∧ y.tagDomainId = x.tagDomainId ∧
      ReflTransGen (EdgeOf (TagParent.Edge x.tagDomainId) db.tagParents) x.tagId y.tagId := by
  rw [reflTransGen_iff_eq_or_transGen, rawGives_transGen, reflTransGen_iff_eq_or_transGen,
    ← and_assoc, ← and_assoc, and_or_left]
  refine or_congr_left ?_
  obtain ⟨record, tag, domain⟩ := x
  obtain ⟨record', tag', domain'⟩ := y
  simp only [TagMapping.mk.injEq]
  tauto

theorem mem_carriedTags {record : RecordId} {tag : TagId} :
    tag ∈ db.carriedTags domain record ↔ ∃ m ∈ db.tagMappings, m.recordId = record ∧
      m.tagDomainId = domain ∧
        ReflTransGen (EdgeOf (TagParent.Edge domain) db.tagParents) m.tagId tag := by
  rw [Db.carriedTags, mem_dedup, mem_reachUpTo_rawParents]
  simp only [mem_map, mem_filter, decide_eq_true_eq]
  constructor
  · rintro ⟨_, ⟨m, ⟨hm, hr, hd⟩, rfl⟩, hpath⟩
    exact ⟨m, hm, hr, hd, hpath⟩
  · rintro ⟨m, hm, hr, hd, hpath⟩
    exact ⟨m.tagId, ⟨m, ⟨hm, hr, hd⟩, rfl⟩, hpath⟩

/-- The tags that give a record the tag of `x`. -/
def Db.sources (db : Db) (x : TagMapping) : List TagMapping :=
  ((db.carriedTags x.tagDomainId x.recordId).filter fun c =>
    x.tagId ∈ db.rawParents x.tagDomainId c).map fun c => ⟨x.recordId, c, x.tagDomainId⟩

theorem length_sources (db : Db) (x : TagMapping) : (db.sources x).length = db.support x := by
  rw [Db.sources, length_map, Db.support, countP_eq_length_filter]

theorem nodup_sources (db : Db) (x : TagMapping) : (db.sources x).Nodup :=
  ((nodup_dedup _).filter _).map fun _ _ he => (TagMapping.mk.inj he).2.1

theorem mem_sources {o : TagMapping} :
    o ∈ db.sources x ↔ Derivable db.RawGives (· ∈ db.tagMappings) x o := by
  simp only [Db.sources, mem_map, mem_filter, decide_eq_true_eq, mem_carriedTags,
    mem_rawParents]
  constructor
  · rintro ⟨c, ⟨⟨m, hm, hr, hd, hpath⟩, hedge⟩, rfl⟩
    refine ⟨⟨rfl, rfl, hedge⟩, m, hm, rawGives_path.2 ⟨hr.symm, hd.symm, ?_⟩⟩
    exact hd.symm ▸ hpath
  · rintro ⟨⟨hr, hd, hedge⟩, m, hm, hpath⟩
    obtain ⟨hr', hd', hpath⟩ := rawGives_path.1 hpath
    refine ⟨o.tagId, ⟨⟨m, hm, hr'.symm.trans hr.symm, hd'.symm.trans hd.symm, ?_⟩, ?_⟩, ?_⟩
    · rw [hd, hd']
      exact hpath
    · rw [hd]
      exact hedge
    · rw [hr, hd]

/-! ## What the runs keep -/

/-- The base facts of a run without aliases. -/
structure Plain (db : Db) : Prop where
  consistent : Consistent db
  noAliases : db.tagAliases = []
  acyclic : ∀ d, Acyclic (EdgeOf (TagParent.Edge d) db.tagParents)
  mappings : db.tagMappings.Nodup
  files : ∀ m ∈ db.tagMappings, m.recordId ∈ db.fileInfo

namespace Plain

section

variable (h : Plain db)
include h

theorem idealOf_eq_none (domain : DomainId) (tag : TagId) : db.idealOf domain tag = none := by
  rw [Db.idealOf, Db.aliasOf?, h.noAliases]
  rfl

theorem plainParents : db.PlainParents := fun tp htp => by
  rw [h.consistent.parents tp htp, h.consistent.children tp htp]
  exact ⟨h.idealOf_eq_none _ _, h.idealOf_eq_none _ _⟩

theorem plainActive : ∀ m ∈ db.activeTagMappings, m.idealTagId = none :=
  fun m hm => (h.consistent.active m hm).trans (h.idealOf_eq_none _ _)

theorem gives_eq : db.Gives = db.RawGives := by
  funext x y
  rw [eq_iff_iff, h.plainParents.gives_iff, Db.RawGives, edgeOf_tagParents_iff]

theorem inherits_eq (d : DomainId) : db.Inherits d = EdgeOf (TagParent.Edge d) db.tagParents := by
  funext x y
  have hgives := congrFun (congrFun h.gives_eq ⟨0, x, d⟩) ⟨0, y, d⟩
  simpa only [Db.Gives, Db.RawGives, true_and] using hgives

theorem acyclic_inherits (d : DomainId) : Acyclic (db.Inherits d) :=
  h.inherits_eq d ▸ h.acyclic d

end

variable {x : TagMapping}

theorem carries_iff (h : Plain db) : db.Carries x ↔ x ∈ db.tagMappings := by
  have hmirror : x ∈ db.tagMappings ↔ x ∈ db.activeTagMappings.map ActiveTagMapping.key := by
    rw [h.consistent.mirror]
    exact ⟨fun hx => ⟨hx, h.files x hx⟩, And.left⟩
  rw [hmirror, mem_map]
  refine exists_congr fun m => and_congr_right fun hm => ?_
  rw [carried_eq_key (h.plainActive m hm)]

theorem derivable_iff (h : Plain db) {o : TagMapping} :
    Derivable db.Gives db.Carries x o ↔ o ∈ db.sources x := by
  have hcarries : db.Carries = (· ∈ db.tagMappings) := funext fun x => propext h.carries_iff
  rw [mem_sources, h.gives_eq, hcarries]

end Plain

/-- The inherited rows are exact, and so are their counts. -/
structure Accounted (db : Db) : Prop extends Plain db where
  exact : Exact db.Gives db.Carries db.derivations

theorem Accounted.refs_eq (h : Accounted db) (x : TagMapping) :
    refs db.derivations x = db.support x := by
  have hmem : ∀ o, (x, o) ∈ keys db.derivations ↔ o ∈ db.sources x := fun o => by
    rw [← h.derivable_iff]
    exact ⟨h.exact.derivable_of_mem (rank_lt_of_gives h.acyclic_inherits), h.exact.mem_of_derivable⟩
  rw [← length_sources]
  exact le_antisymm (refs_le_length h.exact.unique fun o ho => (hmem o).1 ho)
    (length_le_refs (nodup_sources db x) fun o ho => (hmem o).2 ho)

/-! ## What the condition gives -/

section Condition

variable {op : Op} (h : Accounted db) (h' : Plain db')
  (hparents : db'.tagParents = (db.baseAfter op).tagParents)
  (hmappings : db'.tagMappings = (db.baseAfter op).tagMappings)
include hparents hmappings

theorem support_baseAfter (x : TagMapping) : (db.baseAfter op).support x = db'.support x := by
  unfold Db.support Db.carriedTags Db.rawParents
  rw [hparents, hmappings]

include h'

/-- The condition, at a tag that has a parent, on a record that has a mapping. -/
theorem Supported.tracked (hs : Supported db op) {x y m : TagMapping} (hxy : db'.Gives x y)
    (hm : m ∈ db.tagMappings ∨ m ∈ db'.tagMappings) (hr : m.recordId = x.recordId)
    (hd : m.tagDomainId = x.tagDomainId) : Tracked db (db.baseAfter op) x := by
  rw [h'.gives_eq] at hxy
  obtain ⟨_, _, tp, htp, htd, hc, _⟩ := hxy
  have htracked := hs tp (hparents ▸ htp) m
    (mem_append.2 (hm.imp_right fun hm => hmappings ▸ hm)) (hd.trans htd.symm)
  rwa [hr, hd, hc] at htracked

include h

theorem Supported.roomy (hs : Supported db op) : Roomy db'.Gives db'.Carries db.derivations := by
  intro x y hxy B hB hbound hlt
  have hle : refs B x ≤ db'.support x := by
    rw [← length_sources]
    exact refs_le_length hB fun o ho => h'.derivable_iff.1 (hbound x o ho)
  -- a derivation of `x` starts from a mapping of its record
  obtain ⟨o, ho⟩ := refs_pos.1 (Nat.zero_lt_of_lt hlt)
  obtain ⟨hox, m, hm, hpath⟩ := hbound x o ho
  obtain ⟨hr, hd⟩ := sameRecord_of_path (hpath.tail hox)
  have htracked := hs.tracked h' hparents hmappings hxy (Or.inr (h'.carries_iff.1 hm)) hr.symm
    hd.symm
  rw [Tracked, support_baseAfter hparents hmappings, ← h.refs_eq] at htracked
  obtain ⟨htwo, hfirst⟩ := htracked.1 (hlt.trans_le hle)
  refine ⟨hle.trans htwo, fun hzero hx => hfirst hzero ?_⟩
  exact hmappings ▸ h'.carries_iff.1 hx

theorem Supported.unseeded (hs : Supported db op) :
    Unseeded db'.Gives db'.Carries db.derivations := by
  rintro x y hxy ⟨o, ho⟩ hnone hx
  obtain ⟨hox, m, hm, hpath⟩ :=
    h.exact.derivable_of_mem (rank_lt_of_gives h.acyclic_inherits) ho
  obtain ⟨hr, hd⟩ := sameRecord_of_path (hpath.tail hox)
  have htracked := hs.tracked h' hparents hmappings hxy (Or.inl (h.carries_iff.1 hm)) hr.symm
    hd.symm
  rw [Tracked, support_baseAfter hparents hmappings, ← h.refs_eq] at htracked
  refine htracked.2 (refs_pos.2 ⟨o, ho⟩) ?_ (hmappings ▸ h'.carries_iff.1 hx)
  rw [← length_sources, length_eq_zero_iff]
  exact eq_nil_iff_forall_not_mem.2 fun o ho => hnone o (h'.derivable_iff.2 ho)

end Condition

/-! ## The statements -/

/-- The base facts that a statement leaves. -/
theorem exec_baseAfter (hop : SingleRow db op) (hexec : exec op db = .ok db') :
    db'.tagParents = (db.baseAfter op).tagParents ∧
      db'.tagMappings = (db.baseAfter op).tagMappings ∧ db'.tagAliases = db.tagAliases ∧
        ∀ record ∈ db.fileInfo, record ∈ db'.fileInfo := by
  cases op with
  | insertTagMappings rows =>
    simp only [exec, insertTagMappings] at hexec
    split_ifs at hexec
    obtain ⟨_, _, rfl⟩ := (insertActiveTagMappings_spec _ _).of_ok hexec
    exact ⟨rfl, rfl, rfl, fun _ h => h⟩
  | deleteTagMappings rows =>
    obtain ⟨_, _, rfl⟩ := (deleteEach_spec _ _).of_ok hexec
    exact ⟨rfl, rfl, rfl, fun _ h => h⟩
  | insertFileInfo records =>
    obtain ⟨_, _, rfl⟩ := (insertActiveTagMappings_spec _ _).of_ok hexec
    exact ⟨rfl, rfl, rfl, fun _ h => mem_upsert_id.2 (Or.inl h)⟩
  | insertTagAlias _ _ _ | deleteTagAlias _ _ _ => exact hop.elim
  | insertTagParent domain parent child =>
    obtain ⟨_, _, ⟨hkey, rfl⟩ | ⟨hkey, hmapping⟩⟩ := exec_insertTagParent_ok hexec
    · rw [Db.baseAfter, if_pos (mem_map.1 hkey)]
      exact ⟨rfl, rfl, rfl, fun _ h => h⟩
    · obtain ⟨_, _, rfl⟩ := (insertParentMapping_spec _ _).of_ok hmapping
      rw [Db.baseAfter, if_neg fun h => hkey (mem_map.2 h)]
      exact ⟨rfl, rfl, rfl, fun _ h => h⟩
  | deleteTagParent domain parent child =>
    obtain ⟨_, _, rfl⟩ := (deleteTagParent_spec domain parent child db).of_ok hexec
    exact ⟨rfl, rfl, rfl, fun _ h => h⟩
  | accumulateTagCountDelta =>
    rw [accumulateTagCountDelta_eq_ok hexec]
    exact ⟨rfl, rfl, rfl, fun _ h => h⟩

theorem Plain.baseAfter (h : Plain db) (hop : SingleRow db op) :
    (db.baseAfter op).tagMappings.Nodup ∧
      ∀ m ∈ (db.baseAfter op).tagMappings, m.recordId ∈ db.fileInfo := by
  cases op with
  | insertTagMappings rows =>
    have hnodup : KeyUnique id (upsert id none db.tagMappings rows).table :=
      keyUnique_upsert keepsKey_none (by rw [KeyUnique, map_id]; exact h.mappings)
    rw [KeyUnique, map_id] at hnodup
    exact ⟨hnodup, fun m hm => (mem_upsert_id.1 hm).elim (h.files m) (hop.2 m)⟩
  | deleteTagMappings rows =>
    exact ⟨h.mappings.filter _, fun m hm => h.files m (mem_of_mem_filter hm)⟩
  | insertTagParent domain parent child =>
    simp only [Db.baseAfter]
    split_ifs <;> exact ⟨h.mappings, h.files⟩
  | insertFileInfo _ | deleteTagParent _ _ _ | accumulateTagCountDelta =>
    exact ⟨h.mappings, h.files⟩
  | insertTagAlias _ _ _ | deleteTagAlias _ _ _ => exact hop.elim

theorem exec_plain (h : Plain db) (hop : SingleRow db op)
    (hexec : exec op db = .ok db') : Plain db' := by
  obtain ⟨_, hmappings, haliases, hfiles⟩ := exec_baseAfter hop hexec
  obtain ⟨hnodup, hrecords⟩ := h.baseAfter hop
  rw [← hmappings] at hnodup hrecords
  exact ⟨exec_consistent h.consistent hexec, haliases.trans h.noAliases,
    exec_acyclic_edges h.consistent h.acyclic hexec, hnodup, fun m hm => hfiles _ (hrecords m hm)⟩

/-- An insert of no row changes nothing but the pending counts. -/
theorem insertActiveTagMappings_nil (db : Db) :
    Succeeds (insertActiveTagMappings [] db) fun db' =>
      ∃ deltas, db' = { db with tagCountDelta := deltas } := by
  have heq : insertActiveTagMappings [] db = collectTagCountStorage (.insert []) db := rfl
  rw [heq]
  refine (collectTagCountStorage_spec _ db).mono fun db' hc => ?_
  obtain ⟨deltas, rfl, _⟩ := hc
  exact ⟨_, rfl⟩

section

variable (h : Accounted db)
include h

theorem Accounted.insertTagMapping (hfile : m.recordId ∈ db.fileInfo)
    (hexec : exec (.insertTagMappings [m]) db = .ok db')
    (hroom : Roomy db'.Gives db'.Carries db.derivations) :
    Exact db'.Gives db'.Carries db'.derivations := by
  simp only [exec, insertTagMappings] at hexec
  split_ifs at hexec
  by_cases hm : m ∈ db.tagMappings
  · rw [upsert_nothing_singleton (by rwa [map_id])] at hexec
    obtain ⟨_, rfl⟩ := (insertActiveTagMappings_nil _).of_ok hexec
    exact h.exact
  · rw [upsert_singleton (by rwa [map_id])] at hexec
    have hrows : [m].filter (fun nm => decide (nm.recordId ∈ db.fileInfo)) = [m] :=
      filter_eq_self.2 fun nm hnm => decide_eq_true (mem_singleton.1 hnm ▸ hfile)
    have hactive : m ∉ db.activeTagMappings.map ActiveTagMapping.key :=
      fun hk => hm ((h.consistent.mirror m).1 hk).1
    simp only [tagMappingsAfterInsert, hrows] at hexec
    set base : Db := { db with tagMappings := db.tagMappings ++ [m] }
    have hi := (insertActiveTagMappings_spec [m] base).of_ok hexec
    rw [map_singleton, upsert_singleton hactive] at hi
    rw [hi.gives_eq, hi.carries_eq] at hroom
    have hexact : Exact base.Gives base.Carries base.derivations := h.exact
    exact ((insertActiveTagMappings_exact hexact h.acyclic_inherits hactive hroom).of_ok hexec).2

theorem Accounted.deleteTagMapping (hexec : exec (.deleteTagMappings [m]) db = .ok db')
    (hseed : Unseeded db'.Gives db'.Carries db.derivations) :
    Exact db'.Gives db'.Carries db'.derivations := by
  simp only [exec, deleteTagMappings] at hexec
  by_cases hm : m ∈ db.tagMappings
  · have hunique : KeyUnique id db.tagMappings := by
      rw [KeyUnique, map_id]
      exact h.mappings
    have hremoved : (db.tagMappings.filter fun m' => m' ∈ [m]) = [m] :=
      hunique.filter_eq_singleton hm (decide_eq_true (mem_singleton_self m)) fun _ _ hp =>
        mem_singleton.1 (of_decide_eq_true hp)
    have hactive : m ∈ db.activeTagMappings.map ActiveTagMapping.key :=
      (h.consistent.mirror m).2 ⟨hm, h.files m hm⟩
    rw [hremoved] at hexec
    obtain ⟨s, hs, hdone⟩ := bind_eq_ok_iff.1 hexec
    cases hdone
    set base : Db := { db with tagMappings := db.tagMappings.filter fun m' => m' ∉ [m] }
    have hi := (deleteActiveTagMappings_spec _ base).of_ok hs
    rw [hi.gives_eq, hi.carries_eq] at hseed
    have hexact : Exact base.Gives base.Carries base.derivations := h.exact
    exact ((deleteActiveTagMappings_exact hexact h.consistent.activeKeys h.plainActive hactive
      hseed).of_ok hs).2
  · have hremoved : (db.tagMappings.filter fun m' => m' ∈ [m]) = [] :=
      filter_eq_nil_iff.2 fun m' hm' hp =>
        hm (mem_singleton.1 (of_decide_eq_true hp) ▸ hm')
    rw [hremoved] at hexec
    cases hexec
    exact h.exact

theorem Accounted.insertFileInfo {records : List RecordId}
    (hexec : exec (.insertFileInfo records) db = .ok db') :
    Exact db'.Gives db'.Carries db'.derivations := by
  have hrows : ((upsert id none db.fileInfo records).inserted.flatMap fun nf =>
      db.tagMappings.filter fun tm => tm.recordId = nf) = [] := by
    refine flatMap_eq_nil_iff.2 fun nf hnf => filter_eq_nil_iff.2 fun tm htm hr => ?_
    have hnew := (of_mem_upsert_inserted keepsKey_none hnf).2
    rw [map_id] at hnew
    exact hnew (of_decide_eq_true hr ▸ h.files tm htm)
  simp only [exec, Tags.insertFileInfo, tagMappingsAfterActiveInsert, hrows] at hexec
  obtain ⟨_, rfl⟩ := (insertActiveTagMappings_nil _).of_ok hexec
  exact h.exact

theorem Accounted.insertTagParent (h' : Plain db')
    (hexec : exec (.insertTagParent domain parent child) db = .ok db')
    (hroom : Roomy db'.Gives db'.Carries db.derivations) :
    Exact db'.Gives db'.Carries db'.derivations := by
  obtain ⟨_, _, ⟨_, rfl⟩ | ⟨hkey, hmapping⟩⟩ := exec_insertTagParent_ok hexec
  · exact h.exact
  · have hi := (insertParentMapping_spec _ _).of_ok hmapping
    have hinherits : db'.Inherits = (db.withParent domain parent child).Inherits := by
      obtain ⟨_, _, rfl⟩ := hi
      rfl
    refine (insertParentMapping_exact h.exact h.acyclic_inherits (fun d => ?_) ?_ ?_ ?_).of_ok
      hmapping
    · have hacyclic := h'.acyclic_inherits d
      rw [hinherits] at hacyclic
      exact hacyclic
    · exact h.idealOf_eq_none domain child
    · simp only [tagParentsBeforeInsertTrigger, TagParent.effectiveChildId,
        TagParent.effectiveParentId, h.idealOf_eq_none, Option.getD_none]
      rw [h.inherits_eq, edgeOf_tagParents_iff]
      exact hkey
    · rw [hi.gives_eq, hi.carries_eq] at hroom
      exact hroom

theorem Accounted.deleteTagParent (hexec : exec (.deleteTagParent domain parent child) db = .ok db')
    (hseed : Unseeded db'.Gives db'.Carries db.derivations) :
    Exact db'.Gives db'.Carries db'.derivations := by
  have hi := (deleteTagParent_spec domain parent child db).of_ok hexec
  rw [hi.gives_eq, hi.carries_eq] at hseed
  exact (deleteTagParent_exact h.exact h.consistent.parentKeys h.plainParents hseed).of_ok hexec

/-- **A statement that meets the condition keeps the inherited rows and their counts right.** -/
theorem exec_accounted (hop : SingleRow db op) (hs : Supported db op)
    (hexec : exec op db = .ok db') : Accounted db' := by
  have h' := exec_plain h.toPlain hop hexec
  obtain ⟨hparents, hmappings, _⟩ := exec_baseAfter hop hexec
  have hroom := hs.roomy h h' hparents hmappings
  have hseed := hs.unseeded h h' hparents hmappings
  refine ⟨h', ?_⟩
  cases op with
  | insertTagMappings rows =>
    obtain ⟨m, rfl⟩ := length_eq_one_iff.1 hop.1
    exact h.insertTagMapping (hop.2 m (mem_singleton_self m)) hexec hroom
  | deleteTagMappings rows =>
    obtain ⟨m, rfl⟩ := length_eq_one_iff.1 hop
    exact h.deleteTagMapping hexec hseed
  | insertFileInfo records => exact h.insertFileInfo hexec
  | insertTagAlias _ _ _ | deleteTagAlias _ _ _ => exact hop.elim
  | insertTagParent domain parent child => exact h.insertTagParent h' hexec hroom
  | deleteTagParent domain parent child => exact h.deleteTagParent hexec hseed
  | accumulateTagCountDelta =>
    rw [accumulateTagCountDelta_eq_ok hexec]
    exact h.exact

end

theorem Accounted.empty (domains : List DomainId) : Accounted (Db.empty domains) where
  consistent := .empty domains
  noAliases := rfl
  acyclic := fun _ => .of_isEmpty fun _ _ ⟨_, htp, _⟩ => not_mem_nil htp
  mappings := nodup_nil
  files := forall_mem_nil _
  exact :=
    { unique := nodup_nil
      mem := fun t o => by
        refine ⟨fun hk => (not_mem_nil hk).elim, fun hk => ?_⟩
        obtain ⟨_, _, tp, htp, _⟩ := hk.1
        exact (not_mem_nil htp).elim
      count := fun r hr => (not_mem_nil hr).elim }

/-- The statements of the runs, and the condition on them. -/
def Meets (db : Db) (op : Op) : Prop :=
  SingleRow db op ∧ Supported db op

instance (db : Db) (op : Op) : Decidable (Meets db op) :=
  inferInstanceAs (Decidable (_ ∧ _))

theorem ReachableBy.accounted {domains : List DomainId} (h : ReachableBy Meets domains db) :
    Accounted db := by
  induction h with
  | empty => exact .empty domains
  | step op _ hmeets hexec ih => exact exec_accounted ih hmeets.1 hmeets.2 hexec
  | rolledBack _ _ ih => exact ih

/-- **The inherited tags are exact** in every state that is reached from empty tables by inserts and
deletes of single mappings and edges that the counts keep track of: a record inherits a tag exactly
when the tag is above a tag that is mapped on the record. -/
theorem inherited_tags_exact {domains : List DomainId} (h : ReachableBy Meets domains db)
    (record : RecordId) (tag : TagId) (domain : DomainId) :
    (∃ row ∈ db.activeTagMappingsParents,
      row.recordId = record ∧ row.tagId = tag ∧ row.tagDomainId = domain) ↔
    ∃ m ∈ db.tagMappings, m.recordId = record ∧ m.tagDomainId = domain ∧
      TransGen (EdgeOf (TagParent.Edge domain) db.tagParents) m.tagId tag := by
  have ha := h.accounted
  have hexact := ha.exact.exists_iff (t := ⟨record, tag, domain⟩)
    (rank_lt_of_gives ha.acyclic_inherits)
  constructor
  · rintro ⟨row, hrow, rfl, rfl, rfl⟩
    obtain ⟨m, hm, hpath⟩ := hexact.1 ⟨_, mem_keys_of_mem (mem_map_of_mem hrow)⟩
    rw [ha.gives_eq] at hpath
    obtain ⟨hr, hd, hpath⟩ := rawGives_transGen.1 hpath
    refine ⟨m, ha.carries_iff.1 hm, hr.symm, hd.symm, ?_⟩
    rw [show row.tagDomainId = m.tagDomainId from hd]
    exact hpath
  · rintro ⟨m, hm, rfl, rfl, hpath⟩
    rw [ha.gives_eq] at hexact
    obtain ⟨o, ho⟩ := hexact.2
      ⟨m, ha.carries_iff.2 hm, rawGives_transGen.2 ⟨rfl, rfl, hpath⟩⟩
    obtain ⟨r, hr, hnode, _⟩ := exists_of_mem_keys ho
    obtain ⟨row, hrow, rfl⟩ := mem_map.1 hr
    obtain ⟨hrecord, htag, hdomain⟩ := TagMapping.mk.inj hnode
    exact ⟨row, hrow, hrecord, htag, hdomain⟩

/-- Two mapped children of one parent, one of which goes: its parent, and the parent above, stay. -/
theorem inherited_tags_exact_two_children :
    ∃ db, run [.insertFileInfo [1], .insertTagParent 0 10 1, .insertTagParent 0 10 2,
        .insertTagParent 0 20 10, .insertTagMappings [⟨1, 1, 0⟩], .insertTagMappings [⟨1, 2, 0⟩],
        .deleteTagMappings [⟨1, 1, 0⟩]] (Db.empty [0]) = .ok db ∧
      (db.tagMappings = [⟨1, 2, 0⟩] ∧
        db.activeTagMappingsParents = [⟨1, 20, 10, 1, 0⟩, ⟨1, 10, 2, 0, 0⟩]) ∧
      ((∃ row ∈ db.activeTagMappingsParents,
          row.recordId = 1 ∧ row.tagId = 20 ∧ row.tagDomainId = 0) ↔
        ∃ m ∈ db.tagMappings, m.recordId = 1 ∧ m.tagDomainId = 0 ∧
          TransGen (EdgeOf (TagParent.Edge 0) db.tagParents) m.tagId 20) := by
  refine (exists_run ?_).imp fun db ⟨hrun, hdb⟩ =>
    ⟨hrun, hdb, inherited_tags_exact (ReachableBy.empty.along (by decide +kernel) hrun) 1 20 0⟩
  decide +kernel

/-- The tag is above a mapped tag of the record, and the record does not inherit it. -/
def Loses (db : Db) (record : RecordId) (mapped tag : TagId) (domain : DomainId) : Prop :=
  ⟨record, mapped, domain⟩ ∈ db.tagMappings ∧
    TransGen (EdgeOf (TagParent.Edge domain) db.tagParents) mapped tag ∧
    ¬ ∃ row ∈ db.activeTagMappingsParents,
      row.recordId = record ∧ row.tagId = tag ∧ row.tagDomainId = domain

instance (db : Db) (record : RecordId) (mapped tag : TagId) (domain : DomainId) :
    Decidable (Loses db record mapped tag domain) :=
  decidable_of_iff (⟨record, mapped, domain⟩ ∈ db.tagMappings ∧ tag ∈ db.ancestors domain mapped ∧
      ∀ row ∈ db.activeTagMappingsParents,
        ¬ (row.recordId = record ∧ row.tagId = tag ∧ row.tagDomainId = domain))
    (by rw [Loses, mem_ancestors]; push Not; rfl)

/-- Two runs on single rows that lose an inherited tag.  Of three mapped children of one parent two
go, and the parent above is lost, though the third child is mapped.  And the mapping of a child
goes, and the parent above its parent is lost, though the parent is mapped itself. -/
theorem inherited_tag_lost :
    (∃ db, ReachableBy SingleRow [0] db ∧ Loses db 1 3 20 0) ∧
      ∃ db, ReachableBy SingleRow [0] db ∧ Loses db 1 10 20 0 := by
  have hthird : ((run [.insertFileInfo [1], .insertTagParent 0 10 1, .insertTagParent 0 10 2,
      .insertTagParent 0 10 3, .insertTagParent 0 20 10, .insertTagMappings [⟨1, 1, 0⟩],
      .insertTagMappings [⟨1, 2, 0⟩], .insertTagMappings [⟨1, 3, 0⟩],
      .deleteTagMappings [⟨1, 1, 0⟩], .deleteTagMappings [⟨1, 2, 0⟩]] (Db.empty [0])).toOption.any
      fun db =>
        decide (Loses db 1 3 20 0)) = true := by decide +kernel
  have hmapped : ((run [.insertFileInfo [1], .insertTagParent 0 10 1, .insertTagParent 0 20 10,
      .insertTagMappings [⟨1, 1, 0⟩], .insertTagMappings [⟨1, 10, 0⟩],
      .deleteTagMappings [⟨1, 1, 0⟩]] (Db.empty [0])).toOption.any fun db =>
        decide (Loses db 1 10 20 0)) = true := by decide +kernel
  obtain ⟨db, hrun, hdb⟩ := exists_run hthird
  obtain ⟨db', hrun', hdb'⟩ := exists_run hmapped
  exact ⟨⟨db, ReachableBy.empty.along (by decide +kernel) hrun, hdb⟩,
    ⟨db', ReachableBy.empty.along (by decide +kernel) hrun', hdb'⟩⟩

end Idhan.Tags
