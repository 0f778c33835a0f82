import Idhan.Tags.AliasStatements
import Idhan.Tags.Api

/-!
# The runs of the statements

A state that statements reach is `Consistent`: the caches of the aliases are resolved, and the
active mappings are the mappings of the records that have a file.

* `exec_spec`: a statement succeeds and keeps this, or is refused and changes nothing.
* `aliases_resolved`, `activeTagMappings_mirror`: what follows for every reachable state.
-/

namespace Idhan.Tags

open List

/-- What every reached state satisfies: the caches hold the resolution of the aliases, and the
active mappings are the mappings of the records that have a file. -/
structure Consistent (db : Db) : Prop extends Resolved db where
  parentKeys : KeyUnique TagParent.key db.tagParents
  activeKeys : KeyUnique ActiveTagMapping.key db.activeTagMappings
  mirror : ∀ k : TagMapping, k ∈ db.activeTagMappings.map ActiveTagMapping.key ↔
    k ∈ db.tagMappings ∧ k.recordId ∈ db.fileInfo

/-- The error with which a statement is refused before it changes anything, in the tables that are
modelled: the foreign keys to `tags` and `records` refuse others. -/
def refusal (db : Db) : Op → Option DbError
  | .insertTagMappings rows =>
      if rows.any fun row => row.tagDomainId ∉ db.tagDomains then some (.noPartition "tag_mappings")
      else none
  | .insertTagAlias domain aliased target =>
      if aliased = target then some (.selfRelationship "alias" aliased target)
      else if domain ∉ db.tagDomains then some (.noPartition "tag_aliases")
      else if db.idealOf domain target = some aliased then some (.aliasCycle aliased target domain)
      else none
  | .insertTagParent domain parent child =>
      if parent = child then some (.selfRelationship "parent" parent child)
      else if domain ∉ db.tagDomains then some (.noPartition "tag_parents")
      else if child ∈ db.ancestors domain parent then some (.parentCycle parent child domain)
      else none
  | .accumulateTagCountDelta =>
      if (accumulateTagCountDelta db).isOk then none else some .integerOutOfRange
  | _ => none

/-- The errors with which statements are refused. -/
def DbError.isRefusal : DbError → Bool
  | .recursiveAlias | .checkViolation _ | .stackDepthLimitExceeded => false
  | _ => true

variable {op : Op}

theorem isRefusal_of_refusal {db : Db} {e : DbError} (h : refusal db op = some e) :
    e.isRefusal := by
  cases op with
  | deleteTagMappings _ | insertFileInfo _ | deleteTagAlias _ _ _ | deleteTagParent _ _ _ =>
    exact nomatch h
  | insertTagMappings _ | insertTagAlias _ _ _ | insertTagParent _ _ _ | accumulateTagCountDelta =>
    simp only [refusal] at h
    split_ifs at h <;> cases h <;> rfl

namespace Consistent

variable {db db' : Db}

theorem empty (domains : List DomainId) : Consistent (Db.empty domains) where
  unique := nodup_nil
  ends := fun _ tag => ⟨tag, .stop rfl⟩
  aliases := fun _ h => nomatch h
  parents := fun _ h => nomatch h
  children := fun _ h => nomatch h
  active := fun _ h => nomatch h
  parentKeys := nodup_nil
  activeKeys := nodup_nil
  mirror := fun _ => ⟨fun h => (not_mem_nil h).elim, fun h => (not_mem_nil h.1).elim⟩

theorem of_inheritedOnly (h : Consistent db) (hi : InheritedOnly db db') : Consistent db' := by
  have hr := h.toResolved.of_inheritedOnly hi
  obtain ⟨rows, deltas, rfl⟩ := hi
  exact ⟨hr, h.parentKeys, h.activeKeys, h.mirror⟩

/-- The part that is about the base facts only. -/
theorem of_sameFacts (h : Consistent db) (hr : Resolved db') {s : Db} (hf : SameFacts s db')
    (hp : s.tagParents = db.tagParents) (ha : s.activeTagMappings = db.activeTagMappings)
    (hm : s.tagMappings = db.tagMappings) (hi : s.fileInfo = db.fileInfo) : Consistent db' where
  toResolved := hr
  parentKeys := by
    rw [KeyUnique, hf.parents, hp]
    exact h.parentKeys
  activeKeys := by
    rw [KeyUnique, hf.active, ha]
    exact h.activeKeys
  mirror := fun k => by
    rw [hf.active, ha, hf.tagMappings, hf.fileInfo, hm, hi]
    exact h.mirror k

end Consistent

/-! ## The statements on aliases -/

variable {db : Db} {domain : DomainId} {db' : Db} {target aliased parent child : TagId}

theorem insertTagAlias_eq (hd : domain ∈ db.tagDomains) (hne : aliased ≠ target)
    (hcycle : db.idealOf domain target ≠ some aliased) :
    insertTagAlias domain aliased target db =
      if (db.aliasOf? domain aliased).isSome then .ok db
      else tagAliasesAfterInsert (db.newAlias domain aliased target)
        (db.withAlias domain aliased target) := by
  have hcheck : (db.newAlias domain aliased target).check = true := decide_eq_true ⟨hne, hcycle⟩
  have hbefore : tagAliasesBeforeInsertTrigger db domain aliased target =
      .ok (db.newAlias domain aliased target) := if_neg hcycle
  have hrepair : repairParentsOnAlias [] db = .ok db := by
    rw [repairParentsOnAlias, if_neg]
    simp
  unfold insertTagAlias
  rw [if_neg (not_not.2 hd), hbefore]
  simp only [bind, Except.bind, hcheck, Bool.not_true, Bool.false_eq_true, if_false, hrepair]
  rfl

/-- An accepted alias is inserted, and leaves the state consistent. -/
theorem insertTagAlias_spec (h : Consistent db) (hd : domain ∈ db.tagDomains)
    (ha : Accepts db domain aliased target) :
    Succeeds (insertTagAlias domain aliased target db) fun db' =>
      Consistent db' ∧ SameFacts (db.addAlias domain aliased target) db' := by
  rw [insertTagAlias_eq hd ha.ne ha.noCycle, ha.free, Option.isSome_none, if_neg Bool.false_ne_true]
  refine (ha.tagAliasesAfterInsert_spec h.toResolved).mono fun db' hdb' => ⟨?_, hdb'.2⟩
  exact h.of_sameFacts hdb'.1 hdb'.2 rfl rfl rfl rfl

/-- An alias of a tag that has one already changes nothing. -/
theorem insertTagAlias_of_aliased (hd : domain ∈ db.tagDomains) (hne : aliased ≠ target)
    (hcycle : db.idealOf domain target ≠ some aliased) (hsome : db.aliasOf? domain aliased ≠ none) :
    insertTagAlias domain aliased target db = .ok db := by
  rw [insertTagAlias_eq hd hne hcycle, if_pos (Option.isSome_iff_ne_none.2 hsome)]

/-! ## The statements on parents -/

/-- The row that a parent statement inserts, and the state with it, before any trigger. -/
def Db.withParent (db : Db) (domain : DomainId) (parent child : TagId) : Db :=
  { db with tagParents := db.tagParents ++ [tagParentsBeforeInsertTrigger db domain parent child] }

/-- The state without an edge, before any trigger. -/
def Db.withoutParent (db : Db) (domain : DomainId) (parent child : TagId) : Db :=
  { db with tagParents := db.tagParents.filter fun tp => tp.key ≠ (parent, child, domain) }

theorem insertTagParent_eq (hd : domain ∈ db.tagDomains)
    (hcycle : child ∉ db.ancestors domain parent) :
    insertTagParent domain parent child db =
      if (parent, child, domain) ∈ db.tagParents.map TagParent.key then .ok db
      else insertParentMapping (tagParentsBeforeInsertTrigger db domain parent child)
        (db.withParent domain parent child) := by
  unfold insertTagParent
  rw [if_neg (not_not.2 hd)]
  have hcheck : checkParentCycle db domain parent child = .ok () := if_neg hcycle
  rw [hcheck]
  rfl

theorem Consistent.withParent (h : Consistent db)
    (hnew : (parent, child, domain) ∉ db.tagParents.map TagParent.key) :
    Consistent (db.withParent domain parent child) :=
  { h with
    parents := forall_mem_append.2 ⟨h.parents, forall_mem_singleton.2 rfl⟩
    children := forall_mem_append.2 ⟨h.children, forall_mem_singleton.2 rfl⟩
    parentKeys := h.parentKeys.append_singleton hnew }

theorem Consistent.withoutParent (h : Consistent db) (domain : DomainId) (parent child : TagId) :
    Consistent (db.withoutParent domain parent child) :=
  { h with
    parents := fun tp htp => h.parents tp (mem_of_mem_filter htp)
    children := fun tp htp => h.children tp (mem_of_mem_filter htp)
    parentKeys := h.parentKeys.filter _ }

theorem deleteTagParent_spec (domain : DomainId) (parent child : TagId) (db : Db) :
    Succeeds (deleteTagParent domain parent child db)
      (InheritedOnly (db.withoutParent domain parent child)) :=
  InheritedOnly.foldlM (fun old _ s => deleteParentMapping_spec old s) _

/-! ## The statements on mappings and files -/

/-- The rows of `active_tag_mappings` after an insert. -/
theorem Consistent.insertActive (h : Consistent db) {mappings rows : List TagMapping}
    {files : List RecordId}
    (hmirror : ∀ k : TagMapping, k ∈ mappings ∧ k.recordId ∈ files ↔
      (k ∈ db.tagMappings ∧ k.recordId ∈ db.fileInfo) ∨ k ∈ rows) :
    Consistent
      { db with
        tagMappings := mappings
        fileInfo := files
        activeTagMappings := (upsert ActiveTagMapping.key none db.activeTagMappings
          (rows.map (interceptParentMapping db))).table } :=
  { h with
    active := fun m hm => by
      rw [upsert_nothing_table] at hm
      rcases mem_append.1 hm with hm | hm
      · exact h.active m hm
      · obtain ⟨row, _, rfl⟩ := mem_map.1 (of_mem_upsert_inserted keepsKey_none hm).1
        rfl
    activeKeys := keyUnique_upsert keepsKey_none h.activeKeys
    mirror := fun k => by
      have hkeys : (rows.map (interceptParentMapping db)).map ActiveTagMapping.key = rows := by
        rw [map_map]
        exact map_id rows
      rw [mem_map_key_upsert keepsKey_none, hkeys, h.mirror, hmirror] }

theorem insertTagMappings_spec (h : Consistent db) {rows : List TagMapping}
    (hd : ∀ row ∈ rows, row.tagDomainId ∈ db.tagDomains) :
    Succeeds (insertTagMappings rows db) Consistent := by
  have hlive : ¬ rows.any fun row => row.tagDomainId ∉ db.tagDomains := by
    rw [any_eq_true]
    rintro ⟨row, hrow, hnot⟩
    exact of_decide_eq_true hnot (hd row hrow)
  rw [insertTagMappings, if_neg hlive]
  refine (insertActiveTagMappings_spec _ _).mono fun db' hi => ?_
  refine Consistent.of_inheritedOnly (h.insertActive fun k => ?_) hi
  rw [upsert_nothing_table]
  simp only [mem_append, mem_filter, decide_eq_true_eq]
  tauto

theorem insertFileInfo_spec (h : Consistent db) (records : List RecordId) :
    Succeeds (insertFileInfo records db) Consistent := by
  refine (insertActiveTagMappings_spec _ _).mono fun db' hi => ?_
  refine Consistent.of_inheritedOnly (h.insertActive fun k => ?_) hi
  rw [upsert_nothing_table]
  simp only [mem_append, mem_flatMap, mem_filter, decide_eq_true_eq]
  constructor
  · rintro ⟨hk, hf | hf⟩
    · exact Or.inl ⟨hk, hf⟩
    · exact Or.inr ⟨_, hf, hk, rfl⟩
  · rintro (⟨hk, hf⟩ | ⟨_, hf, hk, rfl⟩)
    · exact ⟨hk, Or.inl hf⟩
    · exact ⟨hk, Or.inr hf⟩

/-- The active rows of the deleted mappings are deleted, one statement after the other. -/
theorem deleteEach_spec (l : List TagMapping) (db : Db) :
    Succeeds (l.foldlM (fun db old => deleteActiveTagMappings (fun m => m.key = old) db) db)
      (InheritedOnly { db with
        activeTagMappings := db.activeTagMappings.filter fun m => m.key ∉ l }) := by
  induction l generalizing db with
  | nil =>
    exact .ok ⟨db.activeTagMappingsParents, db.tagCountDelta, by simp⟩
  | cons k l ih =>
    rw [foldlM_cons]
    refine (deleteActiveTagMappings_spec _ db).bind fun s hs => (ih s).mono fun db' hi => ?_
    obtain ⟨rows, deltas, rfl⟩ := hs
    obtain ⟨rows', deltas', rfl⟩ := hi
    refine ⟨rows', deltas', ?_⟩
    have hfilter : (db.activeTagMappings.filter fun m => !decide (m.key = k)).filter
        (fun m => decide (m.key ∉ l)) = db.activeTagMappings.filter fun m => m.key ∉ k :: l := by
      rw [filter_filter]
      refine filter_congr fun m _ => ?_
      simp only [mem_cons, not_or, Bool.decide_and, decide_not, Bool.and_comm]
    simp only [hfilter]

theorem deleteTagMappings_spec (h : Consistent db) (rows : List TagMapping) :
    Succeeds (deleteTagMappings rows db) Consistent := by
  refine (deleteEach_spec _ _).mono fun db' hi => Consistent.of_inheritedOnly ?_ hi
  refine { h with
    active := fun m hm => h.active m (mem_of_mem_filter hm)
    activeKeys := h.activeKeys.filter _
    mirror := fun k => ?_ }
  rw [mem_map_key_filter (q := fun k => decide (k ∉ db.tagMappings.filter fun m => m ∈ rows)),
    h.mirror]
  simp only [mem_filter, decide_eq_true_eq]
  tauto

/-! ## Every statement -/

theorem accumulateTagCountDelta_eq_ok (h : accumulateTagCountDelta db = .ok db') :
    db' =
      { db with
        tagCountDelta := []
        tagCounts := (upsert TagCount.key (some TagCount.add) db.tagCounts
          (pendingCounts db.tagCountDelta)).table } := by
  unfold accumulateTagCountDelta at h
  dsimp only at h
  split_ifs at h
  exact (Except.ok.inj h).symm

/-- **Every statement is refused at once, or it returns a consistent state.** -/
theorem exec_spec (h : Consistent db) (op : Op) :
    (∃ e, refusal db op = some e ∧ exec op db = .error e) ∨
      (refusal db op = none ∧ Succeeds (exec op db) Consistent) := by
  cases op with
  | insertTagMappings rows =>
    by_cases hd : rows.any fun row => row.tagDomainId ∉ db.tagDomains
    · exact Or.inl ⟨_, if_pos hd, if_pos hd⟩
    · refine Or.inr ⟨if_neg hd, insertTagMappings_spec h fun row hrow => ?_⟩
      by_contra hnot
      exact hd (any_eq_true.2 ⟨row, hrow, decide_eq_true hnot⟩)
  | deleteTagMappings rows => exact Or.inr ⟨rfl, deleteTagMappings_spec h rows⟩
  | insertFileInfo records => exact Or.inr ⟨rfl, insertFileInfo_spec h records⟩
  | insertTagAlias domain aliased target =>
    simp only [refusal, exec]
    by_cases hne : aliased = target
    · exact Or.inl ⟨_, if_pos hne, if_pos hne⟩
    rw [if_neg hne, if_neg hne]
    by_cases hd : domain ∈ db.tagDomains
    · rw [if_neg (not_not.2 hd)]
      by_cases hcycle : db.idealOf domain target = some aliased
      · refine Or.inl ⟨_, if_pos hcycle, ?_⟩
        unfold insertTagAlias tagAliasesBeforeInsertTrigger
        rw [if_neg (not_not.2 hd), if_pos hcycle]
        rfl
      · refine Or.inr ⟨if_neg hcycle, ?_⟩
        by_cases hfree : db.aliasOf? domain aliased = none
        · exact (insertTagAlias_spec h hd ⟨hfree, hcycle, hne⟩).mono fun _ hs => hs.1
        · exact insertTagAlias_of_aliased hd hne hcycle hfree ▸ .ok h
    · refine Or.inl ⟨_, if_pos hd, ?_⟩
      unfold insertTagAlias
      rw [if_pos hd]
  | deleteTagAlias domain aliased target =>
    refine Or.inr ⟨rfl, (deleteTagAlias_spec h.toResolved domain aliased target).mono fun s hs =>
      ?_⟩
    exact h.of_sameFacts hs.1 hs.2 rfl rfl rfl rfl
  | insertTagParent domain parent child =>
    simp only [refusal, exec]
    by_cases hne : parent = child
    · exact Or.inl ⟨_, if_pos hne, if_pos hne⟩
    rw [if_neg hne, if_neg hne]
    by_cases hd : domain ∈ db.tagDomains
    · rw [if_neg (not_not.2 hd)]
      by_cases hcycle : child ∈ db.ancestors domain parent
      · refine Or.inl ⟨_, if_pos hcycle, ?_⟩
        unfold insertTagParent checkParentCycle
        rw [if_neg (not_not.2 hd), if_pos hcycle]
        rfl
      · refine Or.inr ⟨if_neg hcycle, ?_⟩
        rw [insertTagParent_eq hd hcycle]
        split_ifs with hkey
        · exact .ok h
        · exact (insertParentMapping_spec _ _).mono fun _ hi =>
            (h.withParent hkey).of_inheritedOnly hi
    · refine Or.inl ⟨_, if_pos hd, ?_⟩
      unfold insertTagParent
      rw [if_pos hd]
  | deleteTagParent domain parent child =>
    refine Or.inr ⟨rfl, (deleteTagParent_spec domain parent child db).mono fun s hi => ?_⟩
    exact (h.withoutParent domain parent child).of_inheritedOnly hi
  | accumulateTagCountDelta =>
    simp only [refusal, exec]
    cases hacc : accumulateTagCountDelta db with
    | error e =>
      refine Or.inl ⟨_, rfl, ?_⟩
      unfold accumulateTagCountDelta at hacc
      dsimp only at hacc
      split_ifs at hacc
      exact hacc.symm
    | ok db' =>
      refine Or.inr ⟨rfl, .ok ?_⟩
      rw [accumulateTagCountDelta_eq_ok hacc]
      exact { h with }

theorem exec_consistent (h : Consistent db) (hexec : exec op db = .ok db') :
    Consistent db' := by
  rcases exec_spec h op with ⟨e, _, he⟩ | ⟨_, hs⟩
  · rw [hexec] at he
    exact nomatch he
  · exact hs.of_ok hexec

theorem refusal_of_ok (h : Consistent db) (hexec : exec op db = .ok db') :
    refusal db op = none := by
  rcases exec_spec h op with ⟨e, _, he⟩ | ⟨hnone, _⟩
  · rw [hexec] at he
    exact nomatch he
  · exact hnone

/-- The statements that leave aliases and parents alone. -/
def Op.onMappings : Op → Bool
  | .insertTagMappings _ | .deleteTagMappings _ | .insertFileInfo _ | .accumulateTagCountDelta =>
    true
  | _ => false

theorem exec_onMappings (hop : op.onMappings) (hexec : exec op db = .ok db') :
    db'.tagAliases = db.tagAliases ∧ db'.tagParents = db.tagParents := by
  cases op with
  | insertTagMappings rows =>
    simp only [exec, insertTagMappings] at hexec
    split_ifs at hexec
    obtain ⟨_, _, rfl⟩ := (insertActiveTagMappings_spec _ _).of_ok hexec
    exact ⟨rfl, rfl⟩
  | deleteTagMappings rows =>
    obtain ⟨_, _, rfl⟩ := (deleteEach_spec _ _).of_ok hexec
    exact ⟨rfl, rfl⟩
  | insertFileInfo records =>
    obtain ⟨_, _, rfl⟩ := (insertActiveTagMappings_spec _ _).of_ok hexec
    exact ⟨rfl, rfl⟩
  | accumulateTagCountDelta =>
    rw [accumulateTagCountDelta_eq_ok hexec]
    exact ⟨rfl, rfl⟩
  | insertTagAlias _ _ _ | deleteTagAlias _ _ _ | insertTagParent _ _ _ | deleteTagParent _ _ _ =>
    cases hop

/-- What an alias statement that returns has done. -/
theorem exec_insertTagAlias_ok (h : Consistent db)
    (hexec : exec (.insertTagAlias domain aliased target) db = .ok db') :
    (db.aliasOf? domain aliased ≠ none ∧ db' = db) ∨
      (Accepts db domain aliased target ∧ SameFacts (db.addAlias domain aliased target) db') := by
  have hrefusal := refusal_of_ok h hexec
  simp only [exec, refusal] at hexec hrefusal
  split_ifs at hexec hrefusal with hne hd hcycle
  by_cases hfree : db.aliasOf? domain aliased = none
  · have ha : Accepts db domain aliased target := ⟨hfree, hcycle, hne⟩
    exact Or.inr ⟨ha, ((insertTagAlias_spec h hd ha).of_ok hexec).2⟩
  · rw [insertTagAlias_of_aliased hd hne hcycle hfree] at hexec
    exact Or.inl ⟨hfree, (Except.ok.inj hexec).symm⟩

/-- What a parent statement that returns has done. -/
theorem exec_insertTagParent_ok (hexec : exec (.insertTagParent domain parent child) db = .ok db') :
    parent ≠ child ∧ child ∉ db.ancestors domain parent ∧
      (((parent, child, domain) ∈ db.tagParents.map TagParent.key ∧ db' = db) ∨
        ((parent, child, domain) ∉ db.tagParents.map TagParent.key ∧
          insertParentMapping (tagParentsBeforeInsertTrigger db domain parent child)
            (db.withParent domain parent child) = .ok db')) := by
  simp only [exec] at hexec
  split_ifs at hexec with hne
  by_cases hd : domain ∈ db.tagDomains
  swap
  · rw [insertTagParent, if_pos hd] at hexec
    exact nomatch hexec
  by_cases hcycle : child ∈ db.ancestors domain parent
  · rw [insertTagParent, if_neg (not_not.2 hd), checkParentCycle, if_pos hcycle] at hexec
    exact nomatch hexec
  refine ⟨hne, hcycle, ?_⟩
  rw [insertTagParent_eq hd hcycle] at hexec
  split_ifs at hexec with hkey
  · exact Or.inl ⟨hkey, (Except.ok.inj hexec).symm⟩
  · exact Or.inr ⟨hkey, hexec⟩

/-- A statement of a consistent state raises nothing but its refusal. -/
theorem exec_error (h : Consistent db) {e : DbError} (hexec : exec op db = .error e) :
    refusal db op = some e := by
  rcases exec_spec h op with ⟨e', he', hexec'⟩ | ⟨_, hs⟩
  · rw [hexec] at hexec'
    rw [he', Except.error.inj hexec']
  · exact absurd hexec hs.ne_error

/-- **Every reached state is consistent.** -/
theorem Reachable.consistent {domains : List DomainId} (h : Reachable domains db) :
    Consistent db := by
  induction h with
  | empty => exact Consistent.empty domains
  | step op _ hexec ih => exact exec_consistent ih hexec
  | rolledBack _ _ ih => exact ih

/-! ## What the caches hold -/

/-- The value cached for a tag: `NULL` if the tag is not aliased, and else the last tag of the chain
of aliases that starts at it. -/
def Caches (db : Db) (domain : DomainId) (tag : TagId) : Option TagId → Prop
  | none => db.aliasNext domain tag = none
  | some last => db.aliasNext domain tag ≠ none ∧ Ends (db.aliasNext domain) tag last

theorem Resolved.caches (h : Resolved db) (domain : DomainId) (tag : TagId) :
    Caches db domain tag (db.idealOf domain tag) := by
  cases hi : db.idealOf domain tag with
  | none => exact aliasNext_eq_none.2 (idealOf_eq_none.1 hi)
  | some last =>
    refine ⟨fun hnone => ?_, ?_⟩
    · rw [aliasNext_eq_none, ← idealOf_eq_none, hi] at hnone
      exact Option.some_ne_none _ hnone
    · have hends := h.ends_getD domain tag
      rwa [hi, Option.getD_some] at hends

/-- **The aliases of every reached state are resolved.**  A tag has one alias at most, the chain
that starts at an aliased tag ends, and the row of the tag carries the end; the parent relation
carries the resolution of its tags; and no statement raises the guard of the update trigger. -/
theorem aliases_resolved {domains : List DomainId} (h : Reachable domains db) :
    KeyUnique TagAlias.key db.tagAliases ∧
    (∀ ta ∈ db.tagAliases,
      Ends (db.aliasNext ta.tagDomainId) ta.aliasedId ta.effectiveTagId) ∧
    (∀ tp ∈ db.tagParents, Caches db tp.tagDomainId tp.parentId tp.idealParentId ∧
      Caches db tp.tagDomainId tp.childId tp.idealChildId) ∧
    ∀ op, exec op db ≠ .error .recursiveAlias := by
  have hc := h.consistent
  refine ⟨hc.unique, fun ta hta => hc.ends_effectiveTagId hta, fun tp htp => ⟨?_, ?_⟩,
    fun op hexec => ?_⟩
  · rw [hc.parents tp htp]
    exact hc.caches _ _
  · rw [hc.children tp htp]
    exact hc.caches _ _
  · exact Bool.false_ne_true (isRefusal_of_refusal (exec_error hc hexec))

/-- A chain of two aliases that was built from its end, with a parent of its first tag. -/
theorem aliases_resolved_chain :
    ∃ db, run [.insertTagParent 0 9 1, .insertTagAlias 0 2 3, .insertTagAlias 0 1 2]
        (Db.empty [0]) = .ok db ∧
      db.tagAliases = [⟨2, 3, none, 0⟩, ⟨1, 2, some 3, 0⟩] ∧
      db.tagParents = [⟨9, none, 1, some 3, 0⟩] ∧
      (∀ ta ∈ db.tagAliases,
        Ends (db.aliasNext ta.tagDomainId) ta.aliasedId ta.effectiveTagId) ∧
      ∀ op, exec op db ≠ .error .recursiveAlias := by
  refine ⟨{ Db.empty [0] with
      tagAliases := [⟨2, 3, none, 0⟩, ⟨1, 2, some 3, 0⟩]
      tagParents := [⟨9, none, 1, some 3, 0⟩] }, (and_iff_left_of_imp fun hrun => ?_).2 (by
        decide +kernel)⟩
  have hresolved := aliases_resolved (Reachable.empty.run hrun)
  exact ⟨rfl, rfl, hresolved.2.1, hresolved.2.2.2⟩

/-- **The active mappings of every reached state mirror the base facts.**  There is one active row
for each mapping of a record that has a file and no other, and it carries the resolution of its
tag. -/
theorem activeTagMappings_mirror {domains : List DomainId} (h : Reachable domains db) :
    KeyUnique ActiveTagMapping.key db.activeTagMappings ∧
    (∀ record tag domain, (∃ ideal, ⟨record, tag, ideal, domain⟩ ∈ db.activeTagMappings) ↔
      ⟨record, tag, domain⟩ ∈ db.tagMappings ∧ record ∈ db.fileInfo) ∧
    ∀ m ∈ db.activeTagMappings, Caches db m.tagDomainId m.tagId m.idealTagId := by
  have hc := h.consistent
  refine ⟨hc.activeKeys, fun record tag domain => ?_, fun m hm => ?_⟩
  · rw [← hc.mirror ⟨record, tag, domain⟩, mem_map]
    constructor
    · rintro ⟨ideal, hm⟩
      exact ⟨_, hm, rfl⟩
    · rintro ⟨⟨r, t, ideal, d⟩, hm, hk⟩
      cases hk
      exact ⟨ideal, hm⟩
  · rw [hc.active m hm]
    exact hc.caches _ _

/-- A record whose mapping came before its file and whose alias came last. -/
theorem activeTagMappings_mirror_late :
    ∃ db, run [.insertTagMappings [⟨7, 1, 0⟩], .insertFileInfo [7], .insertTagMappings [⟨8, 1, 0⟩],
        .insertTagAlias 0 1 2] (Db.empty [0]) = .ok db ∧
      db.activeTagMappings = [⟨7, 1, some 2, 0⟩] ∧
      ((∃ ideal, ⟨7, 1, ideal, 0⟩ ∈ db.activeTagMappings) ↔
        ⟨7, 1, 0⟩ ∈ db.tagMappings ∧ 7 ∈ db.fileInfo) ∧
      ∀ m ∈ db.activeTagMappings, Caches db m.tagDomainId m.tagId m.idealTagId := by
  refine ⟨{ Db.empty [0] with
      fileInfo := [7]
      tagMappings := [⟨7, 1, 0⟩, ⟨8, 1, 0⟩]
      tagAliases := [⟨1, 2, none, 0⟩]
      activeTagMappings := [⟨7, 1, some 2, 0⟩]
      tagCountDelta := [⟨1, 0, 1, 1⟩, ⟨1, 0, 0, -1⟩, ⟨2, 0, 0, 1⟩] },
    (and_iff_left_of_imp fun hrun => ?_).2 (by decide +kernel)⟩
  have hmirror := activeTagMappings_mirror (Reachable.empty.run hrun)
  exact ⟨rfl, hmirror.2.1 7 1 0, hmirror.2.2⟩

end Idhan.Tags
