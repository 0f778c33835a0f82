import Idhan.Lib.Chains
import Idhan.Tags.Frames

/-!
# The aliases are resolved

`ideal_alias_id`, `ideal_parent_id`, `ideal_child_id` and `ideal_tag_id` are caches of one function,
the end of the chain of aliases that starts at a tag.  A state is `Resolved` when each of them holds
what `db.idealOf` gives, which is the one-step form of the caches, and the chains end.

An alias statement changes the effective tag of a whole tree of tags from one value `old` to another
value `new`.  While its triggers run, some tags are *behind*: their own row carries `new`, but the
triggers that carry the change to the rows that depend on them have still to run.  `Stale` describes
such a state.

A trigger first passes the change on to the aliases of its tag, which are behind then
(`Stale.descend`), and when they are done brings the parents and the mappings of its tag up to date
(`Stale.settle`).  The recursion goes down the tree of aliases and ends, as the chains do; so an
update of `tag_aliases` returns, and leaves nothing behind (`updateTagAliasesUpTo_spec`).
-/

namespace Idhan.Tags

open List

/-- The unique key of `tag_aliases`. -/
def TagAlias.key (ta : TagAlias) : DomainId × TagId :=
  (ta.tagDomainId, ta.aliasedId)

/-- The tag that `tag` is an alias of. -/
def Db.aliasNext (db : Db) (domain : DomainId) (tag : TagId) : Option TagId :=
  (db.aliasOf? domain tag).map (·.aliasId)

/-- Every cache holds the one-step resolution, and the chains of aliases end. -/
structure Resolved (db : Db) : Prop where
  unique : KeyUnique TagAlias.key db.tagAliases
  ends : ∀ domain tag, ∃ last, Ends (db.aliasNext domain) tag last
  aliases : ∀ ta ∈ db.tagAliases, ta.idealAliasId = db.idealOf ta.tagDomainId ta.aliasId
  parents : ∀ tp ∈ db.tagParents, tp.idealParentId = db.idealOf tp.tagDomainId tp.parentId
  children : ∀ tp ∈ db.tagParents, tp.idealChildId = db.idealOf tp.tagDomainId tp.childId
  active : ∀ m ∈ db.activeTagMappings, m.idealTagId = db.idealOf m.tagDomainId m.tagId

/-! ## Looking up an alias -/

section Lookup

variable {db : Db} {domain : DomainId} {tag : TagId} {ta : TagAlias}

theorem aliasOf?_eq_none :
    db.aliasOf? domain tag = none ↔ (domain, tag) ∉ db.tagAliases.map TagAlias.key := by
  simp only [Db.aliasOf?, find?_eq_none, mem_map, not_exists, not_and,
    decide_eq_true_eq, TagAlias.key, Prod.mk.injEq]

theorem of_aliasOf?_eq_some (h : db.aliasOf? domain tag = some ta) :
    ta ∈ db.tagAliases ∧ ta.tagDomainId = domain ∧ ta.aliasedId = tag :=
  ⟨mem_of_find?_eq_some h, by simpa using find?_some h⟩

theorem aliasOf?_of_mem (hu : KeyUnique TagAlias.key db.tagAliases) (h : ta ∈ db.tagAliases) :
    db.aliasOf? ta.tagDomainId ta.aliasedId = some ta := by
  cases hf : db.aliasOf? ta.tagDomainId ta.aliasedId with
  | none => exact absurd (mem_map_of_mem h) (aliasOf?_eq_none.1 hf)
  | some ta' =>
    obtain ⟨hmem, hd, ha⟩ := of_aliasOf?_eq_some hf
    rw [hu.eq_of_key_eq hmem h (Prod.ext hd ha)]

theorem idealOf_of_mem (hu : KeyUnique TagAlias.key db.tagAliases) (h : ta ∈ db.tagAliases) :
    db.idealOf ta.tagDomainId ta.aliasedId = some ta.effectiveTagId := by
  rw [Db.idealOf, aliasOf?_of_mem hu h, Option.map_some]

theorem idealOf_eq_none : db.idealOf domain tag = none ↔ db.aliasOf? domain tag = none :=
  Option.map_eq_none_iff

theorem aliasNext_eq_none : db.aliasNext domain tag = none ↔ db.aliasOf? domain tag = none :=
  Option.map_eq_none_iff

theorem of_idealOf_eq_some {t : TagId} (h : db.idealOf domain tag = some t) :
    ∃ ta ∈ db.tagAliases, ta.tagDomainId = domain ∧ ta.aliasedId = tag ∧ ta.effectiveTagId = t := by
  obtain ⟨ta, hta, rfl⟩ := Option.map_eq_some_iff.1 h
  obtain ⟨hmem, hd, ha⟩ := of_aliasOf?_eq_some hta
  exact ⟨ta, hmem, hd, ha, rfl⟩

end Lookup

/-! ## The cache is the end of the chain -/

section Cache

variable {db : Db} {domain : DomainId} {tag last : TagId}
  (haliases : ∀ ta ∈ db.tagAliases, ta.idealAliasId = db.idealOf ta.tagDomainId ta.aliasId)
include haliases

theorem idealOf_eq_map_aliasNext (domain : DomainId) (tag : TagId) :
    db.idealOf domain tag =
      (db.aliasNext domain tag).map fun t => (db.idealOf domain t).getD t := by
  unfold Db.aliasNext
  rw [Db.idealOf, Option.map_map]
  cases hta : db.aliasOf? domain tag with
  | none => rfl
  | some ta =>
    obtain ⟨hmem, hd, _⟩ := of_aliasOf?_eq_some hta
    have hideal := haliases ta hmem
    rw [hd] at hideal
    rw [Option.map_some, Option.map_some, TagAlias.effectiveTagId, hideal]
    rfl

/-- The effective tag of a tag is the end of its chain. -/
theorem getD_idealOf_of_ends (he : Ends (db.aliasNext domain) tag last) :
    (db.idealOf domain tag).getD tag = last :=
  he.compressed (idealOf_eq_map_aliasNext haliases domain)

theorem idealOf_of_ends (he : Ends (db.aliasNext domain) tag last) {t : TagId}
    (ht : db.aliasNext domain tag = some t) : db.idealOf domain tag = some last := by
  have hget := getD_idealOf_of_ends haliases he
  cases hi : db.idealOf domain tag with
  | none =>
    rw [idealOf_eq_none, ← aliasNext_eq_none, ht] at hi
    exact absurd hi (Option.some_ne_none _)
  | some t' => rw [← hget, hi, Option.getD_some]

end Cache

variable {ta : TagAlias}

namespace Resolved

variable {db : Db} {domain : DomainId} {tag last : TagId}

section

variable (h : Resolved db)
include h

/-- The effective tag of a tag is the end of its chain. -/
theorem getD_idealOf (he : Ends (db.aliasNext domain) tag last) :
    (db.idealOf domain tag).getD tag = last :=
  getD_idealOf_of_ends h.aliases he

theorem ends_getD (domain : DomainId) (tag : TagId) :
    Ends (db.aliasNext domain) tag ((db.idealOf domain tag).getD tag) := by
  obtain ⟨last, hlast⟩ := h.ends domain tag
  rw [h.getD_idealOf hlast]
  exact hlast

/-- The effective tag of a tag is not aliased. -/
theorem aliasOf?_getD (domain : DomainId) (tag : TagId) :
    db.aliasOf? domain ((db.idealOf domain tag).getD tag) = none :=
  aliasNext_eq_none.1 (h.ends_getD domain tag).next_end

/-- The effective tag of an alias is the end of its chain. -/
theorem ends_effectiveTagId (hta : ta ∈ db.tagAliases) :
    Ends (db.aliasNext ta.tagDomainId) ta.aliasedId ta.effectiveTagId := by
  have hends := h.ends_getD ta.tagDomainId ta.aliasedId
  rwa [idealOf_of_mem h.unique hta, Option.getD_some] at hends

theorem aliasOf?_effectiveTagId (hta : ta ∈ db.tagAliases) :
    db.aliasOf? ta.tagDomainId ta.effectiveTagId = none :=
  aliasNext_eq_none.1 (h.ends_effectiveTagId hta).next_end

theorem effectiveTagId_eq (hta : ta ∈ db.tagAliases) :
    ta.effectiveTagId = (db.idealOf ta.tagDomainId ta.aliasId).getD ta.aliasId := by
  rw [TagAlias.effectiveTagId, h.aliases ta hta]

/-- The state after a statement that changed only inherited rows and pending counts. -/
theorem of_inheritedOnly {db' : Db} (hi : InheritedOnly db db') : Resolved db' := by
  obtain ⟨rows, deltas, rfl⟩ := hi
  exact { h with }

end

end Resolved

/-! ## The base facts -/

/-- The base facts of two states agree: the rows of the tables without what is cached in them. -/
structure SameFacts (db db' : Db) : Prop where
  tagDomains : db'.tagDomains = db.tagDomains
  fileInfo : db'.fileInfo = db.fileInfo
  tagMappings : db'.tagMappings = db.tagMappings
  aliases : db'.tagAliases.map (TagAlias.withIdeal none) =
    db.tagAliases.map (TagAlias.withIdeal none)
  parents : db'.tagParents.map TagParent.key = db.tagParents.map TagParent.key
  active : db'.activeTagMappings.map ActiveTagMapping.key =
    db.activeTagMappings.map ActiveTagMapping.key

namespace SameFacts

theorem refl (db : Db) : SameFacts db db := ⟨rfl, rfl, rfl, rfl, rfl, rfl⟩

theorem trans {db db' db'' : Db} (h : SameFacts db db') (h' : SameFacts db' db'') :
    SameFacts db db'' :=
  ⟨h'.tagDomains.trans h.tagDomains, h'.fileInfo.trans h.fileInfo,
    h'.tagMappings.trans h.tagMappings, h'.aliases.trans h.aliases, h'.parents.trans h.parents,
    h'.active.trans h.active⟩

theorem of_inheritedOnly {db db' : Db} (h : InheritedOnly db db') : SameFacts db db' := by
  obtain ⟨rows, deltas, rfl⟩ := h
  exact ⟨rfl, rfl, rfl, rfl, rfl, rfl⟩

end SameFacts

theorem map_map_eq {ρ κ : Type} {key : ρ → κ} {f : ρ → ρ} (hf : ∀ r, key (f r) = key r)
    (t : List ρ) : (t.map f).map key = t.map key := by
  rw [map_map]
  exact map_congr_left fun r _ => hf r

/-- The rows of `tag_aliases` after an update of `ideal_alias_id`. -/
def Db.setAlias (db : Db) (p : TagAlias → Bool) (ideal : Option TagId) : Db :=
  { db with tagAliases := db.tagAliases.map fun ta => if p ta then ta.withIdeal ideal else ta }

/-- The rows whose effective tag such an update changes. -/
def Db.changedAliases (db : Db) (p : TagAlias → Bool) (ideal : Option TagId) : List TagAlias :=
  (db.tagAliases.filter p).filter fun ta => ta.effectiveTagId ≠ (ta.withIdeal ideal).effectiveTagId

/-- The rows of `active_tag_mappings` after an update of `ideal_tag_id`. -/
def Db.setActive (db : Db) (p : ActiveTagMapping → Bool) (ideal : Option TagId) : Db :=
  { db with
    activeTagMappings := db.activeTagMappings.map fun m =>
      if p m then { m with idealTagId := ideal } else m }

section Updates

variable {db : Db} {p : TagAlias → Bool} {ideal : Option TagId} {domain : DomainId} {tag : TagId}

theorem sameFacts_setAlias (db : Db) (p : TagAlias → Bool) (ideal : Option TagId) :
    SameFacts db (db.setAlias p ideal) := by
  refine ⟨rfl, rfl, rfl, map_map_eq (fun ta => ?_) _, rfl, rfl⟩
  split_ifs <;> rfl

theorem sameFacts_setActive (db : Db) (p : ActiveTagMapping → Bool) (ideal : Option TagId) :
    SameFacts db (db.setActive p ideal) := by
  refine ⟨rfl, rfl, rfl, rfl, rfl, map_map_eq (fun m => ?_) _⟩
  split_ifs <;> rfl

theorem sameFacts_setIdeals (db : Db) (domain : DomainId) (tag : TagId) (ideal : Option TagId) :
    SameFacts db (setIdeals domain tag ideal db) := by
  refine ⟨rfl, rfl, rfl, rfl, ?_, rfl⟩
  refine (map_map_eq (fun tp => ?_) _).trans (map_map_eq (fun tp => ?_) _)
  · split_ifs <;> rfl
  · split_ifs <;> rfl

theorem mem_changedAliases : ta ∈ db.changedAliases p ideal ↔ ta ∈ db.tagAliases ∧ p ta ∧
      ta.effectiveTagId ≠ (ta.withIdeal ideal).effectiveTagId := by
  simp only [Db.changedAliases, mem_filter, decide_eq_true_eq, and_assoc]

theorem nodup_changedAliases (hu : KeyUnique TagAlias.key db.tagAliases)
    (hd : ∀ ta ∈ db.changedAliases p ideal, ta.tagDomainId = domain) :
    ((db.changedAliases p ideal).map (·.aliasedId)).Nodup := by
  have hkeys : ((db.changedAliases p ideal).map TagAlias.key).Nodup := (hu.filter p).filter _
  have hmap : (db.changedAliases p ideal).map TagAlias.key =
      ((db.changedAliases p ideal).map (·.aliasedId)).map fun x => (domain, x) := by
    rw [map_map]
    exact map_congr_left fun ta hta => Prod.ext (hd ta hta) rfl
  exact Nodup.of_map _ (hmap ▸ hkeys)

theorem aliasOf?_setAlias :
    (db.setAlias p ideal).aliasOf? domain tag =
      (db.aliasOf? domain tag).map fun ta => if p ta then ta.withIdeal ideal else ta := by
  unfold Db.aliasOf? Db.setAlias
  rw [find?_map]
  refine congrArg (Option.map _) (congrArg (fun q => List.find? q _) (funext fun ta => ?_))
  rw [Function.comp_apply]
  split_ifs <;> rfl

theorem aliasOf?_setAlias_eq_none :
    (db.setAlias p ideal).aliasOf? domain tag = none ↔ db.aliasOf? domain tag = none := by
  rw [aliasOf?_setAlias, Option.map_eq_none_iff]

theorem of_mem_setAlias {ta' : TagAlias} (h : ta' ∈ (db.setAlias p ideal).tagAliases) :
    ∃ ta ∈ db.tagAliases, (p ta ∧ ta' = ta.withIdeal ideal) ∨ (¬ p ta ∧ ta' = ta) := by
  obtain ⟨ta, hta, rfl⟩ := mem_map.1 h
  by_cases hp : p ta
  · exact ⟨ta, hta, Or.inl ⟨hp, if_pos hp⟩⟩
  · exact ⟨ta, hta, Or.inr ⟨hp, if_neg hp⟩⟩

theorem keyUnique_setAlias (hu : KeyUnique TagAlias.key db.tagAliases) :
    KeyUnique TagAlias.key (db.setAlias p ideal).tagAliases := by
  refine hu.map fun ta _ => ?_
  split_ifs <;> rfl

/-- The effective tag of a tag whose row the update changes. -/
theorem idealOf_setAlias_of_mem (hu : KeyUnique TagAlias.key db.tagAliases)
    (hta : ta ∈ db.tagAliases) (hp : p ta) (ideal : Option TagId) :
    (db.setAlias p ideal).idealOf ta.tagDomainId ta.aliasedId =
      some (ta.withIdeal ideal).effectiveTagId := by
  rw [Db.idealOf, aliasOf?_setAlias, aliasOf?_of_mem hu hta, Option.map_some, if_pos hp,
    Option.map_some]

/-- The effective tag of every other tag stays. -/
theorem idealOf_setAlias_of_notMem {d : DomainId}
    (h : ∀ ta ∈ db.changedAliases p ideal, ta.tagDomainId = domain)
    (hnot : ¬ (d = domain ∧ tag ∈ (db.changedAliases p ideal).map (·.aliasedId))) :
    (db.setAlias p ideal).idealOf d tag = db.idealOf d tag := by
  rw [Db.idealOf, aliasOf?_setAlias, Db.idealOf]
  cases hta : db.aliasOf? d tag with
  | none => rfl
  | some ta =>
    obtain ⟨hmem, rfl, rfl⟩ := of_aliasOf?_eq_some hta
    simp only [Option.map_some, Option.some.injEq]
    split_ifs with hp
    · by_contra hne
      have hchanged := mem_changedAliases.2 ⟨hmem, hp, fun he => hne he.symm⟩
      exact hnot ⟨h ta hchanged, mem_map_of_mem hchanged⟩
    · rfl

end Updates

/-! ## Tags that are behind -/

/-- The parents and the mappings in the middle of an alias statement on `domain` that carries the
effective tag of some tags away from `old`: those of the tags of `late` have still to follow.  The
tag `root` is the one whose alias the statement inserts or deletes, and what depends on it is
repaired last. -/
structure Behind (domain : DomainId) (root old : TagId) (late : Set TagId) (db : Db) : Prop where
  parents : ∀ tp ∈ db.tagParents,
    ¬ (tp.tagDomainId = domain ∧ (tp.parentId = root ∨ tp.parentId ∈ late)) →
      tp.idealParentId = db.idealOf tp.tagDomainId tp.parentId
  children : ∀ tp ∈ db.tagParents,
    ¬ (tp.tagDomainId = domain ∧ (tp.childId = root ∨ tp.childId ∈ late)) →
      tp.idealChildId = db.idealOf tp.tagDomainId tp.childId
  activeLate : ∀ m ∈ db.activeTagMappings, m.tagDomainId = domain → m.tagId ∈ late →
    m.tagId ≠ root → m.idealTagId = some old
  active : ∀ m ∈ db.activeTagMappings,
    ¬ (m.tagDomainId = domain ∧ (m.tagId = root ∨ m.tagId ∈ late)) →
      m.idealTagId = db.idealOf m.tagDomainId m.tagId

namespace Behind

variable {domain : DomainId} {root old new c : TagId} {late late' : Set TagId} {db db' : Db}
  {ideal : Option TagId}

theorem of_inheritedOnly (h : Behind domain root old late db) (hi : InheritedOnly db db') :
    Behind domain root old late db' := by
  obtain ⟨rows, deltas, rfl⟩ := hi
  exact { h with }

theorem of_resolved (h : Resolved db) : Behind domain root old ∅ db :=
  ⟨fun tp htp _ => h.parents tp htp, fun tp htp _ => h.children tp htp, fun _ _ _ hx => hx.elim,
    fun m hm _ => h.active m hm⟩

/-- More tags are behind after their effective tag has changed from `old`. -/
theorem widen (h : Behind domain root old late db) (hp : db'.tagParents = db.tagParents)
    (ha : db'.activeTagMappings = db.activeTagMappings) (hsub : late ⊆ late')
    (hin : ∀ x ∈ late', x ∉ late → db.idealOf domain x = some old)
    (hout : ∀ d x, ¬ (d = domain ∧ (x = root ∨ x ∈ late')) → db'.idealOf d x = db.idealOf d x) :
    Behind domain root old late' db' := by
  have hnarrow : ∀ {d x}, ¬ (d = domain ∧ (x = root ∨ x ∈ late')) →
      ¬ (d = domain ∧ (x = root ∨ x ∈ late)) := fun hnot hh =>
    hnot ⟨hh.1, hh.2.imp id fun hx => hsub hx⟩
  refine ⟨fun tp htp hnot => ?_, fun tp htp hnot => ?_, fun m hm hd hmem hroot => ?_,
    fun m hm hnot => ?_⟩
  · rw [hout _ _ hnot]
    exact h.parents tp (hp ▸ htp) (hnarrow hnot)
  · rw [hout _ _ hnot]
    exact h.children tp (hp ▸ htp) (hnarrow hnot)
  · rw [ha] at hm
    by_cases hmem' : m.tagId ∈ late
    · exact h.activeLate m hm hd hmem' hroot
    · rw [h.active m hm fun hh => hh.2.elim hroot hmem', hd]
      exact hin _ hmem hmem'
  · rw [hout _ _ hnot]
    exact h.active m (ha ▸ hm) (hnarrow hnot)

theorem mem_setIdeals {tp : TagParent}
    (h : tp ∈ (setIdeals domain c ideal db).tagParents) :
    ∃ tp' ∈ db.tagParents,
      (tp'.parentId = tp.parentId ∧ tp'.childId = tp.childId ∧ tp'.tagDomainId = tp.tagDomainId) ∧
      tp.idealParentId =
        (if tp.parentId = c ∧ tp.tagDomainId = domain then ideal else tp'.idealParentId) ∧
      tp.idealChildId =
        (if tp.childId = c ∧ tp.tagDomainId = domain then ideal else tp'.idealChildId) := by
  simp only [setIdeals, setIdealChild, setIdealParent, map_map, mem_map,
    Function.comp_apply] at h
  obtain ⟨tp', htp', rfl⟩ := h
  refine ⟨tp', htp', ?_⟩
  split_ifs <;> simp_all

/-- The cache of a tag, after the caches of `c` are set to what `c` resolves to. -/
theorem cache_setIdeals {d : DomainId} {x : TagId} {before after : Option TagId}
    (hc : db.idealOf domain c = ideal) (hbefore : ¬ (d = domain ∧ (x = root ∨ x ∈ insert c late)) →
      before = db.idealOf d x)
    (hafter : after = if x = c ∧ d = domain then ideal else before)
    (hnot : ¬ (d = domain ∧ x ≠ c ∧ (x = root ∨ x ∈ late))) : after = db.idealOf d x := by
  rw [hafter]
  split_ifs with hxc
  · rw [hxc.1, hxc.2, hc]
  · refine hbefore ?_
    rw [Set.mem_insert_iff]
    tauto

section

variable (h : Behind domain root old (insert c late) db)
include h

theorem parents_setIdeals (hc : db.idealOf domain c = ideal) :
    ∀ tp ∈ (setIdeals domain c ideal db).tagParents,
      ¬ (tp.tagDomainId = domain ∧ tp.parentId ≠ c ∧ (tp.parentId = root ∨ tp.parentId ∈ late)) →
        tp.idealParentId = db.idealOf tp.tagDomainId tp.parentId := by
  intro tp htp hnot
  obtain ⟨tp', htp', ⟨hkp, _, hkd⟩, hideal, _⟩ := mem_setIdeals htp
  exact cache_setIdeals hc (hkp ▸ hkd ▸ h.parents tp' htp') hideal hnot

theorem children_setIdeals (hc : db.idealOf domain c = ideal) :
    ∀ tp ∈ (setIdeals domain c ideal db).tagParents,
      ¬ (tp.tagDomainId = domain ∧ tp.childId ≠ c ∧ (tp.childId = root ∨ tp.childId ∈ late)) →
        tp.idealChildId = db.idealOf tp.tagDomainId tp.childId := by
  intro tp htp hnot
  obtain ⟨tp', htp', ⟨_, hkc, hkd⟩, _, hideal⟩ := mem_setIdeals htp
  exact cache_setIdeals hc (hkc ▸ hkd ▸ h.children tp' htp') hideal hnot

/-- The trigger of `c` brings the parents and the mappings of `c` up to date. -/
theorem settle (hlate : c ∉ late) (hc : db.idealOf domain c = some new) :
    Behind domain root old late
      ((setIdeals domain c (some new) db).setActive
        (fun m => m.tagId = c ∧ m.idealTagId = some old ∧ m.tagDomainId = domain) (some new)) := by
  refine ⟨fun tp htp hnot => ?_, fun tp htp hnot => ?_, fun m hm hd hmem hroot => ?_,
    fun m hm hnot => ?_⟩
  · exact h.parents_setIdeals hc tp htp fun hh => hnot ⟨hh.1, hh.2.2⟩
  · exact h.children_setIdeals hc tp htp fun hh => hnot ⟨hh.1, hh.2.2⟩
  · obtain ⟨m', hm', rfl⟩ := mem_map.1 hm
    split_ifs at hd hmem hroot ⊢ with hp
    · exact absurd ((of_decide_eq_true hp).1 ▸ hmem) hlate
    · exact h.activeLate m' hm' hd (Set.mem_insert_of_mem _ hmem) hroot
  · obtain ⟨m', hm', rfl⟩ := mem_map.1 hm
    split_ifs at hnot ⊢ with hp
    · obtain ⟨ht, _, hd⟩ := of_decide_eq_true hp
      show some new = db.idealOf m'.tagDomainId m'.tagId
      rw [ht, hd, hc]
    · refine h.active m' hm' fun hh => ?_
      rcases hh.2 with hroot | hmem
      · exact hnot ⟨hh.1, Or.inl hroot⟩
      rcases hmem with hmem | hmem
      · have hroot : m'.tagId ≠ root := fun hr => hnot ⟨hh.1, Or.inl hr⟩
        have hideal := h.activeLate m' hm' hh.1 (hmem ▸ Set.mem_insert ..) hroot
        exact hp (decide_eq_true ⟨hmem, hideal, hh.1⟩)
      · exact hnot ⟨hh.1, Or.inr hmem⟩

end

end Behind

/-- A state in the middle of an alias statement that carries the effective tag of some tags from
`old` to `new`.  The triggers of the tags of `todo` have not run; those of the tags of `below` have
brought the aliases up to date and not yet the parents and the mappings. -/
structure Stale (domain : DomainId) (root old new : TagId) (todo below : List TagId) (db : Db) :
    Prop where
  unique : KeyUnique TagAlias.key db.tagAliases
  effective : ∀ ta ∈ db.tagAliases, db.aliasOf? ta.tagDomainId ta.effectiveTagId = none
  target : db.aliasOf? domain new = none
  nodup : (todo ++ below).Nodup
  pending : ∀ x ∈ todo ++ below, db.idealOf domain x = some new
  aliasesTodo : ∀ ta ∈ db.tagAliases, ta.tagDomainId = domain → ta.aliasId ∈ todo →
    ta.idealAliasId = some old ∨ ta.idealAliasId = some new
  aliases : ∀ ta ∈ db.tagAliases, ¬ (ta.tagDomainId = domain ∧ ta.aliasId ∈ todo) →
    ta.idealAliasId = db.idealOf ta.tagDomainId ta.aliasId
  behind : Behind domain root old {x | x ∈ todo ++ below} db

/-- The rows of `tag_aliases` that still end at `old`. -/
def Db.countAt (db : Db) (domain : DomainId) (old : TagId) : ℕ :=
  db.tagAliases.countP fun ta => ta.tagDomainId = domain ∧ ta.effectiveTagId = old

/-- The aliases of `tag`. -/
def aliasesOf (domain : DomainId) (tag : TagId) (ta : TagAlias) : Bool :=
  ta.aliasId = tag ∧ ta.tagDomainId = domain

namespace Stale

variable {domain : DomainId} {root old new c : TagId} {todo below : List TagId} {db : Db}

theorem of_inheritedOnly {db' : Db} (h : Stale domain root old new todo below db)
    (hi : InheritedOnly db db') : Stale domain root old new todo below db' := by
  have hbehind := h.behind.of_inheritedOnly hi
  obtain ⟨rows, deltas, rfl⟩ := hi
  exact { h with behind := hbehind }

/-- No row ends at a tag that is behind, so the guard of the update trigger lets it pass. -/
theorem recursiveAlias_eq_false (h : Stale domain root old new (c :: todo) below db)
    (row : TagAlias) (hd : row.tagDomainId = domain) (hc : row.aliasedId = c) :
    db.recursiveAlias row = false := by
  rw [Db.recursiveAlias, any_eq_false]
  rintro ta hta htrue
  obtain ⟨he, htd, _⟩ := of_decide_eq_true htrue
  have hnone := h.effective ta hta
  rw [he, hc, htd, hd, ← idealOf_eq_none, h.pending c (mem_cons_self ..)] at hnone
  exact Option.some_ne_none _ hnone

/-- The aliases of `c` that the trigger of `c` changes ended at `old`. -/
theorem of_mem_changed (h : Stale domain root old new (c :: todo) below db)
    (hta : ta ∈ db.changedAliases (aliasesOf domain c) (some new)) :
    ta.tagDomainId = domain ∧ ta.effectiveTagId = old ∧ old ≠ new := by
  obtain ⟨hmem, hp, hne⟩ := mem_changedAliases.1 hta
  obtain ⟨hc, hd⟩ := of_decide_eq_true hp
  rcases h.aliasesTodo ta hmem hd (hc ▸ mem_cons_self ..) with ho | hn
  · have he : ta.effectiveTagId = old := by rw [TagAlias.effectiveTagId, ho, Option.getD_some]
    exact ⟨hd, he, he ▸ hne⟩
  · rw [TagAlias.effectiveTagId, hn] at hne
    exact absurd rfl hne

section Descend

variable (h : Stale domain root old new (c :: todo) below db) {x : TagId}
include h

/-- The tags whose effective tag the trigger of `c` changes. -/
theorem idealOf_changed
    (hx : x ∈ (db.changedAliases (aliasesOf domain c) (some new)).map (·.aliasedId)) :
    db.idealOf domain x = some old ∧
      (db.setAlias (aliasesOf domain c) (some new)).idealOf domain x = some new := by
  obtain ⟨ta, hta, rfl⟩ := mem_map.1 hx
  obtain ⟨hd, he, _⟩ := h.of_mem_changed hta
  obtain ⟨hmem, hp, _⟩ := mem_changedAliases.1 hta
  have hideal := idealOf_of_mem h.unique hmem
  have hideal' := idealOf_setAlias_of_mem h.unique hmem hp (some new)
  rw [hd] at hideal hideal'
  exact ⟨hideal.trans (congrArg some he), hideal'⟩

theorem idealOf_unchanged {d : DomainId} (hx : ¬ (d = domain ∧
      x ∈ (db.changedAliases (aliasesOf domain c) (some new)).map (·.aliasedId))) :
    (db.setAlias (aliasesOf domain c) (some new)).idealOf d x = db.idealOf d x :=
  idealOf_setAlias_of_notMem (fun _ hta => (h.of_mem_changed hta).1) hx

theorem pending_setAlias (hx : x ∈ (c :: todo) ++ below) :
    (db.setAlias (aliasesOf domain c) (some new)).idealOf domain x = some new := by
  by_cases hxC : x ∈ (db.changedAliases (aliasesOf domain c) (some new)).map (·.aliasedId)
  · exact (h.idealOf_changed hxC).2
  · rw [h.idealOf_unchanged fun hh => hxC hh.2]
    exact h.pending x hx

/-- **The trigger of `c` passes the change on.**  The aliases of `c` carry `new` afterwards, and
those that it changed are behind now. -/
theorem descend :
    Stale domain root old new
      ((db.changedAliases (aliasesOf domain c) (some new)).map (·.aliasedId) ++ todo) (c :: below)
      (db.setAlias (aliasesOf domain c) (some new)) := by
  set C := (db.changedAliases (aliasesOf domain c) (some new)).map (·.aliasedId) with hC
  have hmem : ∀ x, x ∈ (C ++ todo) ++ (c :: below) ↔ x ∈ C ∨ x ∈ (c :: todo) ++ below := by
    intro x
    simp only [mem_append, mem_cons]
    tauto
  have hfresh : ∀ x ∈ C, x ∉ (c :: todo) ++ below := fun x hx hx' => by
    obtain ⟨ta, hta, rfl⟩ := mem_map.1 hx
    have hold := (h.idealOf_changed hx).1
    rw [h.pending _ hx'] at hold
    exact (h.of_mem_changed hta).2.2 (Option.some.inj hold).symm
  refine ⟨keyUnique_setAlias h.unique, ?_, aliasOf?_setAlias_eq_none.2 h.target, ?_, ?_, ?_, ?_, ?_⟩
  · intro ta' hta'
    obtain ⟨ta, hta, ⟨hp, rfl⟩ | ⟨_, rfl⟩⟩ := of_mem_setAlias hta'
    · exact aliasOf?_setAlias_eq_none.2 ((of_decide_eq_true hp).2 ▸ h.target)
    · exact aliasOf?_setAlias_eq_none.2 (h.effective _ hta)
  · have hperm : ((C ++ todo) ++ c :: below).Perm (C ++ ((c :: todo) ++ below)) := by
      rw [append_assoc]
      exact Perm.append_left C perm_middle
    refine hperm.nodup_iff.2 (nodup_append.2 ⟨?_, h.nodup, fun x hx y hy hxy => ?_⟩)
    · exact nodup_changedAliases h.unique fun ta hta => (h.of_mem_changed hta).1
    · exact hfresh x hx (hxy ▸ hy)
  · intro x hx
    exact ((hmem x).1 hx).elim (fun hx => (h.idealOf_changed hx).2) h.pending_setAlias
  · intro ta' hta' hd hmem'
    obtain ⟨ta, hta, ⟨hp, rfl⟩ | ⟨hp, rfl⟩⟩ := of_mem_setAlias hta'
    · exact Or.inr rfl
    · by_cases htodo : ta'.aliasId ∈ c :: todo
      · exact h.aliasesTodo ta' hta hd htodo
      · rw [h.aliases ta' hta fun hh => htodo hh.2, hd]
        refine Or.inl (h.idealOf_changed ?_).1
        exact (mem_append.1 hmem').resolve_right fun ht => htodo (mem_cons_of_mem _ ht)
  · intro ta' hta' hnot
    obtain ⟨ta, hta, ⟨hp, rfl⟩ | ⟨hp, rfl⟩⟩ := of_mem_setAlias hta'
    · obtain ⟨hc, hd⟩ := of_decide_eq_true hp
      show some new = (db.setAlias _ _).idealOf ta.tagDomainId ta.aliasId
      rw [hd, hc]
      exact (h.pending_setAlias (mem_cons_self ..)).symm
    · rw [h.idealOf_unchanged fun hh => hnot ⟨hh.1, mem_append_left _ hh.2⟩]
      refine h.aliases ta' hta fun hh => ?_
      rcases mem_cons.1 hh.2 with hc | hmem
      · exact hp (decide_eq_true ⟨hc, hh.1⟩)
      · exact hnot ⟨hh.1, mem_append_right _ hmem⟩
  · refine h.behind.widen rfl rfl (fun x hx => (hmem x).2 (Or.inr hx)) (fun x hx hx' => ?_)
      fun d x hx => ?_
    · exact (h.idealOf_changed (((hmem x).1 hx).resolve_right hx')).1
    · exact h.idealOf_unchanged fun hh => hx ⟨hh.1, Or.inr ((hmem x).2 (Or.inl hh.2))⟩

end Descend

/-- **The trigger of `c` brings the parents and the mappings of `c` up to date.** -/
theorem settle (h : Stale domain root old new todo (c :: below) db) :
    Stale domain root old new todo below
      ((setIdeals domain c (some new) db).setActive
        (fun m => m.tagId = c ∧ m.idealTagId = some old ∧ m.tagDomainId = domain) (some new)) := by
  have hnodup : c ∉ todo ++ below ∧ (todo ++ below).Nodup :=
    nodup_cons.1 (nodup_middle.1 h.nodup)
  have hsub : ∀ x ∈ todo ++ below, x ∈ todo ++ c :: below := by
    intro x hx
    simp only [mem_append, mem_cons] at hx ⊢
    tauto
  refine { h with nodup := hnodup.2, pending := fun x hx => h.pending x (hsub x hx), behind := ?_ }
  have hlate : insert c {x | x ∈ todo ++ below} = {x | x ∈ todo ++ c :: below} := by
    ext x
    simp only [Set.mem_insert_iff, Set.mem_ofPred_eq, mem_append, mem_cons]
    tauto
  exact Behind.settle (hlate ▸ h.behind) hnodup.1
    (h.pending c (mem_append_right _ (mem_cons_self ..)))

section

variable (h : Stale domain root old new (c :: todo) below db)
include h

/-- A row that ends at `old` after the descent did so before. -/
theorem of_countAt_descend (hta : ta ∈ db.tagAliases)
    (he : (if aliasesOf domain c ta then ta.withIdeal (some new) else ta).tagDomainId = domain ∧
      (if aliasesOf domain c ta then ta.withIdeal (some new) else ta).effectiveTagId = old) :
    ta.tagDomainId = domain ∧ ta.effectiveTagId = old := by
  split_ifs at he with hp
  · obtain ⟨hc, hd⟩ := of_decide_eq_true hp
    have hnew : new = old := he.2
    refine ⟨hd, ?_⟩
    rw [TagAlias.effectiveTagId]
    rcases h.aliasesTodo ta hta hd (hc ▸ mem_cons_self ..) with ho | hn
    · rw [ho, Option.getD_some]
    · rw [hn, Option.getD_some, hnew]
  · exact he

theorem countAt_descend_le :
    (db.setAlias (aliasesOf domain c) (some new)).countAt domain old ≤ db.countAt domain old := by
  unfold Db.countAt Db.setAlias
  rw [countP_map]
  exact countP_mono_left fun ta hta he =>
    decide_eq_true (h.of_countAt_descend hta (of_decide_eq_true he))

/-- The descent leaves fewer rows at `old`, if it changes any. -/
theorem countAt_descend_lt (hne : db.changedAliases (aliasesOf domain c) (some new) ≠ []) :
    (db.setAlias (aliasesOf domain c) (some new)).countAt domain old < db.countAt domain old := by
  obtain ⟨ta, hta⟩ := exists_mem_of_ne_nil _ hne
  obtain ⟨hd, he, hon⟩ := h.of_mem_changed hta
  obtain ⟨hmem, hp, _⟩ := mem_changedAliases.1 hta
  unfold Db.countAt Db.setAlias
  rw [countP_map]
  refine countP_lt_countP (fun ta' hta' he' => ?_) hmem (decide_eq_true ⟨hd, he⟩) ?_
  · exact decide_eq_true (h.of_countAt_descend hta' (of_decide_eq_true he'))
  · rw [Function.comp_apply, if_pos hp, decide_eq_true_eq]
    exact fun hh => hon.symm hh.2

end

end Stale

theorem InheritedOnly.countAt_eq {db db' : Db} (h : InheritedOnly db db') (domain : DomainId)
    (old : TagId) : db'.countAt domain old = db.countAt domain old := by
  obtain ⟨rows, deltas, rfl⟩ := h
  rfl

/-! ## The update of `tag_aliases` -/

section Update

variable {domain : DomainId} {root old new : TagId}

/-- The row triggers of an updated alias, around the update that they issue. -/
theorem afterUpdate_spec {update : (TagAlias → Bool) → Option TagId → Statement}
    {ideal : Option TagId} {db : Db} {todo below : List TagId} {n : ℕ}
    (h : Stale domain root old new (ta.aliasedId :: todo) below db)
    (hd : ta.tagDomainId = domain) (ho : ta.effectiveTagId = old)
    (hn : (ta.withIdeal ideal).effectiveTagId = new)
    (hupdate : Succeeds (update (aliasesOf domain ta.aliasedId) (some new) db) fun db' =>
      Stale domain root old new todo (ta.aliasedId :: below) db' ∧ SameFacts db db' ∧
        db'.countAt domain old ≤ n) :
    Succeeds (do
        let db ← tagAliasesAfterUpdateTrigger update (ta.withIdeal ideal) db
        repairTagMappingsIdealsUpdate ta (ta.withIdeal ideal) db) fun db' =>
      Stale domain root old new todo below db' ∧ SameFacts db db' ∧
        db'.countAt domain old ≤ n := by
  have hrow : (ta.withIdeal ideal).tagDomainId = domain := hd
  have hguard := h.recursiveAlias_eq_false (ta.withIdeal ideal) hd rfl
  have htrigger : Succeeds (tagAliasesAfterUpdateTrigger update (ta.withIdeal ideal) db) fun db' =>
      ∃ s, db' = setIdeals domain ta.aliasedId (some new) s ∧
        Stale domain root old new todo (ta.aliasedId :: below) s ∧ SameFacts db s ∧
          s.countAt domain old ≤ n := by
    unfold tagAliasesAfterUpdateTrigger
    rw [hguard, hn, if_neg Bool.false_ne_true, hrow]
    exact hupdate.bind fun s hs => .ok ⟨s, rfl, hs⟩
  refine htrigger.bind ?_
  rintro _ ⟨s, rfl, hs, hfacts, hcount⟩
  unfold repairTagMappingsIdealsUpdate
  rw [ho, hn, hrow]
  refine (updateActiveTagMappings_spec _ _ _).mono fun db' hi => ⟨?_, ?_, ?_⟩
  · exact hs.settle.of_inheritedOnly hi
  · exact ((hfacts.trans (sameFacts_setIdeals ..)).trans (sameFacts_setActive ..)).trans
      (.of_inheritedOnly hi)
  · exact (hi.countAt_eq domain old).trans_le hcount

/-- **An update of `tag_aliases` returns**, and nothing that its rows depend on is left behind. -/
theorem updateTagAliasesUpTo_spec {depth : ℕ} {p : TagAlias → Bool} {ideal : Option TagId} {db : Db}
    {todo below : List TagId}
    (hcheck : ∀ ta ∈ db.tagAliases, p ta → ideal ≠ some ta.aliasedId)
    (hchanged : ∀ ta ∈ db.changedAliases p ideal, ta.tagDomainId = domain ∧
      ta.effectiveTagId = old ∧ (ta.withIdeal ideal).effectiveTagId = new)
    (hdepth : db.changedAliases p ideal ≠ [] → (db.setAlias p ideal).countAt domain old < depth)
    (h : Stale domain root old new ((db.changedAliases p ideal).map (·.aliasedId) ++ todo) below
      (db.setAlias p ideal)) :
    Succeeds (updateTagAliasesUpTo (depth + 1) p ideal db) fun db' =>
      Stale domain root old new todo below db' ∧ SameFacts db db' ∧
        db'.countAt domain old ≤ (db.setAlias p ideal).countAt domain old := by
  induction depth using Nat.strongRecOn generalizing p ideal db todo below with
  | ind depth ih =>
    have hnocheck : ¬ (db.tagAliases.filter p).any fun ta => ideal = some ta.aliasedId := by
      rw [any_eq_true]
      rintro ⟨ta, hta, he⟩
      obtain ⟨hmem, hp⟩ := mem_filter.1 hta
      exact hcheck ta hmem hp (of_decide_eq_true he)
    rw [updateTagAliasesUpTo]
    simp only [if_neg hnocheck]
    have hloop := Succeeds.foldlM
      (f := fun db ta => do
        let db ← tagAliasesAfterUpdateTrigger (updateTagAliasesUpTo depth) (ta.withIdeal ideal) db
        repairTagMappingsIdealsUpdate ta (ta.withIdeal ideal) db)
      (fun changed s => (∀ ta ∈ changed, ta ∈ db.changedAliases p ideal) ∧
        Stale domain root old new (changed.map (·.aliasedId) ++ todo) below s ∧
        SameFacts db s ∧ s.countAt domain old ≤ (db.setAlias p ideal).countAt domain old)
      (l := db.changedAliases p ideal) (a := db.setAlias p ideal)
      ⟨fun _ h => h, h, sameFacts_setAlias db p ideal, le_rfl⟩ ?_
    · refine hloop.bind fun s ⟨_, hs, hfacts, hcount⟩ => ?_
      refine (repairParentsOnAlias_spec _ s).mono fun s' hi => ⟨hs.of_inheritedOnly hi, ?_, ?_⟩
      · exact hfacts.trans (.of_inheritedOnly hi)
      · exact (hi.countAt_eq domain old).trans_le hcount
    · rintro ta changed s ⟨hsub, hs, hfacts, hcount⟩
      have hta := hsub ta (mem_cons_self ..)
      obtain ⟨hd, ho, hn⟩ := hchanged ta hta
      rw [map_cons, cons_append] at hs
      -- the nested update runs at the depth below, where fewer rows end at `old`
      have hlt := hdepth (ne_nil_of_mem hta)
      obtain ⟨depth, rfl⟩ : ∃ n, depth = n + 1 := ⟨depth - 1, by omega⟩
      have hnested := @ih depth (Nat.lt_succ_self depth) (aliasesOf domain ta.aliasedId) (some new)
        s _ _ ?_ ?_ (fun hne => ?_) hs.descend
      · have hupdate := hnested.mono fun s' hs' => And.intro hs'.1 (And.intro hs'.2.1
          (hs'.2.2.trans (hs.countAt_descend_le.trans hcount)))
        refine (afterUpdate_spec hs hd ho hn hupdate).mono fun s' hs' => ⟨?_, hs'.1, ?_, hs'.2.2⟩
        · exact fun ta' h' => hsub ta' (mem_cons_of_mem _ h')
        · exact hfacts.trans hs'.2.1
      · intro row hrow hp he
        obtain ⟨_, hd'⟩ := of_decide_eq_true hp
        have hsome := aliasOf?_of_mem hs.unique hrow
        rw [hd', ← Option.some.inj he, hs.target] at hsome
        exact Option.some_ne_none _ hsome.symm
      · exact fun row hrow => ⟨(hs.of_mem_changed hrow).1, (hs.of_mem_changed hrow).2.1, rfl⟩
      · have := hs.countAt_descend_lt hne
        omega

end Update

end Idhan.Tags
