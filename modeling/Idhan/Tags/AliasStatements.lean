import Idhan.Tags.Resolution

/-!
# The alias statements keep the aliases resolved

An alias that is inserted or deleted moves the end of the chains through its tag.  The statement
changes the rows of these chains at once and leaves the rest to the triggers, so that the state in
between is `Stale`.

* `Accepts.tagAliasesAfterInsert_spec`: after an insertion the aliases are resolved again.
* `deleteTagAlias_spec`: and after a deletion.
-/

namespace Idhan.Tags

open List Option

variable {db : Db} {domain : DomainId} {aliased target : TagId} {old root new : TagId}
  {ideal : Option TagId} {d : DomainId}

/-- The rows bound the depth of the update that a statement issues. -/
theorem countAt_setAlias_lt_length {p : TagAlias → Bool}
    (hnew : ∀ ta ∈ db.changedAliases p ideal, (ta.withIdeal ideal).effectiveTagId = new)
    (hon : old ≠ new) (hne : db.changedAliases p ideal ≠ []) :
    (db.setAlias p ideal).countAt domain old < db.tagAliases.length := by
  obtain ⟨ta, hta⟩ := exists_mem_of_ne_nil _ hne
  obtain ⟨hmem, hp, _⟩ := mem_changedAliases.1 hta
  unfold Db.countAt Db.setAlias
  rw [countP_map, ← countP_true]
  refine countP_lt_countP (fun _ _ _ => rfl) hmem rfl ?_
  rw [Function.comp_apply, if_pos hp, decide_eq_true_eq]
  exact fun hh => hon (hh.2.symm.trans (hnew ta hta))

/-! ## Inserting -/

/-- The row that an alias statement inserts. -/
def Db.newAlias (db : Db) (domain : DomainId) (aliased target : TagId) : TagAlias :=
  ⟨aliased, target, db.idealOf domain target, domain⟩

/-- The state with the new row, before any trigger. -/
def Db.withAlias (db : Db) (domain : DomainId) (aliased target : TagId) : Db :=
  { db with tagAliases := db.tagAliases ++ [db.newAlias domain aliased target] }

/-- The rows whose chains the new alias extends. -/
def endsAt (domain : DomainId) (tag : TagId) (ta : TagAlias) : Bool :=
  ta.effectiveTagId = tag ∧ ta.tagDomainId = domain

/-- The tag where the chains through the new alias end. -/
def Db.newEnd (db : Db) (domain : DomainId) (target : TagId) : TagId :=
  (db.idealOf domain target).getD target

/-- The state after the update that the trigger of the new row issues. -/
def Db.relinked (db : Db) (domain : DomainId) (aliased target : TagId) : Db :=
  (db.withAlias domain aliased target).setAlias (endsAt domain aliased)
    (some (db.newEnd domain target))

/-- The alias is one that the statement inserts. -/
structure Accepts (db : Db) (domain : DomainId) (aliased target : TagId) : Prop where
  free : db.aliasOf? domain aliased = none
  noCycle : db.idealOf domain target ≠ some aliased
  ne : aliased ≠ target

namespace Accepts

theorem effective_ne (ha : Accepts db domain aliased target) :
    db.newEnd domain target ≠ aliased := by
  unfold Db.newEnd
  cases hi : db.idealOf domain target with
  | none => exact ha.ne.symm
  | some t =>
    rintro rfl
    exact ha.noCycle hi

theorem aliasOf?_withAlias_self (ha : Accepts db domain aliased target) :
    (db.withAlias domain aliased target).aliasOf? domain aliased =
      some (db.newAlias domain aliased target) := by
  unfold Db.aliasOf? Db.withAlias
  rw [find?_append]
  have hfree : db.tagAliases.find? (fun ta => decide (ta.tagDomainId = domain ∧
      ta.aliasedId = aliased)) = none := ha.free
  rw [hfree, none_or]
  exact find?_cons_of_pos (by simp [Db.newAlias])

theorem aliasOf?_withAlias_of_ne {x : TagId} (hx : ¬ (d = domain ∧ x = aliased)) :
    (db.withAlias domain aliased target).aliasOf? d x = db.aliasOf? d x := by
  unfold Db.aliasOf? Db.withAlias
  rw [find?_append]
  have hnew : [db.newAlias domain aliased target].find? (fun ta => decide (ta.tagDomainId = d ∧
      ta.aliasedId = x)) = none := by
    rw [find?_cons_of_neg, find?_nil]
    rw [decide_eq_true_eq]
    exact fun hh => hx ⟨hh.1.symm, hh.2.symm⟩
  rw [hnew, or_none]

theorem keyUnique_withAlias (ha : Accepts db domain aliased target) (h : Resolved db) :
    KeyUnique TagAlias.key (db.withAlias domain aliased target).tagAliases :=
  h.unique.append_singleton (aliasOf?_eq_none.1 ha.free)

section Update

variable (ha : Accepts db domain aliased target) (h : Resolved db) {x : TagId}
include ha h

/-- The target of the new row is not aliased. -/
theorem aliasOf?_relinked_newEnd : (db.relinked domain aliased target).aliasOf? domain
    (db.newEnd domain target) = none := by
  rw [Db.relinked, aliasOf?_setAlias_eq_none,
    aliasOf?_withAlias_of_ne fun hh => ha.effective_ne hh.2]
  exact h.aliasOf?_getD domain target

/-- The rows that the trigger changes are those that ended at the aliased tag. -/
theorem mem_changed :
    x ∈ ((db.withAlias domain aliased target).changedAliases (endsAt domain aliased)
        (some (db.newEnd domain target))).map (·.aliasedId) ↔
        db.idealOf domain x = some aliased := by
  constructor
  · intro hx
    obtain ⟨ta, hta, rfl⟩ := mem_map.1 hx
    obtain ⟨hmem, hp, _⟩ := mem_changedAliases.1 hta
    obtain ⟨he, hd⟩ := of_decide_eq_true hp
    rcases mem_append.1 hmem with hmem | hmem
    · rw [← he, ← hd]
      exact idealOf_of_mem h.unique hmem
    · rw [mem_singleton.1 hmem] at he
      exact absurd he ha.effective_ne
  · intro hx
    obtain ⟨ta, hmem, hd, hxa, he⟩ := of_idealOf_eq_some hx
    refine mem_map.2 ⟨ta, mem_changedAliases.2 ⟨mem_append_left _ hmem, ?_, ?_⟩, hxa⟩
    · exact decide_eq_true ⟨he, hd⟩
    · rw [he]
      exact ha.effective_ne.symm

theorem idealOf_relinked_of_ends (hx : db.idealOf domain x = some aliased) :
    (db.relinked domain aliased target).idealOf domain x = some (db.newEnd domain target) := by
  obtain ⟨ta, hta, rfl⟩ := mem_map.1 ((ha.mem_changed h).2 hx)
  obtain ⟨hmem, hp, _⟩ := mem_changedAliases.1 hta
  have hideal := idealOf_setAlias_of_mem (ha.keyUnique_withAlias h) hmem hp
    (some (db.newEnd domain target))
  rwa [(of_decide_eq_true hp).2] at hideal

/-- The update leaves the tags that did not end at the aliased tag. -/
theorem idealOf_relinked_of_not_ends (hx : ¬ (d = domain ∧ db.idealOf domain x = some aliased)) :
    (db.relinked domain aliased target).idealOf d x =
    (db.withAlias domain aliased target).idealOf d x :=
  idealOf_setAlias_of_notMem (fun _ hta => (of_decide_eq_true (mem_changedAliases.1 hta).2.1).2)
    fun hh => hx ⟨hh.1, (ha.mem_changed h).1 hh.2⟩

theorem idealOf_relinked_self :
    (db.relinked domain aliased target).idealOf domain aliased =
      some (db.newEnd domain target) := by
  rw [ha.idealOf_relinked_of_not_ends h fun hh => ?_]
  · rw [Db.idealOf, ha.aliasOf?_withAlias_self, map_some]
    rfl
  · rw [idealOf_eq_none.2 ha.free] at hh
    exact some_ne_none _ hh.2.symm

theorem idealOf_relinked_of_ne
    (hx : ¬ (d = domain ∧ (x = aliased ∨ db.idealOf domain x = some aliased))) :
    (db.relinked domain aliased target).idealOf d x = db.idealOf d x := by
  rw [ha.idealOf_relinked_of_not_ends h fun hh => hx ⟨hh.1, Or.inr hh.2⟩, Db.idealOf,
    aliasOf?_withAlias_of_ne fun hh => hx ⟨hh.1, Or.inl hh.2⟩, Db.idealOf]

omit h in
/-- The rows after that update. -/
theorem mem_relinked {ta' : TagAlias}
    (hta' : ta' ∈ (db.relinked domain aliased target).tagAliases) :
    (∃ ta ∈ db.tagAliases, endsAt domain aliased ta ∧
      ta' = ta.withIdeal (some (db.newEnd domain target))) ∨
      (ta' ∈ db.tagAliases ∧ ¬ endsAt domain aliased ta') ∨
        ta' = db.newAlias domain aliased target := by
  obtain ⟨ta, hta, h⟩ := of_mem_setAlias hta'
  rcases mem_append.1 hta with hta | hta
  · obtain ⟨hp, rfl⟩ | ⟨hp, rfl⟩ := h
    · exact Or.inl ⟨ta, hta, hp, rfl⟩
    · exact Or.inr (Or.inl ⟨hta, hp⟩)
  · obtain rfl := mem_singleton.1 hta
    exact h.elim (fun hh => absurd (of_decide_eq_true hh.1).1 ha.effective_ne) fun hh =>
      Or.inr (Or.inr hh.2)

/-- A row whose target is the aliased tag, or has it as its effective tag, ended at it. -/
theorem endsAt_of_target {ta : TagAlias} (hta : ta ∈ db.tagAliases) (hd : ta.tagDomainId = domain)
    (ht : ta.aliasId = aliased ∨ db.idealOf domain ta.aliasId = some aliased) :
    endsAt domain aliased ta := by
  refine decide_eq_true ⟨?_, hd⟩
  rw [h.effectiveTagId_eq hta, hd]
  rcases ht with ht | ht
  · rw [ht, idealOf_eq_none.2 ha.free, getD_none]
  · rw [ht, getD_some]

/-- All rows that ended at the aliased tag are changed at once, so what is behind are the parents
and the mappings. -/
theorem stale :
    Stale domain aliased aliased (db.newEnd domain target)
      (((db.withAlias domain aliased target).changedAliases (endsAt domain aliased)
        (some (db.newEnd domain target))).map (·.aliasedId) ++ []) []
      (db.relinked domain aliased target) := by
  have hmem := fun x => ha.mem_changed h (x := x)
  have hnewEnd := ha.aliasOf?_relinked_newEnd h
  rw [append_nil]
  refine ⟨keyUnique_setAlias (ha.keyUnique_withAlias h), ?_, hnewEnd, ?_, ?_, ?_, ?_, ?_⟩
  · intro ta' hta'
    rcases ha.mem_relinked hta' with ⟨ta, _, hp, rfl⟩ | ⟨hta, hp⟩ | rfl
    · obtain rfl := (of_decide_eq_true hp).2
      exact hnewEnd
    · rw [Db.relinked, aliasOf?_setAlias_eq_none,
        aliasOf?_withAlias_of_ne fun hh => hp (decide_eq_true ⟨hh.2, hh.1⟩)]
      exact h.aliasOf?_effectiveTagId hta
    · exact hnewEnd
  · rw [append_nil]
    exact nodup_changedAliases (ha.keyUnique_withAlias h) fun ta hta =>
      (of_decide_eq_true (mem_changedAliases.1 hta).2.1).2
  · intro x hx
    rw [append_nil] at hx
    exact ha.idealOf_relinked_of_ends h ((hmem x).1 hx)
  · intro ta' hta' hd hC'
    rcases ha.mem_relinked hta' with ⟨ta, _, _, rfl⟩ | ⟨hta, hp⟩ | rfl
    · exact Or.inr rfl
    · exact absurd (ha.endsAt_of_target h hta hd (Or.inr ((hmem _).1 hC'))) hp
    · exact absurd ((hmem _).1 hC') ha.noCycle
  · intro ta' hta' hnot
    rcases ha.mem_relinked hta' with ⟨ta, hta, hp, rfl⟩ | ⟨hta, hp⟩ | rfl
    · obtain ⟨heff, hd⟩ := of_decide_eq_true hp
      have hideal : db.idealOf domain ta.aliasId = none := by
        cases hi : db.idealOf domain ta.aliasId with
        | none => rfl
        | some t =>
          rw [h.effectiveTagId_eq hta, hd, hi, getD_some] at heff
          exact absurd ⟨hd, (hmem _).2 (heff ▸ hi)⟩ hnot
      have htarget : ta.aliasId = aliased := by
        rwa [h.effectiveTagId_eq hta, hd, hideal, getD_none] at heff
      show some (db.newEnd domain target) = Db.idealOf _ ta.tagDomainId ta.aliasId
      rw [hd, htarget, ha.idealOf_relinked_self h]
    · rw [ha.idealOf_relinked_of_ne h fun hh => hp (ha.endsAt_of_target h hta hh.1 hh.2)]
      exact h.aliases ta' hta
    · refine (ha.idealOf_relinked_of_ne h fun hh => ?_).symm
      exact hh.2.elim ha.ne.symm ha.noCycle
  · simp only [append_nil]
    refine (Behind.of_resolved h).widen rfl rfl (Set.empty_subset _) (fun x hx _ => (hmem x).1 hx)
      fun d x hx => ha.idealOf_relinked_of_ne h fun hh => hx ⟨hh.1, hh.2.imp id (hmem x).2⟩

end Update

end Accepts

/-! ## The end of an alias statement -/

/-- The last two steps of an alias statement: the parents and the mappings of the tag itself. -/
theorem Behind.finish {db : Db}
    (h : Behind domain root old ∅ db) (hroot : db.idealOf domain root = ideal) :
    (∀ tp ∈ (setIdeals domain root ideal db).tagParents,
      tp.idealParentId = db.idealOf tp.tagDomainId tp.parentId ∧
        tp.idealChildId = db.idealOf tp.tagDomainId tp.childId) ∧
    ∀ m ∈ (db.setActive (fun m => m.tagId = root ∧ m.tagDomainId = domain) ideal).activeTagMappings,
      m.idealTagId = db.idealOf m.tagDomainId m.tagId := by
  have h' : Behind domain root old (insert root ∅) db := by
    refine ⟨fun tp htp hnot => ?_, fun tp htp hnot => ?_, fun m _ _ hmem hne => ?_,
      fun m hm hnot => ?_⟩
    · exact h.parents tp htp fun hh => hnot ⟨hh.1, hh.2.imp id fun hx => hx.elim⟩
    · exact h.children tp htp fun hh => hnot ⟨hh.1, hh.2.imp id fun hx => hx.elim⟩
    · exact absurd (hmem.resolve_right id) hne
    · exact h.active m hm fun hh => hnot ⟨hh.1, hh.2.imp id fun hx => hx.elim⟩
  refine ⟨fun tp htp => ⟨?_, ?_⟩, fun m hm => ?_⟩
  · exact h'.parents_setIdeals hroot tp htp fun hh => hh.2.2.elim hh.2.1 id
  · exact h'.children_setIdeals hroot tp htp fun hh => hh.2.2.elim hh.2.1 id
  · obtain ⟨m', hm', rfl⟩ := mem_map.1 hm
    split_ifs with hp
    · obtain ⟨ht, hd⟩ := of_decide_eq_true hp
      show ideal = db.idealOf m'.tagDomainId m'.tagId
      rw [ht, hd, hroot]
    · exact h.active m' hm' fun hh =>
        hp (decide_eq_true ⟨hh.2.resolve_right id, hh.1⟩)

/-- The chains read only the links of the aliases. -/
theorem SameFacts.aliasNext_eq {db db' : Db} (h : SameFacts db db') (domain : DomainId)
    (tag : TagId) : db'.aliasNext domain tag = db.aliasNext domain tag := by
  have hnext : ∀ db : Db, db.aliasNext domain tag =
      ((db.tagAliases.map (TagAlias.withIdeal none)).find? fun ta =>
        decide (ta.tagDomainId = domain ∧ ta.aliasedId = tag)).map (·.aliasId) := by
    intro db
    rw [find?_map, Option.map_map]
    rfl
  rw [hnext, hnext, h.aliases]

theorem Stale.aliases_eq {below : List TagId} {db : Db}
    (h : Stale domain root old new [] below db) :
    ∀ ta ∈ db.tagAliases, ta.idealAliasId = db.idealOf ta.tagDomainId ta.aliasId :=
  fun ta hta => h.aliases ta hta fun hh => nomatch hh.2

/-- Nothing is behind: the state is resolved, when the chains end. -/
theorem Stale.resolved {db db' : Db}
    (h : Stale domain root old new [] [] db) (hroot : db.idealOf domain root = ideal)
    (hends : ∀ d x, ∃ last, Ends (db.aliasNext d) x last)
    (hi : InheritedOnly ((setIdeals domain root ideal db).setActive
      (fun m => m.tagId = root ∧ m.tagDomainId = domain) ideal) db') : Resolved db' := by
  have hbehind : Behind domain root old ∅ db := by
    have := h.behind
    simpa using this
  obtain ⟨hparents, hactive⟩ := hbehind.finish hroot
  have hresolved : Resolved ((setIdeals domain root ideal db).setActive
      (fun m => m.tagId = root ∧ m.tagDomainId = domain) ideal) :=
    ⟨h.unique, hends, h.aliases_eq, fun tp htp => (hparents tp htp).1,
      fun tp htp => (hparents tp htp).2, hactive⟩
  exact hresolved.of_inheritedOnly hi

/-! ## The insert statement -/

/-- The base facts with one alias more. -/
def Db.addAlias (db : Db) (domain : DomainId) (aliased target : TagId) : Db :=
  { db with tagAliases := db.tagAliases ++ [⟨aliased, target, none, domain⟩] }

theorem sameFacts_withAlias (db : Db) (domain : DomainId) (aliased target : TagId) :
    SameFacts (db.addAlias domain aliased target) (db.withAlias domain aliased target) := by
  refine ⟨rfl, rfl, rfl, ?_, rfl, rfl⟩
  simp only [Db.withAlias, Db.addAlias, map_append]
  rfl

namespace Accepts

section

variable (ha : Accepts db domain aliased target)
include ha

theorem aliasNext_withAlias : (∀ d x, ¬ (d = domain ∧ x = aliased) →
      (db.withAlias domain aliased target).aliasNext d x = db.aliasNext d x) ∧
    (db.withAlias domain aliased target).aliasNext domain aliased = some target := by
  refine ⟨fun d x hx => ?_, ?_⟩
  · rw [Db.aliasNext, aliasOf?_withAlias_of_ne hx, Db.aliasNext]
  · rw [Db.aliasNext, ha.aliasOf?_withAlias_self, map_some]
    rfl

/-- The chains of the state with the new alias: those that ended at the aliased tag are extended by
the chain of the target. -/
theorem ends_withAlias (h : Resolved db) {x last : TagId} (hlast : Ends (db.aliasNext d) x last) :
    Ends ((db.withAlias domain aliased target).aliasNext d) x
      (if d = domain ∧ last = aliased then db.newEnd domain target else last) := by
  by_cases hd : d = domain
  · subst hd
    have hlink := hlast.link (aliasNext_eq_none.2 ha.free) (h.ends_getD d target) ha.effective_ne
      (fun x hx => ha.aliasNext_withAlias.1 d x fun hh => hx hh.2) ha.aliasNext_withAlias.2
    simp only [true_and]
    exact hlink
  · rw [if_neg fun hh => hd hh.1]
    exact hlast.congr fun x => ha.aliasNext_withAlias.1 d x fun hh => hd hh.1

/-- **The triggers of a new alias return**, and leave the state resolved. -/
theorem tagAliasesAfterInsert_spec (h : Resolved db) :
    Succeeds (tagAliasesAfterInsert (db.newAlias domain aliased target)
        (db.withAlias domain aliased target)) fun db' =>
      Resolved db' ∧ SameFacts (db.addAlias domain aliased target) db' := by
  set e := db.newEnd domain target with he
  set s := db.withAlias domain aliased target with hs
  have hstale := ha.stale h
  have hself : Ends (s.aliasNext domain) aliased e := by
    simpa using ha.ends_withAlias h (.stop (aliasNext_eq_none.2 ha.free))
  have hupdate : Succeeds (updateTagAliases (endsAt domain aliased) (some e) s) fun s' =>
      Stale domain aliased aliased e [] [] s' ∧ SameFacts s s' := by
    refine (updateTagAliasesUpTo_spec (fun ta hta hp heq => ?_) (fun ta hta => ?_) (fun hne => ?_)
      hstale).mono fun s' hs' => ⟨hs'.1, hs'.2.1⟩
    · have hsome := aliasOf?_of_mem (ha.keyUnique_withAlias h) hta
      rw [(of_decide_eq_true hp).2, ← Option.some.inj heq,
        aliasOf?_setAlias_eq_none.1 (ha.aliasOf?_relinked_newEnd h)] at hsome
      exact some_ne_none _ hsome.symm
    · obtain ⟨hend, hd⟩ := of_decide_eq_true (mem_changedAliases.1 hta).2.1
      exact ⟨hd, hend, rfl⟩
    · exact countAt_setAlias_lt_length (fun _ _ => rfl) ha.effective_ne.symm hne
  refine Succeeds.bind (P := fun s' => ∃ s'', s' = setIdeals domain aliased (some e) s'' ∧
    Stale domain aliased aliased e [] [] s'' ∧ SameFacts s s'')
    (hupdate.bind fun s' hs' => .ok ⟨s', rfl, hs'⟩) ?_
  rintro _ ⟨s', rfl, hstale', hfacts⟩
  refine (updateActiveTagMappings_spec _ _ _).bind fun s'' hi => ?_
  refine (repairParentsOnAlias_spec _ s'').mono fun db' hi' => ⟨?_, ?_⟩
  · refine hstale'.resolved ?_ (fun d x => ?_) (hi.trans hi')
    · refine idealOf_of_ends hstale'.aliases_eq
        ((hself.congr fun x => hfacts.aliasNext_eq domain x)) ?_ (t := target)
      rw [hfacts.aliasNext_eq]
      exact ha.aliasNext_withAlias.2
    · obtain ⟨last, hlast⟩ := h.ends d x
      exact ⟨_, (ha.ends_withAlias h hlast).congr fun x => hfacts.aliasNext_eq d x⟩
  · exact ((sameFacts_withAlias db domain aliased target).trans (hfacts.trans
      ((sameFacts_setIdeals ..).trans (sameFacts_setActive ..)))).trans
        (.of_inheritedOnly (hi.trans hi'))

end

end Accepts

/-! ## The delete statement -/

/-- The row of the alias. -/
def isAlias (domain : DomainId) (aliased target : TagId) (ta : TagAlias) : Bool :=
  ta.tagDomainId = domain ∧ ta.aliasedId = aliased ∧ ta.aliasId = target

/-- The state without the row, before any trigger. -/
def Db.withoutAlias (db : Db) (domain : DomainId) (aliased target : TagId) : Db :=
  { db with tagAliases := db.tagAliases.filter fun ta => !isAlias domain aliased target ta }

section Delete

variable {x : TagId} {d : DomainId}

theorem aliasOf?_withoutAlias_of_ne (hx : ¬ (d = domain ∧ x = aliased)) :
    (db.withoutAlias domain aliased target).aliasOf? d x = db.aliasOf? d x := by
  unfold Db.aliasOf? Db.withoutAlias
  rw [find?_filter]
  refine congrArg (fun q => List.find? q _) (funext fun ta => ?_)
  by_cases hq : ta.tagDomainId = d ∧ ta.aliasedId = x
  · have hp : isAlias domain aliased target ta = false :=
      decide_eq_false fun hp => hx ⟨hq.1.symm.trans hp.1, hq.2.symm.trans hp.2.1⟩
    simp [hp, hq]
  · simp [hq]

variable (h : Resolved db) (hold : ⟨aliased, target, ideal, domain⟩ ∈ db.tagAliases)
include h hold

theorem of_mem_withoutAlias {ta : TagAlias}
    (hta : ta ∈ (db.withoutAlias domain aliased target).tagAliases) :
    ta ∈ db.tagAliases ∧ ta.key ≠ (domain, aliased) := by
  obtain ⟨hmem, hp⟩ := mem_filter.1 hta
  refine ⟨hmem, fun hkey => ?_⟩
  rw [h.unique.eq_of_key_eq hmem hold hkey] at hp
  simp [isAlias] at hp

theorem aliasOf?_withoutAlias_self :
    (db.withoutAlias domain aliased target).aliasOf? domain aliased = none := by
  rw [aliasOf?_eq_none]
  rintro hmem
  obtain ⟨ta, hta, hkey⟩ := mem_map.1 hmem
  exact (of_mem_withoutAlias h hold hta).2 hkey

theorem effective_ne_aliasedId : ideal.getD target ≠ aliased := by
  intro he
  have hnone : db.aliasOf? domain (ideal.getD target) = none := h.aliasOf?_effectiveTagId hold
  rw [he] at hnone
  exact aliasOf?_eq_none.1 hnone (mem_map_of_mem hold)

/-- The rows that the trigger changes are the aliases of the aliased tag. -/
theorem of_mem_changed_delete (ta : TagAlias)
    (hta : ta ∈ (db.withoutAlias domain aliased target).changedAliases (aliasesOf domain aliased)
      none) :
    ta ∈ db.tagAliases ∧ ta.tagDomainId = domain ∧ ta.aliasId = aliased ∧
      ta.effectiveTagId = ideal.getD target ∧ ta.aliasedId ≠ aliased := by
  obtain ⟨hmem, hp, _⟩ := mem_changedAliases.1 hta
  obtain ⟨hc, hd⟩ := of_decide_eq_true hp
  obtain ⟨hmem, hkey⟩ := of_mem_withoutAlias h hold hmem
  have hideal : db.idealOf domain aliased = some (ideal.getD target) := idealOf_of_mem h.unique hold
  refine ⟨hmem, hd, hc, ?_, fun hx => hkey (Prod.ext hd hx)⟩
  rw [h.effectiveTagId_eq hmem, hc, hd, hideal, getD_some]

theorem stale_delete :
    Stale domain aliased (ideal.getD target) aliased
      (((db.withoutAlias domain aliased target).changedAliases (aliasesOf domain aliased) none).map
        (·.aliasedId) ++ []) []
      ((db.withoutAlias domain aliased target).setAlias (aliasesOf domain aliased) none) := by
  have hchanged := of_mem_changed_delete h hold
  have hself := aliasOf?_withoutAlias_self h hold
  set s := db.withoutAlias domain aliased target with hs
  set C := (s.changedAliases (aliasesOf domain aliased) none).map (·.aliasedId) with hC
  have hunique : KeyUnique TagAlias.key s.tagAliases := h.unique.filter _
  have hin : ∀ x ∈ C, x ≠ aliased ∧ db.idealOf domain x = some (ideal.getD target) ∧
      (s.setAlias (aliasesOf domain aliased) none).idealOf domain x = some aliased := by
    intro x hx
    obtain ⟨ta, hta, rfl⟩ := mem_map.1 hx
    obtain ⟨hmem, hd, hc, he, hne⟩ := hchanged ta hta
    obtain ⟨hmem', hp, _⟩ := mem_changedAliases.1 hta
    have hideal := idealOf_of_mem h.unique hmem
    have hideal' := idealOf_setAlias_of_mem hunique hmem' hp none
    rw [hd] at hideal hideal'
    exact ⟨hne, hideal.trans (congrArg some he), hideal'.trans (congrArg some hc)⟩
  have hout : ∀ d x, ¬ (d = domain ∧ (x = aliased ∨ x ∈ C)) →
      (s.setAlias (aliasesOf domain aliased) none).idealOf d x = db.idealOf d x := by
    intro d x hx
    rw [idealOf_setAlias_of_notMem (fun ta hta => (hchanged ta hta).2.1) fun hh =>
      hx ⟨hh.1, Or.inr hh.2⟩, Db.idealOf,
      aliasOf?_withoutAlias_of_ne fun hh => hx ⟨hh.1, Or.inl hh.2⟩, Db.idealOf]
  rw [← aliasOf?_setAlias_eq_none] at hself
  rw [append_nil]
  refine ⟨keyUnique_setAlias hunique, ?_, hself, ?_, ?_, ?_, ?_, ?_⟩
  · intro ta' hta'
    obtain ⟨ta, hta, ⟨hp, rfl⟩ | ⟨_, rfl⟩⟩ := of_mem_setAlias hta'
    · obtain ⟨rfl, rfl⟩ := of_decide_eq_true hp
      exact hself
    · have hnone := h.aliasOf?_effectiveTagId (mem_of_mem_filter hta)
      rw [aliasOf?_setAlias_eq_none, aliasOf?_eq_none]
      exact fun hmem => aliasOf?_eq_none.1 hnone (map_subset _ (filter_subset_self _) hmem)
  · rw [append_nil]
    exact nodup_changedAliases hunique fun ta hta => (hchanged ta hta).2.1
  · intro x hx
    rw [append_nil] at hx
    exact (hin x hx).2.2
  · intro ta' hta' hd hmem
    obtain ⟨ta, hta, ⟨hp, rfl⟩ | ⟨_, rfl⟩⟩ := of_mem_setAlias hta'
    · exact absurd (of_decide_eq_true hp).1 (hin _ hmem).1
    · rw [h.aliases ta' (mem_of_mem_filter hta), hd]
      exact Or.inl (hin _ hmem).2.1
  · intro ta' hta' hnot
    obtain ⟨ta, hta, ⟨hp, rfl⟩ | ⟨hp, rfl⟩⟩ := of_mem_setAlias hta'
    · obtain ⟨rfl, rfl⟩ := of_decide_eq_true hp
      exact (idealOf_eq_none.2 hself).symm
    · rw [hout _ _ fun hh => hh.2.elim (fun hc => hp (decide_eq_true ⟨hc, hh.1⟩))
        fun hmem => hnot ⟨hh.1, hmem⟩]
      exact h.aliases ta' (mem_of_mem_filter hta)
  · simp only [append_nil]
    exact (Behind.of_resolved h).widen rfl rfl (Set.empty_subset _) (fun x hx _ => (hin x hx).2.1)
      hout

/-- **The triggers of a deleted alias return**, and leave the state resolved. -/
theorem afterDelete_spec :
    Succeeds (do
        let db ← tagAliasesAfterDeleteTrigger ⟨aliased, target, ideal, domain⟩
          (db.withoutAlias domain aliased target)
        repairTagMappingsIdealsDelete ⟨aliased, target, ideal, domain⟩ db) fun db' =>
      Resolved db' ∧ SameFacts (db.withoutAlias domain aliased target) db' := by
  have hself := aliasOf?_withoutAlias_self h hold
  have hstale := stale_delete h hold
  have hchanged := of_mem_changed_delete h hold
  set s := db.withoutAlias domain aliased target with hs
  have hupdate : Succeeds (updateTagAliases (aliasesOf domain aliased) none s)
      fun s' => Stale domain aliased (ideal.getD target) aliased [] [] s' ∧ SameFacts s s' := by
    refine (updateTagAliasesUpTo_spec (fun ta _ _ => (some_ne_none _).symm) (fun ta hta => ?_)
      (fun hne => ?_) hstale).mono fun s' hs' => ⟨hs'.1, hs'.2.1⟩
    · obtain ⟨_, hd, hc, he, _⟩ := hchanged ta hta
      exact ⟨hd, he, hc⟩
    · exact countAt_setAlias_lt_length (fun ta hta => (hchanged ta hta).2.2.1)
        (effective_ne_aliasedId h hold) hne
  refine Succeeds.bind (P := fun s' => ∃ s'', s' = setIdeals domain aliased none s'' ∧
    Stale domain aliased (ideal.getD target) aliased [] [] s'' ∧ SameFacts s s'')
    (hupdate.bind fun s' hs' => .ok ⟨s', rfl, hs'⟩) ?_
  rintro _ ⟨s', rfl, hstale', hfacts⟩
  refine (updateActiveTagMappings_spec _ _ _).mono fun db' hi => ⟨?_, ?_⟩
  · refine hstale'.resolved ?_ (fun d x => ?_) hi
    · rw [idealOf_eq_none, ← aliasNext_eq_none, hfacts.aliasNext_eq, aliasNext_eq_none]
      exact hself
    · obtain ⟨last, hlast⟩ := h.ends d x
      have hends : ∃ last, Ends (s.aliasNext d) x last := by
        by_cases hd : d = domain
        · subst hd
          refine hlast.unlink (fun y hy => ?_) (aliasNext_eq_none.2 hself)
          rw [Db.aliasNext, aliasOf?_withoutAlias_of_ne fun hh => hy hh.2, Db.aliasNext]
        · refine ⟨last, hlast.congr fun y => ?_⟩
          rw [Db.aliasNext, aliasOf?_withoutAlias_of_ne fun hh => hd hh.1, Db.aliasNext]
      obtain ⟨last', hlast'⟩ := hends
      exact ⟨last', hlast'.congr fun y => hfacts.aliasNext_eq d y⟩
  · exact hfacts.trans (((sameFacts_setIdeals ..).trans (sameFacts_setActive ..)).trans
      (.of_inheritedOnly hi))

end Delete

/-- A delete of an alias that is not there does nothing. -/
theorem withoutAlias_eq_self
    (hnone : ∀ ta ∈ db.tagAliases, ¬ isAlias domain aliased target ta) :
    db.withoutAlias domain aliased target = db := by
  have hfilter : db.tagAliases.filter (fun ta => !isAlias domain aliased target ta) =
      db.tagAliases :=
    filter_eq_self.2 fun ta hta => by simpa using hnone ta hta
  rw [Db.withoutAlias, hfilter]

/-- **The delete statement returns**, and leaves the state resolved. -/
theorem deleteTagAlias_spec (h : Resolved db) (domain : DomainId) (aliased target : TagId) :
    Succeeds (deleteTagAlias domain aliased target db) fun db' =>
      Resolved db' ∧ SameFacts (db.withoutAlias domain aliased target) db' := by
  have hunfold : deleteTagAlias domain aliased target db =
      (db.tagAliases.filter (isAlias domain aliased target)).foldlM
        (fun db old => do
          let db ← tagAliasesAfterDeleteTrigger old db
          repairTagMappingsIdealsDelete old db)
        (db.withoutAlias domain aliased target) := rfl
  rw [hunfold]
  by_cases hex : ∃ ta ∈ db.tagAliases, isAlias domain aliased target ta
  · obtain ⟨old, hold, hp⟩ := hex
    have hsingle := h.unique.filter_eq_singleton hold hp fun ta _ hp' => by
      obtain ⟨hd, ha, _⟩ := of_decide_eq_true hp
      obtain ⟨hd', ha', _⟩ := of_decide_eq_true hp'
      exact Prod.ext (hd'.trans hd.symm) (ha'.trans ha.symm)
    rw [hsingle, foldlM_cons]
    obtain ⟨rfl, rfl, rfl⟩ := of_decide_eq_true hp
    exact (afterDelete_spec h hold).bind fun db' hdb' => .ok hdb'
  · have hnone : ∀ ta ∈ db.tagAliases, ¬ isAlias domain aliased target ta :=
      fun ta hta hp => hex ⟨ta, hta, hp⟩
    rw [filter_eq_nil_iff.2 hnone, withoutAlias_eq_self hnone]
    exact .ok ⟨h, .refl db⟩

end Idhan.Tags
