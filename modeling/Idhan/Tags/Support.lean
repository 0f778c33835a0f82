import Idhan.Lib.DerivationChanges
import Idhan.Tags.ParentGraph

/-!
# The inherited rows as derivations

A row of `active_tag_mappings_parents` derives a tag of a record from another tag of it, along an
edge of `tag_parents` and with the active mappings as seeds, and `internal_count` is the number of
rows that derive its origin.  So the triggers `atmp_internal_on_insert` and
`atmp_internal_on_delete` are the steps of a table of derivations.

`Db.derivations`, `Db.Carries` and `Db.Gives` are the rows, the seeds and the edges of that table.
The rules of `Tags/Cascade` ask for an invariant of one trigger step; it is `Growing` for an insert
and `Shrinking` for a delete, and their step lemmas are those of the library
(`insertActiveTagMappingsParents_growing`, `deleteActiveTagMappingsParents_shrinking`).
-/

namespace Idhan.Tags

open Relation Idhan.Derivation List

/-- The effective tag of an active mapping, on its record. -/
def ActiveTagMapping.carried (m : ActiveTagMapping) : TagMapping :=
  ⟨m.recordId, m.effectiveTagId, m.tagDomainId⟩

/-- The row as a derivation. -/
def ActiveTagMappingParent.derivation (row : ActiveTagMappingParent) : Derivation TagMapping where
  node := ⟨row.recordId, row.tagId, row.tagDomainId⟩
  source := ⟨row.recordId, row.originId, row.tagDomainId⟩
  count := row.internalCount

open ActiveTagMappingParent (derivation)

/-- The rows of `active_tag_mappings_parents` as derivations. -/
def Db.derivations (db : Db) : List (Derivation TagMapping) :=
  db.activeTagMappingsParents.map derivation

theorem derivations_setRows (db : Db) (rows : List ActiveTagMappingParent) :
    Db.derivations { db with activeTagMappingsParents := rows } =
      rows.map derivation := rfl

/-- A record carries the effective tags of its active mappings. -/
def Db.Carries (db : Db) (x : TagMapping) : Prop :=
  ∃ m ∈ db.activeTagMappings, m.carried = x

/-- A record that has the tag of `x` inherits the tag of `y`. -/
def Db.Gives (db : Db) (x y : TagMapping) : Prop :=
  y.recordId = x.recordId ∧ y.tagDomainId = x.tagDomainId ∧
    db.Inherits x.tagDomainId x.tagId y.tagId

/-- A path along edges that stay on the record and in the domain. -/
theorem transGen_onRecord {E : DomainId → TagId → TagId → Prop} {x y : TagMapping} :
    TransGen (fun x y : TagMapping => y.recordId = x.recordId ∧ y.tagDomainId = x.tagDomainId ∧
        E x.tagDomainId x.tagId y.tagId) x y ↔
      y.recordId = x.recordId ∧ y.tagDomainId = x.tagDomainId ∧
        TransGen (E x.tagDomainId) x.tagId y.tagId := by
  constructor
  · intro h
    induction h with
    | single hstep => exact ⟨hstep.1, hstep.2.1, .single hstep.2.2⟩
    | tail _ hstep ih =>
      obtain ⟨hr, hd, hedge⟩ := hstep
      obtain ⟨hr', hd', hpath⟩ := ih
      exact ⟨hr.trans hr', hd.trans hd', hpath.tail (hd' ▸ hedge)⟩
  · obtain ⟨record, tag, domain⟩ := x
    obtain ⟨record', tag', domain'⟩ := y
    rintro ⟨hr, hd, hpath⟩
    simp only at hr hd hpath
    subst hr hd
    exact hpath.lift (fun t => (⟨record', t, domain'⟩ : TagMapping)) fun _ _ hedge =>
      ⟨rfl, rfl, hedge⟩

variable {base db db' : Db} {domain : DomainId} {record : RecordId} {tag : TagId}
variable {x y k : TagMapping} {new : TagParent} {r : Derivation TagMapping}
variable {p : ActiveTagMappingParent → Bool} {q : Derivation TagMapping → Bool}

theorem InheritedOnly.gives_eq (h : InheritedOnly db db') : db'.Gives = db.Gives := by
  obtain ⟨rows, deltas, rfl⟩ := h
  rfl

theorem InheritedOnly.carries_eq (h : InheritedOnly db db') : db'.Carries = db.Carries := by
  obtain ⟨rows, deltas, rfl⟩ := h
  rfl

theorem InheritedOnly.exact (hi : InheritedOnly base db)
    (h : Exact base.Gives base.Carries db.derivations) :
    Exact db.Gives db.Carries db.derivations := by
  rw [hi.gives_eq, hi.carries_eq]
  exact h

/-! ## The statements on the table of derivations -/

/-- The keys of the two tables. -/
def derivationKey (k : RecordId × TagId × TagId × DomainId) : TagMapping × TagMapping :=
  (⟨k.1, k.2.1, k.2.2.2⟩, ⟨k.1, k.2.2.1, k.2.2.2⟩)

theorem derivationKey_injective : Function.Injective derivationKey := by
  rintro ⟨r, t, o, d⟩ ⟨r', t', o', d'⟩ h
  simp only [derivationKey, Prod.mk.injEq, TagMapping.mk.injEq] at h
  obtain ⟨⟨rfl, rfl, rfl⟩, _, rfl, _⟩ := h
  rfl

/-- An insert into `active_tag_mappings_parents`, as an insert into the table of derivations. -/
theorem upsert_derivation (c : Option (ℕ → ℕ → ℕ)) (t rows : List ActiveTagMappingParent) :
    upsert Derivation.key (c.map Derivation.mergeCount) (t.map derivation)
        (rows.map derivation) =
      (upsert ActiveTagMappingParent.key (c.map ActiveTagMappingParent.mergeCount) t rows).map
        derivation := by
  have hkey : ∀ row : ActiveTagMappingParent, row.derivation.key = derivationKey row.key :=
    fun _ => rfl
  have hmerge : ∀ f (old new : ActiveTagMappingParent),
      Derivation.mergeCount f old.derivation new.derivation = (old.mergeCount f new).derivation :=
    fun _ _ _ => rfl
  exact upsert_map derivationKey_injective hkey hmerge c t rows

section

variable (c : Option (ℕ → ℕ → ℕ)) (rows : List ActiveTagMappingParent)

theorem derivations_upsertParents :
    Db.derivations { db with activeTagMappingsParents := (db.upsertParents c rows).table } =
      (upsert Derivation.key (c.map Derivation.mergeCount) db.derivations
        (rows.map derivation)).table :=
  (congrArg Upserted.table (upsert_derivation c db.activeTagMappingsParents rows)).symm

theorem derivation_inserted : (db.upsertParents c rows).inserted.map derivation =
      (upsert Derivation.key (c.map Derivation.mergeCount) db.derivations
        (rows.map derivation)).inserted :=
  (congrArg Upserted.inserted (upsert_derivation c db.activeTagMappingsParents rows)).symm

end

/-- The rows that a tag of a record gives, with the count `count`. -/
theorem exists_parent_iff (count : ℕ) :
    (∃ tp ∈ db.tagParents, tp.tagDomainId = domain ∧ tp.effectiveChildId = tag ∧
        derivation ⟨record, tp.effectiveParentId, tag, count, domain⟩ = r) ↔
      r.source = ⟨record, tag, domain⟩ ∧ r.count = count ∧
      db.Gives ⟨record, tag, domain⟩ r.node := by
  constructor
  · rintro ⟨tp, htp, hd, hc, rfl⟩
    exact ⟨rfl, rfl, rfl, rfl, tp, htp, hd, hc, rfl⟩
  · obtain ⟨⟨record', tag', domain'⟩, source, count'⟩ := r
    rintro ⟨⟨⟩, ⟨⟩, ⟨⟩, ⟨⟩, tp, htp, hd, hc, ⟨⟩⟩
    exact ⟨tp, htp, hd, hc, rfl⟩

/-- The trigger of an inserted row inserts the rows that it is the source of. -/
theorem raises_internalRows (new : ActiveTagMappingParent) :
    Raises db.Gives new.derivation
      ((db.internalRows new).map derivation) where
  unique := by
    rw [KeyUnique, List.map_map]
    refine Nodup.map_on (fun row hrow row' hrow' he => ?_) (List.nodup_dedup _)
    obtain ⟨tp, _, _, _, rfl⟩ := mem_internalRows.1 hrow
    obtain ⟨tp', _, _, _, rfl⟩ := mem_internalRows.1 hrow'
    have htag : tp.effectiveParentId = tp'.effectiveParentId :=
      congrArg (fun k : TagMapping × TagMapping => k.1.tagId) he
    rw [htag]
  mem := fun r => by
    refine Iff.trans ?_ (exists_parent_iff 1)
    rw [List.mem_map]
    constructor
    · rintro ⟨row, hrow, rfl⟩
      obtain ⟨tp, htp, hd, hc, rfl⟩ := mem_internalRows.1 hrow
      exact ⟨tp, htp, hd, hc, rfl⟩
    · rintro ⟨tp, htp, hd, hc, rfl⟩
      exact ⟨_, mem_internalRows.2 ⟨tp, htp, hd, hc, rfl⟩, rfl⟩

theorem fromTagOf_iff {old row : ActiveTagMappingParent} :
    old.fromTagOf row = true ↔ row.derivation.source = old.derivation.node := by
  simp only [ActiveTagMappingParent.fromTagOf, derivation, decide_eq_true_eq,
    TagMapping.mk.injEq]

theorem derivation_released (old : ActiveTagMappingParent) :
    (db.released old).map derivation =
      release old.derivation db.derivations := by
  rw [Db.released, release, Db.derivations, List.map_map, List.map_map]
  refine List.map_congr_left fun row _ => ?_
  simp only [Function.comp_apply, Bool.and_eq_true, decide_eq_true_eq, fromTagOf_iff]
  by_cases hs : row.derivation.source = old.derivation.node
  · rw [if_pos hs]
    -- a count of `0` stays as it is, with or without the guard of the `UPDATE`
    rcases Nat.eq_zero_or_pos row.internalCount with hzero | hpos
    · rw [if_neg (by simp [hzero])]
      simp [derivation, hzero]
    · rw [if_pos ⟨hpos, hs⟩]
      rfl
  · rw [if_neg hs, if_neg (fun h => hs h.2)]

theorem unreferenced_eq_spent (old row : ActiveTagMappingParent) :
    old.unreferenced row = spent old.derivation row.derivation := by
  rw [Bool.eq_iff_iff]
  simp only [ActiveTagMappingParent.unreferenced, spent, Bool.and_eq_true, decide_eq_true_eq,
    fromTagOf_iff]
  rfl

theorem map_derivation_filter (hpq : ∀ row, p row = q row.derivation)
    (rows : List ActiveTagMappingParent) :
    (rows.filter p).map derivation = (rows.map derivation).filter q := by
  rw [filter_map]
  refine congrArg _ (filter_congr fun row _ => ?_)
  exact hpq row

/-! ## Inserts and deletes -/

section Statements

variable {start settled : List (Derivation TagMapping)} {above : TagMapping → Prop}

/-- **An insert carries its new rows on**, to the rows above them. -/
theorem insertActiveTagMappingsParents_growing (hbase : InheritedOnly base db)
    (hstart : KeyUnique Derivation.key start) (hroom : Roomy base.Gives base.Carries start)
    (hup : ∀ o t, above o → base.Gives o t → above t)
    (h : Growing base.Gives base.Carries start above settled [] db.derivations)
    (c : Option (ℕ → ℕ → ℕ)) {rows : List ActiveTagMappingParent}
    (hf : Growing.Feeds base.Gives base.Carries above
      (rows.map derivation)) :
    Succeeds (insertActiveTagMappingsParents c rows db) fun db' =>
      InheritedOnly base db' ∧ Growing base.Gives base.Carries start above
        (upsert Derivation.key (c.map Derivation.mergeCount) db.derivations
          (rows.map derivation)).table [] db'.derivations := by
  refine (insertActiveTagMappingsParents_rule
    (I := fun pending s => InheritedOnly base s ∧ Growing base.Gives base.Carries start above
      (upsert Derivation.key (c.map Derivation.mergeCount) db.derivations
        (rows.map derivation)).table
      (pending.map derivation) s.derivations) ?_ ?_ ?_).mono fun s hs => hs.1
  · exact fun pending s deltas hs => ⟨hs.1.trans ⟨_, _, rfl⟩, hs.2⟩
  · rintro new rest s ⟨hi, hs⟩
    refine ⟨hi.trans (.setRows _ _), ?_⟩
    have hrows : Raises s.Gives _ _ := raises_internalRows new
    rw [hi.gives_eq] at hrows
    rw [Db.afterInsert, map_append, derivation_inserted, derivations_upsertParents]
    exact hs.step hstart hroom hup hrows
  · refine ⟨hbase.trans (.setRows _ _), ?_⟩
    rw [derivation_inserted, derivations_upsertParents]
    exact h.feed c hf

/-- **A delete carries the deleted rows on**, to the rows above them. -/
theorem deleteActiveTagMappingsParents_shrinking (hbase : InheritedOnly base db)
    (hseed : Unseeded base.Gives base.Carries start) (hpq : ∀ row, p row = q row.derivation)
    (h : Shrinking base.Gives base.Carries start (db.derivations.filter q)
      (db.derivations.filter fun r => !q r)) :
    Succeeds (deleteActiveTagMappingsParents p db) fun db' =>
      InheritedOnly base db' ∧ Exact base.Gives base.Carries db'.derivations := by
  refine (deleteActiveTagMappingsParents_rule
    (I := fun pending s => InheritedOnly base s ∧ Shrinking base.Gives base.Carries start
      (pending.map derivation) s.derivations) ?_ ?_ ?_).mono
    fun s hs => ⟨hs.1.1, hs.1.2.exact⟩
  · exact fun pending s deltas hs => ⟨hs.1.trans ⟨_, _, rfl⟩, hs.2⟩
  · rintro old rest s ⟨hi, hs⟩
    refine ⟨hi.trans (.setRows _ _), ?_⟩
    have hkept : ∀ row, (!old.unreferenced row) = !spent old.derivation row.derivation :=
      fun row => congrArg _ (unreferenced_eq_spent old row)
    rw [derivations_setRows, map_append, map_derivation_filter (unreferenced_eq_spent old),
      map_derivation_filter (q := fun r => !spent old.derivation r) hkept, derivation_released]
    exact hs.step hseed
  · refine ⟨hbase.trans (.setRows _ _), ?_⟩
    have hkept : ∀ row, (!p row) = !q row.derivation := fun row => congrArg _ (hpq row)
    rw [derivations_setRows, map_derivation_filter hpq,
      map_derivation_filter (q := fun r => !q r) hkept]
    exact h

end Statements

/-! ## The edges go up -/

/-- How many tags give `x`, along the edges of its domain. -/
noncomputable def Db.rank (db : Db) (x : TagMapping) : ℕ :=
  rankIn (db.Inherits x.tagDomainId) (db.tagParents.map TagParent.effectiveChildId) x.tagId

theorem rank_lt_of_gives (hacyclic : ∀ d, Acyclic (db.Inherits d)) (x y : TagMapping)
    (h : db.Gives x y) : db.rank x < db.rank y := by
  obtain ⟨_, hd, tp, htp, htd, hc, hp⟩ := h
  rw [Db.rank, Db.rank, hd]
  refine (hacyclic _).rankIn_lt ?_ ⟨tp, htp, htd, hc, hp⟩
  exact List.mem_map.2 ⟨tp, htp, hc⟩

/-! ## A new active mapping -/

/-- The state with a new active mapping, before any trigger. -/
def Db.withActive (db : Db) (m : TagMapping) : Db :=
  { db with activeTagMappings := db.activeTagMappings ++ [interceptParentMapping db m] }

theorem carries_withActive {m : TagMapping} :
    (db.withActive m).Carries x ↔ db.Carries x ∨ x = (interceptParentMapping db m).carried := by
  simp only [Db.Carries, Db.withActive, mem_append, mem_singleton, or_and_right, exists_or,
    exists_eq_left]
  exact or_congr_right eq_comm

theorem mem_derivation_parentRows :
    r ∈ (db.parentRows domain record tag).map derivation ↔
      r.source = ⟨record, tag, domain⟩ ∧ r.count = 0 ∧ db.Gives ⟨record, tag, domain⟩ r.node := by
  simp only [Db.parentRows, Db.parentsOf, List.map_map, List.mem_map, List.mem_filter,
    decide_eq_true_eq, Function.comp_apply, and_assoc]
  exact exists_parent_iff 0

/-- **A new active mapping** leaves the table exact. -/
theorem insertActiveTagMappings_exact {m : TagMapping}
    (h : Exact db.Gives db.Carries db.derivations) (hacyclic : ∀ d, Acyclic (db.Inherits d))
    (hm : m ∉ db.activeTagMappings.map ActiveTagMapping.key)
    (hroom : Roomy (db.withActive m).Gives (db.withActive m).Carries db.derivations) :
    Succeeds (insertActiveTagMappings [m] db) fun db' =>
      InheritedOnly (db.withActive m) db' ∧ Exact db'.Gives db'.Carries db'.derivations := by
  set seed := (interceptParentMapping db m).carried with hseed
  have hrank := rank_lt_of_gives hacyclic
  have hcarries : ∀ x, (db.withActive m).Carries x ↔ db.Carries x ∨ x = seed :=
    fun x => carries_withActive
  have hrows : ∀ r : Derivation TagMapping, r ∈ ((db.withActive m).parentRows seed.tagDomainId
      seed.recordId seed.tagId).map derivation ↔
      r.source = seed ∧ r.count = 0 ∧ db.Gives seed r.node :=
    fun r => mem_derivation_parentRows
  have hinsert := insertActiveTagMappingsParents_growing (InheritedOnly.refl (db.withActive m))
    h.unique hroom (fun o t ho hot => ho.tail hot) (h.growing_addSeed hrank hcarries) none
    (feeds_addSeed hrank hcarries hrows)
  unfold insertActiveTagMappings
  rw [map_singleton, upsert_singleton hm]
  refine Succeeds.bind (P := fun s => InheritedOnly (db.withActive m) s ∧
    Exact s.Gives s.Carries s.derivations) ?_ fun s ⟨hi, hs⟩ => ?_
  · rw [foldlM_cons]
    exact hinsert.bind fun s ⟨hi, hs⟩ => .ok ⟨hi, hi.exact (h.addSeed hcarries hrows hs)⟩
  · refine (collectTagCountStorage_spec _ s).mono fun s' hc => ?_
    obtain ⟨deltas, rfl, _⟩ := hc
    exact ⟨hi.trans ⟨_, _, rfl⟩, hs⟩

/-! ## An active mapping less -/

/-- The state without an active mapping, before any trigger. -/
def Db.withoutActive (db : Db) (k : TagMapping) : Db :=
  { db with activeTagMappings := db.activeTagMappings.filter fun m => !decide (m.key = k) }

/-- Without aliases the carried tags are those mapped. -/
theorem carried_eq_key {m : ActiveTagMapping} (h : m.idealTagId = none) : m.carried = m.key := by
  rw [ActiveTagMapping.carried, ActiveTagMapping.effectiveTagId, h]
  rfl

theorem carries_withoutActive (hideal : ∀ m ∈ db.activeTagMappings, m.idealTagId = none) :
    (db.withoutActive k).Carries x ↔ db.Carries x ∧ x ≠ k := by
  constructor
  · rintro ⟨m, hm, rfl⟩
    obtain ⟨hm, hk⟩ := List.mem_filter.1 hm
    refine ⟨⟨m, hm, rfl⟩, ?_⟩
    rw [carried_eq_key (hideal m hm)]
    simpa using hk
  · rintro ⟨⟨m, hm, rfl⟩, hk⟩
    rw [carried_eq_key (hideal m hm)] at hk ⊢
    exact ⟨m, List.mem_filter.2 ⟨hm, by simpa using hk⟩, carried_eq_key (hideal m hm)⟩

/-- **An active mapping less** leaves the table exact. -/
theorem deleteActiveTagMappings_exact
    (h : Exact db.Gives db.Carries db.derivations)
    (hunique : KeyUnique ActiveTagMapping.key db.activeTagMappings)
    (hideal : ∀ m ∈ db.activeTagMappings, m.idealTagId = none)
    (hk : k ∈ db.activeTagMappings.map ActiveTagMapping.key)
    (hseed : Unseeded (db.withoutActive k).Gives (db.withoutActive k).Carries db.derivations) :
    Succeeds (deleteActiveTagMappings (fun m => m.key = k) db) fun db' =>
      InheritedOnly (db.withoutActive k) db' ∧ Exact db'.Gives db'.Carries db'.derivations := by
  obtain ⟨m, hm, rfl⟩ := List.mem_map.1 hk
  have hremoved : (db.activeTagMappings.filter fun m' => m'.key = m.key) = [m] :=
    hunique.filter_eq_singleton hm (decide_eq_true rfl) fun _ _ hp => of_decide_eq_true hp
  have heff : m.effectiveTagId = m.tagId := by
    rw [ActiveTagMapping.effectiveTagId, hideal m hm]
    rfl
  have hpq : ∀ row : ActiveTagMappingParent,
      (decide (row.recordId = m.recordId ∧
        (row.originId = m.tagId ∨ row.originId = m.effectiveTagId) ∧
        row.tagDomainId = m.tagDomainId) && !row.internal) =
      decide (row.derivation.source = m.key ∧ row.derivation.count = 0) := by
    intro row
    rw [Bool.eq_iff_iff]
    simp [derivation, ActiveTagMappingParent.internal, ActiveTagMapping.key,
      heff]
  have hdelete := deleteActiveTagMappingsParents_shrinking
    (InheritedOnly.refl (db.withoutActive m.key))
    hseed hpq (h.shrinking_removeSeed fun x => carries_withoutActive hideal)
  unfold deleteActiveTagMappings
  rw [hremoved]
  refine Succeeds.bind (P := fun s => InheritedOnly (db.withoutActive m.key) s ∧
    Exact s.Gives s.Carries s.derivations) ?_ fun s ⟨hi, hs⟩ => ?_
  · rw [foldlM_cons]
    exact hdelete.bind fun s ⟨hi, hs⟩ => .ok ⟨hi, hi.exact hs⟩
  · refine (collectTagCountStorage_spec _ s).mono fun s' hc => ?_
    obtain ⟨deltas, rfl, _⟩ := hc
    exact ⟨hi.trans ⟨_, _, rfl⟩, hs⟩

/-! ## An edge less -/

/-- No alias has touched the parents. -/
def Db.PlainParents (db : Db) : Prop :=
  ∀ tp ∈ db.tagParents, tp.idealParentId = none ∧ tp.idealChildId = none

/-- Without aliases the edges are the rows of `tag_parents`. -/
theorem Db.PlainParents.gives_iff (h : db.PlainParents) :
    db.Gives x y ↔ y.recordId = x.recordId ∧ y.tagDomainId = x.tagDomainId ∧
      (y.tagId, x.tagId, x.tagDomainId) ∈ db.tagParents.map TagParent.key := by
  refine and_congr_right fun _ => and_congr_right fun _ => ?_
  rw [List.mem_map]
  refine exists_congr fun tp => and_congr_right fun htp => ?_
  rw [TagParent.effectiveChildId, TagParent.effectiveParentId, (h tp htp).1, (h tp htp).2,
    TagParent.key, Option.getD_none, Option.getD_none, Prod.mk.injEq, Prod.mk.injEq]
  tauto

/-- **An edge less** leaves the table exact. -/
theorem deleteTagParent_exact {parent child : TagId}
    (h : Exact db.Gives db.Carries db.derivations)
    (hunique : KeyUnique TagParent.key db.tagParents) (hplain : db.PlainParents)
    (hseed : Unseeded (db.withoutParent domain parent child).Gives
      (db.withoutParent domain parent child).Carries db.derivations) :
    Succeeds (deleteTagParent domain parent child db) fun db' =>
      Exact db'.Gives db'.Carries db'.derivations := by
  have hplain' : (db.withoutParent domain parent child).PlainParents :=
    fun tp htp => hplain tp (mem_of_mem_filter htp)
  unfold deleteTagParent
  by_cases hkey : (parent, child, domain) ∈ db.tagParents.map TagParent.key
  · obtain ⟨tp, htp, hk⟩ := List.mem_map.1 hkey
    have hremoved : (db.tagParents.filter fun tp => tp.key = (parent, child, domain)) = [tp] :=
      hunique.filter_eq_singleton htp (decide_eq_true hk) fun _ _ hp =>
        (of_decide_eq_true hp).trans hk.symm
    obtain ⟨rfl, rfl, rfl⟩ :
        tp.parentId = parent ∧ tp.childId = child ∧ tp.tagDomainId = domain := by
      simpa [TagParent.key] using hk
    rw [hremoved, foldlM_cons]
    -- the rows of the edge, on every record
    let q : TagMapping × TagMapping → Bool := fun k =>
      k.1.tagId = tp.parentId ∧ k.2.tagId = tp.childId ∧ k.1.tagDomainId = tp.tagDomainId
    have hpq : ∀ row : ActiveTagMappingParent,
        decide (row.tagId = tp.effectiveParentId ∧ row.originId = tp.childId ∧
          row.tagDomainId = tp.tagDomainId) = q row.derivation.key := by
      intro row
      rw [TagParent.effectiveParentId, (hplain tp htp).1]
      rfl
    have hedges : ∀ x y, (db.withoutParent tp.tagDomainId tp.parentId tp.childId).Gives x y ↔
        db.Gives x y ∧ ¬ q (y, x) := by
      intro x y
      have hkeys : (y.tagId, x.tagId, x.tagDomainId) ∈
          (db.withoutParent tp.tagDomainId tp.parentId tp.childId).tagParents.map TagParent.key ↔
          (y.tagId, x.tagId, x.tagDomainId) ∈ db.tagParents.map TagParent.key ∧
            (y.tagId, x.tagId, x.tagDomainId) ≠ (tp.parentId, tp.childId, tp.tagDomainId) :=
        (mem_map_key_filter (q := fun k =>
          decide (k ≠ (tp.parentId, tp.childId, tp.tagDomainId)))).trans
          (and_congr_right fun _ => decide_eq_true_iff)
      rw [hplain'.gives_iff, hplain.gives_iff, hkeys]
      simp only [q, decide_eq_true_eq, ne_eq, Prod.mk.injEq]
      constructor
      · rintro ⟨hr, hd, hmem, hne⟩
        exact ⟨⟨hr, hd, hmem⟩, fun hq => hne ⟨hq.1, hq.2.1, hd ▸ hq.2.2⟩⟩
      · rintro ⟨⟨hr, hd, hmem⟩, hne⟩
        exact ⟨hr, hd, hmem, fun hq => hne ⟨hq.1, hq.2.1, hd.trans hq.2.2⟩⟩
    have hdelete := deleteActiveTagMappingsParents_shrinking
      (InheritedOnly.refl (db.withoutParent tp.tagDomainId tp.parentId tp.childId)) hseed
      (q := fun r => q r.key) hpq (h.shrinking_removeEdges hedges)
    exact hdelete.bind fun s hs => .ok (hs.1.exact hs.2)
  · have hremoved : (db.tagParents.filter fun tp => tp.key = (parent, child, domain)) = [] :=
      filter_eq_nil_iff.2 fun tp htp hk =>
        hkey (List.mem_map.2 ⟨tp, htp, of_decide_eq_true hk⟩)
    have hkept : (db.tagParents.filter fun tp => tp.key ≠ (parent, child, domain)) =
        db.tagParents :=
      filter_eq_self.2 fun tp htp =>
        decide_eq_true fun hk => hkey (List.mem_map.2 ⟨tp, htp, hk⟩)
    rw [hremoved, hkept]
    exact .ok h

/-! ## A new edge -/

/-- The edge of the row `new`, on every record. -/
def TagParent.Links (new : TagParent) (x y : TagMapping) : Prop :=
  y.recordId = x.recordId ∧ x.tagDomainId = new.tagDomainId ∧ y.tagDomainId = new.tagDomainId ∧
    x.tagId = new.effectiveChildId ∧ y.tagId = new.effectiveParentId

theorem effectiveChildId_eq (hideal : new.idealChildId = none) :
    new.effectiveChildId = new.childId := by
  rw [TagParent.effectiveChildId, hideal]
  rfl

theorem mem_derivation_directRows (hideal : new.idealChildId = none) :
    r ∈ (directRows new db).map derivation ↔
      r.count = 0 ∧ new.Links r.source r.node ∧ db.Carries r.source := by
  simp only [directRows, List.map_map, List.mem_map, List.mem_filter, decide_eq_true_eq,
    Function.comp_apply, TagParent.Links, effectiveChildId_eq hideal]
  constructor
  · rintro ⟨m, ⟨hm, hd, he⟩, rfl⟩
    refine ⟨rfl, ⟨rfl, rfl, rfl, rfl, rfl⟩, m, hm, ?_⟩
    rw [ActiveTagMapping.carried, hd, he]
    rfl
  · obtain ⟨⟨record, tag, domain⟩, ⟨record', tag', domain'⟩, count⟩ := r
    rintro ⟨hcount, ⟨hr, hd', hd, hc, hp⟩, m, hm, hcarried⟩
    simp only [ActiveTagMapping.carried, TagMapping.mk.injEq] at hcount hr hd' hd hc hp hcarried
    obtain ⟨hmr, hme, hmd⟩ := hcarried
    refine ⟨m, ⟨hm, hmd.trans hd', hme.trans hc⟩, ?_⟩
    simp only [derivation, Derivation.mk.injEq, TagMapping.mk.injEq]
    exact ⟨⟨hmr.trans hr.symm, hp.symm, hd.symm⟩, ⟨hmr, hc.symm, hd'.symm⟩, hcount.symm⟩

/-- The records that inherit a tag, each as often as there are rows that give it the tag. -/
def Db.inheriting (db : Db) (domain : DomainId) (tag : TagId) : List RecordId :=
  (db.activeTagMappingsParents.filter fun atmp =>
    atmp.tagDomainId = domain ∧ atmp.tagId = tag).map (·.recordId)

theorem count_inheriting :
    (db.inheriting domain tag).count record = refs db.derivations ⟨record, tag, domain⟩ := by
  rw [Db.inheriting, count_eq_countP, countP_map, countP_filter, refs, Db.derivations,
    countP_map]
  refine countP_congr fun row _ => ?_
  simp [derivation]
  tauto

theorem ancestorRows_eq (new : TagParent) (db : Db) :
    ancestorRows new db = (db.inheriting new.tagDomainId new.effectiveChildId).dedup.map
      fun record => ⟨record, new.effectiveParentId, new.childId,
        (db.inheriting new.tagDomainId new.effectiveChildId).count record, new.tagDomainId⟩ := rfl

theorem mem_derivation_ancestorRows (hideal : new.idealChildId = none) :
    r ∈ (ancestorRows new db).map derivation ↔
      new.Links r.source r.node ∧ 0 < refs db.derivations r.source ∧
        r.count = refs db.derivations r.source := by
  simp only [ancestorRows_eq, List.map_map, List.mem_map, mem_dedup, Function.comp_apply,
    TagParent.Links, effectiveChildId_eq hideal, count_inheriting]
  have hmem : ∀ record, record ∈ db.inheriting new.tagDomainId new.childId ↔
      0 < refs db.derivations ⟨record, new.childId, new.tagDomainId⟩ := fun record => by
    rw [← count_inheriting, count_pos_iff]
  constructor
  · rintro ⟨record, hrecord, rfl⟩
    exact ⟨⟨rfl, rfl, rfl, rfl, rfl⟩, (hmem record).1 hrecord, rfl⟩
  · obtain ⟨⟨record, tag, domain⟩, ⟨record', tag', domain'⟩, count⟩ := r
    rintro ⟨⟨hr, hd', hd, hc, hp⟩, hpos, hcount⟩
    simp only at hr hd' hd hc hp hpos hcount
    subst hr hd' hd hc hp
    refine ⟨record, (hmem record).2 hpos, ?_⟩
    simp only [derivation, hcount]

theorem keyUnique_ancestorRows (new : TagParent) (db : Db) :
    KeyUnique Derivation.key
      ((ancestorRows new db).map derivation) := by
  rw [KeyUnique, ancestorRows_eq, List.map_map, List.map_map]
  refine (List.nodup_dedup _).map fun record record' he => ?_
  exact congrArg (fun k : TagMapping × TagMapping => k.1.recordId) he

/-- The state with a new row of `tag_parents`, before any trigger. -/
def Db.withParentRow (db : Db) (new : TagParent) : Db :=
  { db with tagParents := db.tagParents ++ [new] }

theorem gives_withParentRow (x y : TagMapping) :
    (db.withParentRow new).Gives x y ↔ db.Gives x y ∨ new.Links x y := by
  simp only [Db.Gives, Db.Inherits, Db.withParentRow, mem_append, mem_singleton,
    or_and_right, exists_or, exists_eq_left, and_or_left, TagParent.Links]
  refine or_congr_right ?_
  constructor
  · rintro ⟨hr, hd, hnew, hc, hp⟩
    exact ⟨hr, hnew.symm, hd.trans hnew.symm, hc.symm, hp.symm⟩
  · rintro ⟨hr, hd, hd', hc, hp⟩
    exact ⟨hr, hd'.trans hd.symm, hd.symm, hc.symm, hp.symm⟩

/-- What a tag of a record gives is on the same record, in the same domain. -/
theorem sameRecord_of_path (h : ReflTransGen db.Gives x y) :
    y.recordId = x.recordId ∧ y.tagDomainId = x.tagDomainId := by
  induction h with
  | refl => exact ⟨rfl, rfl⟩
  | tail _ hstep ih => exact ⟨hstep.1.trans ih.1, hstep.2.1.trans ih.2⟩

/-- **A new edge** leaves the table exact. -/
theorem insertParentMapping_exact (h : Exact db.Gives db.Carries db.derivations)
    (hacyclic : ∀ d, Acyclic (db.Inherits d))
    (hacyclic' : ∀ d, Acyclic ((db.withParentRow new).Inherits d))
    (hideal : new.idealChildId = none)
    (hnew : ¬ db.Inherits new.tagDomainId new.effectiveChildId new.effectiveParentId)
    (hroom : Roomy (db.withParentRow new).Gives (db.withParentRow new).Carries db.derivations) :
    Succeeds (insertParentMapping new (db.withParentRow new)) fun db' =>
      Exact db'.Gives db'.Carries db'.derivations := by
  set base := db.withParentRow new with hbase
  have hE : ∀ x y, base.Gives x y ↔ db.Gives x y ∨ new.Links x y := gives_withParentRow
  have hfresh : ∀ c p, new.Links c p → ¬ db.Gives c p := by
    rintro c p ⟨_, hd, _, hc, hp⟩ ⟨_, _, hedge⟩
    rw [hd, hc, hp] at hedge
    exact hnew hedge
  -- a child that its own edge reaches is on a cycle
  have hloop : ∀ c p, new.Links c p → ¬ Reached base.Gives new.Links c := by
    rintro c p hcp ⟨c', p', hcp', hpath⟩
    obtain ⟨hrec, _⟩ := sameRecord_of_path hpath
    have heq : c' = c := by
      obtain ⟨hr', hd', _, hc', _⟩ := hcp'
      obtain ⟨_, hd, _, hc, _⟩ := hcp
      obtain ⟨record, tag, domain⟩ := c
      obtain ⟨record', tag', domain'⟩ := c'
      simp only at hrec hr' hd' hc' hd hc
      rw [hc', hc, hd', hd, hrec, hr']
    subst heq
    exact not_transGen_self (rank_lt_of_gives hacyclic') _
      (TransGen.head' ((hE _ _).2 (Or.inr hcp')) hpath)
  have hup : ∀ o t, Reached base.Gives new.Links o → base.Gives o t →
      Reached base.Gives new.Links t :=
    fun _ _ => Reached.next
  have hdirect : ∀ r : Derivation TagMapping,
      r ∈ (directRows new base).map derivation ↔
        r.count = 0 ∧ new.Links r.source r.node ∧ base.Carries r.source :=
    fun r => mem_derivation_directRows hideal
  have hfirst := insertActiveTagMappingsParents_growing (InheritedOnly.refl base) h.unique hroom hup
    (h.growing_addEdges (rank_lt_of_gives hacyclic) hE hloop) none
    (feeds_addEdges hE hloop fun r hr => ⟨((hdirect r).1 hr).2.1, Or.inl ((hdirect r).1 hr).2.2⟩)
  refine hfirst.bind fun s ⟨hi, hs⟩ => ?_
  have hderived : ∀ r : Derivation TagMapping,
      r ∈ (ancestorRows new s).map derivation ↔
        new.Links r.source r.node ∧ 0 < refs s.derivations r.source ∧
          r.count = refs s.derivations r.source :=
    fun r => mem_derivation_ancestorRows hideal
  have hfeeds : Growing.Feeds base.Gives base.Carries (Reached base.Gives new.Links)
      ((ancestorRows new s).map derivation) := by
    refine feeds_addEdges hE hloop fun r hr => ?_
    obtain ⟨hlink, hpos, _⟩ := (hderived r).1 hr
    obtain ⟨o, ho⟩ := refs_pos.1 hpos
    exact ⟨hlink, Or.inr ⟨o, hs.bound _ _ ho⟩⟩
  have hsecond :=
    insertActiveTagMappingsParents_growing hi h.unique hroom hup hs (some (· + ·)) hfeeds
  refine hsecond.mono fun db' ⟨hi', hdb'⟩ => hi'.exact ?_
  exact h.addEdges hE hfresh hdirect hs (keyUnique_ancestorRows new s) hderived hdb'

end Idhan.Tags
