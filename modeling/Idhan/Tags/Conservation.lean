import Mathlib.Tactic.Ring
import Idhan.Tags.Runs

/-!
# The tag counts are conserved

For a tag of a live domain, the count of a column is what `tag_counts` holds and what is pending in
`tag_count_delta`, and it is to be the number of rows that have the tag.  The difference is the
*imbalance* of the state.  A statement that changes rows of a derived table puts the imbalance off
by its rows, and its collector takes that back; the statements of its row triggers are complete
statements in between, so they leave the imbalance alone (`SameBalance`).

`SameBalance.close` is that argument for any statement: rows changed, triggers run, the collector
takes the change.  For a statement that calls itself down the parent relation it is the step of an
induction on the depth.  `exec_sameBalance` has it for the statements of the API, and as the
imbalance of the empty tables is zero, the counts of every reached state are those of its rows
(`tagCounts_conserved`).
-/

namespace Idhan.Tags

open List
open ActiveTagMappingParent (change key mergeCount)

/-! ## The rows and their counts -/

/-- What the rows of the derived tables contribute to the counts. -/
def Db.contributions (db : Db) : List TagCountDelta :=
  db.activeTagMappings.flatMap (·.changes 1) ++ db.activeTagMappingsParents.map (·.change 1)

/-- The column of a row of `tag_counts`. -/
def Column.count : Column → TagCount → ℤ
  | .storage => TagCount.storageCount
  | .display => TagCount.displayCount

/-- The count of a tag in `tag_counts`, which has no row for a tag that was never counted. -/
def Db.counted (db : Db) (col : Column) (t : TagId) (d : DomainId) : ℤ :=
  ((db.tagCounts.find? fun c => c.key = (t, d)).map col.count).getD 0

/-- What is counted and pending, less what the rows contribute. -/
def Db.imbalance (db : Db) (col : Column) (t : TagId) (d : DomainId) : ℤ :=
  db.counted col t d + sumAt col t d db.tagCountDelta - sumAt col t d db.contributions

/-- The rows that a column counts. -/
def Db.rowsAt (db : Db) : Column → TagId → DomainId → ℕ
  | .storage, t, d => db.activeTagMappings.countP fun m => m.tagId = t ∧ m.tagDomainId = d
  | .display, t, d => db.activeTagMappingsFinal.countP fun m => m.tagId = t ∧ m.tagDomainId = d

/-- The tag under which a column counts an active mapping. -/
def Column.tagOf : Column → ActiveTagMapping → TagId
  | .storage => ActiveTagMapping.tagId
  | .display => ActiveTagMapping.effectiveTagId

section Contributions

variable (col : Column) (t : TagId) (d : DomainId)

theorem group_eq_iff {c : TagCountDelta} : c.group = (d, t) ↔ c.tagId = t ∧ c.tagDomainId = d := by
  rw [TagCountDelta.group, Prod.mk.injEq, and_comm]

theorem sumAt_changes (s : ℤ) (m : ActiveTagMapping) :
    sumAt col t d (m.changes s) = if col.tagOf m = t ∧ m.tagDomainId = d then s else 0 := by
  rw [ActiveTagMapping.changes, sumAt_cons, sumAt_cons, sumAt_nil]
  simp only [group_eq_iff]
  cases col with
  | storage =>
    simp only [Column.delta, ite_self, add_zero]
    exact if_congr Iff.rfl rfl rfl
  | display =>
    simp only [Column.delta, ite_self, add_zero, zero_add]
    exact if_congr Iff.rfl rfl rfl

theorem sumAt_flatMap_changes (s : ℤ) (l : List ActiveTagMapping) :
    sumAt col t d (l.flatMap (·.changes s)) =
      s * l.countP fun m => col.tagOf m = t ∧ m.tagDomainId = d := by
  induction l with
  | nil => simp
  | cons m l ih =>
    rw [flatMap_cons, sumAt_append, ih, sumAt_changes, countP_cons]
    simp only [decide_eq_true_eq]
    split_ifs
    · push_cast
      ring
    · simp

theorem sumAt_map_change (s : ℤ) (l : List ActiveTagMappingParent) :
    sumAt col t d (l.map (·.change s)) = match col with
      | .storage => 0
      | .display => s * l.countP fun p => p.tagId = t ∧ p.tagDomainId = d := by
  induction l with
  | nil => cases col <;> simp
  | cons p l ih =>
    rw [map_cons, sumAt_cons, ih]
    simp only [group_eq_iff, change]
    cases col with
    | storage => simp only [Column.delta, ite_self, add_zero]
    | display =>
      rw [countP_cons]
      simp only [Column.delta, decide_eq_true_eq]
      split_ifs
      · push_cast
        ring
      · simp

/-- The view shows every active mapping under its effective tag, and every inherited row. -/
theorem countP_activeTagMappingsFinal (db : Db) :
    (db.activeTagMappingsFinal.countP fun m => m.tagId = t ∧ m.tagDomainId = d) =
      (db.activeTagMappings.countP fun m => m.effectiveTagId = t ∧ m.tagDomainId = d) +
        db.activeTagMappingsParents.countP fun p => p.tagId = t ∧ p.tagDomainId = d := by
  unfold Db.activeTagMappingsFinal
  rw [countP_append, countP_append, countP_map, countP_map, countP_map,
    countP_eq_countP_filter_add db.activeTagMappings
      (fun m => decide (m.effectiveTagId = t ∧ m.tagDomainId = d)) fun m => m.idealTagId.isNone]
  have hsome : (fun m : ActiveTagMapping => !m.idealTagId.isNone) = fun m => m.idealTagId.isSome :=
    funext fun m => Option.not_isNone _
  rw [← hsome]
  refine congrArg (· + _) (congrArg (· + _) (countP_congr fun m hm => ?_))
  have hnone : m.idealTagId = none := Option.isNone_iff_eq_none.1 (mem_filter.1 hm).2
  simp [ActiveTagMapping.effectiveTagId, hnone]

/-- The contributions to a column are the rows that it counts. -/
theorem sumAt_contributions (db : Db) :
    sumAt col t d db.contributions = db.rowsAt col t d := by
  rw [Db.contributions, sumAt_append, sumAt_flatMap_changes, sumAt_map_change, one_mul]
  cases col with
  | storage => exact add_zero _
  | display =>
    rw [one_mul, Db.rowsAt, countP_activeTagMappingsFinal]
    push_cast
    rfl

end Contributions

/-! ## The imbalance of a state -/

/-- The imbalance of a live domain has not changed. -/
def SameBalance (db db' : Db) : Prop :=
  db'.tagDomains = db.tagDomains ∧
    ∀ col t d, d ∈ db.tagDomains → db'.imbalance col t d = db.imbalance col t d

namespace SameBalance

variable {db start s s' : Db} {changes : List TagCountDelta}

theorem refl (db : Db) : SameBalance db db := ⟨rfl, fun _ _ _ _ => rfl⟩

theorem trans (h : SameBalance db s) (h' : SameBalance s s') : SameBalance db s' :=
  ⟨h'.1.trans h.1, fun col t d hd => (h'.2 col t d (h.1 ▸ hd)).trans (h.2 col t d hd)⟩

/-- A loop of statements that keep the balance. -/
theorem foldlM {β : Type} {f : Db → β → Except DbError Db} {l : List β} {db : Db}
    (hf : ∀ b ∈ l, ∀ s, Returns (f s b) (SameBalance s)) :
    Returns (l.foldlM f db) (SameBalance db) :=
  Returns.foldlM (refl db) fun b hb s hs => (hf b hb s).mono fun _ h => hs.trans h

/-- A change of the base facts only. -/
theorem of_eq (hd : s.tagDomains = db.tagDomains) (hc : s.tagCounts = db.tagCounts)
    (hp : s.tagCountDelta = db.tagCountDelta) (ha : s.activeTagMappings = db.activeTagMappings)
    (hi : s.activeTagMappingsParents = db.activeTagMappingsParents) : SameBalance db s := by
  refine ⟨hd, fun col t d _ => ?_⟩
  unfold Db.imbalance Db.counted Db.contributions
  rw [hc, hp, ha, hi]

/-- **A statement on a derived table**: its rows change, its row triggers run, and its collector
takes the change. -/
theorem close (hcollect : Collected changes s s') (hnested : SameBalance start s)
    (hd : start.tagDomains = db.tagDomains) (hc : start.tagCounts = db.tagCounts)
    (hp : start.tagCountDelta = db.tagCountDelta)
    (hrows : ∀ col t d, sumAt col t d start.contributions =
      sumAt col t d db.contributions + sumAt col t d changes) : SameBalance db s' := by
  obtain ⟨rows, rfl, hsum⟩ := hcollect
  refine ⟨hnested.1.trans hd, fun col t d hlive => ?_⟩
  have hlive' : d ∈ s.tagDomains := by rwa [hnested.1, hd]
  have hstart := hnested.2 col t d (by rwa [hd])
  have hdelta := hsum col t d hlive'
  have hcontrib := hrows col t d
  have hcounted : start.counted col t d = db.counted col t d := by
    unfold Db.counted
    rw [hc]
  unfold Db.imbalance at hstart ⊢
  rw [hcounted, hp] at hstart
  show s.counted col t d + sumAt col t d (s.tagCountDelta ++ rows) - sumAt col t d s.contributions =
    _
  rw [sumAt_append]
  omega

/-- The same for a statement on `active_tag_mappings_parents`. -/
theorem close_parents {rows : List ActiveTagMappingParent} (hcollect : Collected changes s s')
    (hnested : SameBalance { db with activeTagMappingsParents := rows } s)
    (hrows : ∀ col t d, sumAt col t d (rows.map (·.change 1)) =
      sumAt col t d (db.activeTagMappingsParents.map (·.change 1)) + sumAt col t d changes) :
    SameBalance db s' := by
  refine close hcollect hnested rfl rfl rfl fun col t d => ?_
  unfold Db.contributions
  rw [sumAt_append, sumAt_append, hrows, add_assoc]

/-- The same for a statement on `active_tag_mappings`. -/
theorem close_active {rows : List ActiveTagMapping} (hcollect : Collected changes s s')
    (hnested : SameBalance { db with activeTagMappings := rows } s)
    (hrows : ∀ col t d, sumAt col t d (rows.flatMap (·.changes 1)) =
      sumAt col t d (db.activeTagMappings.flatMap (·.changes 1)) + sumAt col t d changes) :
    SameBalance db s' := by
  refine close hcollect hnested rfl rfl rfl fun col t d => ?_
  unfold Db.contributions
  rw [sumAt_append, sumAt_append, hrows]
  ring

/-- A collector that takes nothing. -/
theorem of_collected_zero (hz : ∀ col t d, sumAt col t d changes = 0)
    (hcollect : Collected changes s s') : SameBalance s s' :=
  close hcollect (refl s) rfl rfl rfl fun col t d => by rw [hz, add_zero]

end SameBalance

/-! ## The statements on the inherited rows -/

/-- The contributions of inherited rows depend on their keys only. -/
theorem sumAt_map_change_of_key {l l' : List ActiveTagMappingParent}
    (h : l'.map key = l.map key) (col : Column)
    (t : TagId) (d : DomainId) (s : ℤ) :
    sumAt col t d (l'.map (·.change s)) = sumAt col t d (l.map (·.change s)) := by
  have hchange : ∀ l : List ActiveTagMappingParent, l.map (·.change s) =
      (l.map key).map fun k => ⟨k.2.1, k.2.2.2, 0, s⟩ := fun l => by
    rw [map_map]
    rfl
  rw [hchange, hchange, h]

theorem sumAt_map_change_neg (col : Column) (t : TagId) (d : DomainId)
    (l : List ActiveTagMappingParent) :
    sumAt col t d (l.map (·.change (-1))) = - sumAt col t d (l.map (·.change 1)) := by
  rw [sumAt_map_change, sumAt_map_change]
  cases col with
  | storage => rfl
  | display => ring

/-- Updated rows that keep their keys contribute nothing. -/
theorem sumAt_update_of_key {old new : List ActiveTagMappingParent}
    (h : new.map key = old.map key) (col : Column)
    (t : TagId) (d : DomainId) :
    sumAt col t d (Transition.parentChanges (.update old new)) = 0 := by
  rw [Transition.parentChanges, sumAt_append, sumAt_map_change_neg, sumAt_map_change_of_key h]
  ring

/-- The contributions of the rows after an upsert: those of the appended rows are new. -/
theorem sumAt_upsertParents {onConflict : Option (ActiveTagMappingParent → ActiveTagMappingParent →
      ActiveTagMappingParent)} (hc : KeepsKey key onConflict)
    (rows t' : List ActiveTagMappingParent) (col : Column) (t : TagId) (d : DomainId) :
    sumAt col t d ((upsert key onConflict t' rows).table.map (·.change 1)) =
      sumAt col t d (t'.map (·.change 1)) + sumAt col t d
        ((upsert key onConflict t' rows).inserted.map (·.change 1)) := by
  rw [sumAt_map_change, sumAt_map_change, sumAt_map_change]
  cases col with
  | storage => rfl
  | display =>
    have hcount := countP_upsert_table hc t' rows
      fun k => decide (k.2.1 = t ∧ k.2.2.2 = d)
    simp only [one_mul]
    exact_mod_cast hcount

theorem insertParentsUpTo_sameBalance (depth : ℕ) (onConflict : Option (ℕ → ℕ → ℕ))
    (rows : List ActiveTagMappingParent) (db : Db) :
    Returns (insertParentsUpTo depth onConflict rows db) (SameBalance db) := by
  induction depth generalizing onConflict rows db with
  | zero => exact .error
  | succ depth ih =>
    set result := db.upsertParents onConflict rows with hresult
    set start : Db := { db with activeTagMappingsParents := result.table } with hstart
    refine Returns.bind (P := SameBalance start)
      (SameBalance.foldlM fun new _ s => ih _ _ s) fun s hs => ?_
    refine Returns.bind (P := SameBalance start) ?_ fun s' hs' => ?_
    · split_ifs
      · refine (collectTagCountParents_spec _ s).returns.mono fun s' hc => hs.trans ?_
        refine .of_collected_zero (fun col t d => sumAt_update_of_key ?_ col t d) hc
        rw [map_map, map_map]
        exact map_congr_left fun r hr =>
          key_of_mem_upsert_updated (keepsKey_mergeCount onConflict) hr
      · exact .ok hs
    · refine (collectTagCountParents_spec _ s').returns.mono fun s'' hc => ?_
      exact .close_parents hc hs' (sumAt_upsertParents (keepsKey_mergeCount onConflict) _ _)

theorem updateInternalCount_sameBalance (p : ActiveTagMappingParent → Bool) (f : ℕ → ℕ) (db : Db) :
    Returns (updateInternalCount p f db) (SameBalance db) := by
  unfold updateInternalCount
  refine (collectTagCountParents_spec _ _).returns.mono fun s hc => ?_
  refine .close_parents hc (.refl _) fun col t d => ?_
  rw [sumAt_update_of_key, add_zero]
  · refine sumAt_map_change_of_key (map_map_eq (fun row => ?_) _) col t d 1
    split_ifs <;> rfl
  · rw [map_map]
    rfl

theorem sumAt_filter_change (p : ActiveTagMappingParent → Bool) (l : List ActiveTagMappingParent)
    (col : Column) (t : TagId) (d : DomainId) :
    sumAt col t d ((l.filter fun row => !p row).map (·.change 1)) =
      sumAt col t d (l.map (·.change 1)) + sumAt col t d ((l.filter p).map (·.change (-1))) := by
  rw [sumAt_map_change, sumAt_map_change, sumAt_map_change]
  cases col with
  | storage => rfl
  | display =>
    have hsplit := countP_eq_countP_filter_add l
      (fun row => decide (row.tagId = t ∧ row.tagDomainId = d)) p
    simp only [hsplit]
    push_cast
    ring

theorem deleteParentsUpTo_sameBalance (depth : ℕ) (p : ActiveTagMappingParent → Bool) (db : Db) :
    Returns (deleteParentsUpTo depth p db) (SameBalance db) := by
  induction depth generalizing p db with
  | zero => exact .error
  | succ depth ih =>
    refine Returns.bind (SameBalance.foldlM fun old _ s => ?_) fun s hs => ?_
    · refine (updateInternalCount_sameBalance _ _ s).bind fun s' hs' => ?_
      exact (ih _ s').mono fun _ h => hs'.trans h
    · refine (collectTagCountParents_spec _ s).returns.mono fun s' hc => ?_
      exact .close_parents hc hs (sumAt_filter_change p _)

theorem repairParentsOnAlias_sameBalance (newAliases : List TagAlias) (db : Db) :
    Returns (repairParentsOnAlias newAliases db) (SameBalance db) := by
  unfold repairParentsOnAlias
  split_ifs
  · refine (collect_spec (Or.inl rfl) _).returns.mono fun s hc => ?_
    refine .close_parents hc (.refl _) fun col t d => ?_
    have hkept := sumAt_filter_change (fun p => (p.newAlias? newAliases).isSome)
      db.activeTagMappingsParents col t d
    simp only [Option.not_isSome] at hkept
    have hkeeps : KeepsKey key
        (some (mergeCount max)) := keepsKey_some fun _ _ => rfl
    rw [sumAt_upsertParents hkeeps, hkept, sumAt_append, sumAt_groupDeltas,
      sumAt_groupDeltas, add_assoc]
  · exact .ok (.refl db)

/-! ## The statements on the active mappings -/

theorem insertActiveTagMappings_sameBalance (rows : List TagMapping) (db : Db) :
    Returns (insertActiveTagMappings rows db) (SameBalance db) := by
  refine Returns.bind (SameBalance.foldlM fun new _ s => insertParentsUpTo_sameBalance _ _ _ s)
    fun s hs => ?_
  refine (collectTagCountStorage_spec _ s).returns.mono fun s' hc => ?_
  refine .close_active hc hs fun col t d => ?_
  rw [upsert_nothing_table, flatMap_append, sumAt_append]
  rfl

theorem sumAt_filter_changes (p : ActiveTagMapping → Bool) (l : List ActiveTagMapping)
    (col : Column) (t : TagId) (d : DomainId) :
    sumAt col t d ((l.filter fun m => !p m).flatMap (·.changes 1)) =
      sumAt col t d (l.flatMap (·.changes 1)) +
        sumAt col t d ((l.filter p).flatMap (·.changes (-1))) := by
  rw [sumAt_flatMap_changes, sumAt_flatMap_changes, sumAt_flatMap_changes,
    countP_eq_countP_filter_add l _ p]
  push_cast
  ring

theorem deleteActiveTagMappings_sameBalance (p : ActiveTagMapping → Bool) (db : Db) :
    Returns (deleteActiveTagMappings p db) (SameBalance db) := by
  refine Returns.bind (SameBalance.foldlM fun old _ s => deleteParentsUpTo_sameBalance _ _ s)
    fun s hs => ?_
  refine (collectTagCountStorage_spec _ s).returns.mono fun s' hc => ?_
  exact .close_active hc hs (sumAt_filter_changes p _)

theorem repropagateParentsOnIdealChange_sameBalance (old new : ActiveTagMapping) (db : Db) :
    Returns (repropagateParentsOnIdealChange old new db) (SameBalance db) := by
  unfold repropagateParentsOnIdealChange
  have hinsert : ∀ s, SameBalance db s → Returns (insertActiveTagMappingsParents none
      (s.parentRows new.tagDomainId new.recordId new.effectiveTagId) s) (SameBalance db) :=
    fun s hs => (insertParentsUpTo_sameBalance _ _ _ s).mono fun _ h => hs.trans h
  split_ifs
  · exact .ok (.refl db)
  · exact hinsert db (.refl db)
  · exact (deleteParentsUpTo_sameBalance _ _ db).bind hinsert

/-- The contributions after an update: those of the rows that it changes are exchanged. -/
theorem sumAt_map_changes (p : ActiveTagMapping → Bool) (f : ActiveTagMapping → ActiveTagMapping)
    (l : List ActiveTagMapping) (col : Column) (t : TagId) (d : DomainId) :
    sumAt col t d ((l.map fun m => if p m then f m else m).flatMap (·.changes 1)) =
      sumAt col t d (l.flatMap (·.changes 1)) +
        sumAt col t d (Transition.storageChanges (.update (l.filter p) ((l.filter p).map f))) := by
  have hsplit : sumAt col t d ((l.map fun m => if p m then f m else m).flatMap (·.changes 1)) =
      sumAt col t d ((l.filter fun m => !p m).flatMap (·.changes 1)) +
        sumAt col t d (((l.filter p).map f).flatMap (·.changes 1)) := by
    induction l with
    | nil => rfl
    | cons m l ih =>
      rw [map_cons, flatMap_cons, sumAt_append, ih]
      cases hp : p m with
      | true =>
        simp only [if_true, filter_cons, hp, Bool.not_true, if_neg Bool.false_ne_true,
          map_cons, flatMap_cons, sumAt_append]
        ring
      | false =>
        simp only [if_neg Bool.false_ne_true, filter_cons, hp, Bool.not_false, if_true,
          flatMap_cons, sumAt_append]
        ring
  rw [hsplit, sumAt_filter_changes, Transition.storageChanges, sumAt_append, add_assoc]

theorem updateActiveTagMappings_sameBalance (p : ActiveTagMapping → Bool) (ideal : Option TagId)
    (db : Db) : Returns (updateActiveTagMappings p ideal db) (SameBalance db) := by
  refine Returns.bind (SameBalance.foldlM fun m _ s =>
    repropagateParentsOnIdealChange_sameBalance _ _ s) fun s hs => ?_
  refine (collectTagCountStorage_spec _ s).returns.mono fun s' hc => ?_
  exact .close_active hc hs (sumAt_map_changes p _ _)

/-! ## The alias statements -/

theorem updateTagAliasesUpTo_sameBalance (depth : ℕ) (p : TagAlias → Bool) (ideal : Option TagId)
    (db : Db) : Returns (updateTagAliasesUpTo depth p ideal db) (SameBalance db) := by
  induction depth generalizing p ideal db with
  | zero => exact .error
  | succ depth ih =>
    have htrigger : ∀ row s, Returns
        (tagAliasesAfterUpdateTrigger (updateTagAliasesUpTo depth) row s) (SameBalance s) := by
      intro row s
      unfold tagAliasesAfterUpdateTrigger
      split_ifs
      · exact .error
      · exact (ih _ _ s).bind fun s' hs' => .ok (hs'.trans (.of_eq rfl rfl rfl rfl rfl))
    rw [updateTagAliasesUpTo]
    dsimp only
    split_ifs
    · exact .error
    · refine Returns.bind (SameBalance.foldlM fun ta _ s => ?_) fun s hs => ?_
      · refine (htrigger _ s).bind fun s' hs' => ?_
        exact (updateActiveTagMappings_sameBalance _ _ s').mono fun _ h => hs'.trans h
      · refine (repairParentsOnAlias_sameBalance _ s).mono fun s' hs' => ?_
        exact (SameBalance.of_eq rfl rfl rfl rfl rfl).trans (hs.trans hs')

theorem tagAliasesAfterInsert_sameBalance (new : TagAlias) (db : Db) :
    Returns (tagAliasesAfterInsert new db) (SameBalance db) := by
  have htrigger : Returns (tagAliasesAfterInsertTrigger new db) (SameBalance db) :=
    (updateTagAliasesUpTo_sameBalance _ _ _ db).bind fun s hs =>
      .ok (hs.trans (.of_eq rfl rfl rfl rfl rfl))
  refine htrigger.bind fun s hs => ?_
  refine (updateActiveTagMappings_sameBalance _ _ s).bind fun s' hs' => ?_
  exact (repairParentsOnAlias_sameBalance _ s').mono fun _ h => (hs.trans hs').trans h

theorem insertTagAlias_sameBalance (domain : DomainId) (aliased target : TagId) (db : Db) :
    Returns (insertTagAlias domain aliased target db) (SameBalance db) := by
  unfold insertTagAlias
  by_cases hd : domain ∈ db.tagDomains
  · rw [if_neg (not_not.2 hd)]
    refine Returns.bind (P := fun _ => True) (fun _ _ => trivial) fun new _ => ?_
    split_ifs
    · exact .error
    · exact repairParentsOnAlias_sameBalance _ db
    · exact (tagAliasesAfterInsert_sameBalance new _).mono fun _ h =>
        (SameBalance.of_eq rfl rfl rfl rfl rfl).trans h
  · rw [if_pos hd]
    exact .error

theorem deleteTagAlias_sameBalance (domain : DomainId) (aliased target : TagId) (db : Db) :
    Returns (deleteTagAlias domain aliased target db) (SameBalance db) := by
  refine (SameBalance.foldlM fun old _ s => ?_).mono fun _ h =>
    (SameBalance.of_eq rfl rfl rfl rfl rfl).trans h
  have htrigger : Returns (tagAliasesAfterDeleteTrigger old s) (SameBalance s) :=
    (updateTagAliasesUpTo_sameBalance _ _ _ s).bind fun s' hs' =>
      .ok (hs'.trans (.of_eq rfl rfl rfl rfl rfl))
  refine htrigger.bind fun s' hs' => ?_
  exact (updateActiveTagMappings_sameBalance _ _ s').mono fun _ h => hs'.trans h

/-! ## The count pass -/

section Upsert

/-- The value of a column under a key. -/
def valueAt (col : Column) (counts : List TagCount) (k : TagId × DomainId) : ℤ :=
  ((counts.find? fun c => c.key = k).map col.count).getD 0

variable (col : Column)

theorem valueAt_append {counts : List TagCount} {new : TagCount}
    (hnew : new.key ∉ counts.map TagCount.key) (k : TagId × DomainId) :
    valueAt col (counts ++ [new]) k =
      valueAt col counts k + if new.key = k then col.count new else 0 := by
  unfold valueAt
  rw [find?_append]
  by_cases hk : new.key = k
  · subst hk
    rw [find?_key_eq_none.2 hnew]
    simp
  · simp [hk]

theorem valueAt_merge {counts : List TagCount} {old new : TagCount} (hold : old ∈ counts)
    (hk : old.key = new.key) (k : TagId × DomainId) :
    valueAt col (counts.map fun c => if c.key = new.key then c.add new else c) k =
      valueAt col counts k + if new.key = k then col.count new else 0 := by
  unfold valueAt
  have hkeep : ∀ c : TagCount, (if c.key = new.key then c.add new else c).key = c.key := fun c => by
    split_ifs <;> rfl
  rw [find?_map, Option.map_map]
  simp only [Function.comp_def, hkeep]
  cases hf : counts.find? fun c => c.key = k with
  | none =>
    rw [if_neg]
    · rfl
    · rintro rfl
      exact find?_key_eq_none.1 hf (hk ▸ mem_map_of_mem hold)
  | some c =>
    obtain ⟨_, hck⟩ := find?_key_eq_some hf
    subst hck
    simp only [Option.map_some, Option.getD_some, eq_comm (a := new.key)]
    split_ifs
    · cases col <;> rfl
    · exact (add_zero _).symm

/-- Adding rows to `tag_counts` adds their values. -/
theorem valueAt_upsert (counts rows : List TagCount) (k : TagId × DomainId) :
    valueAt col (upsert TagCount.key (some TagCount.add) counts rows).table k =
      valueAt col counts k + (rows.map fun c => if c.key = k then col.count c else 0).sum := by
  have h := upsert_induction TagCount.key (some TagCount.add) counts rows
    (P := fun rest s => valueAt col s.table k +
      (rest.map fun c => if c.key = k then col.count c else 0).sum =
        valueAt col counts k + (rows.map fun c => if c.key = k then col.count c else 0).sum)
    rfl ?_ ?_ ?_
  · simpa using h
  · intro new rest s _ hs hnew
    rw [← hs, valueAt_append col hnew, map_cons, sum_cons, add_assoc]
  · intro _ _ _ _ _ _ _ _ hf
    cases hf
  · intro new rest s old f _ hs hold hk hf
    cases hf
    rw [← hs, valueAt_merge col hold hk, map_cons, sum_cons, add_assoc]

/-- The sums that the pass adds are those of the pending rows. -/
theorem sum_pendingCounts (pending : List TagCountDelta) (t : TagId) (d : DomainId) :
    ((pendingCounts pending).map fun c => if c.key = (t, d) then col.count c else 0).sum =
      sumAt col t d pending := by
  rw [← sumAt_groupDeltas, ← sumAt_filter_nonzero, pendingCounts, map_map]
  induction (groupDeltas pending).filter TagCountDelta.nonzero with
  | nil => rfl
  | cons c l ih =>
    rw [map_cons, sum_cons, ih, sumAt_cons]
    refine congrArg (· + _) (if_congr ?_ ?_ rfl)
    · rw [group_eq_iff]
      exact Prod.mk.injEq .. ▸ Iff.rfl
    · cases col <;> rfl

end Upsert

theorem accumulateTagCountDelta_sameBalance (db : Db) :
    Returns (accumulateTagCountDelta db) (SameBalance db) := by
  intro db' h
  rw [accumulateTagCountDelta_eq_ok h]
  refine ⟨rfl, fun col t d _ => ?_⟩
  have hvalue := valueAt_upsert col db.tagCounts (pendingCounts db.tagCountDelta) (t, d)
  rw [sum_pendingCounts] at hvalue
  show valueAt col _ (t, d) + 0 - _ = valueAt col _ (t, d) + _ - _
  rw [hvalue, add_zero]
  rfl

/-! ## Every statement -/

theorem insertTagParent_sameBalance (domain : DomainId) (parent child : TagId) (db : Db) :
    Returns (insertTagParent domain parent child db) (SameBalance db) := by
  unfold insertTagParent
  by_cases hd : domain ∈ db.tagDomains
  · rw [if_neg (not_not.2 hd)]
    refine Returns.bind (P := fun _ => True) (fun _ _ => trivial) fun _ _ => ?_
    split_ifs
    · exact .ok (.refl db)
    · refine (insertParentsUpTo_sameBalance _ _ _ _).bind fun s hs => ?_
      exact (insertParentsUpTo_sameBalance _ _ _ s).mono fun _ h =>
        (SameBalance.of_eq rfl rfl rfl rfl rfl).trans (hs.trans h)
  · rw [if_pos hd]
    exact .error

/-- **No statement changes the imbalance.** -/
theorem exec_sameBalance (op : Op) (db : Db) : Returns (exec op db) (SameBalance db) := by
  cases op with
  | insertTagMappings rows =>
    show Returns (insertTagMappings rows db) _
    unfold insertTagMappings
    split_ifs
    · exact .error
    · exact (insertActiveTagMappings_sameBalance _ _).mono fun _ h =>
        (SameBalance.of_eq rfl rfl rfl rfl rfl).trans h
  | deleteTagMappings rows =>
    refine (SameBalance.foldlM fun old _ s => deleteActiveTagMappings_sameBalance _ s).mono
      fun _ h => (SameBalance.of_eq rfl rfl rfl rfl rfl).trans h
  | insertFileInfo records =>
    exact (insertActiveTagMappings_sameBalance _ _).mono fun _ h =>
      (SameBalance.of_eq rfl rfl rfl rfl rfl).trans h
  | insertTagAlias domain aliased target =>
    simp only [exec]
    split_ifs
    · exact .error
    · exact insertTagAlias_sameBalance _ _ _ db
  | deleteTagAlias domain aliased target => exact deleteTagAlias_sameBalance _ _ _ db
  | insertTagParent domain parent child =>
    simp only [exec]
    split_ifs
    · exact .error
    · exact insertTagParent_sameBalance _ _ _ db
  | deleteTagParent domain parent child =>
    refine (SameBalance.foldlM fun old _ s => deleteParentsUpTo_sameBalance _ _ s).mono
      fun _ h => (SameBalance.of_eq rfl rfl rfl rfl rfl).trans h
  | accumulateTagCountDelta => exact accumulateTagCountDelta_sameBalance db

theorem Reachable.balanced {domains : List DomainId} {db : Db} (h : Reachable domains db) :
    db.tagDomains = domains ∧ ∀ col t d, d ∈ domains → db.imbalance col t d = 0 := by
  induction h with
  | empty => exact ⟨rfl, fun _ _ _ _ => rfl⟩
  | step op _ hexec ih =>
    have hsame := exec_sameBalance op _ _ hexec
    refine ⟨hsame.1.trans ih.1, fun col t d hd => ?_⟩
    rw [hsame.2 col t d (ih.1 ▸ hd), ih.2 col t d hd]
  | rolledBack _ _ ih => exact ih

/-- **The tag counts are conserved.**  In every reached state and for every tag of a live domain,
what is counted and what is pending make up the number of rows, in both columns; and no statement
violates the `CHECK` of `tag_count_delta`, whatever the collectors are given. -/
theorem tagCounts_conserved {domains : List DomainId} {db : Db} (h : Reachable domains db) :
    (∀ col t d, d ∈ domains →
      db.counted col t d + sumAt col t d db.tagCountDelta = db.rowsAt col t d) ∧
    (∀ op, exec op db ≠ .error (.checkViolation "tag_count_delta")) ∧
    (∀ tr, ∃ db', collectTagCountStorage tr db = .ok db') ∧
    ∀ tr, ∃ db', collectTagCountParents tr db = .ok db' := by
  refine ⟨fun col t d hd => ?_, fun op hexec => ?_, fun tr => ?_, fun tr => ?_⟩
  · have hzero := h.balanced.2 col t d hd
    rw [Db.imbalance, sumAt_contributions] at hzero
    omega
  · exact Bool.false_ne_true (isRefusal_of_refusal (exec_error h.consistent hexec))
  · obtain ⟨db', hdb', _⟩ := collectTagCountStorage_spec tr db
    exact ⟨db', hdb'⟩
  · obtain ⟨db', hdb', _⟩ := collectTagCountParents_spec tr db
    exact ⟨db', hdb'⟩

/-- An inherited tag that is merged into a tag of the record, half of it counted and half
pending. -/
theorem tagCounts_conserved_merge :
    ∃ db, run [.insertFileInfo [7], .insertTagMappings [⟨7, 1, 0⟩, ⟨7, 3, 0⟩],
        .insertTagParent 0 2 1, .accumulateTagCountDelta, .insertTagAlias 0 2 3]
        (Db.empty [0]) = .ok db ∧
      db.counted .display 3 0 = 1 ∧ db.counted .display 2 0 = 1 ∧
      db.counted .display 3 0 + sumAt .display 3 0 db.tagCountDelta = db.rowsAt .display 3 0 ∧
      db.rowsAt .display 3 0 = 2 ∧
      ∀ op, exec op db ≠ .error (.checkViolation "tag_count_delta") := by
  refine ⟨{
      tagDomains := [0]
      fileInfo := [7]
      tagMappings := [⟨7, 1, 0⟩, ⟨7, 3, 0⟩]
      tagAliases := [⟨2, 3, none, 0⟩]
      tagParents := [⟨2, some 3, 1, none, 0⟩]
      activeTagMappings := [⟨7, 1, none, 0⟩, ⟨7, 3, none, 0⟩]
      activeTagMappingsParents := [⟨7, 3, 1, 0, 0⟩]
      tagCountDelta := [⟨2, 0, 0, -1⟩, ⟨3, 0, 0, 1⟩]
      tagCounts := [⟨1, 0, 1, 1⟩, ⟨3, 0, 1, 1⟩, ⟨2, 0, 0, 1⟩] },
      (and_iff_left_of_imp fun hrun => ?_).2 (by decide +kernel)⟩
  have hconserved := tagCounts_conserved (Reachable.empty.run hrun)
  exact ⟨by decide, by decide, hconserved.1 .display 3 0 (by decide), by decide, hconserved.2.1⟩

end Idhan.Tags
