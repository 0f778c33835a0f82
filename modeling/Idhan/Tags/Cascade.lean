import Idhan.Tags.Inherited

/-!
# The recursion of the triggers on `active_tag_mappings_parents`

A statement on `active_tag_mappings_parents` changes its rows and then runs a row trigger for each
row it inserted or deleted, and the statement of the trigger does the same.  Seen from the table,
rows are changed at once and their triggers are owed: at every moment there is a list of *pending*
rows, whose triggers have not run, and the next step runs the trigger of the first one, which makes
the rows it changes pending in front of the rest.

The two rules below turn an invariant of such steps into a fact about a whole statement:

* `insertParentsUpTo_rule`, for a trigger step `afterInsert`, and
* `deleteParentsUpTo_rule`, for a trigger step `afterDelete`.

Both also say that the statement returns.  An insert goes no deeper than there are edges of the
parent relation without a row (`Db.room`), and a delete no deeper than there are rows.

* `parent_cascades_stop`: the triggers stop, whatever cycles the parent relation has.
-/

namespace Idhan.Tags

open ActiveTagMappingParent List

/-- At most the inherited rows and the pending counts differ. -/
def InheritedOnly (db db' : Db) : Prop :=
  ∃ rows deltas, db' = { db with activeTagMappingsParents := rows, tagCountDelta := deltas }

variable {changes : List TagCountDelta}

namespace InheritedOnly

theorem refl (db : Db) : InheritedOnly db db := ⟨_, _, rfl⟩

variable {db' : Db}

theorem trans {db db'' : Db} (h : InheritedOnly db db') (h' : InheritedOnly db' db'') :
    InheritedOnly db db'' := by
  obtain ⟨rows, deltas, rfl⟩ := h
  obtain ⟨rows', deltas', rfl⟩ := h'
  exact ⟨rows', deltas', rfl⟩

theorem setRows (db : Db) (rows : List ActiveTagMappingParent) :
    InheritedOnly db { db with activeTagMappingsParents := rows } := ⟨rows, _, rfl⟩

theorem of_collected {db : Db} (h : Collected changes db db') : InheritedOnly db db' := by
  obtain ⟨rows, rfl, _⟩ := h
  exact ⟨_, _, rfl⟩

end InheritedOnly

/-- An invariant of the recursion does not read the pending counts. -/
def IgnoresDeltas (I : List ActiveTagMappingParent → Db → Prop) : Prop :=
  ∀ pending db deltas, I pending db → I pending { db with tagCountDelta := deltas }

variable {db : Db} {row new : ActiveTagMappingParent}

theorem IgnoresDeltas.collected {I : List ActiveTagMappingParent → Db → Prop} (hI : IgnoresDeltas I)
    {pending : List ActiveTagMappingParent} {db' : Db}
    (h : I pending db) (hc : Collected changes db db') : I pending db' := by
  obtain ⟨rows, rfl, _⟩ := hc
  exact hI _ _ _ h

/-! ## Inserting -/

/-- The keys of the inherited rows. -/
def Db.parentKeys (db : Db) : List (RecordId × TagId × TagId × DomainId) :=
  db.activeTagMappingsParents.map key

/-- The rows of a state after an `INSERT ... ON CONFLICT`, before its triggers. -/
def Db.upsertParents (db : Db) (onConflict : Option (ℕ → ℕ → ℕ))
    (rows : List ActiveTagMappingParent) : Upserted ActiveTagMappingParent :=
  upsert key (onConflict.map mergeCount) db.activeTagMappingsParents rows

theorem keepsKey_mergeCount (onConflict : Option (ℕ → ℕ → ℕ)) :
    KeepsKey key (onConflict.map mergeCount) := by
  cases onConflict with
  | none => exact keepsKey_none
  | some f => exact keepsKey_some fun _ _ => rfl

/-- The table change of the trigger `atmp_internal_on_insert` for the row `new`. -/
def Db.afterInsert (db : Db) (new : ActiveTagMappingParent) : Upserted ActiveTagMappingParent :=
  db.upsertParents (some fun _ excluded => excluded + 1) (db.internalRows new)

/-- The edges of the parent relation that have no row for the record. -/
def Db.room (db : Db) (record : RecordId) (domain : DomainId) : ℕ :=
  db.tagParents.countP fun tp => tp.tagDomainId = domain ∧
    (record, tp.effectiveParentId, tp.effectiveChildId, domain) ∉ db.parentKeys

/-- The inherited rows have only grown. -/
def Grown (db db' : Db) : Prop :=
  InheritedOnly db db' ∧ ∀ k ∈ db.parentKeys, k ∈ db'.parentKeys

namespace Grown

theorem refl (db : Db) : Grown db db := ⟨.refl db, fun _ h => h⟩

variable {db' db : Db}

theorem trans {db'' : Db} (h : Grown db db') (h' : Grown db' db'') : Grown db db'' :=
  ⟨h.1.trans h'.1, fun k hk => h'.2 k (h.2 k hk)⟩

theorem of_collected (h : Collected changes db db') : Grown db db' := by
  refine ⟨.of_collected h, ?_⟩
  obtain ⟨rows, rfl, _⟩ := h
  exact fun _ hk => hk

theorem upsertParents (db : Db) (onConflict : Option (ℕ → ℕ → ℕ))
    (rows : List ActiveTagMappingParent) :
    Grown db { db with activeTagMappingsParents := (db.upsertParents onConflict rows).table } :=
  ⟨.setRows _ _, fun _ hk => (mem_map_key_upsert (keepsKey_mergeCount onConflict)).2 (Or.inl hk)⟩

theorem room_le (h : Grown db db') (record : RecordId) (domain : DomainId) :
    db'.room record domain ≤ db.room record domain := by
  obtain ⟨⟨rows, deltas, rfl⟩, hkeys⟩ := h
  refine countP_mono_left fun tp _ htp => ?_
  simp only [decide_eq_true_eq] at htp ⊢
  exact ⟨htp.1, fun hk => htp.2 (hkeys _ hk)⟩

end Grown

theorem mem_internalRows :
    row ∈ db.internalRows new ↔ ∃ tp ∈ db.tagParents, tp.tagDomainId = new.tagDomainId ∧
      tp.effectiveChildId = new.tagId ∧
      row = ⟨new.recordId, tp.effectiveParentId, new.tagId, 1, new.tagDomainId⟩ := by
  simp only [Db.internalRows, Db.parentsOf, mem_dedup, mem_map, mem_filter,
    decide_eq_true_eq]
  constructor
  · rintro ⟨tp, ⟨hmem, hd, hc⟩, rfl⟩
    exact ⟨tp, hmem, hd, hc, rfl⟩
  · rintro ⟨tp, hmem, hd, hc, rfl⟩
    exact ⟨tp, ⟨hmem, hd, hc⟩, rfl⟩

/-- A row that the trigger of `new` inserts is a row of the same record. -/
theorem of_mem_afterInsert (h : row ∈ (db.afterInsert new).inserted) :
    row ∈ db.internalRows new ∧ row.key ∉ db.parentKeys :=
  of_mem_upsert_inserted (keepsKey_mergeCount _) h

/-- A row that a trigger inserts takes the place of an edge. -/
theorem room_afterInsert_lt (h : row ∈ (db.afterInsert new).inserted) :
    Db.room { db with activeTagMappingsParents := (db.afterInsert new).table } row.recordId
      row.tagDomainId < db.room row.recordId row.tagDomainId := by
  obtain ⟨hrow, hnew⟩ := of_mem_afterInsert h
  obtain ⟨tp, htp, hd, hc, rfl⟩ := mem_internalRows.1 hrow
  have hgrown := (Grown.upsertParents db (some fun _ excluded => excluded + 1)
    (db.internalRows new)).2
  refine countP_lt_countP (r := tp) (fun tp' _ h' => ?_) htp ?_ ?_
  · simp only [decide_eq_true_eq] at h' ⊢
    exact ⟨h'.1, fun hk => h'.2 (hgrown _ hk)⟩
  · rw [hc]
    exact decide_eq_true ⟨hd, hnew⟩
  · rw [hc, decide_eq_true_eq]
    exact fun h' => h'.2 ((mem_map_key_upsert (keepsKey_mergeCount _)).2
      (Or.inr (mem_map_of_mem hrow)))

/-- The trigger step of an insert keeps the invariant. -/
def InsertStep (I : List ActiveTagMappingParent → Db → Prop) : Prop :=
  ∀ new rest db, I (new :: rest) db → I ((db.afterInsert new).inserted ++ rest)
    { db with activeTagMappingsParents := (db.afterInsert new).table }

section InsertRule

variable {I : List ActiveTagMappingParent → Db → Prop} {onConflict : Option (ℕ → ℕ → ℕ)}

/-- **The insert rule.**  An invariant that the trigger step keeps holds when the statement returns,
and the statement returns if the depth covers the edges that have no row. -/
theorem insertParentsUpTo_rule (hI : IgnoresDeltas I) (step : InsertStep I)
    {depth : ℕ} {rows rest : List ActiveTagMappingParent} {db : Db}
    (hdepth : ∀ new ∈ (db.upsertParents onConflict rows).inserted,
      Db.room { db with activeTagMappingsParents := (db.upsertParents onConflict rows).table }
        new.recordId new.tagDomainId < depth)
    (h : I ((db.upsertParents onConflict rows).inserted ++ rest)
      { db with activeTagMappingsParents := (db.upsertParents onConflict rows).table }) :
    Succeeds (insertParentsUpTo (depth + 1) onConflict rows db)
      fun db' => I rest db' ∧ Grown db db' := by
  induction depth using Nat.strongRecOn generalizing onConflict rows rest db with
  | ind depth ih =>
    set start : Db :=
      { db with activeTagMappingsParents := (db.upsertParents onConflict rows).table } with hstart
    have hloop := Succeeds.foldlM
      (f := fun db new => atmpInternalOnInsert (insertParentsUpTo depth) new db)
      (fun pending s => (∀ new ∈ pending, start.room new.recordId new.tagDomainId < depth) ∧
        I (pending ++ rest) s ∧ Grown start s)
      (l := (db.upsertParents onConflict rows).inserted) (a := start)
      ⟨hdepth, h, .refl start⟩ ?_
    · refine hloop.bind fun s ⟨_, hs, hgrown⟩ => ?_
      have hgrown : Grown db s := (Grown.upsertParents db onConflict rows).trans hgrown
      have hupdate : Succeeds (if onConflict.isSome then
          collectTagCountParents (.update ((db.upsertParents onConflict rows).updated.map Prod.fst)
            ((db.upsertParents onConflict rows).updated.map Prod.snd)) s else .ok s)
          fun s' => I rest s' ∧ Grown db s' := by
        split_ifs
        · refine (collectTagCountParents_spec _ s).mono fun s' hc => ?_
          exact ⟨hI.collected hs hc, hgrown.trans (.of_collected hc)⟩
        · exact .ok ⟨hs, hgrown⟩
      refine hupdate.bind fun s' ⟨hs', hgrown'⟩ => ?_
      refine (collectTagCountParents_spec _ s').mono fun s'' hc => ?_
      exact ⟨hI.collected hs' hc, hgrown'.trans (.of_collected hc)⟩
    · rintro new pending s ⟨hroom, hs, hgrown⟩
      -- the trigger of `new` runs at the depth below, where one edge fewer is without a row
      have hnew := hroom new (mem_cons_self ..)
      obtain ⟨depth, rfl⟩ : ∃ n, depth = n + 1 := ⟨depth - 1, by omega⟩
      have htrigger := @ih depth (Nat.lt_succ_self depth) (some fun _ excluded => excluded + 1)
        (s.internalRows new) (pending ++ rest) s ?_ (step new (pending ++ rest) s hs)
      · refine htrigger.mono fun s' ⟨hs', hgrown'⟩ => ⟨?_, hs', hgrown.trans hgrown'⟩
        exact fun new' h' => hroom new' (mem_cons_of_mem _ h')
      · intro row hrow
        have hlt := room_afterInsert_lt hrow
        obtain ⟨tp, _, _, _, rfl⟩ := mem_internalRows.1 (of_mem_afterInsert hrow).1
        have hle := hgrown.room_le new.recordId new.tagDomainId
        exact lt_of_lt_of_le hlt (hle.trans (Nat.lt_succ_iff.1 hnew))

/-- The insert rule for a statement as it is issued: the depth it starts with is enough. -/
theorem insertActiveTagMappingsParents_rule (hI : IgnoresDeltas I) (step : InsertStep I)
    {rows : List ActiveTagMappingParent} {db : Db}
    (h : I (db.upsertParents onConflict rows).inserted
      { db with activeTagMappingsParents := (db.upsertParents onConflict rows).table }) :
    Succeeds (insertActiveTagMappingsParents onConflict rows db)
      fun db' => I [] db' ∧ Grown db db' := by
  refine insertParentsUpTo_rule hI step (fun new _ => ?_) ((append_nil _).symm ▸ h)
  exact Nat.lt_succ_of_le countP_le_length

end InsertRule

/-- An insert returns, and touches only the inherited rows and the pending counts. -/
theorem insertActiveTagMappingsParents_spec (onConflict : Option (ℕ → ℕ → ℕ))
    (rows : List ActiveTagMappingParent) (db : Db) :
    Succeeds (insertActiveTagMappingsParents onConflict rows db) (Grown db) :=
  (insertActiveTagMappingsParents_rule (I := fun _ _ => True) (fun _ _ _ _ => trivial)
    (fun _ _ _ _ => trivial) trivial).mono fun _ h => h.2

/-! ## Deleting -/

/-- The rows after the `UPDATE` of the trigger `atmp_internal_on_delete` for the row `old`. -/
def Db.released (db : Db) (old : ActiveTagMappingParent) : List ActiveTagMappingParent :=
  db.activeTagMappingsParents.map fun row =>
    if decide (0 < row.internalCount) && old.fromTagOf row then
      { row with internalCount := row.internalCount - 1 }
    else row

/-- The rows that the trigger `atmp_internal_on_delete` for the row `old` then deletes. -/
def ActiveTagMappingParent.unreferenced (old row : ActiveTagMappingParent) : Bool :=
  old.fromTagOf row && decide (row.internalCount = 0)

theorem release_spec (old : ActiveTagMappingParent) (db : Db) :
    Succeeds (updateInternalCount
        (fun row => decide (0 < row.internalCount) && old.fromTagOf row) (· - 1) db)
      fun db' => ∃ deltas, db' =
        { db with activeTagMappingsParents := db.released old, tagCountDelta := deltas } := by
  unfold updateInternalCount
  refine (collectTagCountParents_spec _ _).mono fun db' hc => ?_
  obtain ⟨rows, rfl, _⟩ := hc
  exact ⟨_, rfl⟩

/-- Only the inherited rows and the pending counts have changed, and there are no more rows. -/
def Shrunk (db db' : Db) : Prop :=
  InheritedOnly db db' ∧
    db'.activeTagMappingsParents.length ≤ db.activeTagMappingsParents.length

namespace Shrunk

theorem refl (db : Db) : Shrunk db db := ⟨.refl db, le_rfl⟩

variable {db' : Db}

theorem trans {db db'' : Db} (h : Shrunk db db') (h' : Shrunk db' db'') : Shrunk db db'' :=
  ⟨h.1.trans h'.1, h'.2.trans h.2⟩

theorem of_collected {db : Db} (h : Collected changes db db') : Shrunk db db' := by
  refine ⟨.of_collected h, ?_⟩
  obtain ⟨rows, rfl, _⟩ := h
  exact le_rfl

end Shrunk

/-- The trigger step of a delete keeps the invariant. -/
def DeleteStep (I : List ActiveTagMappingParent → Db → Prop) : Prop :=
  ∀ old rest db, I (old :: rest) db → I ((db.released old).filter old.unreferenced ++ rest)
    { db with
      activeTagMappingsParents := (db.released old).filter fun row => !old.unreferenced row }

section DeleteRule

variable {I : List ActiveTagMappingParent → Db → Prop} {p : ActiveTagMappingParent → Bool}

/-- **The delete rule.**  An invariant that the trigger step keeps holds when the statement returns,
and the statement returns if the depth covers the rows that are left. -/
theorem deleteParentsUpTo_rule (hI : IgnoresDeltas I) (step : DeleteStep I)
    {depth : ℕ} {rest : List ActiveTagMappingParent} {db : Db}
    (hdepth : db.activeTagMappingsParents.filter p ≠ [] →
      (db.activeTagMappingsParents.filter fun row => !p row).length < depth)
    (h : I (db.activeTagMappingsParents.filter p ++ rest)
      { db with
        activeTagMappingsParents := db.activeTagMappingsParents.filter fun row => !p row }) :
    Succeeds (deleteParentsUpTo (depth + 1) p db) fun db' => I rest db' ∧ Shrunk db db' := by
  induction depth using Nat.strongRecOn generalizing p rest db with
  | ind depth ih =>
    set start : Db :=
      { db with activeTagMappingsParents := db.activeTagMappingsParents.filter fun row => !p row }
      with hstart
    have hdb : Shrunk db start := ⟨.setRows _ _, length_filter_le _ _⟩
    have hloop := Succeeds.foldlM
      (f := fun db old => atmpInternalOnDelete (deleteParentsUpTo depth) old db)
      (fun pending s => (pending ≠ [] → start.activeTagMappingsParents.length < depth) ∧
        I (pending ++ rest) s ∧ Shrunk start s)
      (l := db.activeTagMappingsParents.filter p) (a := start) ⟨hdepth, h, .refl start⟩ ?_
    · refine hloop.bind fun s ⟨_, hs, hshrunk⟩ => ?_
      refine (collectTagCountParents_spec _ s).mono fun s' hc => ?_
      exact ⟨hI.collected hs hc, (hdb.trans hshrunk).trans (.of_collected hc)⟩
    · rintro old pending s ⟨hlen, hs, hshrunk⟩
      -- the trigger of `old` runs at the depth below, on a table that has lost a row
      have hlt := hlen (cons_ne_nil _ _)
      obtain ⟨depth, rfl⟩ : ∃ n, depth = n + 1 := ⟨depth - 1, by omega⟩
      refine (release_spec old s).bind fun s' ⟨deltas, hs'⟩ => ?_
      subst hs'
      have hreleased : (s.released old).length = s.activeTagMappingsParents.length :=
        length_map ..
      have hnested := @ih depth (Nat.lt_succ_self depth) old.unreferenced (pending ++ rest)
        { s with activeTagMappingsParents := s.released old, tagCountDelta := deltas } ?_
        (hI _ _ _ (step old (pending ++ rest) s hs))
      · refine hnested.mono fun s' ⟨hs', hshrunk'⟩ => ⟨fun _ => hlt, hs', hshrunk.trans ?_⟩
        exact ⟨InheritedOnly.trans ⟨_, _, rfl⟩ hshrunk'.1, hreleased ▸ hshrunk'.2⟩
      · intro hne
        obtain ⟨row, hrow⟩ := exists_mem_of_ne_nil _ hne
        obtain ⟨hmem, hp⟩ := mem_filter.1 hrow
        have hfewer : ((s.released old).filter fun row => !old.unreferenced row).length <
            (s.released old).length :=
          length_filter_lt_length_iff_exists.2 ⟨row, hmem, by simp [hp]⟩
        have hle := hshrunk.2
        exact lt_of_lt_of_le hfewer (by omega)

/-- The delete rule for a statement as it is issued: the depth it starts with is enough. -/
theorem deleteActiveTagMappingsParents_rule (hI : IgnoresDeltas I) (step : DeleteStep I)
    {db : Db}
    (h : I (db.activeTagMappingsParents.filter p)
      { db with
        activeTagMappingsParents := db.activeTagMappingsParents.filter fun row => !p row }) :
    Succeeds (deleteActiveTagMappingsParents p db) fun db' => I [] db' ∧ Shrunk db db' := by
  refine deleteParentsUpTo_rule hI step (fun hne => ?_) ((append_nil _).symm ▸ h)
  obtain ⟨row, hrow⟩ := exists_mem_of_ne_nil _ hne
  obtain ⟨hmem, hp⟩ := mem_filter.1 hrow
  exact length_filter_lt_length_iff_exists.2 ⟨row, hmem, by simp [hp]⟩

end DeleteRule

/-- A delete returns, and touches only the inherited rows and the pending counts. -/
theorem deleteActiveTagMappingsParents_spec (p : ActiveTagMappingParent → Bool) (db : Db) :
    Succeeds (deleteActiveTagMappingsParents p db) (Shrunk db) :=
  (deleteActiveTagMappingsParents_rule (I := fun _ _ => True) (fun _ _ _ _ => trivial)
    (fun _ _ _ _ => trivial) trivial).mono fun _ h => h.2

/-! ## Counting the changes -/

/-- What the trigger of a row does: the rows that it inserts or deletes, whose triggers are then
owed, the number of rows that it updates, and the table that it leaves. -/
structure Fired where
  changed : List ActiveTagMappingParent
  updates : ℕ
  table : List ActiveTagMappingParent

/-- `atmp_internal_on_insert`. -/
def Db.onInsert (db : Db) (new : ActiveTagMappingParent) : Fired :=
  ⟨(db.afterInsert new).inserted, (db.afterInsert new).updated.length, (db.afterInsert new).table⟩

/-- `atmp_internal_on_delete`. -/
def Db.onDelete (db : Db) (old : ActiveTagMappingParent) : Fired :=
  ⟨(db.released old).filter old.unreferenced,
    db.activeTagMappingsParents.countP fun row => decide (0 < row.internalCount) && old.fromTagOf
    row, (db.released old).filter fun row => !old.unreferenced row⟩

/-- The triggers of the rows `first`, and those that they call, have made `n` changes of rows; the
triggers of `pending` are still owed. -/
inductive Cascade (fired : Db → ActiveTagMappingParent → Fired)
    (first : List ActiveTagMappingParent) (start : Db) : ℕ → List ActiveTagMappingParent → Db → Prop
  | start : Cascade fired first start 0 first start
  | fire {n : ℕ} {row : ActiveTagMappingParent} {rest : List ActiveTagMappingParent} {db : Db} :
      Cascade fired first start n (row :: rest) db →
      Cascade fired first start (n + ((fired db row).changed.length + (fired db row).updates))
        ((fired db row).changed ++ rest) { db with
          activeTagMappingsParents := (fired db row).table }
  | count {n : ℕ} {pending : List ActiveTagMappingParent} {db : Db} (deltas : List TagCountDelta) :
      Cascade fired first start n pending db →
      Cascade fired first start n pending { db with tagCountDelta := deltas }

/-- **The parent cascades stop.**  Whatever rows `tag_parents` and `active_tag_mappings_parents`
have, the triggers that an inserted row or a delete starts make finitely many changes, and then none
is owed. -/
theorem parent_cascades_stop (db : Db) (row : ActiveTagMappingParent)
    (onConflict : Option (ℕ → ℕ → ℕ)) (p : ActiveTagMappingParent → Bool) :
    Succeeds (insertActiveTagMappingsParents onConflict [row] db) (fun db' => ∃ n,
        Cascade Db.onInsert (db.upsertParents onConflict [row]).inserted
          { db with activeTagMappingsParents := (db.upsertParents onConflict [row]).table } n []
            db') ∧
      Succeeds (deleteActiveTagMappingsParents p db) fun db' => ∃ n,
        Cascade Db.onDelete (db.activeTagMappingsParents.filter p)
          { db with
            activeTagMappingsParents := db.activeTagMappingsParents.filter fun row => !p row }
          n [] db' := by
  -- the rules carry a run of the triggers along; that they return is their measure
  constructor
  · refine (insertActiveTagMappingsParents_rule (I := fun pending s => ∃ n,
      Cascade Db.onInsert _ _ n pending s) ?_ ?_ ⟨0, .start⟩).mono fun _ h => h.1
    · exact fun _ _ deltas h => h.imp fun _ hn => hn.count deltas
    · exact fun _ _ _ h => h.elim fun _ hn => ⟨_, hn.fire⟩
  · refine (deleteActiveTagMappingsParents_rule (I := fun pending s => ∃ n,
      Cascade Db.onDelete _ _ n pending s) ?_ ?_ ⟨0, .start⟩).mono fun _ h => h.1
    · exact fun _ _ deltas h => h.imp fun _ hn => hn.count deltas
    · exact fun _ _ _ h => h.elim fun _ hn => ⟨_, hn.fire⟩

end Idhan.Tags
