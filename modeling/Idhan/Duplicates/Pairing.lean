import Idhan.Duplicates.Groups

/-!
# What `insert_duplicate_pair` does to the groups

`Paired` of `Duplicates/Groups` tells the three branches of `insert_duplicate_pair` (411) apart.
Here they are read as a relation between the kings and the rulings before and after.  The procedure
fails only on a foreign key, so it has to be known which records the tables refer to: all rows refer
to records that exist, in every reachable state.

* `Referenced`: the rows refer to records that exist, and `exec_referenced`: every statement keeps
  this.
* `insertDuplicatePair_succeeds`: on records that exist, `insert_duplicate_pair` returns.
* `insertDuplicatePair_effect`: which kings change, and which pairs stop being ruled.
-/

namespace Idhan.Duplicates

open List

variable {db db' : Db} {records : List RecordId} {worse better newRoot : RecordId}

/-! ## Foreign keys -/

theorem RuledPair.of_mem {a b : RecordId} (ha : a ∈ records) (hb : b ∈ records) :
    (RuledPair.of a b).lesserRecordId ∈ records ∧ (RuledPair.of a b).greaterRecordId ∈ records := by
  rcases le_total a b with hab | hba
  · rw [RuledPair.of, min_eq_left hab, max_eq_right hab]
    exact ⟨ha, hb⟩
  · rw [RuledPair.of, min_eq_right hba, max_eq_left hba]
    exact ⟨hb, ha⟩

/-- The rows refer to records that exist. -/
structure Referenced (records : List RecordId) (db : Db) : Prop where
  records_eq : db.records = records
  members : ∀ m ∈ db.duplicateMembers, m.recordId ∈ records ∧ m.kingId ∈ records
  ruled : ∀ ruling, ∀ row ∈ db.ruled ruling, row.lesserRecordId ∈ records ∧
    row.greaterRecordId ∈ records

namespace Referenced

theorem empty (records : List RecordId) : Referenced records (Db.empty records) :=
  ⟨rfl, forall_mem_nil _, fun ruling => by cases ruling <;> exact forall_mem_nil _⟩

section

variable (h : Referenced records db)
include h

theorem congr (hrecords : db'.records = db.records)
    (hmembers : db'.duplicateMembers = db.duplicateMembers)
    (hruled : ∀ ruling, db'.ruled ruling = db.ruled ruling) : Referenced records db' :=
  ⟨hrecords.trans h.records_eq, hmembers ▸ h.members, fun ruling => hruled ruling ▸ h.ruled ruling⟩

/-- The king of a record that exists is one. -/
theorem duplicateKing_mem {record : RecordId} (hrecord : record ∈ records) :
    db.duplicateKing record ∈ records := by
  unfold Db.duplicateKing
  cases hfind : db.duplicateMembers.find? fun m => m.recordId = record with
  | none => exact hrecord
  | some m => exact (h.members m (mem_of_find?_eq_some hfind)).2

theorem insertDuplicateMember (new : DuplicateMember) :
    Returns (insertDuplicateMember new db) fun s => Referenced records s ∧
    new.recordId ∈ records := by
  unfold Duplicates.insertDuplicateMember
  split_ifs with hany hmissing
  · obtain ⟨m, hm, hrecord⟩ := any_eq_true.1 hany
    exact .ok ⟨h, of_decide_eq_true hrecord ▸ (h.members m hm).1⟩
  · exact .error
  · rw [h.records_eq, not_or, not_not, not_not] at hmissing
    refine .ok ⟨⟨h.records_eq, fun m hm => ?_, h.ruled⟩, hmissing.1⟩
    rcases mem_append.1 hm with hm | hm
    · exact h.members m hm
    · exact mem_singleton.1 hm ▸ hmissing

theorem updateKing (p : DuplicateMember → Bool) {king : RecordId} (hking : king ∈ records) :
    Referenced records (updateKing p king db) := by
  refine ⟨h.records_eq, fun m hm => ?_, h.ruled⟩
  obtain ⟨old, hold, rfl⟩ := mem_map.1 hm
  split_ifs
  · exact ⟨(h.members old hold).1, hking⟩
  · exact h.members old hold

theorem setRuled (ruling : Ruling) {rows : List RuledPair}
    (hrows : ∀ row ∈ rows, row.lesserRecordId ∈ records ∧ row.greaterRecordId ∈ records) :
    Referenced records (db.setRuled ruling rows) := by
  have hsame := sameGroups_setRuled db ruling rows
  refine ⟨hsame.records.trans h.records_eq, hsame.duplicateMembers ▸ h.members, fun r => ?_⟩
  by_cases hr : r = ruling
  · rw [hr, ruled_setRuled_self]
    exact hrows
  · rw [ruled_setRuled_of_ne _ _ _ hr]
    exact h.ruled r

theorem insertRuledPairs (ruling : Ruling) (rows : List RuledPair) :
    Returns (insertRuledPairs ruling rows db) (Referenced records) := by
  simp only [Duplicates.insertRuledPairs]
  split_ifs with hmissing
  · exact .error
  rw [foldl_discardRuledDistance]
  refine .ok ((h.setRuled ruling fun row hrow => ?_).congr rfl rfl fun r => by cases r <;> rfl)
  rw [upsert_nothing_table, mem_append] at hrow
  rcases hrow with hrow | hrow
  · exact h.ruled ruling row hrow
  · rw [← h.records_eq]
    by_contra hnot
    exact hmissing (any_eq_true.2 ⟨row, hrow, decide_eq_true (not_and_or.1 hnot)⟩)

theorem deleteRuledPairs (ruling : Ruling) (p : RuledPair → Bool) :
    Referenced records (deleteRuledPairs ruling p db) := by
  obtain ⟨queue, hqueue, -⟩ := foldl_requeueRuledDistance ((db.ruled ruling).filter p)
    (db.setRuled ruling ((db.ruled ruling).filter fun row => !p row))
  rw [Duplicates.deleteRuledPairs, hqueue]
  exact (h.setRuled ruling fun row hrow => h.ruled ruling row (mem_of_mem_filter hrow)).congr rfl
    rfl fun r => by cases r <;> rfl

theorem transferRulings (ruling : Ruling) (worseRoot newRoot : RecordId) :
    Returns (transferRulings ruling worseRoot newRoot db) (Referenced records) :=
  (h.insertRuledPairs ruling _).bind fun _ hs => .ok (hs.deleteRuledPairs ruling _)

theorem moveGroup (worse : RecordId) {newRoot : RecordId} (hroot : newRoot ∈ records) :
    Returns (moveGroup worse newRoot db) (Referenced records) := by
  refine ((h.updateKing _ hroot).insertDuplicateMember _).bind fun _ hs => ?_
  refine (hs.1.transferRulings .alternative _ _).bind fun _ hs => ?_
  refine (hs.transferRulings .unrelated _ _).bind fun _ hs => ?_
  exact .ok (hs.congr rfl rfl fun _ => rfl)

theorem moveSubordinate (worse worseRoot : RecordId) {betterRoot : RecordId}
    (hroot : betterRoot ∈ records) :
    Referenced records (moveSubordinate worse worseRoot betterRoot db) :=
  (h.updateKing _ hroot).congr rfl rfl fun _ => rfl

theorem insertDuplicatePair (worse better : RecordId) :
    Returns (insertDuplicatePair worse better db) (Referenced records) := by
  unfold Duplicates.insertDuplicatePair
  dsimp only
  generalize (if db.duplicateKing worse = db.duplicateKing better then better
    else db.duplicateKing better) = newRoot
  split_ifs
  · exact .ok h
  · exact .ok h
  · exact (h.insertDuplicateMember _).bind fun _ hs => hs.1.moveGroup worse hs.2
  · exact (h.insertDuplicateMember _).bind fun _ hs => .ok (hs.1.moveSubordinate worse _ hs.2)

theorem removeDuplicatePair (recordA recordB : RecordId) :
    Referenced records (removeDuplicatePair recordA recordB db).2 := by
  unfold Duplicates.removeDuplicatePair
  split
  · exact h
  next m hm =>
    have hmem : m ∈ db.duplicateMembers := mem_of_find?_eq_some hm
    exact (h.updateKing _ (h.members m hmem).1).congr rfl rfl fun _ => rfl

theorem setPhash (record : RecordId) (phash : Option (BitVec 64)) :
    Referenced records (setPhash record phash db) := by
  unfold Duplicates.setPhash
  dsimp only
  split_ifs <;> exact h.congr rfl rfl fun _ => rfl

end

end Referenced

/-- Every statement keeps the references. -/
theorem exec_referenced (h : Referenced records db) (op : Op) :
    Returns (exec op db) (Referenced records) := by
  refine exec_returns h op (fun worse better _ hs => hs.insertDuplicatePair worse better)
    h.removeDuplicatePair h.insertRuledPairs
    h.deleteRuledPairs (fun record phash => ?_) h.setPhash fun _ => h.congr rfl rfl fun _ => rfl
  simp only [storeImageMetadata]
  split_ifs
  · exact .ok (h.setPhash record phash)
  · exact .ok (h.congr rfl rfl fun _ => rfl)
  · exact .ok (h.congr rfl rfl fun _ => rfl)
  · exact .error

theorem Reachable.referenced (h : Reachable records db) : Referenced records db := by
  induction h with
  | empty => exact .empty records
  | step op _ hexec ih => exact exec_referenced ih op _ hexec
  | rolledBack _ _ ih => exact ih

/-! ## The procedure returns -/

section

variable (h : Referenced records db)
include h

theorem insertDuplicateMember_succeeds {new : DuplicateMember} (hrecord : new.recordId ∈ records)
    (hking : new.kingId ∈ records) :
    Succeeds (insertDuplicateMember new db) (Referenced records) := by
  refine ((h.insertDuplicateMember new).mono fun _ hs => hs.1).succeeds ?_
  unfold insertDuplicateMember
  split_ifs with hany hmissing
  · exact ⟨_, rfl⟩
  · rw [h.records_eq] at hmissing
    exact absurd hmissing (not_or.2 ⟨not_not.2 hrecord, not_not.2 hking⟩)
  · exact ⟨_, rfl⟩

theorem insertRuledPairs_succeeds (ruling : Ruling) {rows : List RuledPair}
    (hrows : ∀ row ∈ rows, row.lesserRecordId ∈ records ∧ row.greaterRecordId ∈ records) :
    Succeeds (insertRuledPairs ruling rows db) (Referenced records) := by
  refine (h.insertRuledPairs ruling rows).succeeds ?_
  simp only [insertRuledPairs]
  split_ifs with hmissing
  · -- a row that is inserted joins the kings of records that exist
    obtain ⟨new, hnew, hmissing⟩ := any_eq_true.1 hmissing
    obtain ⟨row, hrow, hnormal⟩ := mem_filterMap.1 (of_mem_upsert_inserted keepsKey_none hnew).1
    obtain ⟨-, rfl⟩ := of_normalizeRuledPair hnormal
    have hmem := RuledPair.of_mem (h.duplicateKing_mem (hrows row hrow).1)
      (h.duplicateKing_mem (hrows row hrow).2)
    rw [h.records_eq, decide_eq_true_eq] at hmissing
    exact absurd hmem (not_and_or.2 hmissing)
  · exact ⟨_, rfl⟩

theorem transferRulings_succeeds (ruling : Ruling) (worseRoot : RecordId)
    (hroot : newRoot ∈ records) :
    Succeeds (transferRulings ruling worseRoot newRoot db) (Referenced records) := by
  refine (insertRuledPairs_succeeds h ruling fun row hrow => ?_).bind fun _ hs =>
    .ok (hs.deleteRuledPairs ruling _)
  obtain ⟨other, hother, rfl⟩ := mem_map.1 hrow
  obtain ⟨old, hold, rfl⟩ := mem_map.1 (mem_of_mem_filter hother)
  obtain ⟨hlesser, hgreater⟩ := h.ruled ruling old (mem_of_mem_filter hold)
  refine RuledPair.of_mem hroot ?_
  unfold RuledPair.other
  split_ifs
  · exact hgreater
  · exact hlesser

theorem moveGroup_succeeds (hworse : worse ∈ records) (hroot : newRoot ∈ records) :
    Succeeds (moveGroup worse newRoot db) (Referenced records) := by
  refine (insertDuplicateMember_succeeds (h.updateKing _ hroot) hworse hroot).bind fun _ hs => ?_
  refine (transferRulings_succeeds hs .alternative worse hroot).bind fun _ hs => ?_
  refine (transferRulings_succeeds hs .unrelated worse hroot).bind fun _ hs => ?_
  exact .ok (hs.congr rfl rfl fun _ => rfl)

/-- **On records that exist, `insert_duplicate_pair` returns.** -/
theorem insertDuplicatePair_succeeds (hworse : worse ∈ records)
    (hbetter : better ∈ records) :
    Succeeds (insertDuplicatePair worse better db) (Referenced records) := by
  have hroot : (if db.duplicateKing worse = db.duplicateKing better then better
      else db.duplicateKing better) ∈ records := by
    split_ifs
    · exact hbetter
    · exact h.duplicateKing_mem hbetter
  unfold insertDuplicatePair
  dsimp only
  generalize (if db.duplicateKing worse = db.duplicateKing better then better
    else db.duplicateKing better) = newRoot at hroot ⊢
  split_ifs
  · exact .ok h
  · exact .ok h
  · exact (insertDuplicateMember_succeeds h hroot hroot).bind fun _ hs => moveGroup_succeeds hs
      hworse hroot
  · exact (insertDuplicateMember_succeeds h hroot hroot).bind fun _ hs =>
      .ok (hs.moveSubordinate worse _ hroot)

end

/-! ## The groups before and after -/

/-- After a group has moved, the better record has the new king. -/
theorem merge_newRoot (hworse : db.duplicateKing worse = worse) :
    merge db.duplicateKing worse (db.newRoot worse better) better = db.newRoot worse better := by
  unfold Db.newRoot
  split_ifs with hroots
  · exact merge_of_eq (hroots.symm.trans hworse)
  · exact merge_of_ne fun hbetter => hroots (hworse.trans hbetter.symm)

/-- What `insert_duplicate_pair` does to the groups of two different records. -/
structure PairedEffect (worse better : RecordId) (db db' : Db) : Prop where
  joined : db'.duplicateKing worse = db'.duplicateKing better
  /-- the whole group of a king follows it, and takes its rulings along -/
  king : db.duplicateKing worse = worse →
    (∀ record, db.duplicateKing record = worse →
    db'.duplicateKing record = db'.duplicateKing worse) ∧
      ∀ x y, db.pairIsRuled x y → db'.pairIsRuled x y
  /-- a subordinate leaves its group alone -/
  subordinate : db.duplicateKing worse ≠ worse → db.duplicateKing worse ≠ db.duplicateKing better →
    (∀ record, record ≠ worse → db'.duplicateKing record = db.duplicateKing record) ∧
      ∀ x y, db.pairIsRuled x y → ¬ db'.pairIsRuled x y → x = worse ∨ y = worse
  unchanged : db.duplicateKing worse ≠ worse → db.duplicateKing worse = db.duplicateKing better →
    db' = db
  others : ∀ record, record ≠ worse → db.duplicateKing record ≠ worse →
    db'.duplicateKing record = db.duplicateKing record

theorem Paired.effect (hne : worse ≠ better) (hp : Paired worse better db db') :
    PairedEffect worse better db db' := by
  cases hp with
  | unchanged reason heq =>
    subst heq
    obtain ⟨hsame, hworse⟩ := reason.resolve_left hne
    exact ⟨hsame, fun hking => absurd hking hworse, fun _ hother => absurd hsame hother,
      fun _ _ => rfl, fun _ _ _ => rfl⟩
  | group hworse _ hr =>
    have hking (record : RecordId) (hrecord : db.duplicateKing record = worse) :
        db'.duplicateKing record = db.newRoot worse better := by
      rw [hr.duplicateKing_eq, merge_of_eq hrecord]
    refine ⟨?_, fun _ => ⟨fun record hrecord => (hking record hrecord).trans
      (hking worse hworse).symm, fun _ _ => hr.pairIsRuled_of_merge⟩,
      fun hsub => absurd hworse hsub, fun hsub => absurd hworse hsub, fun record _ hrecord => ?_⟩
    · rw [hking worse hworse, hr.duplicateKing_eq, merge_newRoot hworse]
    · rw [hr.duplicateKing_eq, merge_of_ne hrecord]
  | subordinate hworse hroots hr _ =>
    have hother (record : RecordId) (hrecord : record ≠ worse) :
        db'.duplicateKing record = db.duplicateKing record := by
      rw [hr.duplicateKing_eq, Function.update_of_ne hrecord]
    refine ⟨?_, fun hking => absurd hking hworse, fun _ _ => ⟨hother, fun x y hruled hnot => ?_⟩,
      fun _ hsame => absurd hsame hroots, fun record hrecord _ => hother record hrecord⟩
    · rw [hother better hne.symm, hr.duplicateKing_eq, Function.update_self, Db.newRoot,
        if_neg hroots]
    · by_contra hxy
      obtain ⟨hx, hy⟩ := not_or.1 hxy
      exact hnot ((hr.pairIsRuled_update hx hy).2 hruled)

/-- **The effect of `insert_duplicate_pair` on the groups**, in every reachable state and for two
different records.  It returns if the records exist. -/
theorem insertDuplicatePair_effect (h : Reachable records db) {worse better : RecordId}
    (hne : worse ≠ better) :
    (∀ db', insertDuplicatePair worse better db = .ok db' → PairedEffect worse better db db') ∧
      (worse ∈ records → better ∈ records →
        ∃ db', insertDuplicatePair worse better db = .ok db') := by
  refine ⟨fun db' hok => (insertDuplicatePair_spec h.sane worse better db' hok).effect hne,
    fun hworse hbetter => ?_⟩
  obtain ⟨db', hok, -⟩ := insertDuplicatePair_succeeds h.referenced hworse hbetter
  exact ⟨db', hok⟩

/-- A king with a member and a ruling is ruled a duplicate of another king: both follow it. -/
theorem insertDuplicatePair_effect_merged :
    ∃ db db', run [.insertDuplicatePair 2 1, .insertDuplicatePair 4 3,
      .insertRuledPairs .alternative [⟨2, 5⟩]] (Db.empty [1, 2, 3, 4, 5]) =
        .ok db ∧ insertDuplicatePair 1 3 db = .ok db' ∧ db'.duplicateKing 2 = 3 ∧
        db'.alternativeRecords = [⟨3, 5⟩] ∧
      PairedEffect 1 3 db db' := by
  refine ⟨{ Db.empty [1, 2, 3, 4, 5] with
      duplicateMembers := [⟨1, 1⟩, ⟨2, 1⟩, ⟨3, 3⟩, ⟨4, 3⟩]
      alternativeRecords := [⟨1, 5⟩] },
    { Db.empty [1, 2, 3, 4, 5] with
      duplicateMembers := [⟨1, 3⟩, ⟨2, 3⟩, ⟨3, 3⟩, ⟨4, 3⟩]
      alternativeRecords := [⟨3, 5⟩] }, (and_iff_left_of_imp fun hrun => ?_).2 (by decide +kernel)⟩
  refine (and_iff_left_of_imp fun hok => ?_).2 (by decide +kernel)
  exact ⟨rfl, rfl, (insertDuplicatePair_effect (Reachable.empty.run hrun) (by decide)).1 _ hok⟩

/-- **A pair that is inserted again changes nothing**, not even the queue. -/
theorem insertDuplicatePair_again (h : Reachable records db)
    (hok : insertDuplicatePair worse better db = .ok db') :
    insertDuplicatePair worse better db' = .ok db' := by
  by_cases heq : worse = better
  · exact if_pos heq
  have hpaired := insertDuplicatePair_spec h.sane worse better db' hok
  have hjoined := (hpaired.effect heq).joined
  have hne : worse ≠ db'.duplicateKing worse := by
    cases hpaired with
    | unchanged reason hsame => exact hsame ▸ (reason.resolve_left heq).2.symm
    | group hworse hne hr =>
      rw [hr.duplicateKing_eq, merge_of_eq hworse]
      exact hne.symm
    | subordinate hworse hroots hr _ =>
      rw [hr.duplicateKing_eq, Function.update_self, Db.newRoot, if_neg hroots]
      -- the king of the better record is a king, and the worse record is none
      exact fun hking => hworse (hking ▸ h.sane.flat better)
  exact (if_neg heq).trans (if_pos ⟨hjoined, hne⟩)

theorem insertDuplicatePair_again_two :
    ∃ db, insertDuplicatePair 1 2 (Db.empty [1, 2]) = .ok db ∧
      insertDuplicatePair 1 2 db = .ok db :=
  ⟨_, rfl, insertDuplicatePair_again (@Reachable.empty [1, 2]) rfl⟩

end Idhan.Duplicates
