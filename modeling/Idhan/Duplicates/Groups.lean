import Idhan.Lib.Groups
import Idhan.Duplicates.Statements

/-!
# The groups are flat, and the rulings join kings

`duplicate_king` is read as the king of a partition, and a kind of ruling as a relation between
records (`Db.Joined`).  What the statements do to both is then said in the terms of `Lib/Groups`: a
king that is ruled a duplicate takes its group and its rulings along (`merge`, `transfer`), and a
member that moves or is detached changes its own king only (`Function.update`).

`moveGroup_spec`, `moveSubordinate_spec` and `removeDuplicatePair_spec` are these readings, one for
each way in which a group can change.  `exec_sane` then has every statement keep the groups flat and
the rulings on kings, with the lemmas of the library, and `duplicates_flat` says so of every
reachable state.
-/

namespace Idhan.Duplicates

open List Function

variable {db db' : Db} {new : DuplicateMember} {record worse better king a b x y : RecordId}
variable {ruling : Ruling} {joined : Ruling → RecordId → RecordId → Prop}

/-! ## Reading the groups -/

/-- The records have one row at most. -/
def Db.Keyed (db : Db) : Prop :=
  KeyUnique DuplicateMember.recordId db.duplicateMembers

/-- The record has a row. -/
def Db.HasRow (db : Db) (record : RecordId) : Prop :=
  record ∈ db.duplicateMembers.map (·.recordId)

theorem any_recordId_iff : (db.duplicateMembers.any fun m => m.recordId = record) = true ↔
    db.HasRow record := by
  simp only [Db.HasRow, any_eq_true, decide_eq_true_eq, mem_map]

theorem duplicateKing_of_mem (h : db.Keyed) {m : DuplicateMember} (hm : m ∈ db.duplicateMembers) :
    db.duplicateKing m.recordId = m.kingId := by
  have hfind : (db.duplicateMembers.find? fun m' => m'.recordId = m.recordId) = some m :=
    KeyUnique.find?_eq_some h hm
  rw [Db.duplicateKing, hfind]
  rfl

theorem duplicateKing_of_not_mem
    (h : ¬db.HasRow record) : db.duplicateKing record = record := by
  have hfind : (db.duplicateMembers.find? fun m => m.recordId = record) = none :=
    find?_key_eq_none.2 h
  rw [Db.duplicateKing, hfind]
  rfl

/-- A record is in a group exactly if it has the king of the group. -/
theorem mem_duplicateGroupMembers (h : db.Keyed) : record ∈ db.duplicateGroupMembers king ↔
    db.duplicateKing record = king := by
  rw [Db.duplicateGroupMembers, mem_append]
  by_cases hrow : db.HasRow record
  · obtain ⟨m, hm, rfl⟩ := mem_map.1 hrow
    rw [duplicateKing_of_mem h hm]
    constructor
    · rintro (hmem | hmem)
      · obtain ⟨m', hm', hr⟩ := mem_map.1 hmem
        obtain ⟨hm', hking⟩ := mem_filter.1 hm'
        rw [← h.eq_of_key_eq hm' hm hr]
        exact of_decide_eq_true hking
      · split_ifs at hmem with hking
        · exact (not_mem_nil hmem).elim
        · exact (hking (any_recordId_iff.2 (mem_singleton.1 hmem ▸ hrow))).elim
    · rintro rfl
      exact Or.inl (mem_map.2 ⟨m, mem_filter.2 ⟨hm, decide_eq_true rfl⟩, rfl⟩)
  · rw [duplicateKing_of_not_mem hrow]
    constructor
    · rintro (hmem | hmem)
      · obtain ⟨m, hm, rfl⟩ := mem_map.1 hmem
        exact (hrow (mem_map_of_mem (mem_of_mem_filter hm))).elim
      · split_ifs at hmem with hking
        · exact (not_mem_nil hmem).elim
        · exact mem_singleton.1 hmem
    · rintro rfl
      rw [if_neg fun hking => hrow (any_recordId_iff.1 hking)]
      exact Or.inr (mem_singleton_self _)

theorem nodup_duplicateGroupMembers (h : db.Keyed) (king : RecordId) :
    (db.duplicateGroupMembers king).Nodup := by
  rw [Db.duplicateGroupMembers, nodup_append]
  refine ⟨h.filter _, ?_, fun x hx y hy => ?_⟩
  · split_ifs
    · exact nodup_nil
    · exact nodup_singleton _
  · rintro rfl
    split_ifs at hy with hking
    · exact not_mem_nil hy
    · obtain ⟨m, hm, rfl⟩ := mem_map.1 hx
      refine hking (any_eq_true.2 ⟨m, mem_of_mem_filter hm, ?_⟩)
      exact decide_eq_true (mem_singleton.1 hy)

/-! ## Reading the rulings -/

theorem RuledPair.of_comm (a b : RecordId) : RuledPair.of a b = RuledPair.of b a := by
  rw [RuledPair.of, RuledPair.of, min_comm, max_comm]

/-- The kind of ruling joins two records. -/
def Db.Joined (db : Db) (ruling : Ruling) (a b : RecordId) : Prop :=
  RuledPair.of a b ∈ db.ruled ruling

/-- Some ruling joins two records. -/
def Db.AnyJoined (db : Db) (a b : RecordId) : Prop :=
  ∃ ruling, db.Joined ruling a b

theorem joined_comm : db.Joined ruling a b ↔ db.Joined ruling b a := by
  rw [Db.Joined, RuledPair.of_comm, Db.Joined]

theorem joined_congr (h : db'.ruled ruling = db.ruled ruling) :
    db'.Joined ruling = db.Joined ruling := by
  funext a b
  rw [Db.Joined, h, Db.Joined]

/-- `pair_is_ruled` says that a pair is decided. -/
theorem pairIsRuled_iff :
    db.pairIsRuled x y = true ↔ Ruled db.duplicateKing db.AnyJoined x y := by
  have hany : ∀ a b, db.AnyJoined a b ↔
      RuledPair.of a b ∈ db.alternativeRecords ∨ RuledPair.of a b ∈ db.unrelatedRecords := by
    intro a b
    constructor
    · rintro ⟨_ | _, h⟩
      · exact Or.inl h
      · exact Or.inr h
    · rintro (h | h)
      · exact ⟨.alternative, h⟩
      · exact ⟨.unrelated, h⟩
  rw [Ruled, hany]
  simp only [Db.pairIsRuled, Bool.or_eq_true, decide_eq_true_eq, or_assoc]

/-! ## What a statement may change -/

/-- Only the distances and the queue change. -/
structure SameGroups (db db' : Db) : Prop where
  records : db'.records = db.records
  duplicateMembers : db'.duplicateMembers = db.duplicateMembers
  imageMetadata : db'.imageMetadata = db.imageMetadata

theorem SameGroups.trans {db'' : Db} (h : SameGroups db db') (h' : SameGroups db' db'') :
    SameGroups db db'' :=
  ⟨h'.records.trans h.records, h'.duplicateMembers.trans h.duplicateMembers,
    h'.imageMetadata.trans h.imageMetadata⟩

theorem SameGroups.keyed (h : SameGroups db db') (hk : db.Keyed) : db'.Keyed := by
  rw [Db.Keyed, h.duplicateMembers]
  exact hk

theorem SameGroups.duplicateKing_eq (h : SameGroups db db') :
    db'.duplicateKing = db.duplicateKing := by
  funext record
  rw [Db.duplicateKing, Db.duplicateKing, h.duplicateMembers]

section SetRuled

variable (db : Db) (ruling : Ruling) (rows : List RuledPair)

theorem ruled_setRuled_self : (db.setRuled ruling rows).ruled ruling = rows := by
  cases ruling <;> rfl

theorem ruled_setRuled_of_ne {ruling' : Ruling} (h : ruling' ≠ ruling) :
    (db.setRuled ruling rows).ruled ruling' = db.ruled ruling' := by
  cases ruling <;> cases ruling' <;> first | rfl | exact absurd rfl h

theorem sameGroups_setRuled : SameGroups db (db.setRuled ruling rows) := by
  cases ruling <;> exact ⟨rfl, rfl, rfl⟩

theorem hammingDistance_setRuled :
    (db.setRuled ruling rows).hammingDistance = db.hammingDistance := by
  cases ruling <;> rfl

theorem hammingDistanceQueue_setRuled :
    (db.setRuled ruling rows).hammingDistanceQueue = db.hammingDistanceQueue := by
  cases ruling <;> rfl

end SetRuled

theorem mem_queueRecords {ids : List RecordId} :
    record ∈ (queueRecords ids db).hammingDistanceQueue ↔
      record ∈ db.hammingDistanceQueue ∨ record ∈ ids :=
  mem_upsert_id

/-! ## The statements on rulings -/

/-- A distance between two groups is one of a pair with these kings. -/
theorem HammingDistance.king_of_between (h : db.Keyed) {row : HammingDistance}
    (hrow : row.between (db.duplicateGroupMembers a) (db.duplicateGroupMembers b)) :
    RuledPair.of (db.duplicateKing row.leftId) (db.duplicateKing row.rightId) =
      RuledPair.of a b := by
  simp only [HammingDistance.between, any_eq_true, decide_eq_true_eq] at hrow
  obtain ⟨l, hl, r, hr, hleft, hright⟩ := hrow
  rw [mem_duplicateGroupMembers h] at hl hr
  rcases le_total l r with hlr | hrl
  · rw [hleft, hright, min_eq_left hlr, max_eq_right hlr, hl, hr]
  · rw [hleft, hright, min_eq_right hrl, max_eq_left hrl, hl, hr, RuledPair.of_comm]

/-- What an insert of rulings does: the rows `added` are there afterwards, and the distances that
are discarded are those of pairs that the kind of ruling joins now. -/
structure Added (ruling : Ruling) (added : List RuledPair) (db db' : Db) : Prop
    extends SameGroups db db' where
  queue : db'.hammingDistanceQueue = db.hammingDistanceQueue
  others : ∀ r, r ≠ ruling → db'.ruled r = db.ruled r
  mem : ∀ row, row ∈ db'.ruled ruling ↔ row ∈ db.ruled ruling ∨ row ∈ added
  kept : ∀ row ∈ db.hammingDistance, row ∈ db'.hammingDistance ∨
    db'.Joined ruling (db.duplicateKing row.leftId) (db.duplicateKing row.rightId)

theorem foldl_discardRuledDistance (news : List RuledPair) (db : Db) :
    news.foldl (fun db new => discardRuledDistance new db) db =
      { db with
        hammingDistance := db.hammingDistance.filter fun row =>
          !news.any fun new => row.between (db.duplicateGroupMembers new.lesserRecordId)
            (db.duplicateGroupMembers new.greaterRecordId) } := by
  induction news generalizing db with
  | nil => simp
  | cons new news ih =>
    rw [foldl_cons, ih]
    simp only [discardRuledDistance, filter_filter, any_cons, Bool.not_or, Bool.and_comm]
    rfl

theorem RuledPair.of_ordered {row : RuledPair} (h : row.lesserRecordId < row.greaterRecordId) :
    RuledPair.of row.lesserRecordId row.greaterRecordId = row := by
  rw [RuledPair.of, min_eq_left h.le, max_eq_right h.le]

theorem RuledPair.ordered_of_ne (h : a ≠ b) :
    (RuledPair.of a b).lesserRecordId < (RuledPair.of a b).greaterRecordId :=
  min_lt_max.2 h

/-- A row that the trigger lets through joins two kings. -/
theorem of_normalizeRuledPair {new row : RuledPair} (h : normalizeRuledPair db new = some row) :
    db.duplicateKing new.lesserRecordId ≠ db.duplicateKing new.greaterRecordId ∧
      row = RuledPair.of (db.duplicateKing new.lesserRecordId)
        (db.duplicateKing new.greaterRecordId) := by
  simp only [normalizeRuledPair] at h
  split_ifs at h with heq
  exact ⟨heq, (Option.some.inj h).symm⟩

theorem insertRuledPairs_spec (h : db.Keyed) (ruling : Ruling) (rows : List RuledPair) :
    Returns (insertRuledPairs ruling rows db)
      (Added ruling (rows.filterMap (normalizeRuledPair db)) db) := by
  simp only [insertRuledPairs]
  split_ifs
  · exact .error
  · rw [foldl_discardRuledDistance]
    have hsame := sameGroups_setRuled db ruling
      (upsert id none (db.ruled ruling) (rows.filterMap (normalizeRuledPair db))).table
    refine .ok ⟨{ hsame with }, ?_, ?_, ?_, ?_⟩
    · exact hammingDistanceQueue_setRuled _ _ _
    · exact fun r hr => ruled_setRuled_of_ne _ _ _ hr
    · intro row
      rw [← mem_upsert_id]
      exact iff_of_eq (congrArg _ (ruled_setRuled_self _ _ _))
    · intro row hrow
      rw [mem_filter, hammingDistance_setRuled, Bool.not_eq_true', or_iff_not_imp_left]
      intro hdiscarded
      obtain ⟨new, hnew, hbetween⟩ := any_eq_true.1 (by simpa [hrow] using hdiscarded)
      obtain ⟨hadded, _⟩ := of_mem_upsert_inserted keepsKey_none hnew
      obtain ⟨pair, _, hpair⟩ := mem_filterMap.1 hadded
      obtain ⟨hne, rfl⟩ := of_normalizeRuledPair hpair
      have hof := HammingDistance.king_of_between (hsame.keyed h) hbetween
      rw [hsame.duplicateKing_eq, RuledPair.of_ordered (RuledPair.ordered_of_ne hne)] at hof
      rw [Db.Joined, hof]
      exact (ruled_setRuled_self _ ruling _).symm ▸ mem_upsert_id.2 (Or.inr hadded)

/-- What a delete of rulings does: the groups of a pair that is not ruled any more are queued. -/
structure Cleared (ruling : Ruling) (p : RuledPair → Bool) (db db' : Db) : Prop
    extends SameGroups db db' where
  hammingDistance : db'.hammingDistance = db.hammingDistance
  others : ∀ r, r ≠ ruling → db'.ruled r = db.ruled r
  table : db'.ruled ruling = (db.ruled ruling).filter fun row => !p row
  queue : ∀ record ∈ db.hammingDistanceQueue, record ∈ db'.hammingDistanceQueue
  queued : ∀ old ∈ db.ruled ruling, p old →
    db'.pairIsRuled old.lesserRecordId old.greaterRecordId ∨
      ∀ record, db.duplicateKing record = db.duplicateKing old.lesserRecordId ∨
        db.duplicateKing record = db.duplicateKing old.greaterRecordId →
        record ∈ db'.hammingDistanceQueue

/-- The deletes of one statement, after which `db` is the state without the rows. -/
theorem foldl_requeueRuledDistance (olds : List RuledPair) (db : Db) :
    ∃ queue, olds.foldl (fun db old => requeueRuledDistance old db) db =
        { db with hammingDistanceQueue := queue } ∧
      (∀ record ∈ db.hammingDistanceQueue, record ∈ queue) ∧
      ∀ old ∈ olds, db.pairIsRuled old.lesserRecordId old.greaterRecordId ∨
        ∀ record ∈ db.duplicateGroupMembers (db.duplicateKing old.lesserRecordId) ++
          db.duplicateGroupMembers (db.duplicateKing old.greaterRecordId), record ∈ queue := by
  induction olds generalizing db with
  | nil => exact ⟨_, rfl, fun _ h => h, forall_mem_nil _⟩
  | cons old olds ih =>
    rw [foldl_cons]
    -- the state after the first trigger differs in the queue only
    obtain ⟨first, hfirst, hkept, hold⟩ : ∃ first,
        requeueRuledDistance old db = { db with hammingDistanceQueue := first } ∧
        (∀ record ∈ db.hammingDistanceQueue, record ∈ first) ∧
        (db.pairIsRuled old.lesserRecordId old.greaterRecordId ∨
          ∀ record ∈ db.duplicateGroupMembers (db.duplicateKing old.lesserRecordId) ++
            db.duplicateGroupMembers (db.duplicateKing old.greaterRecordId), record ∈ first) := by
      unfold requeueRuledDistance
      by_cases hruled : db.pairIsRuled old.lesserRecordId old.greaterRecordId
      · exact ⟨_, if_pos hruled, fun _ h => h, Or.inl hruled⟩
      · refine ⟨_, if_neg hruled, fun _ h => mem_queueRecords.2 (Or.inl h), Or.inr fun _ h => ?_⟩
        exact mem_queueRecords.2 (Or.inr (mem_dedup.2 h))
    obtain ⟨queue, hqueue, hkept', holds⟩ := ih (requeueRuledDistance old db)
    rw [hfirst] at hqueue hkept' holds ⊢
    refine ⟨queue, hqueue, fun r hr => hkept' r (hkept r hr), fun old' hold' => ?_⟩
    rcases mem_cons.1 hold' with rfl | hold'
    · exact hold.imp_right fun h r hr => hkept' r (h r hr)
    · exact holds old' hold'

theorem deleteRuledPairs_spec (h : db.Keyed) (ruling : Ruling) (p : RuledPair → Bool) :
    Cleared ruling p db (deleteRuledPairs ruling p db) := by
  have hsame := sameGroups_setRuled db ruling ((db.ruled ruling).filter fun row => !p row)
  obtain ⟨queue, hqueue, hkept, holds⟩ := foldl_requeueRuledDistance ((db.ruled ruling).filter p)
    (db.setRuled ruling ((db.ruled ruling).filter fun row => !p row))
  rw [deleteRuledPairs, hqueue]
  refine ⟨{ hsame with },
    hammingDistance_setRuled _ _ _, fun r hr => ruled_setRuled_of_ne _ _ _ hr,
    ruled_setRuled_self _ _ _, fun r hr => hkept r ?_, fun old hold hp => ?_⟩
  · rwa [hammingDistanceQueue_setRuled]
  · refine (holds old (mem_filter.2 ⟨hold, hp⟩)).imp_right fun hmem record hking => ?_
    refine hmem record (mem_append.2 ?_)
    rw [mem_duplicateGroupMembers (hsame.keyed h), mem_duplicateGroupMembers (hsame.keyed h),
      hsame.duplicateKing_eq]
    exact hking

/-! ## The transfer of rulings -/

theorem min_max_eq_iff {a b c d : ℕ} :
    min a b = min c d ∧ max a b = max c d ↔ (a = c ∧ b = d) ∨ (a = d ∧ b = c) := by
  omega

theorem RuledPair.of_eq_of_iff {a b c d : RecordId} :
    RuledPair.of a b = RuledPair.of c d ↔ (a = c ∧ b = d) ∨ (a = d ∧ b = c) := by
  rw [RuledPair.of, RuledPair.of, RuledPair.mk.injEq]
  exact min_max_eq_iff

theorem RuledPair.concerns_of {king a b : RecordId} :
    (RuledPair.of a b).concerns king = true ↔ a = king ∨ b = king := by
  rw [RuledPair.concerns, decide_eq_true_eq, RuledPair.of]
  rcases le_total a b with h | h
  · rw [min_eq_left h, max_eq_right h]
  · rw [min_eq_right h, max_eq_left h, or_comm]

/-- The other kings of the rulings of a king. -/
theorem mem_map_other {king other : RecordId}
    (hordered : ∀ row ∈ db.ruled ruling, row.lesserRecordId < row.greaterRecordId) :
    other ∈ ((db.ruled ruling).filter (RuledPair.concerns king)).map (RuledPair.other king) ↔
      db.Joined ruling king other ∧ other ≠ king := by
  constructor
  · intro h
    obtain ⟨row, hrow, rfl⟩ := mem_map.1 h
    obtain ⟨hmem, hking⟩ := mem_filter.1 hrow
    have hlt := hordered row hmem
    rw [RuledPair.concerns, decide_eq_true_eq] at hking
    rw [Db.Joined, RuledPair.other]
    split_ifs with hlesser
    · subst hlesser
      rw [RuledPair.of_ordered hlt]
      exact ⟨hmem, hlt.ne'⟩
    · obtain rfl := hking.resolve_left hlesser
      rw [RuledPair.of_comm, RuledPair.of_ordered hlt]
      exact ⟨hmem, hlt.ne⟩
  · rintro ⟨h, hne⟩
    refine mem_map.2 ⟨_, mem_filter.2 ⟨h, RuledPair.concerns_of.2 (Or.inl rfl)⟩, ?_⟩
    rw [RuledPair.other, RuledPair.of]
    rcases le_total king other with hle | hle
    · rw [if_pos (min_eq_left hle), max_eq_right hle]
    · rw [if_neg fun hmin => hne (min_eq_right hle ▸ hmin), min_eq_right hle]

/-- A ruling of two kings is not changed by the trigger. -/
theorem normalizeRuledPair_of (ha : db.duplicateKing a = a) (hb : db.duplicateKing b = b)
    (hne : a ≠ b) : normalizeRuledPair db (RuledPair.of a b) = some (RuledPair.of a b) := by
  have hking : ∀ x, x = a ∨ x = b → db.duplicateKing x = x := by
    rintro x (rfl | rfl)
    · exact ha
    · exact hb
  have hlesser : db.duplicateKing (RuledPair.of a b).lesserRecordId =
      (RuledPair.of a b).lesserRecordId := hking _ (min_choice a b)
  have hgreater : db.duplicateKing (RuledPair.of a b).greaterRecordId =
      (RuledPair.of a b).greaterRecordId := hking _ (max_choice a b)
  have hordered := RuledPair.ordered_of_ne hne
  simp only [normalizeRuledPair, hlesser, hgreater, if_neg hordered.ne,
    RuledPair.of_ordered hordered]

/-- The rulings of one kind are moved from `worse` to `newRoot`. -/
structure Transferred (ruling : Ruling) (worse newRoot : RecordId) (db db' : Db) : Prop
    extends SameGroups db db' where
  others : ∀ r, r ≠ ruling → db'.ruled r = db.ruled r
  joined : ∀ a b, db'.Joined ruling a b ↔ transfer (db.Joined ruling) worse newRoot a b
  ordered : ∀ row ∈ db'.ruled ruling, row.lesserRecordId < row.greaterRecordId
  kept : ∀ row ∈ db.hammingDistance, row ∈ db'.hammingDistance ∨
    db'.Joined ruling (db.duplicateKing row.leftId) (db.duplicateKing row.rightId)
  queue : ∀ record ∈ db.hammingDistanceQueue, record ∈ db'.hammingDistanceQueue

/-- **The rulings of a king that has been merged into `newRoot` are transferred.** -/
theorem transferRulings_spec (h : db.Keyed) {king : RecordId → RecordId} (ruling : Ruling)
    {newRoot : RecordId} (hking : db.duplicateKing = merge king worse newRoot)
    (hroot : king newRoot = newRoot ∨ king newRoot = worse) (hne : newRoot ≠ worse)
    (hordered : ∀ row ∈ db.ruled ruling, row.lesserRecordId < row.greaterRecordId)
    (hjoins : JoinsKings king (db.Joined ruling)) :
    Returns (transferRulings ruling worse newRoot db) (Transferred ruling worse newRoot db) := by
  refine (insertRuledPairs_spec h ruling _).bind fun s hs => .ok ?_
  have hc := deleteRuledPairs_spec (hs.keyed h) ruling (RuledPair.concerns worse)
  have hrootking : db.duplicateKing newRoot = newRoot := by
    rw [hking]
    exact merge_self hroot
  have hnorm : ∀ other, db.Joined ruling worse other → other ≠ newRoot →
      normalizeRuledPair db (RuledPair.of newRoot other) = some (RuledPair.of newRoot other) :=
    fun other hother hnr => by
      refine normalizeRuledPair_of hrootking ?_ hnr.symm
      rw [hking]
      exact merge_king (hjoins.right hother) (hjoins.ne hother).symm
  have hadded : ∀ row, row ∈ s.ruled ruling ↔ row ∈ db.ruled ruling ∨
      ∃ other, db.Joined ruling worse other ∧ other ≠ newRoot ∧
      row = RuledPair.of newRoot other := by
    intro row
    rw [hs.mem, mem_filterMap]
    refine or_congr_right ⟨?_, ?_⟩
    · rintro ⟨_, hpair, hrow⟩
      obtain ⟨other, hother, rfl⟩ := mem_map.1 hpair
      obtain ⟨hother, hnr⟩ := mem_filter.1 hother
      have hjoined := ((mem_map_other hordered).1 hother).1
      rw [hnorm other hjoined (of_decide_eq_true hnr)] at hrow
      exact ⟨other, hjoined, of_decide_eq_true hnr, (Option.some.inj hrow).symm⟩
    · rintro ⟨other, hother, hnr, rfl⟩
      refine ⟨_, mem_map_of_mem (mem_filter.2 ⟨?_, decide_eq_true hnr⟩),
        hnorm other hother hnr⟩
      exact (mem_map_other hordered).2 ⟨hother, (hjoins.ne hother).symm⟩
  refine ⟨hs.toSameGroups.trans hc.toSameGroups,
    fun r hr => (hc.others r hr).trans (hs.others r hr), fun a b => ?_, fun row hrow => ?_,
    fun row hrow => ?_, fun record hrecord => ?_⟩
  · rw [Db.Joined, hc.table, mem_filter, hadded, Bool.not_eq_true', Bool.eq_false_iff, Ne,
      RuledPair.concerns_of, not_or, transfer]
    constructor
    · rintro ⟨hab | ⟨other, hother, hnr, hof⟩, ha, hb⟩
      · exact Or.inl ⟨hab, ha, hb⟩
      · rcases RuledPair.of_eq_of_iff.1 hof with ⟨rfl, rfl⟩ | ⟨rfl, rfl⟩
        · exact Or.inr (Or.inl ⟨rfl, hnr, hother⟩)
        · exact Or.inr (Or.inr ⟨rfl, hnr, joined_comm.1 hother⟩)
    · rintro (⟨hab, ha, hb⟩ | ⟨rfl, hnr, hother⟩ | ⟨rfl, hnr, hother⟩)
      · exact ⟨Or.inl hab, ha, hb⟩
      · exact ⟨Or.inr ⟨b, hother, hnr, rfl⟩, hne, (hjoins.ne hother).symm⟩
      · exact ⟨Or.inr ⟨a, joined_comm.1 hother, hnr, RuledPair.of_comm _ _⟩, hjoins.ne hother, hne⟩
  · rw [hc.table, mem_filter, hadded] at hrow
    rcases hrow.1 with hrow | ⟨other, _, hnr, rfl⟩
    · exact hordered row hrow
    · exact RuledPair.ordered_of_ne hnr.symm
  · rw [hc.hammingDistance]
    refine (hs.kept row hrow).imp_right fun hjoined => ?_
    rw [Db.Joined, hc.table, mem_filter, Bool.not_eq_true', Bool.eq_false_iff, Ne,
      RuledPair.concerns_of, hking]
    exact ⟨hking ▸ hjoined, not_or.2 ⟨merge_ne hne, merge_ne hne⟩⟩
  · exact hc.queue record (hs.queue.symm ▸ hrecord)

/-! ## The statements on members -/

/-- The king of every row has a row. -/
def Db.Stored (db : Db) : Prop :=
  ∀ m ∈ db.duplicateMembers, m.kingId ∈ db.duplicateMembers.map (·.recordId)

theorem insertDuplicateMember_cases (hok : insertDuplicateMember new db = .ok db') :
    (db.HasRow new.recordId ∧ db' = db) ∨
      (¬db.HasRow new.recordId ∧
        db' = { db with duplicateMembers := db.duplicateMembers ++ [new] }) := by
  unfold insertDuplicateMember at hok
  split_ifs at hok with hmem
  · exact Or.inl ⟨any_recordId_iff.1 hmem, (Except.ok.inj hok).symm⟩
  · exact Or.inr ⟨fun h => hmem (any_recordId_iff.2 h), (Except.ok.inj hok).symm⟩

/-- A new row sets the king of its record. -/
theorem duplicateKing_append (h : db.Keyed) (hnew : ¬db.HasRow new.recordId) :
    ({ db with duplicateMembers := db.duplicateMembers ++ [new] } : Db).duplicateKing =
      Function.update db.duplicateKing new.recordId new.kingId := by
  have hkeyed : ({ db with duplicateMembers := db.duplicateMembers ++ [new] } : Db).Keyed :=
    h.append_singleton hnew
  funext record
  by_cases hr : record = new.recordId
  · subst hr
    rw [update_self]
    exact duplicateKing_of_mem hkeyed (mem_append_right _ (mem_singleton_self _))
  · rw [update_of_ne hr]
    by_cases hmem : db.HasRow record
    · obtain ⟨m, hm, rfl⟩ := mem_map.1 hmem
      rw [duplicateKing_of_mem h hm]
      exact duplicateKing_of_mem hkeyed (mem_append_left _ hm)
    · rw [duplicateKing_of_not_mem hmem]
      refine duplicateKing_of_not_mem ?_
      rw [Db.HasRow, map_append, mem_append, map_singleton, mem_singleton]
      exact not_or.2 ⟨hmem, hr⟩

theorem hasRow_updateKing {p : DuplicateMember → Bool} : (updateKing p king db).HasRow record ↔
    db.HasRow record := by
  simp only [Db.HasRow, updateKing, map_map]
  refine iff_of_eq (congrArg _ (map_congr_left fun m _ => ?_))
  rw [comp_apply]
  split_ifs <;> rfl

/-- An update of kings sets the king of the records whose rows it selects. -/
theorem duplicateKing_updateKing (h : db.Keyed) (p : DuplicateMember → Bool)
    (king record : RecordId) : (updateKing p king db).duplicateKing record =
      if ∃ m ∈ db.duplicateMembers, m.recordId = record ∧ p m then king
      else db.duplicateKing record := by
  have hkeyed : (updateKing p king db).Keyed := h.map fun m _ => by split_ifs <;> rfl
  by_cases hmem : db.HasRow record
  · obtain ⟨m, hm, rfl⟩ := mem_map.1 hmem
    have hrow := duplicateKing_of_mem hkeyed (mem_map_of_mem hm)
    by_cases hp : p m
    · rw [if_pos ⟨m, hm, rfl, hp⟩]
      simpa only [if_pos hp] using hrow
    · rw [if_neg, duplicateKing_of_mem h hm]
      · simpa only [if_neg hp] using hrow
      · rintro ⟨m', hm', hr, hp'⟩
        exact hp (h.eq_of_key_eq hm' hm hr ▸ hp')
  · rw [if_neg, duplicateKing_of_not_mem hmem]
    · exact duplicateKing_of_not_mem fun hmem' => hmem (hasRow_updateKing.1 hmem')
    · rintro ⟨m, hm, rfl, _⟩
      exact hmem (mem_map_of_mem hm)

theorem Db.Stored.updateKing (h : db.Stored) {p : DuplicateMember → Bool} (hking : db.HasRow king) :
    (updateKing p king db).Stored := by
  intro m hm
  refine hasRow_updateKing.2 ?_
  obtain ⟨m', hm', rfl⟩ := mem_map.1 hm
  split_ifs
  · exact hking
  · exact h m' hm'

theorem Db.Stored.append (h : db.Stored)
    (hking : db.HasRow new.kingId ∨ new.kingId = new.recordId) :
    ({ db with duplicateMembers := db.duplicateMembers ++ [new] } : Db).Stored := by
  intro m hm
  rw [map_append, mem_append, map_singleton, mem_singleton]
  rcases mem_append.1 hm with hm | hm
  · exact Or.inl (h m hm)
  · rw [mem_singleton.1 hm]
    exact hking

/-- A row for a king of its own changes no group. -/
theorem insertDuplicateMember_king (h : db.Keyed) (hs : db.Stored)
    (hok : insertDuplicateMember ⟨king, king⟩ db = .ok db') :
    ∃ rows, db' = { db with duplicateMembers := rows } ∧ db'.Keyed ∧ db'.Stored ∧
      db'.duplicateKing = db.duplicateKing ∧ db'.HasRow king := by
  rcases insertDuplicateMember_cases hok with ⟨hmem, rfl⟩ | ⟨hmem, rfl⟩
  · exact ⟨_, rfl, h, hs, rfl, hmem⟩
  · refine ⟨_, rfl, h.append_singleton hmem, hs.append (Or.inr rfl), ?_, ?_⟩
    · rw [duplicateKing_append h hmem]
      exact update_eq_self_iff.2 (duplicateKing_of_not_mem hmem).symm
    · rw [Db.HasRow, map_append]
      exact mem_append_right _ (mem_singleton_self _)

/-- The group of a king gets another king. -/
theorem insertDuplicateMember_merge (h : db.Keyed) (hs : db.Stored) {newRoot : RecordId}
    (hworse : db.duplicateKing worse = worse)
    (hroot : db.HasRow newRoot)
    (hok : insertDuplicateMember ⟨worse, newRoot⟩
      (updateKing (fun m => m.kingId = worse) newRoot db) = .ok db') :
    ∃ rows, db' = { db with duplicateMembers := rows } ∧ db'.Keyed ∧ db'.Stored ∧
      db'.duplicateKing = merge db.duplicateKing worse newRoot := by
  set s := updateKing (fun m => decide (m.kingId = worse)) newRoot db
  have hkeyed : s.Keyed := h.map fun m _ => by split_ifs <;> rfl
  have hstored : s.Stored := hs.updateKing hroot
  -- the update alone moves the records that have a row
  have hking : ∀ record, record ≠ worse ∨ db.HasRow worse →
      s.duplicateKing record = merge db.duplicateKing worse newRoot record := by
    intro record hrecord
    rw [duplicateKing_updateKing h, merge]
    by_cases hmem : db.HasRow record
    · obtain ⟨m, hm, rfl⟩ := mem_map.1 hmem
      rw [duplicateKing_of_mem h hm]
      refine if_congr ⟨?_, fun hk => ⟨m, hm, rfl, decide_eq_true hk⟩⟩ rfl rfl
      rintro ⟨m', hm', hr, hk⟩
      rw [← h.eq_of_key_eq hm' hm hr]
      exact of_decide_eq_true hk
    · rw [if_neg, if_neg]
      · rw [duplicateKing_of_not_mem hmem]
        rintro rfl
        exact hmem (hrecord.resolve_left fun hne => hne rfl)
      · rintro ⟨m, hm, rfl, _⟩
        exact hmem (mem_map_of_mem hm)
  rcases insertDuplicateMember_cases hok with ⟨hmem, rfl⟩ | ⟨hmem, rfl⟩
  · exact ⟨_, rfl, hkeyed, hstored,
      funext fun record => hking record (Or.inr (hasRow_updateKing.1 hmem))⟩
  · refine ⟨_, rfl, hkeyed.append_singleton hmem,
      hstored.append (Or.inl (hasRow_updateKing.2 hroot)), ?_⟩
    rw [duplicateKing_append hkeyed hmem]
    funext record
    by_cases hr : record = worse
    · subst hr
      rw [update_self, merge_of_eq hworse]
    · rw [update_of_ne hr, hking record (Or.inl hr)]

/-! ## The statements on duplicates -/

/-- The state after a statement that gives the groups the kings `king` and the rulings `joined`: a
distance goes only with a ruling, and the queue keeps what it has. -/
structure Regrouped (king : RecordId → RecordId) (joined : Ruling → RecordId → RecordId → Prop)
    (db db' : Db) : Prop where
  imageMetadata : db'.imageMetadata = db.imageMetadata
  keyed : db'.Keyed
  stored : db'.Stored
  ordered : ∀ ruling, ∀ row ∈ db'.ruled ruling, row.lesserRecordId < row.greaterRecordId
  duplicateKing_eq : db'.duplicateKing = king
  joined_iff : ∀ ruling a b, db'.Joined ruling a b ↔ joined ruling a b
  kept : ∀ row ∈ db.hammingDistance, row ∈ db'.hammingDistance ∨
    db'.pairIsRuled row.leftId row.rightId
  queue : ∀ record ∈ db.hammingDistanceQueue, record ∈ db'.hammingDistanceQueue

/-- What holds of the tables in every state. -/
structure Sane (db : Db) : Prop where
  keyed : db.Keyed
  stored : db.Stored
  flat : Flat db.duplicateKing
  ordered : ∀ ruling, ∀ row ∈ db.ruled ruling, row.lesserRecordId < row.greaterRecordId
  joins : ∀ ruling, JoinsKings db.duplicateKing (db.Joined ruling)

theorem mem_discardMoved {movedIds : List RecordId} {row : HammingDistance}
    (h : row ∈ db.hammingDistance) :
    row ∈ (discardMoved movedIds db).hammingDistance ∨ db.pairIsRuled row.leftId row.rightId := by
  by_cases hruled : db.pairIsRuled row.leftId row.rightId
  · exact Or.inr hruled
  · refine Or.inl (mem_filter.2 ⟨h, ?_⟩)
    rw [Bool.eq_false_iff.2 hruled, Bool.and_false, Bool.not_false]

theorem pairIsRuled_of_joined (db : Db) (ruling : Ruling)
    (h : db.Joined ruling (db.duplicateKing x) (db.duplicateKing y)) : db.pairIsRuled x y :=
  pairIsRuled_iff.2 (Or.inr ⟨ruling, h⟩)

/-- **A king that is ruled a duplicate** takes its group and its rulings along. -/
theorem moveGroup_spec (h : Sane db) {newRoot : RecordId}
    (hworse : db.duplicateKing worse = worse)
    (hroot : db.duplicateKing newRoot = newRoot ∨ db.duplicateKing newRoot = worse)
    (hmem : db.HasRow newRoot) (hne : newRoot ≠ worse) :
    Returns (moveGroup worse newRoot db)
      (Regrouped (merge db.duplicateKing worse newRoot)
        (fun ruling => transfer (db.Joined ruling) worse newRoot) db) := by
  have hmerge : Returns (insertDuplicateMember ⟨worse, newRoot⟩
      (updateKing (fun m => m.kingId = worse) newRoot db)) fun s =>
      ∃ rows, s = { db with duplicateMembers := rows } ∧ s.Keyed ∧ s.Stored ∧
        s.duplicateKing = merge db.duplicateKing worse newRoot :=
    fun s hok => insertDuplicateMember_merge h.keyed h.stored hworse hmem hok
  refine hmerge.bind ?_
  rintro s ⟨rows, rfl, hkeyed, hstored, hking⟩
  refine (transferRulings_spec hkeyed .alternative hking hroot hne (h.ordered .alternative)
    (h.joins .alternative)).bind fun s hs => ?_
  have hunrelated : s.ruled .unrelated = db.ruled .unrelated := hs.others .unrelated nofun
  have hjoined : s.Joined .unrelated = db.Joined .unrelated := joined_congr hunrelated
  refine (transferRulings_spec (hs.keyed hkeyed) .unrelated (hs.duplicateKing_eq.trans hking) hroot
    hne (hunrelated ▸ h.ordered .unrelated) (hjoined ▸ h.joins .unrelated)).bind fun s' hs' =>
    .ok ?_
  have halternative : s'.ruled .alternative = s.ruled .alternative :=
    hs'.others .alternative nofun
  have hking' : s'.duplicateKing = merge db.duplicateKing worse newRoot :=
    hs'.duplicateKing_eq.trans (hs.duplicateKing_eq.trans hking)
  refine ⟨hs'.imageMetadata.trans hs.imageMetadata, hs'.keyed (hs.keyed hkeyed), ?_, ?_, hking',
    ?_, ?_, ?_⟩
  · intro m hm
    have hmembers := hs'.duplicateMembers.trans hs.duplicateMembers
    exact hmembers ▸ hstored m (hmembers ▸ hm)
  · rintro (_ | _) row hrow
    · exact hs.ordered row (halternative ▸ hrow)
    · exact hs'.ordered row hrow
  · rintro (_ | _) a b
    · exact (iff_of_eq (congrArg _ halternative)).trans (hs.joined a b)
    · rw [← hjoined]
      exact hs'.joined a b
  · intro row hrow
    rcases hs.kept row hrow with hrow | hjoined
    · rcases hs'.kept row hrow with hrow | hjoined
      · exact mem_discardMoved hrow
      · exact Or.inr (pairIsRuled_of_joined s' .unrelated (hs'.duplicateKing_eq ▸ hjoined))
    · refine Or.inr (pairIsRuled_of_joined s' .alternative ?_)
      rw [Db.Joined, halternative, hs'.duplicateKing_eq, hs.duplicateKing_eq]
      exact hjoined
  · exact fun record hrecord => hs'.queue record (hs.queue record hrecord)

theorem Regrouped.sane {king : RecordId → RecordId}
    (h : Regrouped king joined db db') (hflat : Flat king)
    (hjoins : ∀ ruling, JoinsKings king (joined ruling)) : Sane db' := by
  refine { h with flat := h.duplicateKing_eq ▸ hflat, joins := fun ruling => ?_ }
  have hjoined : db'.Joined ruling = joined ruling :=
    funext fun a => funext fun b => propext (h.joined_iff ruling a b)
  rw [h.duplicateKing_eq, hjoined]
  exact hjoins ruling

/-- The rulings of some kind after a transfer of each kind. -/
theorem anyJoined_of_transfer {k n a b : RecordId}
    (h : transfer (fun a b => ∃ ruling, joined ruling a b) k n a b) :
    ∃ ruling, transfer (joined ruling) k n a b := by
  rcases h with ⟨⟨ruling, h⟩, hne⟩ | ⟨ha, hb, ruling, h⟩ | ⟨hb, ha, ruling, h⟩
  · exact ⟨ruling, Or.inl ⟨h, hne⟩⟩
  · exact ⟨ruling, Or.inr (Or.inl ⟨ha, hb, h⟩)⟩
  · exact ⟨ruling, Or.inr (Or.inr ⟨hb, ha, h⟩)⟩

/-- A pair that was ruled is ruled after a group has moved with its rulings. -/
theorem Regrouped.pairIsRuled_of_merge {newRoot : RecordId}
    (h : Regrouped (merge db.duplicateKing worse newRoot)
      (fun ruling => transfer (db.Joined ruling) worse newRoot) db db')
    (hruled : db.pairIsRuled x y) : db'.pairIsRuled x y := by
  have hmerge := (pairIsRuled_iff.1 hruled).merge (k := worse) (n := newRoot)
  rw [pairIsRuled_iff, h.duplicateKing_eq]
  refine hmerge.imp_right fun hjoined => ?_
  obtain ⟨ruling, htransfer⟩ := anyJoined_of_transfer hjoined
  exact ⟨ruling, (h.joined_iff ruling _ _).2 htransfer⟩

theorem Regrouped.anyJoined_eq {king : RecordId → RecordId} (h : Regrouped king db.Joined db db') :
    db'.AnyJoined = db.AnyJoined := by
  funext a b
  exact propext (exists_congr fun ruling => h.joined_iff ruling a b)

/-- If one member moves, the other pairs are ruled as before. -/
theorem Regrouped.pairIsRuled_update
    (h : Regrouped (Function.update db.duplicateKing record king) db.Joined db db')
    (hx : x ≠ record) (hy : y ≠ record) : db'.pairIsRuled x y ↔ db.pairIsRuled x y := by
  rw [pairIsRuled_iff, pairIsRuled_iff, h.duplicateKing_eq, h.anyJoined_eq, ruled_update_iff hx hy]

/-- One row gets another king. -/
theorem updateKing_spec (h : Sane db) (hrecord : db.HasRow record)
    (hking : db.HasRow king) :
    Regrouped (Function.update db.duplicateKing record king) db.Joined db
      (updateKing (fun m => m.recordId = record) king db) where
  imageMetadata := rfl
  keyed := h.keyed.map fun m _ => by split_ifs <;> rfl
  stored := h.stored.updateKing hking
  ordered := h.ordered
  duplicateKing_eq := by
    funext x
    rw [duplicateKing_updateKing h.keyed]
    by_cases hx : x = record
    · subst hx
      obtain ⟨m, hm, rfl⟩ := mem_map.1 hrecord
      rw [update_self, if_pos ⟨m, hm, rfl, decide_eq_true rfl⟩]
    · rw [update_of_ne hx, if_neg]
      rintro ⟨m, _, rfl, hm⟩
      exact hx (of_decide_eq_true hm)
  joined_iff := fun _ _ _ => Iff.rfl
  kept := fun _ hrow => Or.inl hrow
  queue := fun _ hrecord => hrecord

/-- **A subordinate that is ruled a duplicate** changes its own king only, and is queued. -/
theorem moveSubordinate_spec (h : Sane db) {betterRoot : RecordId}
    (hworse : db.duplicateKing worse ≠ worse)
    (hroot : db.HasRow betterRoot) :
    Regrouped (Function.update db.duplicateKing worse betterRoot) db.Joined db
        (moveSubordinate worse (db.duplicateKing worse) betterRoot db) ∧
      worse ∈ (moveSubordinate worse (db.duplicateKing worse) betterRoot
        db).hammingDistanceQueue := by
  have hmem : db.HasRow worse := by
    by_contra hmem
    exact hworse (duplicateKing_of_not_mem hmem)
  have hs := updateKing_spec h hmem hroot
  refine ⟨⟨rfl, hs.keyed, hs.stored, hs.ordered, hs.duplicateKing_eq, fun _ _ _ => Iff.rfl,
    fun row hrow => mem_discardMoved hrow, fun record hrecord => ?_⟩, ?_⟩
  · exact mem_queueRecords.2 (Or.inl hrecord)
  · refine mem_queueRecords.2 (Or.inr (mem_dedup.2 (mem_append_left _ ?_)))
    exact (mem_duplicateGroupMembers h.keyed).2 rfl

/-- **A member that is detached** becomes its own king, and is queued. -/
theorem removeDuplicatePair_spec (h : Sane db) (recordA recordB : RecordId) :
    (removeDuplicatePair recordA recordB db).2 = db ∨
      ∃ removed, db.duplicateKing removed ≠ removed ∧
        Regrouped (Function.update db.duplicateKing removed removed) db.Joined db
          (removeDuplicatePair recordA recordB db).2 ∧
        removed ∈ (removeDuplicatePair recordA recordB db).2.hammingDistanceQueue := by
  rw [removeDuplicatePair]
  cases hfind : db.removedMember recordA recordB with
  | none => exact Or.inl rfl
  | some m =>
    have hm : m ∈ db.duplicateMembers := mem_of_find?_eq_some hfind
    have hmem := mem_map_of_mem (f := DuplicateMember.recordId) hm
    have hs := updateKing_spec h hmem hmem
    refine Or.inr ⟨m.recordId, ?_, ⟨rfl, hs.keyed, hs.stored, hs.ordered, hs.duplicateKing_eq,
      fun _ _ _ => Iff.rfl, fun row hrow => Or.inl hrow, fun record hrecord => ?_⟩, ?_⟩
    · rw [duplicateKing_of_mem h.keyed hm]
      have hne : m.recordId ≠ m.kingId := by
        have hcond := find?_some hfind
        exact (of_decide_eq_true hcond).1
      exact hne.symm
    · exact mem_queueRecords.2 (Or.inl hrecord)
    · exact mem_queueRecords.2 (Or.inr ((mem_duplicateGroupMembers h.keyed).2 rfl))

/-- The king that `insert_duplicate_pair` gives to what it moves. -/
def Db.newRoot (db : Db) (worse better : RecordId) : RecordId :=
  if db.duplicateKing worse = db.duplicateKing better then better else db.duplicateKing better

/-- The three outcomes of `insert_duplicate_pair`: nothing changes, because the records are one and
the same or `worse` is a subordinate of the group of `better`; the group of `worse` moves; or
`worse` alone does. -/
inductive Paired (worse better : RecordId) (db db' : Db) : Prop where
  | unchanged (reason : worse = better ∨
      (db.duplicateKing worse = db.duplicateKing better ∧ db.duplicateKing worse ≠ worse))
      (heq : db' = db)
  | group (hworse : db.duplicateKing worse = worse) (hne : db.newRoot worse better ≠ worse)
      (h : Regrouped (merge db.duplicateKing worse (db.newRoot worse better))
        (fun ruling => transfer (db.Joined ruling) worse (db.newRoot worse better)) db db')
  | subordinate (hworse : db.duplicateKing worse ≠ worse)
      (hne : db.duplicateKing worse ≠ db.duplicateKing better)
      (h : Regrouped (Function.update db.duplicateKing worse (db.newRoot worse better))
        db.Joined db db')
      (queued : worse ∈ db'.hammingDistanceQueue)

/-- The new king is a king, or a member of the group that moves. -/
theorem duplicateKing_newRoot (h : Sane db) (worse better : RecordId) :
    db.duplicateKing (db.newRoot worse better) = db.newRoot worse better ∨
      db.duplicateKing (db.newRoot worse better) = db.duplicateKing worse := by
  unfold Db.newRoot
  split_ifs with hroots
  · exact Or.inr hroots.symm
  · exact Or.inl (h.flat better)

theorem newRoot_ne (hne : worse ≠ better)
    (hworse : db.duplicateKing worse = worse) : db.newRoot worse better ≠ worse := by
  unfold Db.newRoot
  split_ifs with hroots
  · exact hne.symm
  · exact fun hb => hroots (hworse.trans hb.symm)

/-- The state after the row of the new king is there: it changes no group. -/
structure Enrolled (king : RecordId) (db db' : Db) : Prop where
  rows : ∃ rows, db' = { db with duplicateMembers := rows }
  sane : Sane db'
  duplicateKing_eq : db'.duplicateKing = db.duplicateKing
  mem : king ∈ db'.duplicateMembers.map (·.recordId)

/-- A row for a king keeps the state sane. -/
theorem Sane.enrol (h : Sane db) (king : RecordId) :
    Returns (insertDuplicateMember ⟨king, king⟩ db) (Enrolled king db) := by
  intro db' hok
  obtain ⟨rows, rfl, hkeyed, hstored, hking, hmem⟩ :=
    insertDuplicateMember_king h.keyed h.stored hok
  exact ⟨⟨rows, rfl⟩, ⟨hkeyed, hstored, hking ▸ h.flat, h.ordered,
    fun ruling => hking ▸ h.joins ruling⟩, hking, hmem⟩

/-- The branches of `insert_duplicate_pair`. -/
theorem insertDuplicatePair_returns {Q : Db → Prop} (h : Sane db) (worse better : RecordId)
    (hunchanged : (worse = better ∨
      (db.duplicateKing worse = db.duplicateKing better ∧ db.duplicateKing worse ≠ worse)) → Q db)
    (hgroup : worse ≠ better → db.duplicateKing worse = worse →
      ∀ s, Enrolled (db.newRoot worse better) db s →
        Returns (moveGroup worse (db.newRoot worse better) s) Q)
    (hsubordinate : db.duplicateKing worse ≠ worse →
      db.duplicateKing worse ≠ db.duplicateKing better →
      ∀ s, Enrolled (db.newRoot worse better) db s →
        Q (moveSubordinate worse (db.duplicateKing worse) (db.newRoot worse better) s)) :
    Returns (insertDuplicatePair worse better db) Q := by
  unfold insertDuplicatePair
  by_cases heq : worse = better
  · simp only [if_pos heq]
    exact .ok (hunchanged (Or.inl heq))
  simp only [if_neg heq]
  by_cases hsame : db.duplicateKing worse = db.duplicateKing better ∧ worse ≠ db.duplicateKing worse
  · simp only [if_pos hsame]
    exact .ok (hunchanged (Or.inr ⟨hsame.1, hsame.2.symm⟩))
  simp only [if_neg hsame]
  refine (h.enrol (db.newRoot worse better)).bind fun s hs => ?_
  by_cases hworse : worse = db.duplicateKing worse
  · rw [if_pos hworse]
    exact hgroup heq hworse.symm s hs
  · rw [if_neg hworse]
    exact .ok (hsubordinate (Ne.symm hworse) (fun hr => hsame ⟨hr, hworse⟩) s hs)

/-- **`insert_duplicate_pair`.** -/
theorem insertDuplicatePair_spec (h : Sane db) (worse better : RecordId) :
    Returns (insertDuplicatePair worse better db) (Paired worse better db) := by
  refine insertDuplicatePair_returns h worse better (fun reason => .unchanged reason rfl) ?_ ?_
  · rintro heq hworse s ⟨⟨rows, rfl⟩, hs, hking, hmem⟩
    have hne := newRoot_ne heq hworse
    have hroot := duplicateKing_newRoot h worse better
    rw [hworse] at hroot
    refine (moveGroup_spec hs (hking.symm ▸ hworse) (hking.symm ▸ hroot) hmem hne).mono
      fun db' hdb' => .group hworse hne ?_
    rw [hking] at hdb'
    exact ⟨hdb'.1, hdb'.2, hdb'.3, hdb'.4, hdb'.5, hdb'.6, hdb'.7, hdb'.8⟩
  · rintro hworse hroots s ⟨⟨rows, rfl⟩, hs, hking, hmem⟩
    have hmove := moveSubordinate_spec hs (hking.symm ▸ hworse) hmem
    rw [hking] at hmove
    obtain ⟨hdb', hqueued⟩ := hmove
    refine .subordinate hworse hroots ?_ hqueued
    exact ⟨hdb'.1, hdb'.2, hdb'.3, hdb'.4, hdb'.5, hdb'.6, hdb'.7, hdb'.8⟩

theorem Paired.sane (h : Sane db) (hp : Paired worse better db db') :
    Sane db' := by
  cases hp with
  | unchanged _ heq => exact heq ▸ h
  | group hworse hne hr =>
    have hroot := duplicateKing_newRoot h worse better
    rw [hworse] at hroot
    exact hr.sane (h.flat.merge hroot) fun ruling => (h.joins ruling).merge hroot
  | subordinate hworse hne hr _ =>
    refine hr.sane (h.flat.update hworse (Or.inr ?_)) fun ruling => (h.joins ruling).update hworse
    rw [Db.newRoot, if_neg hne]
    exact h.flat better

/-! ## Runs -/

namespace Sane

theorem empty (records : List RecordId) : Sane (Db.empty records) where
  keyed := nodup_nil
  stored := forall_mem_nil _
  flat := fun _ => rfl
  ordered := fun ruling _ hrow => by cases ruling <;> exact (not_mem_nil hrow).elim
  joins := fun ruling => by
    cases ruling <;>
      exact ⟨fun h => (not_mem_nil h).elim, fun h => (not_mem_nil h).elim,
        fun h => (not_mem_nil h).elim⟩

/-- Groups and rulings are all that matters. -/
theorem congr (h : Sane db) (hm : db'.duplicateMembers = db.duplicateMembers)
    (hr : ∀ ruling, db'.ruled ruling = db.ruled ruling) : Sane db' := by
  have hking : db'.duplicateKing = db.duplicateKing := by
    funext record
    rw [Db.duplicateKing, hm, Db.duplicateKing]
  refine ⟨?_, ?_, hking ▸ h.flat, fun ruling => hr ruling ▸ h.ordered ruling, fun ruling => ?_⟩
  · rw [Db.Keyed, hm]
    exact h.keyed
  · rw [Db.Stored, hm]
    exact h.stored
  · rw [hking, joined_congr (hr ruling)]
    exact h.joins ruling

variable {ruling : Ruling}

theorem added (h : Sane db) {rows : List RuledPair}
    (ha : Added ruling (rows.filterMap (normalizeRuledPair db)) db db') : Sane db' := by
  have hking := ha.duplicateKing_eq
  -- a new row joins two kings
  have hnew : ∀ row ∈ rows.filterMap (normalizeRuledPair db), ∃ a b, a ≠ b ∧
      db.duplicateKing a = a ∧ db.duplicateKing b = b ∧ row = RuledPair.of a b := by
    intro row hrow
    obtain ⟨pair, _, hpair⟩ := mem_filterMap.1 hrow
    obtain ⟨hne, rfl⟩ := of_normalizeRuledPair hpair
    exact ⟨_, _, hne, h.flat _, h.flat _, rfl⟩
  have hjoined : ∀ {a b}, db'.Joined ruling a b →
      db.duplicateKing a = a ∧ db.duplicateKing b = b ∧ a ≠ b := by
    intro a b hab
    rcases (ha.mem _).1 hab with hab | hab
    · exact ⟨(h.joins ruling).left hab, (h.joins ruling).right hab, (h.joins ruling).ne hab⟩
    · obtain ⟨c, d, hne, hc, hd, hof⟩ := hnew _ hab
      rcases RuledPair.of_eq_of_iff.1 hof with ⟨rfl, rfl⟩ | ⟨rfl, rfl⟩
      · exact ⟨hc, hd, hne⟩
      · exact ⟨hd, hc, hne.symm⟩
  refine ⟨ha.keyed h.keyed, ?_, hking ▸ h.flat, fun r row hrow => ?_, fun r => ?_⟩
  · rw [Db.Stored, ha.duplicateMembers]
    exact h.stored
  · by_cases hr : r = ruling
    · subst hr
      rcases (ha.mem row).1 hrow with hrow | hrow
      · exact h.ordered r row hrow
      · obtain ⟨a, b, hne, _, _, rfl⟩ := hnew row hrow
        exact RuledPair.ordered_of_ne hne
    · exact h.ordered r row (ha.others r hr ▸ hrow)
  · rw [hking]
    by_cases hr : r = ruling
    · subst hr
      exact ⟨fun hab => (hjoined hab).1, fun hab => (hjoined hab).2.1, fun hab => (hjoined hab).2.2⟩
    · exact joined_congr (ha.others r hr) ▸ h.joins r

theorem cleared (h : Sane db) {p : RuledPair → Bool}
    (hc : Cleared ruling p db db') : Sane db' := by
  have hsub : ∀ r, ∀ row ∈ db'.ruled r, row ∈ db.ruled r := by
    intro r row hrow
    by_cases hr : r = ruling
    · subst hr
      exact mem_of_mem_filter (hc.table ▸ hrow)
    · exact hc.others r hr ▸ hrow
  refine ⟨hc.keyed h.keyed, ?_, hc.duplicateKing_eq ▸ h.flat,
    fun r row hrow => h.ordered r row (hsub r row hrow), fun r => ?_⟩
  · rw [Db.Stored, hc.duplicateMembers]
    exact h.stored
  · rw [hc.duplicateKing_eq]
    exact ⟨fun hab => (h.joins r).left (hsub r _ hab), fun hab => (h.joins r).right (hsub r _ hab),
      fun hab => (h.joins r).ne (hsub r _ hab)⟩

end Sane

theorem sane_setPhash (h : Sane db) (record : RecordId) (phash : Option (BitVec 64)) :
    Sane (setPhash record phash db) := by
  simp only [setPhash]
  split_ifs
  · exact h.congr rfl fun _ => rfl
  · exact h.congr rfl fun _ => rfl

theorem insertDuplicatePairs_returns {I : Db → Prop}
    (hpair : ∀ worse better db, I db → Returns (insertDuplicatePair worse better db) I)
    (worseIds betterIds : Option (List (Option RecordId))) (h : I db) :
    Returns (insertDuplicatePairs worseIds betterIds db) I := by
  unfold insertDuplicatePairs
  cases withoutNulls worseIds with
  | none => exact .error
  | some worse =>
    cases withoutNulls betterIds with
    | none => exact .error
    | some better =>
      by_cases hlen : worse.length ≠ better.length
      · simp only [if_pos hlen]
        exact .error
      · simp only [if_neg hlen]
        exact .foldlM h fun pair _ db hdb => hpair pair.1 pair.2 db hdb

/-- What every statement keeps, by what the statements do to the tables. -/
theorem exec_returns {I : Db → Prop} (h : I db) (op : Op)
    (hpair : ∀ worse better db, I db → Returns (insertDuplicatePair worse better db) I)
    (hremove : ∀ recordA recordB, I (removeDuplicatePair recordA recordB db).2)
    (hinsert : ∀ ruling rows, Returns (insertRuledPairs ruling rows db) I)
    (hdelete : ∀ ruling p, I (deleteRuledPairs ruling p db))
    (hstore : ∀ record phash, Returns (storeImageMetadata record phash db) I)
    (hphash : ∀ record phash, I (setPhash record phash db))
    (hsweep : ∀ claimed, I (rebuildHammingPairs claimed
      { db with hammingDistanceQueue := db.hammingDistanceQueue.filter fun r => r ∉ claimed })) :
      Returns (exec op db) I := by
  cases op with
  | insertDuplicatePair worse better => exact hpair worse better db h
  | insertDuplicatePairs worseIds betterIds => exact insertDuplicatePairs_returns hpair _ _ h
  | removeDuplicatePair recordA recordB => exact .ok (hremove recordA recordB)
  | insertRuledPairs ruling rows => exact hinsert ruling rows
  | deleteRuledPairs ruling rows => exact .ok (hdelete ruling _)
  | storeImageMetadata record phash => exact hstore record phash
  | updateMissingPhash record phash stored =>
    simp only [exec, updateMissingPhash]
    split_ifs
    · exact .ok (hphash record _)
    · exact .ok h
  | processQueueBatch through after locked =>
    simp only [exec, processQueueBatch]
    split_ifs
    · exact .ok h
    · exact .ok (hsweep _)

/-- **Every statement keeps the groups flat and the rulings on kings.** -/
theorem exec_sane (h : Sane db) (op : Op) : Returns (exec op db) Sane := by
  refine exec_returns h op (fun worse better db h => (insertDuplicatePair_spec h worse better).mono
    fun _ hp => hp.sane h)
    (fun recordA recordB => ?_) (fun ruling rows => (insertRuledPairs_spec h.keyed ruling rows).mono
      fun _ ha => h.added ha)
    (fun ruling p => h.cleared (deleteRuledPairs_spec h.keyed ruling p)) (fun record phash => ?_)
      (sane_setPhash h)
    fun _ => h.congr rfl fun _ => rfl
  · rcases removeDuplicatePair_spec h recordA recordB with heq | ⟨removed, hne, hr, _⟩
    · rw [heq]
      exact h
    · exact hr.sane (h.flat.update hne (Or.inl rfl)) fun ruling => (h.joins ruling).update hne
  · simp only [storeImageMetadata]
    split_ifs
    · exact .ok (sane_setPhash h record phash)
    · exact .ok (h.congr rfl fun _ => rfl)
    · exact .ok (h.congr rfl fun _ => rfl)
    · exact .error

theorem Reachable.sane {records : List RecordId} (h : Reachable records db) : Sane db := by
  induction h with
  | empty => exact Sane.empty records
  | step op _ hexec ih => exact exec_sane ih op _ hexec
  | rolledBack _ _ ih => exact ih

/-- **The groups are flat and the rulings join kings**, in every reachable state.  The king of a row
has a row of its own, so `duplicate_king` is idempotent; `duplicate_group_members` lists each record
in one group, that of its king; and a ruling joins two different kings in their order. -/
theorem duplicates_flat {records : List RecordId} (h : Reachable records db) :
    (∀ m ∈ db.duplicateMembers, ⟨m.kingId, m.kingId⟩ ∈ db.duplicateMembers) ∧
    (∀ record, db.duplicateKing (db.duplicateKing record) = db.duplicateKing record) ∧
    (∀ record king, record ∈ db.duplicateGroupMembers king ↔ db.duplicateKing record = king) ∧
    (∀ king, (db.duplicateGroupMembers king).Nodup) ∧
    ∀ ruling, ∀ row ∈ db.ruled ruling, row.lesserRecordId < row.greaterRecordId ∧
      db.duplicateKing row.lesserRecordId = row.lesserRecordId ∧
      db.duplicateKing row.greaterRecordId = row.greaterRecordId := by
  have hs := h.sane
  refine ⟨fun m hm => ?_, hs.flat, fun _ _ => mem_duplicateGroupMembers hs.keyed,
    nodup_duplicateGroupMembers hs.keyed, fun ruling row hrow => ?_⟩
  · obtain ⟨⟨record, king⟩, hm', hr⟩ := mem_map.1 (hs.stored m hm)
    obtain rfl : record = m.kingId := hr
    obtain rfl : king = m.kingId := by
      rw [← duplicateKing_of_mem hs.keyed hm, ← hs.flat, duplicateKing_of_mem hs.keyed hm]
      exact (duplicateKing_of_mem hs.keyed hm').symm
    exact hm'
  · have hordered := hs.ordered ruling row hrow
    have hjoined : db.Joined ruling row.lesserRecordId row.greaterRecordId := by
      rwa [Db.Joined, RuledPair.of_ordered hordered]
    exact ⟨hordered, (hs.joins ruling).left hjoined, (hs.joins ruling).right hjoined⟩

/-- Two records join the group of a third through each other, a ruling of a member is moved to the
king, and the ruling follows the member that is promoted. -/
theorem duplicates_flat_promoted :
    ∃ db, run [.insertDuplicatePair 2 1, .insertDuplicatePair 3 2,
        .insertRuledPairs .alternative [⟨2, 5⟩], .insertDuplicatePair 1 3]
        (Db.empty [1, 2, 3, 5]) = .ok db ∧
      db.duplicateMembers = [⟨1, 3⟩, ⟨2, 3⟩, ⟨3, 3⟩] ∧ db.alternativeRecords = [⟨3, 5⟩] ∧
      db.duplicateGroupMembers 3 = [1, 2, 3] ∧
      (∀ m ∈ db.duplicateMembers, ⟨m.kingId, m.kingId⟩ ∈ db.duplicateMembers) ∧
      ∀ ruling, ∀ row ∈ db.ruled ruling, row.lesserRecordId < row.greaterRecordId ∧
        db.duplicateKing row.lesserRecordId = row.lesserRecordId ∧
        db.duplicateKing row.greaterRecordId = row.greaterRecordId := by
  refine ⟨{ Db.empty [1, 2, 3, 5] with
      duplicateMembers := [⟨1, 3⟩, ⟨2, 3⟩, ⟨3, 3⟩]
      alternativeRecords := [⟨3, 5⟩] }, (and_iff_left_of_imp fun hrun => ?_).2 (by decide +kernel)⟩
  have hflat := duplicates_flat (Reachable.empty.run hrun)
  exact ⟨rfl, rfl, by decide, hflat.1, hflat.2.2.2.2⟩

end Idhan.Duplicates
