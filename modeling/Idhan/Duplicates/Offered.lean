import Idhan.Duplicates.Undecided

/-!
# No ruled pair is offered

The rows of `hamming_distance` are the pairs that a reviewer is offered.  A statement that rules
pairs has to discard their rows, and it does so in two places: the triggers of the ruling tables
discard the rows between two groups that a new ruling joins (`discard_ruled_distance`), and
`insert_duplicate_pair` discards the ruled rows of the records that it moves.

`Discards` says what the two together have to achieve: a row that is left is one that was there, and
it is not ruled if it was not ruled before.

A group that moves takes rulings along, and then pairs are ruled that no new row names.  So it is
not enough to look at the rows that the triggers see: `moveGroup_discards` and
`moveSubordinate_discards` go through the pairs that become ruled by the move.  `exec_offers` has
every statement keep the rows ordered and not ruled, and `no_ruled_pair_offered` says so of every
reachable state.
-/

namespace Idhan.Duplicates

open List

variable {db db' db'' : Db} {worse : RecordId} {ruling : Ruling} {row : HammingDistance}

/-- The rows of `hamming_distance` are ordered. -/
def Db.DistancesOrdered (db : Db) : Prop :=
  ∀ row ∈ db.hammingDistance, row.leftId < row.rightId

/-- A row that is left was there, and the statement has not ruled it. -/
def Discards (db db' : Db) : Prop :=
  ∀ row ∈ db'.hammingDistance, row ∈ db.hammingDistance ∧
    (db'.pairIsRuled row.leftId row.rightId → db.pairIsRuled row.leftId row.rightId)

/-- Of the rows that are left, the statement has joined no kings by a ruling of the kind. -/
def Unjoined (ruling : Ruling) (db db' : Db) : Prop :=
  ∀ row ∈ db'.hammingDistance, row ∈ db.hammingDistance ∧
    (db'.Joined ruling (db.duplicateKing row.leftId) (db.duplicateKing row.rightId) →
      db.Joined ruling (db.duplicateKing row.leftId) (db.duplicateKing row.rightId))

/-! ## Rulings -/

/-- A distance of a pair whose kings are `a` and `b` is one between the two groups. -/
theorem HammingDistance.between_of_king (h : db.Keyed) {a b : RecordId}
    (hlt : row.leftId < row.rightId)
    (hking : RuledPair.of (db.duplicateKing row.leftId) (db.duplicateKing row.rightId) =
      RuledPair.of a b) :
    row.between (db.duplicateGroupMembers a) (db.duplicateGroupMembers b) := by
  simp only [HammingDistance.between, any_eq_true, decide_eq_true_eq]
  rcases RuledPair.of_eq_of_iff.1 hking with ⟨ha, hb⟩ | ⟨ha, hb⟩
  · refine ⟨row.leftId, (mem_duplicateGroupMembers h).2 ha, row.rightId,
      (mem_duplicateGroupMembers h).2 hb, ?_⟩
    rw [min_eq_left hlt.le, max_eq_right hlt.le]
    exact ⟨rfl, rfl⟩
  · refine ⟨row.rightId, (mem_duplicateGroupMembers h).2 hb, row.leftId,
      (mem_duplicateGroupMembers h).2 ha, ?_⟩
    rw [min_eq_right hlt.le, max_eq_left hlt.le]
    exact ⟨rfl, rfl⟩

/-- **The trigger of the ruling tables** discards the rows that a new ruling joins. -/
theorem insertRuledPairs_unjoined (h : db.Keyed) (hordered : db.DistancesOrdered) (ruling : Ruling)
    (rows : List RuledPair) : Returns (insertRuledPairs ruling rows db) (Unjoined ruling db) := by
  simp only [insertRuledPairs]
  split_ifs
  · exact .error
  · rw [foldl_discardRuledDistance]
    have hsame := sameGroups_setRuled db ruling
      (upsert id none (db.ruled ruling) (rows.filterMap (normalizeRuledPair db))).table
    refine .ok fun row hrow => ?_
    obtain ⟨hrow, hkept⟩ := mem_filter.1 hrow
    rw [hammingDistance_setRuled] at hrow
    refine ⟨hrow, fun hjoined => ?_⟩
    have hmem : RuledPair.of (db.duplicateKing row.leftId) (db.duplicateKing row.rightId) ∈
        (db.setRuled ruling (upsert id none (db.ruled ruling)
          (rows.filterMap (normalizeRuledPair db))).table).ruled ruling := hjoined
    rw [ruled_setRuled_self, upsert_nothing_table] at hmem
    refine (mem_append.1 hmem).resolve_right fun hnew => ?_
    -- a row that the new ruling joins lies between the two groups, so it has been discarded
    obtain ⟨hadded, _⟩ := of_mem_upsert_inserted keepsKey_none hnew
    obtain ⟨pair, _, hpair⟩ := mem_filterMap.1 hadded
    obtain ⟨hne, hof⟩ := of_normalizeRuledPair hpair
    have hlt := hof ▸ RuledPair.ordered_of_ne hne
    rw [Bool.not_eq_true', Bool.eq_false_iff] at hkept
    refine hkept (any_eq_true.2 ⟨_, hnew, ?_⟩)
    refine HammingDistance.between_of_king (hsame.keyed h) (hordered row hrow) ?_
    rw [hsame.duplicateKing_eq, RuledPair.of_ordered hlt]

theorem Unjoined.discards {added : List RuledPair} (h : Unjoined ruling db db')
    (ha : Added ruling added db db') : Discards db db' := by
  intro row hrow
  refine ⟨(h row hrow).1, fun hruled => pairIsRuled_iff.2 ?_⟩
  rw [pairIsRuled_iff, ha.duplicateKing_eq] at hruled
  refine hruled.imp_right fun ⟨r, hr⟩ => ⟨r, ?_⟩
  by_cases heq : r = ruling
  · subst heq
    exact (h row hrow).2 hr
  · rw [Db.Joined, ha.others r heq] at hr
    exact hr

/-- A delete of rulings rules nothing. -/
theorem Cleared.discards {p : RuledPair → Bool} (h : Cleared ruling p db db') :
    Discards db db' := by
  intro row hrow
  refine ⟨h.hammingDistance ▸ hrow, fun hruled => pairIsRuled_iff.2 ?_⟩
  rw [pairIsRuled_iff, h.duplicateKing_eq] at hruled
  refine hruled.imp_right fun ⟨r, hr⟩ => ⟨r, ?_⟩
  by_cases heq : r = ruling
  · subst heq
    rw [Db.Joined, h.table] at hr
    exact mem_of_mem_filter hr
  · rw [Db.Joined, h.others r heq] at hr
    exact hr

/-- The transfer of rulings discards the rows that the transferred rulings join. -/
theorem transferRulings_unjoined (h : db.Keyed) (hordered : db.DistancesOrdered) (ruling : Ruling)
    (worse newRoot : RecordId) :
    Returns (transferRulings ruling worse newRoot db) (Unjoined ruling db) := by
  intro db' hexec
  obtain ⟨s, hs, hdelete⟩ := bind_eq_ok_iff.1 hexec
  cases hdelete
  have hunjoined := insertRuledPairs_unjoined h hordered ruling _ s hs
  have hadded := insertRuledPairs_spec h ruling _ s hs
  have hcleared := deleteRuledPairs_spec (hadded.keyed h) ruling (RuledPair.concerns worse)
  intro row hrow
  rw [hcleared.hammingDistance] at hrow
  refine ⟨(hunjoined row hrow).1, fun hjoined => (hunjoined row hrow).2 ?_⟩
  rw [Db.Joined, hcleared.table] at hjoined
  exact mem_of_mem_filter hjoined

/-- The transfer of rulings leaves the groups and the other kind of ruling alone. -/
theorem transferRulings_sameGroups (h : db.Keyed) (ruling : Ruling) (worse newRoot : RecordId) :
    Returns (transferRulings ruling worse newRoot db) fun db' =>
      SameGroups db db' ∧ ∀ r, r ≠ ruling → db'.ruled r = db.ruled r := by
  refine (insertRuledPairs_spec h ruling _).bind fun s hs => .ok ?_
  have hc := deleteRuledPairs_spec (hs.keyed h) ruling (RuledPair.concerns worse)
  exact ⟨hs.toSameGroups.trans hc.toSameGroups, fun r hr => (hc.others r hr).trans (hs.others r hr)⟩

theorem Unjoined.ordered (h : Unjoined ruling db db')
    (hordered : db.DistancesOrdered) : db'.DistancesOrdered :=
  fun row hrow => hordered row (h row hrow).1

/-! ## Duplicates -/

theorem Discards.refl (db : Db) : Discards db db :=
  fun _ hrow => ⟨hrow, fun hruled => hruled⟩

/-- A row that `insert_duplicate_pair` leaves is not one of a moved record, if its pair is ruled. -/
theorem of_mem_discardMoved {movedIds : List RecordId}
    (h : row ∈ (discardMoved movedIds db).hammingDistance) :
    row ∈ db.hammingDistance ∧ (db.pairIsRuled row.leftId row.rightId →
      row.leftId ∉ movedIds ∧ row.rightId ∉ movedIds) := by
  obtain ⟨hrow, hkept⟩ := mem_filter.1 h
  refine ⟨hrow, fun hruled => ?_⟩
  simpa [hruled] using hkept

/-- The group of a king is moved as a whole. -/
theorem mem_movedIds (h : Sane db) {record : RecordId}
    (hking : db.duplicateKing record = worse) {moved : List RecordId}
    (hmoved : moved = (db.duplicateMembers.filter fun m => m.kingId = worse).map (·.recordId)) :
    record ∈ if moved = [] then [worse] else moved := by
  by_cases hmem : db.HasRow record
  · obtain ⟨m, hm, rfl⟩ := mem_map.1 hmem
    rw [duplicateKing_of_mem h.keyed hm] at hking
    have hrecord : m.recordId ∈ moved := hmoved ▸
      mem_map_of_mem (mem_filter.2 ⟨hm, decide_eq_true hking⟩)
    rwa [if_neg (ne_nil_of_mem hrecord)]
  · -- a record without a row is a group of its own: no row has it as king, which would have a row
    rw [duplicateKing_of_not_mem hmem] at hking
    subst hking
    rw [if_pos, mem_singleton]
    rw [hmoved, map_eq_nil_iff, filter_eq_nil_iff]
    exact fun m hm hk => hmem (of_decide_eq_true hk ▸ h.stored m hm)

/-- **A king that is ruled a duplicate**: the rows of its group are reviewed again, and the transfer
of its rulings has discarded the rows of the others. -/
theorem moveGroup_discards (h : Sane db) (hordered : db.DistancesOrdered) {newRoot : RecordId}
    (hworse : db.duplicateKing worse = worse) (hmem : db.HasRow newRoot) :
    Returns (moveGroup worse newRoot db) (Discards db) := by
  intro db' hexec
  obtain ⟨s, hs, hexec⟩ := bind_eq_ok_iff.1 hexec
  obtain ⟨rows, rfl, hkeyed, -, hking⟩ :=
    insertDuplicateMember_merge h.keyed h.stored hworse hmem hs
  obtain ⟨s₁, hs₁, hexec⟩ := bind_eq_ok_iff.1 hexec
  obtain ⟨s₂, hs₂, hexec⟩ := bind_eq_ok_iff.1 hexec
  cases hexec
  have hsame₁ := transferRulings_sameGroups hkeyed .alternative worse newRoot s₁ hs₁
  have hsame₂ := transferRulings_sameGroups (hsame₁.1.keyed hkeyed) .unrelated worse newRoot s₂ hs₂
  have hunjoined₁ := transferRulings_unjoined hkeyed hordered .alternative worse newRoot s₁ hs₁
  have hunjoined₂ := transferRulings_unjoined (hsame₁.1.keyed hkeyed) (hunjoined₁.ordered hordered)
    .unrelated worse newRoot s₂ hs₂
  have hking₁ := hsame₁.1.duplicateKing_eq.trans hking
  have hking₂ := hsame₂.1.duplicateKing_eq.trans hking₁
  intro row hrow
  obtain ⟨hrow, hmoved⟩ := of_mem_discardMoved hrow
  obtain ⟨hrow, hunrelated⟩ := hunjoined₂ row hrow
  obtain ⟨hrow, halternative⟩ := hunjoined₁ row hrow
  refine ⟨hrow, fun hruled => ?_⟩
  have hruled₂ : s₂.pairIsRuled row.leftId row.rightId := hruled
  -- neither record is in the group that moves, so that they have the kings that they had
  have hunmoved : ∀ record, record ∉ (if _ = [] then [worse] else _) →
      merge db.duplicateKing worse newRoot record = db.duplicateKing record :=
    fun record hnot => merge_of_ne fun hk => hnot (mem_movedIds h hk rfl)
  have hleft := hunmoved row.leftId (hmoved hruled₂).1
  have hright := hunmoved row.rightId (hmoved hruled₂).2
  rw [pairIsRuled_iff, Ruled, hking₂, hleft, hright] at hruled₂
  refine pairIsRuled_iff.2 (hruled₂.imp_right ?_)
  rw [hking₁, hleft, hright] at hunrelated
  rw [hking, hleft, hright] at halternative
  rintro ⟨ruling, hjoined⟩
  cases ruling with
  | alternative =>
    rw [Db.Joined, hsame₂.2 .alternative (by decide)] at hjoined
    exact ⟨.alternative, halternative hjoined⟩
  | unrelated =>
    have hbefore := hunrelated hjoined
    rw [Db.Joined, hsame₁.2 .unrelated (by decide)] at hbefore
    exact ⟨.unrelated, hbefore⟩

/-- If one record gets another king, the rows between others are ruled as before. -/
theorem Regrouped.discards_update {record king : RecordId}
    (h : Regrouped (Function.update db.duplicateKing record king) db.Joined db db')
    (hrows : ∀ row ∈ db'.hammingDistance, row ∈ db.hammingDistance ∧
      (db'.pairIsRuled row.leftId row.rightId → row.leftId ≠ record ∧ row.rightId ≠ record)) :
    Discards db db' := by
  intro row hrow
  refine ⟨(hrows row hrow).1, fun hruled => ?_⟩
  obtain ⟨hleft, hright⟩ := (hrows row hrow).2 hruled
  exact (h.pairIsRuled_update hleft hright).1 hruled

theorem moveSubordinate_discards (h : Sane db) {betterRoot : RecordId}
    (hworse : db.duplicateKing worse ≠ worse) (hroot : db.HasRow betterRoot) :
    Discards db (moveSubordinate worse (db.duplicateKing worse) betterRoot db) := by
  refine (moveSubordinate_spec h hworse hroot).1.discards_update fun row hrow => ?_
  obtain ⟨hrow, hmoved⟩ := of_mem_discardMoved hrow
  refine ⟨hrow, fun hruled => ?_⟩
  obtain ⟨hleft, hright⟩ := hmoved hruled
  exact ⟨ne_of_not_mem_cons hleft, ne_of_not_mem_cons hright⟩

/-- A member that is detached is a king that no ruling joins. -/
theorem not_ruled_detached (h : Sane db) {removed z : RecordId}
    (hne : db.duplicateKing removed ≠ removed) (hz : z ≠ removed) :
    ¬ Ruled (Function.update db.duplicateKing removed removed) db.AnyJoined removed z := by
  rw [Ruled, Function.update_self, Function.update_of_ne hz, not_or]
  refine ⟨fun hking => hne ?_, ?_⟩
  · rw [hking]
    exact h.flat z
  · rintro ⟨ruling, hjoined⟩
    exact hne ((h.joins ruling).left hjoined)

theorem ruled_comm {king : RecordId → RecordId} {x y : RecordId} :
    Ruled king db.AnyJoined x y ↔ Ruled king db.AnyJoined y x :=
  or_congr eq_comm (exists_congr fun _ => joined_comm)

theorem removeDuplicatePair_hammingDistance (recordA recordB : RecordId) :
    (removeDuplicatePair recordA recordB db).2.hammingDistance = db.hammingDistance := by
  rw [removeDuplicatePair]
  cases db.removedMember recordA recordB <;> rfl

theorem removeDuplicatePair_discards (h : Sane db) (hordered : db.DistancesOrdered)
    (recordA recordB : RecordId) : Discards db (removeDuplicatePair recordA recordB db).2 := by
  rcases removeDuplicatePair_spec h recordA recordB with heq | ⟨removed, hne, hr, _⟩
  · rw [heq]
    exact Discards.refl db
  · refine hr.discards_update fun row hrow => ?_
    rw [removeDuplicatePair_hammingDistance] at hrow
    refine ⟨hrow, fun hruled => ?_⟩
    have hlt := hordered row hrow
    rw [pairIsRuled_iff, hr.duplicateKing_eq, hr.anyJoined_eq] at hruled
    constructor
    · rintro rfl
      exact not_ruled_detached h hne hlt.ne' hruled
    · rintro rfl
      exact not_ruled_detached h hne hlt.ne (ruled_comm.1 hruled)

theorem insertDuplicatePair_discards (h : Sane db) (hordered : db.DistancesOrdered)
    (worse better : RecordId) : Returns (insertDuplicatePair worse better db) (Discards db) := by
  -- the row of the new king rules nothing
  have henrolled : ∀ king s db', Enrolled king db s → Discards s db' → Discards db db' := by
    rintro king _ db' ⟨⟨rows, rfl⟩, _, hking, _⟩ hd row hrow
    refine ⟨(hd row hrow).1, fun hruled => ?_⟩
    have hbefore := (hd row hrow).2 hruled
    simp only [Db.pairIsRuled, hking] at hbefore
    exact hbefore
  refine insertDuplicatePair_returns h worse better (fun _ => Discards.refl db) ?_ ?_
  · intro _ hworse s hs
    have hdistances : s.DistancesOrdered := by
      obtain ⟨⟨rows, rfl⟩, _⟩ := hs
      exact hordered
    exact (moveGroup_discards hs.sane hdistances (hs.duplicateKing_eq ▸ hworse) hs.mem).mono
      fun db' => henrolled _ s db' hs
  · intro hworse _ s hs
    have hmove := moveSubordinate_discards hs.sane (hs.duplicateKing_eq ▸ hworse) hs.mem
    rw [hs.duplicateKing_eq] at hmove
    exact henrolled _ s _ hs hmove

/-! ## A sweep -/

/-- A sweep stores only pairs that are not ruled. -/
theorem of_mem_rebuildHammingPairs {claimed : List RecordId}
    (h : row ∈ (rebuildHammingPairs claimed db).hammingDistance) :
    row ∈ db.hammingDistance ∨
      (row.leftId < row.rightId ∧ db.pairIsRuled row.leftId row.rightId = false) := by
  rcases of_mem_upsert_replace HammingDistance.replaced_eq h with hnew | ⟨hold, _⟩
  · obtain ⟨hcandidate, hundecided⟩ := mem_filter.1 hnew
    rw [undecided_eq, Bool.not_eq_true'] at hundecided
    obtain ⟨x, y, _, _, _, _, _, hne, rfl⟩ := of_mem_candidates hcandidate
    exact Or.inr ⟨min_lt_max.2 hne.symm, hundecided⟩
  · exact Or.inl (mem_of_mem_filter hold)

/-! ## Runs -/

/-- What is kept along every run: the stored pairs are ordered and not ruled. -/
structure Offers (db : Db) : Prop extends Sane db where
  ordered_pairs : db.DistancesOrdered
  unruled : ∀ row ∈ db.hammingDistance, db.pairIsRuled row.leftId row.rightId = false

theorem Offers.discards (h : Offers db) (hs : Sane db') (hd : Discards db db') : Offers db' where
  toSane := hs
  ordered_pairs := fun row hrow => h.ordered_pairs row (hd row hrow).1
  unruled := fun row hrow => by
    rw [Bool.eq_false_iff]
    exact fun hruled => Bool.eq_false_iff.1 (h.unruled row (hd row hrow).1) ((hd row hrow).2 hruled)

/-- A statement that leaves the groups, the rulings and the distances alone. -/
theorem Discards.of_eq (hmembers : db'.duplicateMembers = db.duplicateMembers)
    (halternative : db'.alternativeRecords = db.alternativeRecords)
    (hunrelated : db'.unrelatedRecords = db.unrelatedRecords)
    (hdistance : db'.hammingDistance = db.hammingDistance) : Discards db db' := by
  intro row hrow
  rw [hdistance] at hrow
  refine ⟨hrow, fun hruled => ?_⟩
  simp only [Db.pairIsRuled, Db.duplicateKing, hmembers, halternative, hunrelated] at hruled
  exact hruled

theorem setPhash_discards (record : RecordId) (phash : Option (BitVec 64)) :
    Discards db (setPhash record phash db) := by
  simp only [setPhash]
  split_ifs
  · exact .of_eq rfl rfl rfl rfl
  · exact .of_eq rfl rfl rfl rfl

/-- **Every statement keeps ruled pairs from being offered.** -/
theorem exec_offers (h : Offers db) (op : Op) : Returns (exec op db) Offers := by
  have hpair : ∀ worse better db, Offers db →
      Returns (insertDuplicatePair worse better db) Offers := fun worse better db h db' hexec =>
    h.discards ((insertDuplicatePair_spec h.toSane worse better db' hexec).sane h.toSane)
      (insertDuplicatePair_discards h.toSane h.ordered_pairs worse better db' hexec)
  have hsane := fun op => exec_sane h.toSane op
  refine exec_returns h op hpair (fun recordA recordB => ?_) (fun ruling rows db' hexec => ?_)
    (fun ruling p => ?_)
    (fun record phash db' hexec => h.discards (hsane (.storeImageMetadata record phash) db' hexec)
      ?_)
    (fun record phash => h.discards (sane_setPhash h.toSane record phash)
      (setPhash_discards record phash))
    fun claimed => ⟨h.toSane.congr rfl fun _ => rfl, fun row hrow => ?_, fun row hrow => ?_⟩
  · exact h.discards (hsane (.removeDuplicatePair recordA recordB) _ rfl)
      (removeDuplicatePair_discards h.toSane h.ordered_pairs recordA recordB)
  · exact h.discards (hsane (.insertRuledPairs ruling rows) db' hexec)
      ((insertRuledPairs_unjoined h.keyed h.ordered_pairs ruling rows db'
      hexec).discards (insertRuledPairs_spec h.keyed ruling rows db' hexec))
  · have hcleared := deleteRuledPairs_spec h.keyed ruling p
    exact h.discards (h.toSane.cleared hcleared) hcleared.discards
  · simp only [storeImageMetadata] at hexec
    split_ifs at hexec
    · exact Except.ok.inj hexec ▸ setPhash_discards record phash
    · exact Except.ok.inj hexec ▸ .of_eq rfl rfl rfl rfl
    · exact Except.ok.inj hexec ▸ .of_eq rfl rfl rfl rfl
  · exact (of_mem_rebuildHammingPairs hrow).elim (h.ordered_pairs row) And.left
  · exact (of_mem_rebuildHammingPairs hrow).elim (h.unruled row) And.right

theorem Reachable.offers {records : List RecordId} (h : Reachable records db) : Offers db := by
  induction h with
  | empty =>
    exact ⟨Sane.empty records, forall_mem_nil _,
      forall_mem_nil _⟩
  | step op _ hexec ih => exact exec_offers ih op _ hexec
  | rolledBack _ _ ih => exact ih

/-- **No ruled pair is offered.**  In every reachable state the rows of `hamming_distance` are
ordered pairs that `pair_is_ruled` does not hold of: the records have different kings, and no ruling
joins these. -/
theorem no_ruled_pair_offered {records : List RecordId} (h : Reachable records db)
    {row : HammingDistance} (hrow : row ∈ db.hammingDistance) :
    row.leftId < row.rightId ∧ db.pairIsRuled row.leftId row.rightId = false :=
  ⟨h.offers.ordered_pairs row hrow, h.offers.unruled row hrow⟩

/-- Of three similar records two are ruled duplicates: the pair of the other with the king is still
offered, and the ruling of the king as unrelated to it would discard it. -/
theorem no_ruled_pair_offered_duplicates :
    ∃ db, run [.storeImageMetadata 1 (some 0), .storeImageMetadata 2 (some 1),
        .storeImageMetadata 3 (some 3), .processQueueBatch 3 none [],
        .insertDuplicatePair 1 2] (Db.empty [1, 2, 3]) = .ok db ∧
      ⟨2, 3, 1⟩ ∈ db.hammingDistance ∧ 2 < 3 ∧ db.pairIsRuled 2 3 = false := by
  refine ⟨{ Db.empty [1, 2, 3] with
      duplicateMembers := [⟨2, 2⟩, ⟨1, 2⟩]
      hammingDistance := [⟨1, 3, 2⟩, ⟨2, 3, 1⟩]
      imageMetadata := [⟨1, some 0⟩, ⟨2, some 1⟩, ⟨3, some 3⟩] },
    (and_iff_left_of_imp fun hrun => ?_).2 (by decide +kernel)⟩
  exact (and_iff_left_of_imp fun hrow => no_ruled_pair_offered (Reachable.empty.run hrun) hrow).2
    (by decide)

end Idhan.Duplicates
