import Idhan.Duplicates.Groups

/-!
# No undecided pair is lost

A pair of records with similar hashes is waiting for review (`Waiting`): its distance is stored, or
one of its records is queued, so that the next sweep stores it.  `NoneLost` says so of every pair
that is not ruled.

A statement that leaves the hashes alone `Settles` the tables: it takes a distance away, or lets a
ruling lapse, only for pairs that are ruled afterwards or queued.  That is what the queueing in the
statements is for, and it is all that `NoneLost` needs of them.

* `Paired.settles`, `Added.settles`, `Cleared.settles`: the statements on duplicates and rulings.
* `noneLost_rebuild`: a sweep stores the undecided pairs of the records it claims.
* `undecided_pairs_kept`: in every reachable state no undecided pair is lost.
-/

namespace Idhan.Duplicates

open List

variable {db db' : Db} {records : List RecordId} {row : HammingDistance} {y x record : RecordId}
  {ruling : Ruling} {q : BitVec 64}

/-- The record has the perceptual hash. -/
def Db.Hashed (db : Db) (record : RecordId) (hash : BitVec 64) : Prop :=
  ⟨record, some hash⟩ ∈ db.imageMetadata

/-- The distance of the pair is stored, or will be by a sweep. -/
def Waiting (db : Db) (row : HammingDistance) : Prop :=
  row ∈ db.hammingDistance ∨ row.leftId ∈ db.hammingDistanceQueue ∨
    row.rightId ∈ db.hammingDistanceQueue

/-- Every pair of similar records that is not ruled is waiting. -/
def NoneLost (db : Db) : Prop :=
  ∀ x y p q, x < y → db.Hashed x p → db.Hashed y q → hammingBits p q ≤ 8 →
    db.pairIsRuled x y = false → Waiting db ⟨x, y, hammingBits p q⟩

theorem hammingBits_comm (p q : BitVec 64) : hammingBits p q = hammingBits q p := by
  unfold hammingBits
  refine countP_congr fun i _ => ?_
  rw [bne_comm]

theorem pairIsRuled_comm (x y : RecordId) : db.pairIsRuled x y = db.pairIsRuled y x := by
  simp only [Db.pairIsRuled, RuledPair.of_comm (db.duplicateKing x), eq_comm]

theorem pairIsRuled_of (a b : RecordId) :
    db.pairIsRuled (RuledPair.of a b).lesserRecordId (RuledPair.of a b).greaterRecordId =
      db.pairIsRuled a b := by
  rcases le_total a b with h | h
  · simp only [RuledPair.of, min_eq_left h, max_eq_right h]
  · simp only [RuledPair.of, min_eq_right h, max_eq_left h]
    exact pairIsRuled_comm b a

/-- A pair is ruled with its kings. -/
theorem pairIsRuled_duplicateKing (h : Flat db.duplicateKing) (x y : RecordId) :
    db.pairIsRuled (db.duplicateKing x) (db.duplicateKing y) = db.pairIsRuled x y := by
  simp only [Db.pairIsRuled, h x, h y]

/-! ## Statements that leave the hashes alone -/

/-- A distance goes, and a ruling lapses, only for pairs that are ruled afterwards or queued. -/
structure Settles (db db' : Db) : Prop where
  imageMetadata : db'.imageMetadata = db.imageMetadata
  queue : ∀ record ∈ db.hammingDistanceQueue, record ∈ db'.hammingDistanceQueue
  kept : ∀ row ∈ db.hammingDistance, row ∈ db'.hammingDistance ∨
    db'.pairIsRuled row.leftId row.rightId
  lapsed : ∀ x y, db.pairIsRuled x y → db'.pairIsRuled x y ∨
    x ∈ db'.hammingDistanceQueue ∨ y ∈ db'.hammingDistanceQueue

theorem Settles.noneLost (h : Settles db db') (hlost : NoneLost db) : NoneLost db' := by
  intro x y p q hxy hx hy hdist hruled
  rw [Db.Hashed, h.imageMetadata] at hx hy
  by_cases hbefore : db.pairIsRuled x y
  · rcases h.lapsed x y hbefore with hruled' | hqueue
    · exact absurd hruled' (Bool.eq_false_iff.1 hruled)
    · exact Or.inr hqueue
  · rcases hlost x y p q hxy hx hy hdist (Bool.eq_false_iff.2 hbefore) with hrow | hqueue | hqueue
    · rcases h.kept _ hrow with hrow | hruled'
      · exact Or.inl hrow
      · exact absurd hruled' (Bool.eq_false_iff.1 hruled)
    · exact Or.inr (Or.inl (h.queue x hqueue))
    · exact Or.inr (Or.inr (h.queue y hqueue))

theorem Settles.refl (db : Db) : Settles db db :=
  ⟨rfl, fun _ h => h, fun _ h => Or.inl h, fun _ _ h => Or.inl h⟩

/-- If one member moves and is queued, the other pairs are ruled as before. -/
theorem Regrouped.settles_update {king : RecordId}
    (h : Regrouped (Function.update db.duplicateKing record king) db.Joined db db')
    (hqueued : record ∈ db'.hammingDistanceQueue) : Settles db db' := by
  refine ⟨h.imageMetadata, h.queue, h.kept, fun x y hxy => ?_⟩
  by_cases hx : x = record
  · exact Or.inr (Or.inl (hx ▸ hqueued))
  by_cases hy : y = record
  · exact Or.inr (Or.inr (hy ▸ hqueued))
  exact Or.inl ((h.pairIsRuled_update hx hy).2 hxy)

theorem Paired.settles {worse better : RecordId} (h : Paired worse better db db') :
    Settles db db' := by
  cases h with
  | unchanged _ heq => exact heq ▸ Settles.refl db
  | group _ _ hr =>
    exact ⟨hr.imageMetadata, hr.queue, hr.kept, fun x y hxy => Or.inl (hr.pairIsRuled_of_merge hxy)⟩
  | subordinate _ _ hr hqueued => exact hr.settles_update hqueued

theorem removeDuplicatePair_settles (h : Sane db) (recordA recordB : RecordId) :
    Settles db (removeDuplicatePair recordA recordB db).2 := by
  rcases removeDuplicatePair_spec h recordA recordB with heq | ⟨removed, _, hr, hqueued⟩
  · rw [heq]
    exact Settles.refl db
  · exact hr.settles_update hqueued

theorem Added.settles {added : List RuledPair} (h : Added ruling added db db') :
    Settles db db' := by
  refine ⟨h.imageMetadata, fun record hrecord => h.queue.symm ▸ hrecord, fun row hrow => ?_,
    fun x y hxy => Or.inl (pairIsRuled_iff.2 ?_)⟩
  · refine (h.kept row hrow).imp_right fun hjoined => pairIsRuled_of_joined db' ruling ?_
    rwa [h.duplicateKing_eq]
  · rw [h.duplicateKing_eq]
    refine (pairIsRuled_iff.1 hxy).imp_right fun ⟨r, hr⟩ => ⟨r, ?_⟩
    by_cases heq : r = ruling
    · subst heq
      exact (h.mem _).2 (Or.inl hr)
    · rw [Db.Joined, h.others r heq]
      exact hr

/-- A ruling that is deleted leaves its pairs ruled by another, or queues all records of both
groups. -/
theorem Cleared.settles {p : RuledPair → Bool} (hs : Sane db)
    (h : Cleared ruling p db db') : Settles db db' := by
  refine ⟨h.imageMetadata, h.queue, fun row hrow => Or.inl (h.hammingDistance.symm ▸ hrow),
    fun x y hxy => ?_⟩
  have hking := h.duplicateKing_eq
  rcases pairIsRuled_iff.1 hxy with hsame | ⟨r, hjoined⟩
  · exact Or.inl (pairIsRuled_iff.2 (Or.inl (hking.symm ▸ hsame)))
  by_cases hr : r = ruling ∧ p (RuledPair.of (db.duplicateKing x) (db.duplicateKing y))
  · obtain ⟨rfl, hp⟩ := hr
    rcases h.queued _ hjoined hp with hruled | hqueued
    · rw [pairIsRuled_of, ← hking, pairIsRuled_duplicateKing (hking.symm ▸ hs.flat)] at hruled
      exact Or.inl hruled
    · refine Or.inr (Or.inl (hqueued x ?_))
      -- the king of `x` is one of the two records of the row
      rcases min_choice (db.duplicateKing x) (db.duplicateKing y) with hmin | hmin
      · left
        rw [show (RuledPair.of (db.duplicateKing x) (db.duplicateKing y)).lesserRecordId =
          db.duplicateKing x from hmin, hs.flat]
      · right
        rw [show (RuledPair.of (db.duplicateKing x) (db.duplicateKing y)).greaterRecordId =
          db.duplicateKing x from max_eq_left (min_eq_right_iff.1 hmin), hs.flat]
  · refine Or.inl (pairIsRuled_of_joined db' r ?_)
    rw [hking, Db.Joined]
    by_cases heq : r = ruling
    · subst heq
      rw [h.table, mem_filter]
      exact ⟨hjoined, by simpa using fun hp => hr ⟨rfl, hp⟩⟩
    · rw [h.others r heq]
      exact hjoined

/-! ## Hashes that change -/

/-- A record has one row at most. -/
def Db.ImagesKeyed (db : Db) : Prop :=
  KeyUnique ImageMetadata.recordId db.imageMetadata

theorem Db.ImagesKeyed.setPhash (h : db.ImagesKeyed) (record : RecordId)
    (phash : Option (BitVec 64)) : (setPhash record phash db).ImagesKeyed := by
  have hmap : KeyUnique ImageMetadata.recordId (db.imageMetadata.map fun row =>
      if row.recordId = record then { row with phash := phash } else row) :=
    KeyUnique.map h fun row _ => by split_ifs <;> rfl
  simp only [Duplicates.setPhash]
  split_ifs
  · exact hmap
  · exact hmap

/-- The hash of one record changes, and the record is queued. -/
theorem NoneLost.rehash (h : NoneLost db) {images : List ImageMetadata}
    (hother : ∀ z hash, z ≠ record → ⟨z, some hash⟩ ∈ images → db.Hashed z hash) :
    NoneLost (queueRecords [record] { db with imageMetadata := images }) := by
  intro x y p q hxy hx hy hdist hruled
  by_cases hxr : x = record
  · exact Or.inr (Or.inl (mem_queueRecords.2 (Or.inr (hxr ▸ mem_singleton_self _))))
  by_cases hyr : y = record
  · exact Or.inr (Or.inr (mem_queueRecords.2 (Or.inr (hyr ▸ mem_singleton_self _))))
  refine (h x y p q hxy (hother x p hxr hx) (hother y q hyr hy) hdist hruled).imp_right fun hq => ?_
  exact hq.imp (fun hq => mem_queueRecords.2 (Or.inl hq)) fun hq => mem_queueRecords.2 (Or.inl hq)

theorem NoneLost.setPhash (h : NoneLost db) (record : RecordId) (phash : Option (BitVec 64)) :
    NoneLost (setPhash record phash db) := by
  simp only [Duplicates.setPhash]
  split_ifs with hchanged
  · refine h.rehash fun z hash hz hmem => ?_
    obtain ⟨row, hrow, heq⟩ := mem_map.1 hmem
    split_ifs at heq with hr
    · exact absurd ((congrArg ImageMetadata.recordId heq).symm.trans hr) hz
    · rw [heq] at hrow
      exact hrow
  · have hsame : (db.imageMetadata.map fun row =>
        if row.recordId = record then { row with phash := phash } else row) = db.imageMetadata := by
      refine (map_congr_left fun row hrow => ?_).trans (map_id _)
      split_ifs with hr
      · have hphash : row.phash = phash := by
          by_contra hne
          exact hchanged (any_eq_true.2 ⟨row, hrow, decide_eq_true ⟨hr, hne⟩⟩)
        rw [← hphash]
        rfl
      · rfl
    rw [hsame]
    exact h

theorem storeImageMetadata_noneLost (h : NoneLost db) (hk : db.ImagesKeyed) (record : RecordId)
    (phash : Option (BitVec 64)) :
    Returns (storeImageMetadata record phash db) fun db' => NoneLost db' ∧ db'.ImagesKeyed := by
  unfold storeImageMetadata
  by_cases hany : db.imageMetadata.any fun row => row.recordId = record
  · rw [if_pos hany]
    exact .ok ⟨h.setPhash record phash, hk.setPhash record phash⟩
  rw [if_neg hany]
  by_cases hrecord : record ∉ db.records
  · rw [if_pos hrecord]
    exact .error
  rw [if_neg hrecord]
  have hkeyed : KeyUnique ImageMetadata.recordId (db.imageMetadata ++ [⟨record, phash⟩]) := by
    refine KeyUnique.append_singleton hk fun hmem => hany ?_
    obtain ⟨row, hrow, hr⟩ := mem_map.1 hmem
    exact any_eq_true.2 ⟨row, hrow, decide_eq_true hr⟩
  have hold : ∀ z hash, ⟨z, some hash⟩ ≠ (⟨record, phash⟩ : ImageMetadata) →
      ⟨z, some hash⟩ ∈ db.imageMetadata ++ [⟨record, phash⟩] → db.Hashed z hash :=
    fun z hash hne hmem => (mem_append.1 hmem).resolve_right fun hnew =>
      hne (mem_singleton.1 hnew)
  cases phash with
  | none =>
    refine .ok ⟨fun x y p q hxy hx hy hdist hruled => ?_, hkeyed⟩
    exact h x y p q hxy (hold x p nofun hx) (hold y q nofun hy) hdist hruled
  | some hash =>
    refine .ok ⟨h.rehash fun z hash' hz hmem => hold z hash' (fun heq => ?_) hmem, hkeyed⟩
    exact hz (congrArg ImageMetadata.recordId heq)

/-! ## A sweep -/

theorem undecided_eq (row : HammingDistance) :
    db.undecided row = !db.pairIsRuled row.leftId row.rightId := by
  simp [Db.undecided, Db.pairIsRuled, Bool.not_or]

theorem compare_eq_some {probe other : ImageMetadata} :
    compare probe other = some row ↔ ∃ p o, probe.phash = some p ∧ other.phash = some o ∧
      (other.recordId ≠ probe.recordId ∧ hammingBits p o ≤ 8) ∧
      row = ⟨min probe.recordId other.recordId, max probe.recordId other.recordId,
        hammingBits p o⟩ := by
  unfold compare
  cases probe.phash with
  | none => simp
  | some p =>
    cases other.phash with
    | none => simp
    | some o => simp [and_assoc, eq_comm]

/-- A candidate is the distance of two different records with hashes. -/
theorem of_mem_candidates (h : row ∈ candidates records db) :
    ∃ x y p q, x ∈ records ∧ db.Hashed x p ∧ db.Hashed y q ∧
      y ≠ x ∧ row = ⟨min x y, max x y, hammingBits p q⟩ := by
  rw [candidates, upsert_nothing_table] at h
  obtain ⟨hrow, _⟩ := of_mem_upsert_inserted keepsKey_none h
  obtain ⟨⟨x, _⟩, hprobe, hrow⟩ := mem_flatMap.1 hrow
  obtain ⟨⟨y, _⟩, hother, hrow⟩ := mem_filterMap.1 hrow
  obtain ⟨hprobe, hx⟩ := mem_filter.1 hprobe
  obtain ⟨p, q, rfl, rfl, ⟨hne, _⟩, rfl⟩ := compare_eq_some.1 hrow
  exact ⟨x, y, p, q, of_decide_eq_true hx, hprobe, hother, hne, rfl⟩

/-- Every probe is compared with every other record. -/
theorem mem_candidates {p : BitVec 64}
    (hx : x ∈ records) (hp : db.Hashed x p) (hq : db.Hashed y q) (hne : y ≠ x)
    (hdist : hammingBits p q ≤ 8) :
    (min x y, max x y) ∈ (candidates records db).map HammingDistance.key := by
  rw [candidates, mem_map_key_upsert keepsKey_none]
  refine Or.inr (mem_map.2 ⟨⟨min x y, max x y, hammingBits p q⟩, ?_, rfl⟩)
  refine mem_flatMap.2 ⟨_, mem_filter.2 ⟨hp, decide_eq_true hx⟩, ?_⟩
  exact mem_filterMap.2 ⟨_, hq, compare_eq_some.2 ⟨p, q, rfl, rfl, ⟨hne, hdist⟩, rfl⟩⟩

/-- With one hash for each record, the candidate of a pair is its distance. -/
theorem eq_of_mem_candidates (hk : db.ImagesKeyed)
    {p : BitVec 64} (hp : db.Hashed x p) (hq : db.Hashed y q)
    (hrow : row ∈ candidates records db) (hkey : row.key = (x, y)) :
    row = ⟨x, y, hammingBits p q⟩ ∧ (x ∈ records ∨ y ∈ records) := by
  have hhash : ∀ {z p p'}, db.Hashed z p → db.Hashed z p' → p = p' := fun {z p p'} h h' =>
    Option.some.inj (congrArg ImageMetadata.phash (hk.eq_of_key_eq h h' rfl))
  obtain ⟨x', y', p', q', hx', hp', hq', _, rfl⟩ := of_mem_candidates hrow
  obtain ⟨hmin, hmax⟩ := Prod.mk.inj hkey
  rcases le_total x' y' with hle | hle
  · rw [min_eq_left hle] at hmin
    rw [max_eq_right hle] at hmax
    subst hmin hmax
    rw [min_eq_left hle, max_eq_right hle, hhash hp hp', hhash hq hq']
    exact ⟨rfl, Or.inl hx'⟩
  · rw [min_eq_right hle] at hmin
    rw [max_eq_left hle] at hmax
    subst hmin hmax
    rw [min_eq_right hle, max_eq_left hle, hhash hp hq', hhash hq hp', hammingBits_comm]
    exact ⟨rfl, Or.inr hx'⟩

/-- A distance that is computed anew takes the place of the old one. -/
theorem HammingDistance.replaced_eq (old new : HammingDistance) (hkey : old.key = new.key) :
    { old with distance := new.distance } = new := by
  obtain ⟨hleft, hright⟩ := Prod.mk.inj hkey
  rw [hleft, hright]

/-- **A sweep loses no pair**: the pairs of the claimed records are computed anew, and the others
stay. -/
theorem noneLost_rebuild (h : NoneLost db) (hk : db.ImagesKeyed) (claimed : List RecordId) :
    NoneLost (rebuildHammingPairs claimed
      { db with hammingDistanceQueue := db.hammingDistanceQueue.filter fun r => r ∉ claimed }) := by
  intro x y p q hxy hp hq hdist hruled
  have hkeeps : KeepsKey HammingDistance.key
      (some fun old new : HammingDistance => { old with distance := new.distance }) :=
    keepsKey_some fun _ _ => rfl
  by_cases hclaimed : x ∈ claimed ∨ y ∈ claimed
  · -- the pair is among the candidates, and so it is stored
    have hcandidate : (x, y) ∈ (candidates claimed db).map HammingDistance.key := by
      rcases hclaimed with hx | hy
      · have hmem := mem_candidates hx hp hq hxy.ne' hdist
        rwa [min_eq_left hxy.le, max_eq_right hxy.le] at hmem
      · have hmem := mem_candidates hy hq hp hxy.ne (hammingBits_comm p q ▸ hdist)
        rwa [min_eq_right hxy.le, max_eq_left hxy.le] at hmem
    obtain ⟨row, hrow, hkey⟩ := mem_map.1 hcandidate
    have hundecided : db.undecided row := by
      obtain ⟨rfl, _⟩ := eq_of_mem_candidates hk hp hq hrow hkey
      rw [undecided_eq, Bool.not_eq_true']
      exact hruled
    have hmem : (x, y) ∈ ((candidates claimed db).filter db.undecided).map HammingDistance.key :=
      mem_map.2 ⟨row, mem_filter.2 ⟨hrow, hundecided⟩, hkey⟩
    obtain ⟨stored, hstored, hkey'⟩ := mem_map.1
      ((mem_map_key_upsert (t := db.hammingDistance.filter fun row =>
        row.leftId ∉ claimed ∧ row.rightId ∉ claimed) hkeeps).2 (Or.inr hmem))
    rcases of_mem_upsert_replace HammingDistance.replaced_eq hstored with hnew | ⟨_, hnot⟩
    · obtain ⟨rfl, _⟩ := eq_of_mem_candidates hk hp hq (mem_of_mem_filter hnew) hkey'
      exact Or.inl hstored
    · exact (hnot (hkey' ▸ hmem)).elim
  · obtain ⟨hx, hy⟩ := not_or.1 hclaimed
    rcases h x y p q hxy hp hq hdist hruled with hrow | hqueue | hqueue
    · refine Or.inl (mem_upsert_of_mem (mem_filter.2 ⟨hrow, decide_eq_true ⟨hx, hy⟩⟩) ?_)
      intro hkey
      obtain ⟨row, hrow, hkey⟩ := mem_map.1 hkey
      exact hclaimed (eq_of_mem_candidates hk hp hq (mem_of_mem_filter hrow) hkey).2
    · exact Or.inr (Or.inl (mem_filter.2 ⟨hqueue, decide_eq_true hx⟩))
    · exact Or.inr (Or.inr (mem_filter.2 ⟨hqueue, decide_eq_true hy⟩))

/-! ## Runs -/

/-- What is kept along every run. -/
structure Reviewed (db : Db) : Prop extends Sane db where
  imagesKeyed : db.ImagesKeyed
  noneLost : NoneLost db

theorem Settles.imagesKeyed (h : Settles db db') (hk : db.ImagesKeyed) : db'.ImagesKeyed := by
  rw [Db.ImagesKeyed, h.imageMetadata]
  exact hk

theorem Reviewed.settles (h : Reviewed db) (hs : Sane db') (hsettles : Settles db db') :
    Reviewed db' :=
  ⟨hs, hsettles.imagesKeyed h.imagesKeyed, hsettles.noneLost h.noneLost⟩

/-- **Every statement keeps the undecided pairs waiting.** -/
theorem exec_reviewed (h : Reviewed db) (op : Op) : Returns (exec op db) Reviewed := by
  have hpair : ∀ worse better db, Reviewed db →
      Returns (insertDuplicatePair worse better db) Reviewed := fun worse better db h =>
    (insertDuplicatePair_spec h.toSane worse better).mono fun _ hp =>
      h.settles (hp.sane h.toSane) hp.settles
  have hsane := fun op => exec_sane h.toSane op
  refine exec_returns h op hpair (fun recordA recordB => ?_) (fun ruling rows db' hexec => ?_)
    (fun ruling p => ?_)
    (fun record phash db' hexec => ?_) (fun record phash => ?_) fun claimed => ?_
  · exact h.settles (hsane (.removeDuplicatePair recordA recordB) _ rfl)
      (removeDuplicatePair_settles h.toSane recordA recordB)
  · exact h.settles (hsane (.insertRuledPairs ruling rows) db' hexec)
      (insertRuledPairs_spec h.keyed ruling rows db' hexec).settles
  · have hcleared := deleteRuledPairs_spec h.keyed ruling p
    exact h.settles (h.toSane.cleared hcleared) (hcleared.settles h.toSane)
  · obtain ⟨hlost, hk⟩ := storeImageMetadata_noneLost h.noneLost h.imagesKeyed record phash db'
      hexec
    exact ⟨hsane (.storeImageMetadata record phash) db' hexec, hk, hlost⟩
  · exact ⟨sane_setPhash h.toSane record phash, h.imagesKeyed.setPhash record phash,
      h.noneLost.setPhash record phash⟩
  · exact ⟨h.toSane.congr rfl fun _ => rfl, h.imagesKeyed,
      noneLost_rebuild h.noneLost h.imagesKeyed claimed⟩

theorem Reachable.reviewed (h : Reachable records db) : Reviewed db := by
  induction h with
  | empty =>
    exact ⟨Sane.empty records, nodup_nil, fun _ _ _ _ _ hx => (not_mem_nil hx).elim⟩
  | step op _ hexec ih => exact exec_reviewed ih op _ hexec
  | rolledBack _ _ ih => exact ih

/-- **No undecided pair is ever lost.**  In every reachable state, two different records whose
hashes differ in at most 8 bits and whose pair is not ruled have their distance stored, or one of
them is queued. -/
theorem undecided_pairs_kept {records : List RecordId} (h : Reachable records db) {x y : RecordId}
    {p q : BitVec 64} (hne : x ≠ y) (hp : ⟨x, some p⟩ ∈ db.imageMetadata)
    (hq : ⟨y, some q⟩ ∈ db.imageMetadata) (hdist : hammingBits p q ≤ 8)
    (hruled : db.pairIsRuled x y = false) :
    ⟨min x y, max x y, hammingBits p q⟩ ∈ db.hammingDistance ∨
      x ∈ db.hammingDistanceQueue ∨ y ∈ db.hammingDistanceQueue := by
  have hlost := h.reviewed.noneLost
  rcases lt_or_gt_of_ne hne with hlt | hlt
  · rw [min_eq_left hlt.le, max_eq_right hlt.le]
    exact hlost x y p q hlt hp hq hdist hruled
  · rw [min_eq_right hlt.le, max_eq_left hlt.le, hammingBits_comm]
    rw [hammingBits_comm] at hdist
    rw [pairIsRuled_comm] at hruled
    exact (hlost y x q p hlt hq hp hdist hruled).imp_right Or.symm

/-- Two similar records are swept, ruled unrelated and the ruling is cleared: the pair is queued
again. -/
theorem undecided_pairs_kept_cleared :
    ∃ db, run [.storeImageMetadata 1 (some 0), .storeImageMetadata 2 (some 1),
        .processQueueBatch 2 none [], .insertRuledPairs .unrelated [⟨1, 2⟩],
        .deleteRuledPairs .unrelated [⟨1, 2⟩]] (Db.empty [1, 2]) = .ok db ∧
      db.hammingDistance = [] ∧ db.pairIsRuled 2 1 = false ∧
      (⟨1, 2, 1⟩ ∈ db.hammingDistance ∨ 2 ∈ db.hammingDistanceQueue ∨
        1 ∈ db.hammingDistanceQueue) := by
  refine ⟨{ Db.empty [1, 2] with
      imageMetadata := [⟨1, some 0⟩, ⟨2, some 1⟩]
      hammingDistanceQueue := [1, 2] }, (and_iff_left_of_imp fun hrun => ?_).2 (by decide +kernel)⟩
  exact ⟨rfl, by decide, undecided_pairs_kept (Reachable.empty.run hrun) (x := 2)
    (y := 1) (p := 1) (q := 0) (by decide) (by decide) (by decide) (by decide) (by decide)⟩

end Idhan.Duplicates
