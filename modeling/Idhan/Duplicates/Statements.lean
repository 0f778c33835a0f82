import Mathlib.Data.List.Sort
import Idhan.Duplicates.Schema

/-!
# The statements on duplicates, rulings and hashes

`insert_duplicate_pair` (411, 414) and `remove_duplicate_pair` (412) change the groups, the triggers
of `alternative_records` (390) and `unrelated_records` (391) keep the rulings on kings and the
distances in step with them, `queue_hamming_distance` (319) queues the records whose hash changes,
and a batch of the sweep (`processQueueBatch` of `hamming/hammingQueue.cpp`) computes the distances
of queued records anew.

The changes of the groups and of the rulings and the batches of the sweep take the lock
`pg_advisory_xact_lock(16609, 1)`, so they run one after the other.  `storeImageMetadata` and
`updateMissingPhash` take no lock: each of them writes the row of one record and, by its trigger,
the entry of that record in the queue, and the model runs it in one piece between the others.  The
rows of `hamming_distance` and of `hamming_distance_queue` copy records that other rows already
refer to, so only the other tables check their foreign keys here.
-/

namespace Idhan.Duplicates

/-! ## The queue and the distances -/

/-- `INSERT INTO hamming_distance_queue ... ON CONFLICT (record_id) DO NOTHING`. -/
def queueRecords (ids : List RecordId) (db : Db) : Db :=
  { db with hammingDistanceQueue := (upsert id none db.hammingDistanceQueue ids).table }

/-- The distance is one between a member of the one group and a member of the other. -/
def HammingDistance.between (left right : List RecordId) (row : HammingDistance) : Bool :=
  left.any fun l => right.any fun r => row.leftId = min l r ∧ row.rightId = max l r

/-- `discard_ruled_distance` (389). -/
def discardRuledDistance (new : RuledPair) (db : Db) : Db :=
  { db with
    hammingDistance := db.hammingDistance.filter fun row =>
      !row.between (db.duplicateGroupMembers new.lesserRecordId)
        (db.duplicateGroupMembers new.greaterRecordId) }

/-- `requeue_ruled_distance` (398). -/
def requeueRuledDistance (old : RuledPair) (db : Db) : Db :=
  if db.pairIsRuled old.lesserRecordId old.greaterRecordId then
    db
  else
    queueRecords (db.duplicateGroupMembers (db.duplicateKing old.lesserRecordId) ++
      db.duplicateGroupMembers (db.duplicateKing old.greaterRecordId)).dedup db

/-! ## Rulings -/

/-- `normalize_ruled_pair` (389): the row that is inserted, if any. -/
def normalizeRuledPair (db : Db) (new : RuledPair) : Option RuledPair :=
  let lesserKing := db.duplicateKing new.lesserRecordId
  let greaterKing := db.duplicateKing new.greaterRecordId
  if lesserKing = greaterKing then none else some (RuledPair.of lesserKing greaterKing)

/-- `INSERT INTO alternative_records ... ON CONFLICT DO NOTHING`, or the same for
`unrelated_records`. -/
def insertRuledPairs (ruling : Ruling) (rows : List RuledPair) : Statement := fun db =>
  let result := upsert id none (db.ruled ruling) (rows.filterMap (normalizeRuledPair db))
  if result.inserted.any fun new =>
      new.lesserRecordId ∉ db.records ∨ new.greaterRecordId ∉ db.records then
    .error (.foreignKeyViolation ruling.table)
  else
    .ok (result.inserted.foldl (fun db new => discardRuledDistance new db)
      (db.setRuled ruling result.table))

/-- `DELETE FROM alternative_records WHERE p`, or the same for `unrelated_records`. -/
def deleteRuledPairs (ruling : Ruling) (p : RuledPair → Bool) (db : Db) : Db :=
  ((db.ruled ruling).filter p).foldl (fun db old => requeueRuledDistance old db)
    (db.setRuled ruling ((db.ruled ruling).filter fun row => !p row))

/-! ## Duplicates -/

/-- `INSERT INTO duplicate_members ... ON CONFLICT (record_id) DO NOTHING`. -/
def insertDuplicateMember (new : DuplicateMember) : Statement := fun db =>
  if db.duplicateMembers.any fun m => m.recordId = new.recordId then
    .ok db
  else if new.recordId ∉ db.records ∨ new.kingId ∉ db.records then
    .error (.foreignKeyViolation "duplicate_members")
  else
    .ok { db with duplicateMembers := db.duplicateMembers ++ [new] }

/-- `UPDATE duplicate_members SET king_id = king WHERE p`. -/
def updateKing (p : DuplicateMember → Bool) (king : RecordId) (db : Db) : Db :=
  { db with
    duplicateMembers := db.duplicateMembers.map fun m => if p m then { m with
      kingId := king } else m }

/-- The row is a ruling of the king. -/
def RuledPair.concerns (king : RecordId) (row : RuledPair) : Bool :=
  row.lesserRecordId = king ∨ row.greaterRecordId = king

/-- The other king of a ruling. -/
def RuledPair.other (king : RecordId) (row : RuledPair) : RecordId :=
  if row.lesserRecordId = king then row.greaterRecordId else row.lesserRecordId

/-- The two statements of `insert_duplicate_pair` that move the rulings of one kind from `worseRoot`
to `newRoot`. -/
def transferRulings (ruling : Ruling) (worseRoot newRoot : RecordId) : Statement := fun db => do
  let others := ((db.ruled ruling).filter (RuledPair.concerns worseRoot)).map
    (RuledPair.other worseRoot)
  let db ← insertRuledPairs ruling ((others.filter (· ≠ newRoot)).map (RuledPair.of newRoot)) db
  .ok (deleteRuledPairs ruling (RuledPair.concerns worseRoot) db)

/-- The distances of the moved records that are ruled are deleted. -/
def discardMoved (movedIds : List RecordId) (db : Db) : Db :=
  { db with
    hammingDistance := db.hammingDistance.filter fun row =>
      !((row.leftId ∈ movedIds || row.rightId ∈ movedIds) && db.pairIsRuled row.leftId
        row.rightId) }

/-- The branch of `insert_duplicate_pair` for a king: its whole group moves to `newRoot`. -/
def moveGroup (worse newRoot : RecordId) : Statement := fun db => do
  let moved := (db.duplicateMembers.filter fun m => m.kingId = worse).map (·.recordId)
  let db := updateKing (fun m => m.kingId = worse) newRoot db
  -- an isolated king has no stored membership yet
  let db ← insertDuplicateMember ⟨worse, newRoot⟩ db
  let movedIds := if moved = [] then [worse] else moved
  let db ← transferRulings .alternative worse newRoot db
  let db ← transferRulings .unrelated worse newRoot db
  .ok (discardMoved movedIds db)

/-- The branch of `insert_duplicate_pair` for a subordinate: only it moves, and both groups are
queued. -/
def moveSubordinate (worse worseRoot betterRoot : RecordId) (db : Db) : Db :=
  let affectedIds :=
    (db.duplicateGroupMembers worseRoot ++ db.duplicateGroupMembers betterRoot).dedup
  let db := updateKing (fun m => m.recordId = worse) betterRoot db
  queueRecords affectedIds (discardMoved [worse] db)

/-- `insert_duplicate_pair` (411). -/
def insertDuplicatePair (worse better : RecordId) : Statement := fun db => do
  let worseRoot := db.duplicateKing worse
  let betterRoot := db.duplicateKing better
  if worse = better then
    .ok db
  else if worseRoot = betterRoot ∧ worse ≠ worseRoot then
    .ok db
  else
    -- selecting a better member for the current king promotes that member
    let newRoot := if worseRoot = betterRoot then better else betterRoot
    let db ← insertDuplicateMember ⟨newRoot, newRoot⟩ db
    if worse = worseRoot then
      moveGroup worse newRoot db
    else
      .ok (moveSubordinate worse worseRoot newRoot db)

/-- The entries of an array, if it is an array without nulls. -/
def withoutNulls (ids : Option (List (Option RecordId))) : Option (List RecordId) :=
  ids.bind fun ids => ids.mapM id

/-- `insert_duplicate_pair` (414), the batch of pairs. -/
def insertDuplicatePairs (worseIds betterIds : Option (List (Option RecordId))) :
    Statement := fun db =>
  match withoutNulls worseIds, withoutNulls betterIds with
  | some worse, some better =>
    if worse.length ≠ better.length then
      .error .pairArrays
    else
      (worse.zip better).foldlM (fun db pair => insertDuplicatePair pair.1 pair.2 db) db
  | _, _ => .error .pairArrays

/-- The member that `remove_duplicate_pair` (412) detaches. -/
def Db.removedMember (db : Db) (recordA recordB : RecordId) : Option DuplicateMember :=
  db.duplicateMembers.find? fun m => m.recordId ≠ m.kingId ∧
    ((m.recordId = recordA ∧ m.kingId = recordB) ∨ (m.recordId = recordB ∧ m.kingId = recordA))

/-- `remove_duplicate_pair` (412): the returned value, and the state. -/
def removeDuplicatePair (recordA recordB : RecordId) (db : Db) : Bool × Db :=
  match db.removedMember recordA recordB with
  | none => (false, db)
  | some m =>
    let affectedIds := db.duplicateGroupMembers (db.duplicateKing m.recordId)
    (true, queueRecords affectedIds (updateKing (fun m' => m'.recordId = m.recordId) m.recordId db))

/-! ## Hashes -/

/-- An `UPDATE` of `phash`, with the trigger of `queue_hamming_distance` (319). -/
def setPhash (record : RecordId) (phash : Option (BitVec 64)) (db : Db) : Db :=
  let db' :=
    { db with
      imageMetadata := db.imageMetadata.map fun row =>
        if row.recordId = record then { row with phash := phash } else row }
  if db.imageMetadata.any fun row => row.recordId = record ∧ row.phash ≠ phash then
    queueRecords [record] db'
  else db'

/-- `store_image_metadata.sql`, with the triggers of `queue_hamming_distance` (319). -/
def storeImageMetadata (record : RecordId) (phash : Option (BitVec 64)) : Statement := fun db =>
  if db.imageMetadata.any fun row => row.recordId = record then
    .ok (setPhash record phash db)
  else if record ∉ db.records then
    .error (.foreignKeyViolation "image_metadata")
  else
    let db' := { db with imageMetadata := db.imageMetadata ++ [⟨record, phash⟩] }
    .ok (if phash.isSome then queueRecords [record] db' else db')

/-- `updateMissingPhash`, where `stored` is the condition on `file_info`. -/
def updateMissingPhash (record : RecordId) (phash : BitVec 64) (stored : Bool) (db : Db) : Db :=
  if (db.imageMetadata.any fun row => row.recordId = record ∧ row.phash = none) && stored then
    setPhash record (some phash) db
  else db

/-- `claimHammingBatch`: the queued records after `after` and up to `through` in their order, at
most `limit` of them.  Records that another transaction has locked are skipped. -/
def claimHammingBatch (after : Option RecordId) (through : RecordId) (limit : ℕ)
    (locked : List RecordId) (db : Db) : List RecordId :=
  ((db.hammingDistanceQueue.filter fun record =>
      (after.all (· < record) && record ≤ through) && record ∉ locked).insertionSort (· ≤ ·)).take
        limit

/-- A probe and another record, if both have a hash and the hashes differ in at most 8 bits. -/
def compare (probe other : ImageMetadata) : Option HammingDistance :=
  match probe.phash, other.phash with
  | some p, some o =>
    if other.recordId ≠ probe.recordId ∧ hammingBits p o ≤ 8 then
      some ⟨min probe.recordId other.recordId, max probe.recordId other.recordId, hammingBits p o⟩
    else none
  | _, _ => none

/-- The candidates of `rebuildHammingPairs`: the pairs of the probes, each pair once. -/
def candidates (records : List RecordId) (db : Db) : List HammingDistance :=
  let probes := db.imageMetadata.filter fun probe => probe.recordId ∈ records
  let computed := probes.flatMap fun probe => db.imageMetadata.filterMap (compare probe)
  (upsert HammingDistance.key none [] computed).table

/-- The last condition of the query: the kings differ, and no ruling joins them. -/
def Db.undecided (db : Db) (row : HammingDistance) : Bool :=
  let leftRoot := db.duplicateKing row.leftId
  let rightRoot := db.duplicateKing row.rightId
  leftRoot ≠ rightRoot && RuledPair.of leftRoot rightRoot ∉ db.alternativeRecords &&
    RuledPair.of leftRoot rightRoot ∉ db.unrelatedRecords

def rebuildHammingPairs (records : List RecordId) (db : Db) : Db :=
  let kept := db.hammingDistance.filter fun row => row.leftId ∉ records ∧ row.rightId ∉ records
  { db with
    hammingDistance :=
      (upsert HammingDistance.key (some fun old new => { old with distance := new.distance }) kept
        ((candidates records db).filter db.undecided)).table }

/-- `queueBatchSize` of `hamming/hamming.hpp`. -/
def queueBatchSize : ℕ := 32

/-- `processQueueBatch`: the last record and the number of the claimed records, and the state. -/
def processQueueBatch (through : RecordId) (after : Option RecordId) (locked : List RecordId)
    (db : Db) : Option (RecordId × ℕ) × Db :=
  let claimed := claimHammingBatch after through queueBatchSize locked db
  if claimed = [] then
    (none, db)
  else
    let db :=
      { db with
        hammingDistanceQueue := db.hammingDistanceQueue.filter fun record => record ∉ claimed }
    (some (claimed.foldl max 0, claimed.length), rebuildHammingPairs claimed db)

/-! ## Runs -/

/-- The statements that reach the tables. -/
inductive Op where
  | insertDuplicatePair (worse better : RecordId)
  | insertDuplicatePairs (worseIds betterIds : Option (List (Option RecordId)))
  | removeDuplicatePair (recordA recordB : RecordId)
  | insertRuledPairs (ruling : Ruling) (rows : List RuledPair)
  | deleteRuledPairs (ruling : Ruling) (rows : List RuledPair)
  | storeImageMetadata (record : RecordId) (phash : Option (BitVec 64))
  | updateMissingPhash (record : RecordId) (phash : BitVec 64) (stored : Bool)
  | processQueueBatch (through : RecordId) (after : Option RecordId) (locked : List RecordId)
  deriving DecidableEq, Repr

/-- A statement. -/
def exec : Op → Statement
  | .insertDuplicatePair worse better => insertDuplicatePair worse better
  | .insertDuplicatePairs worseIds betterIds => insertDuplicatePairs worseIds betterIds
  | .removeDuplicatePair recordA recordB => fun db => .ok (removeDuplicatePair recordA recordB db).2
  | .insertRuledPairs ruling rows => insertRuledPairs ruling rows
  | .deleteRuledPairs ruling rows => fun db => .ok (deleteRuledPairs ruling (· ∈ rows) db)
  | .storeImageMetadata record phash => storeImageMetadata record phash
  | .updateMissingPhash record phash stored =>
    fun db => .ok (updateMissingPhash record phash stored db)
  | .processQueueBatch through after locked => fun db =>
      .ok (processQueueBatch through after locked db).2

/-- Statements one after the other, up to the first that raises. -/
def run (ops : List Op) : Statement := fun db =>
  ops.foldlM (fun db op => exec op db) db

/-- The states reached from empty tables by the statements, any of which may also fail for a reason
of its own and be rolled back. -/
inductive Reachable (records : List RecordId) : Db → Prop where
  | empty : Reachable records (Db.empty records)
  | step {db db' : Db} (op : Op) : Reachable records db → exec op db = .ok db' →
      Reachable records db'
  | rolledBack {db : Db} (op : Op) : Reachable records db → Reachable records db

theorem Reachable.run {records : List RecordId} {db db' : Db} (h : Reachable records db)
    {ops : List Op} (hrun : run ops db = .ok db') : Reachable records db' := by
  induction ops generalizing db with
  | nil =>
    cases hrun
    exact h
  | cons op ops ih =>
    obtain ⟨s, hs, hrest⟩ := bind_eq_ok_iff.1 hrun
    exact ih (h.step op hs) hrest

end Idhan.Duplicates
