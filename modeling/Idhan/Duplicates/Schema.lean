import Mathlib.Data.Nat.Notation
import Mathlib.Data.List.Dedup
import Mathlib.Order.Lattice
import Mathlib.Algebra.Order.Ring.Nat
import Idhan.Lib.Table
import Idhan.Lib.Total

/-!
# The tables of duplicates and of perceptual hashes

The rows of `duplicate_members` (404), `alternative_records` (313), `unrelated_records` (312),
`hamming_distance` (316), `hamming_distance_queue` (317) and of `image_metadata`, with the functions
that read them.

* `duplicate_king` (408) and `duplicate_group_members` (409) read the groups: a record without a row
  is a group of its own.
* `pair_is_ruled` (413) says that a pair needs no review: the records are duplicates of each other,
  or their kings are alternatives of each other or unrelated.

Of `image_metadata` only the key and the hash are kept, and of `records` only the key, to which the
tables refer.
-/

namespace Idhan.Duplicates

abbrev RecordId := ℕ

/-- A row of `duplicate_members`. -/
structure DuplicateMember where
  recordId : RecordId
  kingId : RecordId
  deriving DecidableEq, Repr

/-- A row of `alternative_records` or of `unrelated_records`. -/
structure RuledPair where
  lesserRecordId : RecordId
  greaterRecordId : RecordId
  deriving DecidableEq, Repr

/-- A row of `hamming_distance`. -/
structure HammingDistance where
  leftId : RecordId
  rightId : RecordId
  distance : ℕ
  deriving DecidableEq, Repr

/-- The primary key of `hamming_distance`. -/
def HammingDistance.key (row : HammingDistance) : RecordId × RecordId :=
  (row.leftId, row.rightId)

/-- A row of `image_metadata`. -/
structure ImageMetadata where
  recordId : RecordId
  phash : Option (BitVec 64)
  deriving DecidableEq, Repr

/-- The two tables of rulings. -/
inductive Ruling where
  | alternative
  | unrelated
  deriving DecidableEq, Repr

/-- The state of the tables. -/
structure Db where
  records : List RecordId
  duplicateMembers : List DuplicateMember
  alternativeRecords : List RuledPair
  unrelatedRecords : List RuledPair
  hammingDistance : List HammingDistance
  hammingDistanceQueue : List RecordId
  imageMetadata : List ImageMetadata
  deriving DecidableEq, Repr

/-- Empty tables over the records `records`. -/
def Db.empty (records : List RecordId) : Db :=
  ⟨records, [], [], [], [], [], []⟩

/-- The errors that the statements raise. -/
inductive DbError where
  /-- a row that refers to a record that does not exist -/
  | foreignKeyViolation (table : String)
  /-- `insert_duplicate_pair` (414) -/
  | pairArrays
  deriving DecidableEq, Repr

/-- The text of an error. -/
def DbError.message : DbError → String
  | .foreignKeyViolation table =>
    s!"insert or update on table {table} violates foreign key constraint"
  | .pairArrays => "Duplicate pair arrays must have the same length and contain no nulls"

/-- A statement, as it changes the state or raises. -/
abbrev Statement := Db → Except DbError Db

/-- The table of a kind of ruling. -/
def Db.ruled (db : Db) : Ruling → List RuledPair
  | .alternative => db.alternativeRecords
  | .unrelated => db.unrelatedRecords

/-- Another content for the table of a kind of ruling. -/
def Db.setRuled (db : Db) : Ruling → List RuledPair → Db
  | .alternative, rows => { db with alternativeRecords := rows }
  | .unrelated, rows => { db with unrelatedRecords := rows }

/-- The name of the table of a kind of ruling. -/
def Ruling.table : Ruling → String
  | .alternative => "alternative_records"
  | .unrelated => "unrelated_records"

/-! ## What the functions read -/

/-- `duplicate_king` (408). -/
def Db.duplicateKing (db : Db) (record : RecordId) : RecordId :=
  ((db.duplicateMembers.find? fun m => m.recordId = record).map (·.kingId)).getD record

/-- `duplicate_group_members` (409). -/
def Db.duplicateGroupMembers (db : Db) (king : RecordId) : List RecordId :=
  ((db.duplicateMembers.filter fun m => m.kingId = king).map (·.recordId)) ++
    if db.duplicateMembers.any fun m => m.recordId = king then [] else [king]

/-- The row with the two records in their order, `LEAST` first. -/
def RuledPair.of (a b : RecordId) : RuledPair :=
  ⟨min a b, max a b⟩

/-- `pair_is_ruled` (413). -/
def Db.pairIsRuled (db : Db) (recordA recordB : RecordId) : Bool :=
  let a := db.duplicateKing recordA
  let b := db.duplicateKing recordB
  a = b || RuledPair.of a b ∈ db.alternativeRecords || RuledPair.of a b ∈ db.unrelatedRecords

/-- `a <~> b`, the number of bits in which two hashes differ. -/
def hammingBits (a b : BitVec 64) : ℕ :=
  (List.range 64).countP fun i => a.getLsbD i != b.getLsbD i

end Idhan.Duplicates
