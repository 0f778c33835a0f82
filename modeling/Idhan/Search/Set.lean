import Mathlib.Tactic.Ring
import Mathlib.Data.Nat.Notation
import Mathlib.Data.Int.Order.Basic
import Idhan.Lib.SortedMerge

/-!
# Sets of records

`Set` of `core/search/Set.cpp`: a list of record ids in the order of a sort key, with the keys and,
if they are wanted, the hashes in parallel columns.  An inverted set stands for the records that are
*not* listed.

One loop, `Set::merge`, serves all operations.  It reads the rows of both operands by index and
appends to the columns of the result; `rowsOf` reads the columns as rows and `Set.ofRows` splits
rows into columns again.

* A SHA-256 hash is its 32 bytes read as one number, the first byte the most significant: the order
  of these numbers is the order of the byte arrays.
* A double is its bits; `Double.less` is the `<` of IEEE 754, under which a NaN is below nothing and
  above nothing, and the two zeros are equal.
-/

namespace Idhan.Search

abbrev RecordId := ℕ

abbrev SHA256 := BitVec 256

/-! ## Sort keys -/

/-- A double-precision number, as its bits. -/
structure Double where
  bits : BitVec 64
  deriving DecidableEq, Repr

namespace Double

/-- The bits without the sign. -/
def magnitude (d : Double) : ℕ :=
  d.bits.toNat % 2 ^ 63

/-- The exponent is all ones and the fraction is not zero. -/
def isNaN (d : Double) : Bool :=
  2047 * 2 ^ 52 < d.magnitude

/-- The place of a number among all numbers. -/
def place (d : Double) : ℤ :=
  if d.bits.msb then -d.magnitude else d.magnitude

/-- `a < b`. -/
def less (a b : Double) : Bool :=
  !a.isNaN && !b.isNaN && a.place < b.place

end Double

inductive SortKeyType where
  | none
  | integer
  | real
  | hash
  deriving DecidableEq, Repr

inductive SortKeyColumn where
  | none
  | integer (keys : List ℤ)
  | real (keys : List Double)
  | hash (keys : List SHA256)
  deriving DecidableEq, Repr

def emptyColumn : SortKeyType → SortKeyColumn
  | .none => .none
  | .integer => .integer []
  | .real => .real []
  | .hash => .hash []

def emptyColumnLike : SortKeyColumn → SortKeyColumn
  | .none => .none
  | .integer _ => .integer []
  | .real _ => .real []
  | .hash _ => .hash []

/-! ## Sets -/

structure Set where
  ids : List RecordId
  keys : SortKeyColumn
  hashes : Option (List SHA256)
  inverted : Bool
  deriving DecidableEq, Repr

/-- `std::logic_error`, with its text. -/
structure LogicError where
  message : String
  deriving DecidableEq, Repr

/-- The error of `Set::merge`. -/
def differentSortTypes : LogicError :=
  ⟨"SearchBuilder: combined two Sets built for different sort types"⟩

/-- `Set::emptyOf`. -/
def Set.emptyOf (type : SortKeyType) : Set :=
  ⟨[], emptyColumn type, none, false⟩

inductive MergeOp where
  | intersect
  | union
  | difference
  | symmetricDifference
  deriving DecidableEq, Repr

/-- The conditions under which the loop of `Set::merge` emits a row. -/
def MergeOp.emits (op : MergeOp) : Emits where
  left := op ≠ .intersect
  right := op = .union ∨ op = .symmetricDifference
  both := op = .intersect ∨ op = .union

/-- What the columns hold at one index. -/
structure Row (κ : Type) where
  id : RecordId
  key : κ
  hash : Option SHA256

variable {κ : Type}

def compositeLess (less : κ → κ → Bool) (lhs rhs : Row κ) : Bool :=
  if less lhs.key rhs.key then true
  else if less rhs.key lhs.key then false
  else lhs.id < rhs.id

/-- The rows of parallel columns. -/
def rowsOf : List RecordId → List κ → Option (List SHA256) → List (Row κ)
  | id :: ids, key :: keys, hashes =>
    ⟨id, key, hashes.bind List.head?⟩ :: rowsOf ids keys (hashes.map List.tail)
  | _, _, _ => []

/-- The set with the given rows.  A row without a hash leaves no trace in the column of hashes. -/
def Set.ofRows (column : List κ → SortKeyColumn) (hashed inverted : Bool) (rows : List (Row κ)) :
    Set where
  ids := rows.map (·.id)
  keys := column (rows.map (·.key))
  hashes := if hashed then some (rows.filterMap (·.hash)) else none
  inverted := inverted

/-- The loop of `Set::merge` for one type of column. -/
def Set.mergeColumns (less : κ → κ → Bool) (column : List κ → SortKeyColumn) (lhs rhs : Set)
    (lhsKeys rhsKeys : List κ) (op : MergeOp) (inverted : Bool) : Set :=
  .ofRows column (lhs.hashes.isSome || rhs.hashes.isSome) inverted
    (mergeWith (compositeLess less) op.emits (rowsOf lhs.ids lhsKeys lhs.hashes)
      (rowsOf rhs.ids rhsKeys rhs.hashes))

/-- `Set::merge`. -/
def Set.merge (lhs rhs : Set) (op : MergeOp) (inverted : Bool) : Except LogicError Set :=
  match lhs.keys, rhs.keys with
  | .none, .none =>
    -- without keys the ids alone are compared
    .ok (mergeColumns (fun _ _ => false) (fun _ => .none) lhs rhs (lhs.ids.map fun _ => ())
      (rhs.ids.map fun _ => ()) op inverted)
  | .integer l, .integer r => .ok (mergeColumns (fun a b => a < b) .integer lhs rhs l r op inverted)
  | .real l, .real r => .ok (mergeColumns Double.less .real lhs rhs l r op inverted)
  | .hash l, .hash r => .ok (mergeColumns (fun a b => a < b) .hash lhs rhs l r op inverted)
  | _, _ => .error differentSortTypes

/-- `operator&`. -/
def Set.intersect (lhs rhs : Set) : Except LogicError Set :=
  match lhs.inverted, rhs.inverted with
  | false, false => merge lhs rhs .intersect false
  | false, true => merge lhs rhs .difference false
  | true, false => merge rhs lhs .difference false
  | true, true => merge lhs rhs .union true

/-- `operator|`. -/
def Set.unite (lhs rhs : Set) : Except LogicError Set :=
  match lhs.inverted, rhs.inverted with
  | false, false => merge lhs rhs .union false
  | false, true => merge rhs lhs .difference true
  | true, false => merge lhs rhs .difference true
  | true, true => merge lhs rhs .intersect true

/-- `operator^`. -/
def Set.symmetricDifference (lhs rhs : Set) : Except LogicError Set :=
  merge lhs rhs .symmetricDifference (lhs.inverted != rhs.inverted)

/-- `operator~`. -/
def Set.negate (s : Set) : Set :=
  { s with inverted := !s.inverted }

/-! ## Pages -/

/-- A change of all columns alike. -/
def SortKeyColumn.mapKeys (f : ∀ {κ : Type}, List κ → List κ) : SortKeyColumn → SortKeyColumn
  | .none => .none
  | .integer keys => .integer (f keys)
  | .real keys => .real (f keys)
  | .hash keys => .hash (f keys)

/-- `Set::reverse`. -/
def Set.reverse (s : Set) : Set where
  ids := s.ids.reverse
  keys := s.keys.mapKeys List.reverse
  hashes := s.hashes.map List.reverse
  inverted := s.inverted

/-- The number of rows that `slice` keeps of the remaining ones. -/
def kept (remaining : ℕ) : Option ℕ → ℕ
  | some limit => min remaining limit
  | none => remaining

/-- `Set::slice`. -/
def Set.slice (s : Set) (offset : ℕ) (limit : Option ℕ) : Set :=
  if s.ids.length ≤ offset then
    { s with ids := [], keys := emptyColumnLike s.keys, hashes := s.hashes.map fun _ => [] }
  else
    let remaining := s.ids.length - offset
    let stop := offset + kept remaining limit
    { s with
      ids := (s.ids.take stop).drop offset
      keys := s.keys.mapKeys fun keys => (keys.take stop).drop offset
      hashes := s.hashes.map fun hashes => (hashes.take stop).drop offset }

end Idhan.Search
