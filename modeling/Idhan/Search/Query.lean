import Mathlib.Data.List.Dedup
import Mathlib.Data.List.Sort
import Idhan.Search.Algebra

/-!
# The search query

`SearchQuery::evaluate` and `SearchQuery::query` of `httpapi/search/SearchQuery.cpp`, from the point
where the terms have been fetched, and the SQL of `httpapi/search/SearchFetch.cpp` that fetches a
term or a page.

A search with a positive term folds the sets of its terms in memory, and reverses and slices the
result.  A search without one keeps the complement of its negative terms, and lets PostgreSQL page
through the other records: `ORDER BY key, record_id` in the direction of the search, `LIMIT` and
`OFFSET`.

The records of a search are those that every query selects from: the type of the file is known, the
file is not deleted and, if the sort asks for it, the key is not null.  The sorts are all but the
random one.
-/

namespace Idhan.Search

inductive SortOrder where
  | asc
  | desc
  deriving DecidableEq, Repr

/-- What the queries of one search read. -/
structure Catalogue where
  /-- the searchable records -/
  records : List RecordId
  sorting : Sorting
  sha256 : RecordId → SHA256

/-- The errors of a search. -/
inductive SearchError where
  | logicError (error : LogicError)
  /-- PostgreSQL: the number after `LIMIT` or `OFFSET` is no `bigint` -/
  | bigintOutOfRange
  deriving DecidableEq, Repr

structure SearchResults where
  recordIds : List RecordId
  hashes : List SHA256
  deriving DecidableEq, Repr

/-! ## Queries -/

/-- `ORDER BY key, record_id`, or `ORDER BY key DESC, record_id DESC`. -/
def Sorting.orderBy (k : Sorting) (order : SortOrder) (ids : List RecordId) : List RecordId :=
  match order with
  | .asc => ids.insertionSort fun x y => k.rank x ≤ k.rank y
  | .desc => ids.insertionSort fun x y => k.rank y ≤ k.rank x

/-- The largest number that `LIMIT` and `OFFSET` take. -/
def bigintMax : ℕ := 2 ^ 63 - 1

/-- `OFFSET offset LIMIT limit` of some rows. -/
def pageOf {α : Type} (offset : ℕ) (limit : Option ℕ) (rows : List α) : List α :=
  match limit with
  | some limit => (rows.drop offset).take limit
  | none => rows.drop offset

/-- `appendRow`: a row with the id of the row before it is dropped. -/
def appendRow (ids : List RecordId) (id : RecordId) : List RecordId :=
  if ids.getLast? = some id then ids else ids ++ [id]

/-- `runTypedFetch`: the set of the rows of a query. -/
def Catalogue.runTypedFetch (c : Catalogue) (wantHashes : Bool) (rows : List RecordId) : Set :=
  let ids := rows.foldl appendRow []
  { ids := ids
    keys := c.sorting.column ids
    hashes := if wantHashes then some (ids.map c.sha256) else none
    inverted := false }

/-- The set of a term that the records `found` match, each maybe several times (`SELECT
DISTINCT`). -/
def Catalogue.fetchTerm (c : Catalogue) (wantHashes : Bool) (found : List RecordId) : Set :=
  c.runTypedFetch wantHashes
    (c.sorting.orderBy .asc (c.records.filter fun id => id ∈ found).dedup)

/-- `fetchPage`: the page of the records that are not excluded. -/
def Catalogue.fetchPage (c : Catalogue) (wantHashes : Bool) (excluded : List RecordId)
    (order : SortOrder) (offset : ℕ) (limit : Option ℕ) : Except SearchError Set :=
  let selected := if excluded.isEmpty then c.records else c.records.filter fun id => id ∉ excluded
  if bigintMax < offset ∨ limit.any (bigintMax < ·) then
    .error .bigintOutOfRange
  else
    .ok (c.runTypedFetch wantHashes (pageOf offset limit (c.sorting.orderBy order selected)))

/-! ## The search -/

/-- The first loop of `evaluate`; `none` is `!narrowed`. -/
def narrow (result : Option Set) (s : Set) : Except LogicError (Option Set) :=
  match result with
  | some result => (result.intersect s).map some
  | none => .ok (some s)

/-- The second loop of `evaluate`. -/
def exclude (result s : Set) : Except LogicError Set :=
  result.intersect s.negate

/-- `SearchQuery::evaluate`, from the sets of the terms on. -/
def evaluate (keyType : SortKeyType) (positive negative : List Set) : Except LogicError Set := do
  let narrowed ← positive.foldlM narrow none
  negative.foldlM exclude (narrowed.getD (Set.emptyOf keyType).negate)

def toResults (s : Set) (wantHashes : Bool) : SearchResults where
  recordIds := s.ids
  hashes := if wantHashes then s.hashes.getD [] else []

/-- `SearchQuery::query`. -/
def Catalogue.query (c : Catalogue) (wantHashes : Bool) (positive negative : List Set)
    (order : SortOrder) (offset : ℕ) (limit : Option ℕ) : Except SearchError SearchResults :=
  match evaluate c.sorting.type positive negative with
  | .error e => .error (.logicError e)
  | .ok set =>
    if set.inverted then
      (c.fetchPage wantHashes set.ids order offset limit).map fun page => toResults page wantHashes
    else
      let set := match order with
        | .asc => set
        | .desc => set.reverse
      .ok (toResults (set.slice offset limit) wantHashes)

end Idhan.Search
