import Mathlib.Algebra.BigOperators.Group.List.Basic
import Mathlib.Algebra.Group.Int.Defs
import Mathlib.Tactic.Ring

/-!
# The totals of the clusters

Every row of `file_clusters` has the number and the size of the files that are stored in it.  The
trigger function `func_file_info_cluster_usage` keeps them: it runs after each statement on
`file_info` and gets the rows that the statement has changed, as they were before and as they are
now.

The function has three modes, and leaves a total alone where the rows of both sides have none in the
cluster or balance out.  In each mode it comes to the same: `clusterUsage_insert`,
`clusterUsage_delete` and `clusterUsage_update` say that a total changes by what the rows have after
the statement less what they had before.  So a statement keeps the totals exact (`Exact.exec`), and
any sequence of statements does (`usage_exact`).
-/

namespace Idhan.Files
namespace Usage

/-! ## The tables -/

/-- A row of `file_info`. -/
@[ext]
structure Row where
  record : ℕ
  size : ℤ
  cluster : Option ℕ
  deriving DecidableEq, Repr

/-- A row of `file_clusters`. -/
structure Cluster where
  id : ℕ
  sizeUsed : ℤ
  fileCount : ℤ
  deriving DecidableEq, Repr

/-- What the rows of a cluster have of something. -/
def total (f : Row → ℤ) (rows : List Row) (id : ℕ) : ℤ :=
  ((rows.filter fun row => row.cluster = some id).map f).sum

/-- `SUM(size)`, by cluster. -/
def totalSize : List Row → ℕ → ℤ :=
  total Row.size

/-- `COUNT(*)`, by cluster. -/
def totalCount : List Row → ℕ → ℤ :=
  total fun _ => 1

structure Tables where
  fileInfo : List Row
  fileClusters : List Cluster
  deriving DecidableEq, Repr

/-! ## The trigger function -/

/-- The joined rows are updated, the others are as they were. -/
def addTotals (joined : ℕ → Bool) (size count : ℕ → ℤ) (clusters : List Cluster) : List Cluster :=
  clusters.map fun cluster =>
    if joined cluster.id then
      { cluster with
        sizeUsed := cluster.sizeUsed + size cluster.id
        fileCount := cluster.fileCount + count cluster.id }
    else cluster

/-- The rows of a cluster, which make a group. -/
def hasGroup (rows : List Row) (id : ℕ) : Bool :=
  rows.any fun row => row.cluster = some id

inductive TgOp where
  | insert
  | delete
  | update
  deriving DecidableEq, Repr

/-- `func_file_info_cluster_usage`. -/
def clusterUsage (tgOp : TgOp) (oldRows newRows : List Row) (clusters : List Cluster) :
    List Cluster :=
  match tgOp with
  | .insert => addTotals (hasGroup newRows) (totalSize newRows) (totalCount newRows) clusters
  | .delete =>
    addTotals (hasGroup oldRows) (fun id => -totalSize oldRows id)
      (fun id => -totalCount oldRows id) clusters
  | .update =>
    if oldRows.any fun o => newRows.any fun n =>
        o.record = n.record && (o.size ≠ n.size || o.cluster ≠ n.cluster) then
      let sizeDelta id := -totalSize oldRows id + totalSize newRows id
      let countDelta id := -totalCount oldRows id + totalCount newRows id
      addTotals (fun id => hasGroup (oldRows ++ newRows) id && (sizeDelta id ≠ 0 || countDelta id ≠
        0)) sizeDelta countDelta
        clusters
    else clusters

/-! ## Statements -/

/-- What an `UPDATE` sets of a row, if its condition takes the row. -/
abbrev Assignment := Row → Option (ℤ × Option ℕ)

def Assignment.apply (set : Assignment) (row : Row) : Row :=
  match set row with
  | some (size, cluster) => { row with size, cluster }
  | none => row

inductive Statement where
  | insert (rows : List Row)
  | update (set : Assignment)
  /-- `INSERT ... ON CONFLICT (record_id) DO UPDATE`; the assignment reads the row and the one that
  was excluded -/
  | upsert (rows : List Row) (set : Row → Assignment)
  | delete (condition : Row → Bool)

/-- Rows are added, and the trigger for inserts runs. -/
def insertRows (rows : List Row) (tables : Tables) : Tables :=
  ⟨tables.fileInfo ++ rows, clusterUsage .insert [] rows tables.fileClusters⟩

/-- Rows are changed, and the trigger for updates runs. -/
def updateRows (set : Assignment) (tables : Tables) : Tables :=
  let oldRows := tables.fileInfo.filter fun row => (set row).isSome
  ⟨tables.fileInfo.map set.apply,
    clusterUsage .update oldRows (oldRows.map set.apply) tables.fileClusters⟩

def deleteRows (condition : Row → Bool) (tables : Tables) : Tables :=
  ⟨tables.fileInfo.filter fun row => !condition row,
    clusterUsage .delete (tables.fileInfo.filter condition) [] tables.fileClusters⟩

/-- The assignment of an `INSERT ... ON CONFLICT`: a row is changed by the proposed row with its
key. -/
def onConflict (rows : List Row) (set : Row → Assignment) : Assignment := fun row =>
  (rows.find? fun proposed => proposed.record = row.record).bind fun excluded => set excluded row

/-- The proposed rows without a conflict. -/
def newcomers (rows fileInfo : List Row) : List Row :=
  rows.filter fun proposed => fileInfo.all fun row => row.record ≠ proposed.record

def Statement.effect : Statement → Tables → Tables
  | insert rows, tables => insertRows rows tables
  | update set, tables => updateRows set tables
  | upsert rows set, tables =>
    -- the trigger for updates runs before the one for inserts
    insertRows (newcomers rows tables.fileInfo) (updateRows (onConflict rows set) tables)
  | delete condition, tables => deleteRows condition tables

/-- The keys of the rows that a statement proposes; no two of them may be equal. -/
def Statement.keys : Statement → List ℕ
  | insert rows | upsert rows _ => rows.map Row.record
  | update _ | delete _ => []

/-- The constraints of the tables, and the ranges of their columns. -/
def Tables.valid (tables : Tables) : Bool :=
  (tables.fileInfo.map Row.record).Nodup &&
    tables.fileInfo.all (fun row => row.cluster.all fun id => tables.fileClusters.any fun cluster =>
    cluster.id = id) &&
    tables.fileInfo.all (fun row => -(2 ^ 63) ≤ row.size && row.size < 2 ^ 63) &&
    tables.fileClusters.all fun cluster => -(2 ^ 63) ≤ cluster.sizeUsed && cluster.sizeUsed <
      2 ^ 63 &&
      -(2 ^ 31) ≤ cluster.fileCount && cluster.fileCount < 2 ^ 31

/-- A statement that fails leaves the tables as they were. -/
def Statement.exec (tables : Tables) (statement : Statement) : Tables :=
  if statement.keys.Nodup ∧ (statement.effect tables).valid then statement.effect tables else tables

/-! ## What the trigger adds -/

variable {f : Row → ℤ} {rows : List Row} {id : ℕ}

theorem total_cons (row : Row) :
    total f (row :: rows) id = (if row.cluster = some id then f row else 0) + total f rows id := by
  unfold total
  rw [List.filter_cons]
  split_ifs <;> simp_all

theorem total_append (others : List Row) :
    total f (rows ++ others) id = total f rows id + total f others id := by
  simp [total]

theorem total_of_not_hasGroup (h : hasGroup rows id = false) : total f rows id = 0 := by
  have hnone : rows.filter (fun row => row.cluster = some id) = [] := by
    simpa [hasGroup, List.filter_eq_nil_iff] using h
  rw [total, hnone]
  rfl

/-- The rows that an update takes lose what they had and get what is set. -/
theorem total_update (set : Assignment) : total f (rows.map set.apply) id =
    total f rows id + (-total f (rows.filter fun row => (set row).isSome) id +
      total f ((rows.filter fun row => (set row).isSome).map set.apply) id) := by
  induction rows with
  | nil => rfl
  | cons row rows ih =>
    cases hset : set row with
    | none =>
      have hsame : set.apply row = row := by simp [Assignment.apply, hset]
      simp only [List.map_cons, List.filter_cons, hset, Option.isSome_none, Bool.false_eq_true,
        if_false, total_cons, hsame, ih]
      ring
    | some values =>
      simp only [List.map_cons, List.filter_cons, hset, Option.isSome_some, if_true, total_cons, ih]
      ring

theorem total_delete (condition : Row → Bool) : total f (rows.filter fun row => !condition row) id =
    total f rows id + -total f (rows.filter condition) id := by
  induction rows with
  | nil => rfl
  | cons row rows ih =>
    cases hcondition : condition row with
    | false =>
      simp only [List.filter_cons, hcondition, Bool.not_false, if_true, Bool.false_eq_true,
        if_false, total_cons, ih]
      ring
    | true =>
      simp only [List.filter_cons, hcondition, Bool.not_true, if_true, Bool.false_eq_true, if_false,
        total_cons, ih]
      ring

variable {size count : ℕ → ℤ} {clusters : List Cluster}

/-- A cluster that is not joined may be counted with the others if there is nothing to add to it. -/
theorem addTotals_of_zero {joined : ℕ → Bool}
    (h : ∀ id, joined id = false → size id = 0 ∧ count id = 0) :
    addTotals joined size count clusters = addTotals (fun _ => true) size count clusters := by
  refine List.map_congr_left fun cluster _ => ?_
  cases hjoined : joined cluster.id with
  | true => rfl
  | false =>
    obtain ⟨hsize, hcount⟩ := h cluster.id hjoined
    simp [hsize, hcount]

theorem clusterUsage_insert : clusterUsage .insert [] rows clusters =
    addTotals (fun _ => true) (totalSize rows) (totalCount rows) clusters :=
  addTotals_of_zero fun _ h => ⟨total_of_not_hasGroup h, total_of_not_hasGroup h⟩

theorem clusterUsage_delete : clusterUsage .delete rows [] clusters =
    addTotals (fun _ => true) (fun id => -totalSize rows id) (fun id => -totalCount rows id)
      clusters :=
  @addTotals_of_zero _ _ _ (hasGroup rows) fun _ h =>
    ⟨neg_eq_zero.2 (total_of_not_hasGroup h), neg_eq_zero.2 (total_of_not_hasGroup h)⟩

/-- The early return is taken only if there is nothing to add: a row and what becomes of it have one
key. -/
theorem clusterUsage_update (set : Assignment) :
    clusterUsage .update rows (rows.map set.apply) clusters =
    addTotals (fun _ => true) (fun id => -totalSize rows id + totalSize (rows.map set.apply) id)
      (fun id => -totalCount rows id + totalCount (rows.map set.apply) id) clusters := by
  unfold clusterUsage
  simp only
  split
  · refine addTotals_of_zero fun id h => ?_
    rw [Bool.and_eq_false_iff] at h
    rcases h with hgroup | hzero
    · simp only [hasGroup, List.any_append, Bool.or_eq_false_iff] at hgroup
      simp [totalSize, totalCount, total_of_not_hasGroup hgroup.1, total_of_not_hasGroup hgroup.2]
    · simpa using hzero
  next hearly =>
    have hsame : rows.map set.apply = rows := by
      refine (List.map_congr_left fun row hrow => ?_).trans (List.map_id rows)
      have hkey : (set.apply row).record = row.record := by
        unfold Assignment.apply
        split <;> rfl
      simp only [List.any_eq_true, not_exists, not_and] at hearly
      have hequal := hearly row hrow _ (List.mem_map_of_mem hrow)
      simp only [hkey, decide_true, Bool.true_and, Bool.or_eq_true, decide_eq_true_eq, not_or,
        not_not, ne_eq] at hequal
      exact Row.ext hkey hequal.1.symm hequal.2.symm
    simp [hsame, addTotals]

/-! ## Runs -/

/-- The totals are those of the rows. -/
def Exact (tables : Tables) : Prop :=
  ∀ cluster ∈ tables.fileClusters, cluster.sizeUsed = totalSize tables.fileInfo cluster.id ∧
    cluster.fileCount = totalCount tables.fileInfo cluster.id

theorem Exact.addTotals {others : List Row} (h : Exact ⟨rows, clusters⟩)
    (hsize : ∀ id, totalSize others id = totalSize rows id + size id)
    (hcount : ∀ id, totalCount others id = totalCount rows id + count id) :
    Exact ⟨others, addTotals (fun _ => true) size count clusters⟩ := by
  intro cluster hmem
  obtain ⟨before, hbefore, rfl⟩ := List.mem_map.1 hmem
  obtain ⟨hused, hnumber⟩ := h before hbefore
  exact ⟨by simp [hused, hsize], by simp [hnumber, hcount]⟩

variable {tables : Tables}

theorem Exact.insertRows (h : Exact tables) (rows : List Row) : Exact (insertRows rows tables) := by
  rw [Usage.insertRows, clusterUsage_insert]
  exact h.addTotals (fun _ => total_append rows) fun _ => total_append rows

theorem Exact.updateRows (h : Exact tables) (set : Assignment) : Exact (updateRows set tables) := by
  rw [Usage.updateRows]
  simp only [clusterUsage_update]
  exact h.addTotals (fun _ => total_update set) fun _ => total_update set

theorem Exact.deleteRows (h : Exact tables) (condition : Row → Bool) :
    Exact (deleteRows condition tables) := by
  rw [Usage.deleteRows, clusterUsage_delete]
  exact h.addTotals (fun _ => total_delete condition) fun _ => total_delete condition

/-- A statement keeps the totals exact. -/
theorem Exact.exec (h : Exact tables) (statement : Statement) : Exact (statement.exec tables) := by
  unfold Statement.exec
  split
  · cases statement with
    | insert rows => exact h.insertRows rows
    | update set => exact h.updateRows set
    | upsert rows set => exact (h.updateRows _).insertRows _
    | delete condition => exact h.deleteRows condition
  · exact h

/-- The tables before the first file, with the clusters' defaults. -/
def fresh (ids : List ℕ) : Tables :=
  ⟨[], ids.map fun id => ⟨id, 0, 0⟩⟩

/-- **After any sequence of statements the totals of every cluster are those of the rows that are
assigned to it.** -/
theorem usage_exact (ids : List ℕ) (statements : List Statement) :
    Exact (statements.foldl Statement.exec (fresh ids)) := by
  have hfresh : Exact (fresh ids) := by
    intro cluster hmem
    obtain ⟨id, -, rfl⟩ := List.mem_map.1 hmem
    exact ⟨rfl, rfl⟩
  generalize fresh ids = tables at hfresh
  induction statements generalizing tables with
  | nil => exact hfresh
  | cons statement statements ih => exact ih _ (hfresh.exec statement)

-- The early return compares rows with one key: a row that changes its key and its cluster at once
-- would be missed.
example : clusterUsage .update [⟨1, 5, some 1⟩] [⟨2, 5, some 2⟩]
    [⟨1, 5, 1⟩, ⟨2, 0, 0⟩] = [⟨1, 5, 1⟩, ⟨2, 0, 0⟩] := by
  decide

end Usage
end Idhan.Files
