import Mathlib.Logic.Function.Basic
import Idhan.Lib.Digraph

/-!
# Two transactions under `READ COMMITTED`

A table with a key and two transactions on it, `false` and `true`.  A transaction works on the
committed rows with its own row versions in their place (`Store.view`); a statement turns that view
into a new table, and the versions of it that are not committed are the writes of the transaction.
A row version that the other transaction has written is locked, and a statement that would write it
does not run until the other transaction has committed.

The rows are the edges of a graph.  `Store.Graph` has the edges of all row versions, so it is the
graph of the table once both transactions have committed.  For a statement that reads a view,
inserts at most one edge and keeps all others (`Contract`), the graph of a store changes by that
edge only (`graph_write`), and not at all with a commit (`graph_commit`).

* `Clear`: no path that the new edge would close runs through a row of the other transaction.
* `acyclic_write_iff`: if a statement refuses an edge that closes a path without such rows, then it
  keeps the graph acyclic exactly when it is clear.
-/

namespace Idhan

open Relation List

variable {ρ κ ι α : Type}

/-- A transaction: the row versions it has written, the keys of the rows it has inserted, and
whether it has committed. -/
structure Tx (ρ κ : Type) where
  writes : List ρ
  inserted : List κ
  committed : Bool

/-- The committed rows, and the two transactions. -/
structure Store (ρ κ : Type) where
  rows : List ρ
  tx : Bool → Tx ρ κ

namespace Store

/-- Both transactions are about to begin. -/
def start (rows : List ρ) : Store ρ κ :=
  ⟨rows, fun _ => ⟨[], [], false⟩⟩

/-- All row versions. -/
def versions (s : Store ρ κ) : List ρ :=
  s.rows ++ (s.tx false).writes ++ (s.tx true).writes

theorem mem_versions {s : Store ρ κ} {r : ρ} (i : Bool) :
    r ∈ s.versions ↔ r ∈ s.rows ∨ r ∈ (s.tx i).writes ∨ r ∈ (s.tx !i).writes := by
  cases i <;> simp only [versions, mem_append, Bool.not_false, Bool.not_true] <;> tauto

variable [DecidableEq κ] (key : ρ → κ)

/-- The rows that a transaction sees. -/
def view (s : Store ρ κ) (i : Bool) : List ρ :=
  (s.rows.filter fun r => key r ∉ (s.tx i).writes.map key) ++ (s.tx i).writes

/-- The versions of a table that are not committed. -/
def written [DecidableEq ρ] (s : Store ρ κ) (table : List ρ) : List ρ :=
  table.filter fun r => r ∉ s.rows

/-- A statement of a transaction has turned its view into `table`. -/
def write [DecidableEq ρ] (s : Store ρ κ) (i : Bool) (table : List ρ) : Store ρ κ :=
  { s with
    tx := Function.update s.tx i
      ⟨s.written table,
        (s.tx i).inserted ++ ((s.written table).map key).filter fun k => k ∉ s.rows.map key,
        false⟩ }

/-- The statement writes no row that the other transaction has locked. -/
def Unlocked [DecidableEq ρ] (s : Store ρ κ) (i : Bool) (table : List ρ) : Prop :=
  ∀ r ∈ s.written table, key r ∉ (s.tx !i).writes.map key

/-- A transaction commits. -/
def commit (s : Store ρ κ) (i : Bool) : Store ρ κ :=
  ⟨s.view key i, Function.update s.tx i ⟨[], (s.tx i).inserted, true⟩⟩

end Store

variable [DecidableEq κ] {key : ρ → κ} {table : List ρ} {free : Prop} {edge : ρ → α → α → Prop}
  {b a : α}

/-- The states that two transactions reach from the rows `rows`, with every interleaving of their
statements and commits, when each statement meets a condition on the state before it. -/
inductive Interleaving [DecidableEq ρ] (key : ρ → κ) (statement : ι → List ρ → List ρ → Prop)
    (meets : Store ρ κ → Bool → ι → Prop) (rows : List ρ) : Store ρ κ → Prop where
  | start : Interleaving key statement meets rows (Store.start rows)
  | write {s : Store ρ κ} (i : Bool) (x : ι) (table : List ρ) :
      Interleaving key statement meets rows s → (s.tx i).committed = false →
      statement x (s.view key i) table → s.Unlocked key i table → meets s i x →
      Interleaving key statement meets rows (s.write key i table)
  | commit {s : Store ρ κ} (i : Bool) : Interleaving key statement meets rows s →
      (s.tx i).committed = false → Interleaving key statement meets rows (s.commit key i)

theorem Interleaving.mono [DecidableEq ρ] {statement : ι → List ρ → List ρ → Prop}
    {meets meets' : Store ρ κ → Bool → ι → Prop} {rows : List ρ} {s : Store ρ κ}
    (hmono : ∀ s i x, meets s i x → meets' s i x) (h : Interleaving key statement meets rows s) :
    Interleaving key statement meets' rows s := by
  induction h with
  | start => exact .start
  | write i x table _ hactive hx hl hmeets ih =>
    exact .write i x table ih hactive hx hl (hmono _ i x hmeets)
  | commit i _ hactive ih => exact .commit i ih hactive

/-! ## The graph of the rows -/

/-- The edges of all row versions. -/
def Store.Graph (edge : ρ → α → α → Prop) (s : Store ρ κ) (x y : α) : Prop :=
  EdgeOf edge s.versions x y

/-- The edges of the rows that the other transaction has not inserted. -/
def Store.Without (key : ρ → κ) (edge : ρ → α → α → Prop) (s : Store ρ κ) (i : Bool) (x y : α) :
    Prop :=
  ∃ r ∈ s.versions, edge r x y ∧ key r ∉ (s.tx !i).inserted

/-- The edges of the rows that a transaction has inserted. -/
def Store.Inserted (key : ρ → κ) (edge : ρ → α → α → Prop) (s : Store ρ κ) (i : Bool) (x y : α) :
    Prop :=
  ∃ r ∈ s.versions, edge r x y ∧ key r ∈ (s.tx i).inserted

/-- No path from `b` to `a` runs through a row that the other transaction has inserted. -/
def Clear (key : ρ → κ) (edge : ρ → α → α → Prop) (s : Store ρ κ) (i : Bool) (a b : α) : Prop :=
  ∀ x y, ReflTransGen (s.Graph edge) b x → s.Inserted key edge (!i) x y →
    ¬ ReflTransGen (s.Graph edge) y a

/-- What a statement that may insert the edge from `a` to `b` does to the rows it sees: the rows
stay, in versions with the same edges, and there is a new row exactly if there was no row to
conflict with. -/
structure Contract (key : ρ → κ) (edge : ρ → α → α → Prop) (a b : α) (free : Prop)
    (table table' : List ρ) : Prop where
  unique : KeyUnique key table → KeyUnique key table'
  old : ∀ r ∈ table, ∃ r' ∈ table', key r' = key r ∧ edge r' = edge r
  mem : ∀ r' ∈ table', (∃ r ∈ table, key r = key r' ∧ edge r = edge r') ∨
    (free ∧ key r' ∉ table.map key ∧ edge r' = fun x y => x = a ∧ y = b)
  inserted : free → ∃ r' ∈ table', key r' ∉ table.map key ∧ edge r' = fun x y => x = a ∧ y = b

omit [DecidableEq κ] in
/-- A statement that meets a conflict and does nothing. -/
theorem Contract.unchanged (hfree : ¬ free) : Contract key edge a b free table table where
  unique := id
  old := fun r hr => ⟨r, hr, rfl, rfl⟩
  mem := fun r hr => Or.inl ⟨r, hr, rfl, rfl⟩
  inserted := fun h => absurd h hfree

omit [DecidableEq κ] in
/-- A statement that inserts a row and changes no other. -/
theorem Contract.append_singleton {new : ρ} (hfree : free) (hkey : key new ∉ table.map key)
    (hedge : edge new = fun x y => x = a ∧ y = b) :
    Contract key edge a b free table (table ++ [new]) where
  unique := fun hu => hu.append_singleton hkey
  old := fun r hr => ⟨r, mem_append_left _ hr, rfl, rfl⟩
  mem := fun r hr => by
    rcases mem_append.1 hr with hr | hr
    · exact Or.inl ⟨r, hr, rfl, rfl⟩
    · rw [mem_singleton.1 hr]
      exact Or.inr ⟨hfree, hkey, hedge⟩
  inserted := fun _ => ⟨new, mem_append_right _ (mem_singleton_self _), hkey, hedge⟩

/-- What holds of every state of two transactions that began with the rows `start`: keys are unique
and lead to one edge, the two transactions have written different rows, a key that a transaction has
written and that is not committed is one that it has inserted, and no row of `start` is inserted. -/
structure Store.Sound (key : ρ → κ) (edge : ρ → α → α → Prop) (start : List ρ) (s : Store ρ κ) :
    Prop where
  rows : KeyUnique key s.rows
  writes : ∀ i, KeyUnique key (s.tx i).writes
  apart : ∀ i, ∀ k ∈ (s.tx i).writes.map key, k ∉ (s.tx !i).writes.map key
  edges : ∀ r ∈ s.versions, ∀ r' ∈ s.versions, key r = key r' → edge r = edge r'
  fresh : ∀ i, ∀ r ∈ (s.tx i).writes, key r ∉ s.rows.map key → key r ∈ (s.tx i).inserted
  done : ∀ i, (s.tx i).committed = true → (s.tx i).writes = []
  known : ∀ i, ∀ k ∈ (s.tx i).inserted, k ∈ s.versions.map key
  base : ∀ i, ∀ k ∈ (s.tx i).inserted, k ∉ start.map key
  kept : ∀ k ∈ start.map key, k ∈ s.rows.map key
  unchanged : (∀ i, (s.tx i).committed = false) → s.rows = start

omit [DecidableEq κ] in
/-- A property of both transactions, when one of them has changed. -/
theorem forall_update_tx {tx : Bool → Tx ρ κ} {i : Bool} {t : Tx ρ κ} (P : Tx ρ κ → Prop)
    (hi : P t) (hother : P (tx !i)) : ∀ j, P (Function.update tx i t j) := by
  intro j
  by_cases hj : j = i
  · subst hj
    simpa using hi
  · obtain rfl := Bool.eq_not.2 hj
    simpa using hother

namespace Store

variable {key : ρ → κ} {edge : ρ → α → α → Prop} {start : List ρ} {s : Store ρ κ} {i : Bool} {r : ρ}
  {table : List ρ} {free : Prop} {a b x y : α}

theorem mem_view :
    r ∈ s.view key i ↔ (r ∈ s.rows ∧ key r ∉ (s.tx i).writes.map key) ∨ r ∈ (s.tx i).writes := by
  simp only [view, mem_append, mem_filter, decide_eq_true_eq]

theorem versions_of_mem_view (h : r ∈ s.view key i) : r ∈ s.versions := by
  rw [mem_versions i]
  rcases mem_view.1 h with h | h
  · exact Or.inl h.1
  · exact Or.inr (Or.inl h)

/-- Committed keys stay. -/
theorem mem_map_key_view {k : κ} (h : k ∈ s.rows.map key) : k ∈ (s.view key i).map key := by
  obtain ⟨r, hr, rfl⟩ := mem_map.1 h
  by_cases hk : key r ∈ (s.tx i).writes.map key
  · obtain ⟨r', hr', hk'⟩ := mem_map.1 hk
    exact mem_map.2 ⟨r', mem_view.2 (Or.inr hr'), hk'⟩
  · exact mem_map_of_mem (mem_view.2 (Or.inl ⟨hr, hk⟩))

/-- Every key is seen, or written by the other transaction. -/
theorem key_of_mem_versions (key : ρ → κ) (i : Bool) (h : r ∈ s.versions) :
    key r ∈ (s.view key i).map key ∨ key r ∈ (s.tx !i).writes.map key := by
  rcases (mem_versions i).1 h with h | h | h
  · exact Or.inl (mem_map_key_view (mem_map_of_mem h))
  · exact Or.inl (mem_map_of_mem (mem_view.2 (Or.inr h)))
  · exact Or.inr (mem_map_of_mem h)

theorem Sound.keyUnique_view (h : s.Sound key edge start) (i : Bool) :
    KeyUnique key (s.view key i) := by
  rw [KeyUnique, view, map_append, nodup_append]
  refine ⟨h.rows.filter _, h.writes i, fun k hk k' hk' => ?_⟩
  rintro rfl
  obtain ⟨r, hr, rfl⟩ := mem_map.1 hk
  exact of_decide_eq_true (mem_filter.1 hr).2 hk'

omit [DecidableEq κ] in
theorem sound_start {rows : List ρ} (hu : KeyUnique key rows) :
    (Store.start rows : Store ρ κ).Sound key edge rows where
  rows := hu
  writes := fun _ => nodup_nil
  apart := fun _ _ hk => (not_mem_nil hk).elim
  edges := fun r hr r' hr' hk => by
    simp only [versions, Store.start, append_nil] at hr hr'
    rw [hu.eq_of_key_eq hr hr' hk]
  fresh := fun _ _ hr => (not_mem_nil hr).elim
  done := fun _ _ => rfl
  known := fun _ _ hk => (not_mem_nil hk).elim
  base := fun _ _ hk => (not_mem_nil hk).elim
  kept := fun _ hk => hk
  unchanged := fun _ => rfl

theorem mem_versions_write [DecidableEq ρ] :
    r ∈ (s.write key i table).versions ↔
      r ∈ s.rows ∨ r ∈ s.written table ∨ r ∈ (s.tx !i).writes := by
  rw [mem_versions i]
  simp [write]

/-- A version of the new table is written, or is a committed row. -/
theorem mem_versions_write_of_mem [DecidableEq ρ] (h : r ∈ table) :
    r ∈ (s.write key i table).versions := by
  by_cases hmem : r ∈ s.rows
  · exact mem_versions_write.2 (Or.inl hmem)
  · exact mem_versions_write.2 (Or.inr (Or.inl (mem_filter.2 ⟨h, decide_eq_true hmem⟩)))

section

variable [DecidableEq ρ] (hc : Contract key edge a b free (s.view key i) table)
include hc

/-- A statement keeps the rows, in versions with the same edge. -/
theorem exists_mem_versions_write (h : r ∈ s.versions) :
    ∃ r' ∈ (s.write key i table).versions, key r' = key r ∧ edge r' = edge r := by
  rcases (mem_versions i).1 h with h | h | h
  · exact ⟨r, mem_versions_write.2 (Or.inl h), rfl, rfl⟩
  · obtain ⟨r', hr', hkept⟩ := hc.old r (mem_view.2 (Or.inr h))
    exact ⟨r', mem_versions_write_of_mem hr', hkept⟩
  · exact ⟨r, mem_versions_write.2 (Or.inr (Or.inr h)), rfl, rfl⟩

/-- A version after a statement has the key and the edge of one before, or it is the new row. -/
theorem mem_versions_write_cases (hr : r ∈ (s.write key i table).versions) :
    (∃ q ∈ s.versions, key q = key r ∧ edge q = edge r) ∨
      (free ∧ r ∈ s.written table ∧ key r ∉ (s.view key i).map key ∧ edge r = fun x y => x = a ∧
        y = b) := by
  rcases mem_versions_write.1 hr with h | h | h
  · exact Or.inl ⟨r, (mem_versions i).2 (Or.inl h), rfl, rfl⟩
  · rcases hc.mem r (mem_of_mem_filter h) with ⟨q, hq, hkept⟩ | ⟨hfree, hnew⟩
    · exact Or.inl ⟨q, versions_of_mem_view hq, hkept⟩
    · exact Or.inr ⟨hfree, h, hnew⟩
  · exact Or.inl ⟨r, (mem_versions i).2 (Or.inr (Or.inr h)), rfl, rfl⟩

/-- **The graph after a statement**: the edges of the new table are added. -/
theorem graph_write (x y : α) : (s.write key i table).Graph edge x y ↔
    s.Graph edge x y ∨ (free ∧ x = a ∧ y = b) := by
  constructor
  · rintro ⟨r, hr, hxy⟩
    rcases mem_versions_write_cases hc hr with ⟨q, hq, _, he⟩ | ⟨hfree, _, _, he⟩
    · exact Or.inl ⟨q, hq, he ▸ hxy⟩
    · rw [he] at hxy
      exact Or.inr ⟨hfree, hxy⟩
  · rintro (⟨r, hr, hxy⟩ | ⟨hfree, rfl, rfl⟩)
    · obtain ⟨r', hr', _, he⟩ := exists_mem_versions_write hc hr
      exact ⟨r', hr', he ▸ hxy⟩
    · obtain ⟨r', hr', _, he⟩ := hc.inserted hfree
      exact ⟨r', mem_versions_write_of_mem hr', he ▸ ⟨rfl, rfl⟩⟩

end

theorem sound_write [DecidableEq ρ] (hs : s.Sound key edge start)
    (hactive : (s.tx i).committed = false)
    (hc : Contract key edge a b free (s.view key i) table) (hl : s.Unlocked key i table) :
    (s.write key i table).Sound key edge start where
  rows := hs.rows
  writes := by
    refine forall_update_tx (fun t => KeyUnique key t.writes) ?_ (hs.writes _)
    exact (hc.unique (hs.keyUnique_view i)).filter _
  apart := by
    have hnew : ∀ k ∈ (s.written table).map key, k ∉ (s.tx !i).writes.map key := fun k hk => by
      obtain ⟨r, hr, rfl⟩ := mem_map.1 hk
      exact hl r hr
    intro j
    by_cases hj : j = i
    · subst hj
      simpa [write] using hnew
    · obtain rfl := Bool.eq_not.2 hj
      simpa [write] using fun k hk hk' => hnew k hk' hk
  edges := by
    -- the new row has a key of its own
    have hnew : ∀ r ∈ s.written table, key r ∉ (s.view key i).map key → ∀ q ∈ s.versions,
        key q ≠ key r :=
      fun r hr hfresh q hq hk => (key_of_mem_versions key i hq).elim (hk ▸ hfresh) (hk ▸ hl r hr)
    intro r hr r' hr' hk
    rcases mem_versions_write_cases hc hr with ⟨q, hq, hqk, hqe⟩ | ⟨_, hw, hfresh, he⟩
    · rcases mem_versions_write_cases hc hr' with ⟨q', hq', hqk', hqe'⟩ | ⟨_, hw', hfresh', _⟩
      · rw [← hqe, ← hqe']
        exact hs.edges q hq q' hq' (hqk.trans (hk.trans hqk'.symm))
      · exact (hnew r' hw' hfresh' q hq (hqk.trans hk)).elim
    · rcases mem_versions_write_cases hc hr' with ⟨q', hq', hqk', _⟩ | ⟨_, _, _, he'⟩
      · exact (hnew r hw hfresh q' hq' (hqk'.trans hk.symm)).elim
      · rw [he, he']
  fresh := by
    refine forall_update_tx (fun t => ∀ r ∈ t.writes, key r ∉ s.rows.map key → key r ∈ t.inserted)
      (fun r hr hk => ?_) (hs.fresh _)
    exact mem_append_right _
      (mem_filter.2 ⟨mem_map_of_mem hr, decide_eq_true hk⟩)
  done := by
    refine forall_update_tx (fun t => t.committed = true → t.writes = []) (fun h => ?_) (hs.done _)
    exact absurd h Bool.false_ne_true
  known := by
    have hold : ∀ k ∈ s.versions.map key, k ∈ (s.write key i table).versions.map key :=
      fun k hk => by
        obtain ⟨r, hr, rfl⟩ := mem_map.1 hk
        obtain ⟨r', hr', hk', _⟩ := exists_mem_versions_write hc hr
        exact mem_map.2 ⟨r', hr', hk'⟩
    refine forall_update_tx (fun t => ∀ k ∈ t.inserted, k ∈ (s.write key i table).versions.map key)
      (fun k hk => ?_) (fun k hk => hold k (hs.known _ k hk))
    rcases mem_append.1 hk with hk | hk
    · exact hold k (hs.known i k hk)
    · obtain ⟨r, hr, rfl⟩ := mem_map.1 (mem_of_mem_filter hk)
      exact mem_map_of_mem (mem_versions_write.2 (Or.inr (Or.inl hr)))
  base := by
    refine forall_update_tx (fun t => ∀ k ∈ t.inserted, k ∉ start.map key) (fun k hk => ?_)
      (hs.base _)
    rcases mem_append.1 hk with hk | hk
    · exact hs.base i k hk
    · exact fun hstart => of_decide_eq_true (mem_filter.1 hk).2 (hs.kept k hstart)
  kept := hs.kept
  unchanged := fun h => hs.unchanged fun j => by
    by_cases hj : j = i
    · exact hj ▸ hactive
    · simpa [write, hj] using h j

theorem mem_versions_commit :
    r ∈ (s.commit key i).versions ↔ r ∈ s.view key i ∨ r ∈ (s.tx !i).writes := by
  rw [mem_versions i]
  simp [commit]

theorem versions_of_mem_versions_commit (h : r ∈ (s.commit key i).versions) :
    r ∈ s.versions := by
  rcases mem_versions_commit.1 h with h | h
  · exact versions_of_mem_view h
  · exact (mem_versions i).2 (Or.inr (Or.inr h))

/-- Some version of every row is left. -/
theorem exists_mem_versions_commit (h : r ∈ s.versions) :
    ∃ r' ∈ (s.commit key i).versions, key r' = key r := by
  rcases key_of_mem_versions key i h with h | h
  · obtain ⟨r', hr', hk⟩ := mem_map.1 h
    exact ⟨r', mem_versions_commit.2 (Or.inl hr'), hk⟩
  · obtain ⟨r', hr', hk⟩ := mem_map.1 h
    exact ⟨r', mem_versions_commit.2 (Or.inr hr'), hk⟩

/-- **The graph after a commit** is the same. -/
theorem graph_commit (hs : s.Sound key edge start) (x y : α) :
    (s.commit key i).Graph edge x y ↔ s.Graph edge x y := by
  constructor
  · rintro ⟨r, hr, hxy⟩
    exact ⟨r, versions_of_mem_versions_commit hr, hxy⟩
  · rintro ⟨r, hr, hxy⟩
    obtain ⟨r', hr', hk⟩ := exists_mem_versions_commit hr
    have he := hs.edges r' (versions_of_mem_versions_commit hr') r hr hk
    exact ⟨r', hr', he ▸ hxy⟩

theorem sound_commit (hs : s.Sound key edge start) : (s.commit key i).Sound key edge start where
  rows := hs.keyUnique_view i
  writes := forall_update_tx (fun t => KeyUnique key t.writes) nodup_nil (hs.writes _)
  apart := by
    intro j
    cases i <;> cases j <;> simp [commit]
  edges := fun r hr r' hr' hk =>
    hs.edges r (versions_of_mem_versions_commit hr) r' (versions_of_mem_versions_commit hr') hk
  fresh := by
    refine forall_update_tx
      (fun t => ∀ r ∈ t.writes, key r ∉ (s.view key i).map key → key r ∈ t.inserted)
      (fun r hr => (not_mem_nil hr).elim) (fun r hr hk => ?_)
    exact hs.fresh _ r hr fun h => hk (mem_map_key_view h)
  done := forall_update_tx (fun t => t.committed = true → t.writes = []) (fun _ => rfl) (hs.done _)
  known := by
    have hold : ∀ k ∈ s.versions.map key, k ∈ (s.commit key i).versions.map key := fun k hk => by
      obtain ⟨r, hr, rfl⟩ := mem_map.1 hk
      obtain ⟨r', hr', hk'⟩ := exists_mem_versions_commit hr
      exact mem_map.2 ⟨r', hr', hk'⟩
    exact forall_update_tx (fun t => ∀ k ∈ t.inserted, k ∈ (s.commit key i).versions.map key)
      (fun k hk => hold k (hs.known i k hk)) (fun k hk => hold k (hs.known _ k hk))
  base := forall_update_tx (fun t => ∀ k ∈ t.inserted, k ∉ start.map key) (hs.base i) (hs.base _)
  kept := fun k hk => mem_map_key_view (hs.kept k hk)
  unchanged := fun h => absurd (h i) (by simp [commit])

/-- A transaction sees the edges that the other has not inserted. -/
theorem Sound.edgeOf_view (hs : s.Sound key edge start) (h : s.Without key edge i x y) :
    EdgeOf edge (s.view key i) x y := by
  obtain ⟨r, hr, hxy, hk⟩ := h
  obtain ⟨r', hr', hk'⟩ : ∃ r' ∈ s.view key i, key r' = key r := by
    refine mem_map.1 ?_
    rcases key_of_mem_versions key i hr with h | h
    · exact h
    · obtain ⟨q, hq, hqk⟩ := mem_map.1 h
      by_contra hview
      exact hk (hqk ▸ hs.fresh _ q hq fun hrows => hview (mem_map_key_view (hqk ▸ hrows)))
  exact ⟨r', hr', hs.edges r' (versions_of_mem_view hr') r hr hk' ▸ hxy⟩

/-- The edges that the other has not inserted, after a statement of one's own. -/
theorem without_write [DecidableEq ρ] (hc : Contract key edge a b free (s.view key i) table)
    (h : (s.write key i table).Without key edge i x y) :
    s.Without key edge i x y ∨ (free ∧ x = a ∧ y = b) := by
  obtain ⟨r, hr, hxy, hk⟩ := h
  have hk : key r ∉ (s.tx !i).inserted := by simpa [write] using hk
  rcases mem_versions_write_cases hc hr with ⟨q, hq, hqk, hqe⟩ | ⟨hfree, _, _, he⟩
  · exact Or.inl ⟨q, hq, hqe ▸ hxy, hqk ▸ hk⟩
  · rw [he] at hxy
    exact Or.inr ⟨hfree, hxy⟩

/-- The edges that the other has not inserted, after a statement of the other. -/
theorem without_write_other [DecidableEq ρ] (hc : Contract key edge a b free (s.view key i) table)
    (h : (s.write key i table).Without key edge (!i) x y) : s.Without key edge (!i) x y := by
  obtain ⟨r, hr, hxy, hk⟩ := h
  obtain ⟨hk, hnew⟩ : key r ∉ (s.tx i).inserted ∧
      ¬ (key r ∈ (s.written table).map key ∧ key r ∉ s.rows.map key) := by
    simpa [write, mem_filter] using hk
  rw [← Bool.not_not i] at hk
  rcases mem_versions_write_cases hc hr with ⟨q, hq, hqk, hqe⟩ | ⟨_, hw, hfresh, _⟩
  · exact ⟨q, hq, hqe ▸ hxy, hqk ▸ hk⟩
  · exact (hnew ⟨mem_map_of_mem hw, fun hrows => hfresh (mem_map_key_view hrows)⟩).elim

theorem without_commit {j : Bool} (h : (s.commit key i).Without key edge j x y) :
    s.Without key edge j x y := by
  obtain ⟨r, hr, hxy, hk⟩ := h
  refine ⟨r, versions_of_mem_versions_commit hr, hxy, ?_⟩
  cases i <;> cases j <;> simpa [commit] using hk

/-- A transaction sees the table that its statement has left. -/
theorem Sound.mem_of_mem_view_write [DecidableEq ρ] (hs : s.Sound key edge start)
    (hc : Contract key edge a b free (s.view key i) table)
    (h : r ∈ (s.write key i table).view key i) : r ∈ table := by
  have h : (r ∈ s.rows ∧ key r ∉ (s.written table).map key) ∨ r ∈ s.written table := by
    simpa [write] using mem_view.1 h
  rcases h with ⟨hr, hk⟩ | hr
  · obtain ⟨q, hq, hqk⟩ := mem_map.1 (mem_map_key_view (i := i) (mem_map_of_mem hr))
    obtain ⟨r', hr', hk', _⟩ := hc.old q hq
    -- the version of the row in the table is the committed one
    have hrows : r' ∈ s.rows := by
      by_contra hrows
      refine hk (mem_map.2 ⟨r', ?_, hk'.trans hqk⟩)
      exact mem_filter.2 ⟨hr', decide_eq_true hrows⟩
    rwa [← hs.rows.eq_of_key_eq hrows hr (hk'.trans hqk)]
  · exact mem_of_mem_filter hr

theorem view_write_other [DecidableEq ρ] :
    (s.write key i table).view key (!i) = s.view key (!i) := by
  simp [view, write]

/-- What a transaction sees after the other has committed. -/
theorem mem_view_commit_other (h : r ∈ (s.commit key i).view key (!i)) :
    r ∈ s.view key (!i) ∨
      (r ∈ (s.tx i).writes ∧ key r ∉ (s.tx !i).writes.map key) := by
  have h : (r ∈ s.view key i ∧ key r ∉ (s.tx !i).writes.map key) ∨ r ∈ (s.tx !i).writes := by
    simpa [commit] using mem_view.1 h
  rcases h with ⟨hr, hk⟩ | hr
  · rcases mem_view.1 hr with hr | hr
    · exact Or.inl (mem_view.2 (Or.inl ⟨hr.1, hk⟩))
    · exact Or.inr ⟨hr, hk⟩
  · exact Or.inl (mem_view.2 (Or.inr hr))

omit [DecidableEq κ] in
/-- When both transactions have committed, the rows are all there is. -/
theorem Sound.graph_eq (hs : s.Sound key edge start) (hdone : ∀ i, (s.tx i).committed = true) :
    s.Graph edge = EdgeOf edge s.rows := by
  unfold Graph versions
  rw [hs.done _ (hdone false), hs.done _ (hdone true), append_nil, append_nil]

end Store

/-! ## Cycles -/

section Cycles

variable {key : ρ → κ} {edge : ρ → α → α → Prop} {s : Store ρ κ} {i : Bool} {b a : α}

/-- An edge is inserted by the other transaction, or it is not. -/
theorem Store.without_or_inserted (key : ρ → κ) (i : Bool) {x y : α} (h : s.Graph edge x y) :
    s.Without key edge i x y ∨ s.Inserted key edge (!i) x y := by
  obtain ⟨r, hr, hxy⟩ := h
  by_cases hk : key r ∈ (s.tx !i).inserted
  · exact Or.inr ⟨r, hr, hxy, hk⟩
  · exact Or.inl ⟨r, hr, hxy, hk⟩

/-- If a statement is clear, then a path that its edge would close has no row of the other
transaction. -/
theorem Clear.without {c : α} (hclear : Clear key edge s i a b)
    (hpath : ReflTransGen (s.Graph edge) b c) (hrest : ReflTransGen (s.Graph edge) c a) :
    ReflTransGen (s.Without key edge i) b c := by
  induction hpath with
  | refl => exact ReflTransGen.refl
  | tail hbx hxy ih =>
    rcases Store.without_or_inserted key i hxy with h | h
    · exact (ih (ReflTransGen.head hxy hrest)).tail h
    · exact (hclear _ _ hbx h hrest).elim

/-- **What a statement may do to an acyclic graph.**  If the statement refuses the edges that close
a path without rows of the other transaction, then it keeps the graph acyclic exactly if it is
clear. -/
theorem Store.acyclic_write_iff [DecidableEq ρ] {free : Prop} {table : List ρ}
    (hc : Contract key edge a b free (s.view key i) table) (hacyclic : Acyclic (s.Graph edge))
    (hfree : free) (hcaught : ¬ ReflTransGen (s.Without key edge i) b a) :
    Acyclic ((s.write key i table).Graph edge) ↔ Clear key edge s i a b := by
  have hgraph : (s.write key i table).Graph edge = AddEdge (s.Graph edge) a b := by
    funext x y
    rw [graph_write hc, AddEdge]
    simp [hfree]
  rw [hgraph, acyclic_addEdge_iff hacyclic]
  constructor
  · rintro h x y hbx ⟨r, hr, hxy, _⟩ hya
    exact h (hbx.trans (ReflTransGen.head ⟨r, hr, hxy⟩ hya))
  · exact fun hclear hba => hcaught (hclear.without hba ReflTransGen.refl)

/-- The condition on a statement: if it inserts an edge, then it is clear. -/
def InsertsClear (key : ρ → κ) (edge : ρ → α → α → Prop) (source target : ι → α)
    (free : ι → List ρ → Prop) (s : Store ρ κ) (i : Bool) (x : ι) : Prop :=
  free x (s.view key i) → Clear key edge s i (source x) (target x)

variable {statement : ι → List ρ → List ρ → Prop} {source target : ι → α}
  {free : ι → List ρ → Prop} {rows : List ρ} (hu : KeyUnique key rows)
  (hcontract : ∀ x table table', KeyUnique key table → statement x table table' →
    Contract key edge (source x) (target x) (free x table) table table')
include hu hcontract

theorem Interleaving.sound [DecidableEq ρ] {meets : Store ρ κ → Bool → ι → Prop}
    (h : Interleaving key statement meets rows s) : s.Sound key edge rows := by
  induction h with
  | start => exact Store.sound_start hu
  | write i x table _ hactive hx hl _ ih =>
    exact Store.sound_write ih hactive (hcontract x _ _ (ih.keyUnique_view i) hx) hl
  | commit i _ _ ih => exact Store.sound_commit ih

/-- **The graph of two transactions is acyclic exactly if their statements are clear**, when each
statement refuses the edges that close a path without rows of the other transaction. -/
theorem Interleaving.acyclic_iff [DecidableEq ρ]
    (hcaught : ∀ s, Interleaving key statement (fun _ _ _ => True) rows s → ∀ i x table,
      (s.tx i).committed = false → statement x (s.view key i) table → s.Unlocked key i table →
      free x (s.view key i) → ¬ ReflTransGen (s.Without key edge i) (target x) (source x))
    (hacyclic : Acyclic (EdgeOf edge rows))
    (h : Interleaving key statement (fun _ _ _ => True) rows s) :
    Acyclic (s.Graph edge) ↔
      Interleaving key statement (InsertsClear key edge source target free) rows s := by
  constructor
  · intro hs
    induction h with
    | start => exact .start
    | write i x table h hactive hx hl _ ih =>
      have hc := hcontract x _ _ ((h.sound hu hcontract).keyUnique_view i) hx
      have hbefore := hs.mono fun a b hab => (Store.graph_write hc a b).2 (Or.inl hab)
      refine .write i x table (ih hbefore) hactive hx hl fun hfree => ?_
      exact (Store.acyclic_write_iff hc hbefore hfree (hcaught _ h i x table hactive hx hl hfree)).1
        hs
    | commit i h hactive ih =>
      refine .commit i (ih (hs.mono fun a b hab => ?_)) hactive
      exact (Store.graph_commit (h.sound hu hcontract) a b).2 hab
  · intro hclear
    clear h
    induction hclear with
    | start =>
      refine hacyclic.mono fun a b ⟨r, hr, hab⟩ => ⟨r, ?_, hab⟩
      simpa [Store.versions, Store.start] using hr
    | @write s i x table hclear hactive hx hl hmeets ih =>
      have h := hclear.mono fun _ _ _ _ => trivial
      have hc := hcontract x _ _ ((h.sound hu hcontract).keyUnique_view i) hx
      by_cases hfree : free x (s.view key i)
      · exact (Store.acyclic_write_iff hc ih hfree
          (hcaught _ h i x table hactive hx hl hfree)).2 (hmeets hfree)
      · refine ih.mono fun a b hab => ?_
        exact ((Store.graph_write hc a b).1 hab).resolve_right fun hnew => hfree hnew.1
    | commit i hclear _ ih =>
      have h := hclear.mono fun _ _ _ _ => trivial
      exact ih.mono fun a b hab => (Store.graph_commit (h.sound hu hcontract) a b).1 hab

end Cycles

end Idhan
