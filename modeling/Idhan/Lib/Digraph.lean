import Mathlib.Logic.Relation
import Mathlib.Data.List.Dedup
import Idhan.Lib.Table

/-!
# Directed graphs

A directed graph is a relation, and it is acyclic when no node reaches itself in one step or more.

* `acyclic_addEdge_iff`: an edge keeps a graph acyclic exactly when there is no path back.
* `acyclic_merge_iff`: merging two nodes keeps a graph acyclic exactly when neither reaches the
  other.
* `Acyclic.of_hom`: what maps into an acyclic graph is acyclic, so splitting nodes and removing
  edges keep a graph acyclic.
* `Acyclic.rankIn_lt`: the edges of a finite acyclic graph go up, by a rank of its nodes.
* `mem_reachUpTo`: the rounds of a recursive query find all reachable nodes of a finite graph.
-/

namespace Idhan

open Relation List

variable {α β : Type}

/-- No node reaches itself. -/
def Acyclic (r : α → α → Prop) : Prop :=
  ∀ x, ¬ TransGen r x x

namespace Acyclic

variable {r : α → α → Prop} {s : β → β → Prop}

/-- What maps into an acyclic graph is acyclic. -/
theorem of_hom (h : Acyclic s) (f : α → β) (hf : ∀ x y, r x y → s (f x) (f y)) : Acyclic r :=
  fun x hx => h (f x) (hx.lift f hf)

theorem mono {r' : α → α → Prop} (h : Acyclic r) (hr : ∀ x y, r' x y → r x y) : Acyclic r' :=
  h.of_hom id hr

theorem of_isEmpty (h : ∀ x y, ¬ r x y) : Acyclic r := by
  intro x hx
  obtain ⟨y, hxy, _⟩ := TransGen.head'_iff.1 hx
  exact h x y hxy

end Acyclic

section Rank

variable {r : α → α → Prop}

open Classical in
/-- How many of the nodes reach `x`. -/
noncomputable def rankIn (r : α → α → Prop) (nodes : List α) (x : α) : ℕ :=
  nodes.countP fun y => TransGen r y x

open Classical in
/-- In a finite acyclic graph the edges go up. -/
theorem Acyclic.rankIn_lt (h : Acyclic r) {nodes : List α} {x y : α} (hx : x ∈ nodes)
    (hxy : r x y) : rankIn r nodes x < rankIn r nodes y := by
  refine countP_lt_countP (fun z _ hz => ?_) hx (decide_eq_true (.single hxy)) ?_
  · exact decide_eq_true ((of_decide_eq_true hz).tail hxy)
  · exact fun hxx => h x (of_decide_eq_true hxx)

end Rank

/-- The edges of the rows of a table. -/
def EdgeOf {ρ : Type} (edge : ρ → α → α → Prop) (table : List ρ) (x y : α) : Prop :=
  ∃ r ∈ table, edge r x y

theorem edgeOf_concat {ρ : Type} {E : ρ → α → α → Prop} {table : List ρ} {row : ρ} {x y : α} :
    EdgeOf E (table ++ [row]) x y ↔ EdgeOf E table x y ∨ E row x y := by
  simp [EdgeOf, or_and_right, exists_or]

/-! ## A new edge -/

/-- The graph with the edge from `a` to `b` added. -/
def AddEdge (r : α → α → Prop) (a b : α) (x y : α) : Prop :=
  r x y ∨ (x = a ∧ y = b)

section AddEdge

variable {r : α → α → Prop} {a b : α}

/-- A path that uses the new edge passes from its start to `a` and from `b` to its end. -/
theorem transGen_addEdge {x y : α} (h : TransGen (AddEdge r a b) x y) :
    TransGen r x y ∨ (ReflTransGen r x a ∧ ReflTransGen r b y) := by
  induction h with
  | single h =>
    rcases h with h | ⟨rfl, rfl⟩
    · exact Or.inl (.single h)
    · exact Or.inr ⟨.refl, .refl⟩
  | tail _ h ih =>
    rcases h with h | ⟨rfl, rfl⟩
    · exact ih.imp (·.tail h) fun hp => ⟨hp.1, hp.2.tail h⟩
    · exact Or.inr ⟨ih.elim TransGen.to_reflTransGen And.left, .refl⟩

/-- **A new edge** keeps a graph acyclic exactly when there is no path back. -/
theorem acyclic_addEdge_iff (hr : Acyclic r) :
    Acyclic (AddEdge r a b) ↔ ¬ ReflTransGen r b a := by
  constructor
  · intro h hpath
    have hpath' : ReflTransGen (AddEdge r a b) b a :=
      ReflTransGen.mono (fun _ _ h => Or.inl h) _ _ hpath
    exact h b (TransGen.tail' hpath' (Or.inr ⟨rfl, rfl⟩))
  · intro h x hx
    rcases transGen_addEdge hx with hx | ⟨hxa, hbx⟩
    · exact hr x hx
    · exact h (hbx.trans hxa)

end AddEdge

/-! ## Merging two nodes -/

/-- The graph with the node `a` merged into the node `e`. -/
def Merge [DecidableEq α] (r : α → α → Prop) (a e : α) (x y : α) : Prop :=
  ∃ x' y', r x' y' ∧ (if x' = a then e else x') = x ∧ (if y' = a then e else y') = y

section Merge

variable {r : α → α → Prop} {a e : α} {x y : α}

/-- Neither of two nodes reaches a node of the two. -/
theorem not_transGen_of_apart (hr : Acyclic r) (hae : ¬ TransGen r a e) (hea : ¬ TransGen r e a)
    (hx : x = a ∨ x = e) (hy : y = a ∨ y = e) : ¬ TransGen r x y := by
  rcases hx with rfl | rfl <;> rcases hy with rfl | rfl
  · exact hr _
  · exact hae
  · exact hea
  · exact hr _

variable [DecidableEq α]

/-- Two nodes that the merge makes equal. -/
theorem eq_or_of_merged (h : (if x = a then e else x) = if y = a then e else y) :
    x = y ∨ ((x = a ∨ x = e) ∧ (y = a ∨ y = e)) := by
  split_ifs at h with hx hy hy
  · exact Or.inl (hx.trans hy.symm)
  · exact Or.inr ⟨Or.inl hx, Or.inr h.symm⟩
  · exact Or.inr ⟨Or.inr h, Or.inl hy⟩
  · exact Or.inl h

/-- A path of the merged graph is a path of the graph, or passes from one of the two nodes to the
other once. -/
theorem transGen_merge (hr : Acyclic r) (hae : ¬ TransGen r a e) (hea : ¬ TransGen r e a)
    (h : TransGen (Merge r a e) x y) :
    ∃ x' y', (if x' = a then e else x') = x ∧ (if y' = a then e else y') = y ∧
      (TransGen r x' y' ∨ ∃ u v, (u = a ∨ u = e) ∧ (v = a ∨ v = e) ∧
        TransGen r x' u ∧ TransGen r v y') := by
  have hapart := fun {x y} => not_transGen_of_apart (x := x) (y := y) hr hae hea
  induction h with
  | single h =>
    obtain ⟨x', y', hxy, hx, hy⟩ := h
    exact ⟨x', y', hx, hy, Or.inl (.single hxy)⟩
  | tail _ h ih =>
    obtain ⟨x', y', hx, hy, hpath⟩ := ih
    obtain ⟨w, z, hwz, hw, hz⟩ := h
    refine ⟨x', z, hx, hz, ?_⟩
    rcases eq_or_of_merged (hy.trans hw.symm) with rfl | ⟨hy', hw'⟩
    · rcases hpath with hpath | ⟨u, v, hu, hv, hxu, hvy⟩
      · exact Or.inl (hpath.tail hwz)
      · exact Or.inr ⟨u, v, hu, hv, hxu, hvy.tail hwz⟩
    · rcases hpath with hpath | ⟨u, v, hu, hv, hxu, hvy⟩
      · exact Or.inr ⟨y', w, hy', hw', hpath, .single hwz⟩
      · exact absurd hvy (hapart hv hy')

/-- **Merging two nodes** keeps a graph acyclic exactly when neither reaches the other. -/
theorem acyclic_merge_iff (hr : Acyclic r) :
    Acyclic (Merge r a e) ↔ ¬ TransGen r a e ∧ ¬ TransGen r e a := by
  constructor
  · intro h
    have hlift : ∀ {x y}, TransGen r x y →
        TransGen (Merge r a e) (if x = a then e else x) (if y = a then e else y) :=
      fun hp => hp.lift (fun x => if x = a then e else x) fun x y hxy => ⟨x, y, hxy, rfl, rfl⟩
    have hea : (if e = a then e else e) = e := ite_self e
    refine ⟨fun hp => h e ?_, fun hp => h e ?_⟩
    · have := hlift hp
      rwa [if_pos rfl, hea] at this
    · have := hlift hp
      rwa [if_pos rfl, hea] at this
  · rintro ⟨hae, hea⟩ x hx
    have hapart := fun {x y} => not_transGen_of_apart (x := x) (y := y) hr hae hea
    obtain ⟨x', y', hx', hy', hpath⟩ := transGen_merge hr hae hea hx
    rcases eq_or_of_merged (hx'.trans hy'.symm) with rfl | ⟨hxm, hym⟩
    · rcases hpath with hpath | ⟨u, v, hu, hv, hxu, hvx⟩
      · exact hr _ hpath
      · exact hapart hv hu (hvx.trans hxu)
    · rcases hpath with hpath | ⟨u, v, hu, hv, hxu, _⟩
      · exact hapart hxm hym hpath
      · exact hapart hxm hu hxu

end Merge

/-! ## Recursive queries -/

/-- All nodes that are reached from the nodes of the second list in at most that many rounds: what
`WITH RECURSIVE ... UNION` computes. -/
def reachUpTo [DecidableEq α] (next : α → List α) : ℕ → List α → List α
  | 0, seen => seen
  | n + 1, seen => reachUpTo next n (seen ++ seen.flatMap next).dedup

section Reach

variable [DecidableEq α] {next : α → List α} {seen : List α} {y : α} {n : ℕ}

theorem mem_round :
    y ∈ (seen ++ seen.flatMap next).dedup ↔ y ∈ seen ∨ ∃ x ∈ seen, y ∈ next x := by
  rw [mem_dedup, mem_append, mem_flatMap]

/-- Every node that the rounds find is reachable. -/
theorem reflTransGen_of_mem_reachUpTo (h : y ∈ reachUpTo next n seen) :
    ∃ x ∈ seen, ReflTransGen (fun x y => y ∈ next x) x y := by
  induction n generalizing seen with
  | zero => exact ⟨y, h, .refl⟩
  | succ n ih =>
    obtain ⟨x, hx, hpath⟩ := ih h
    rcases mem_round.1 hx with hx | ⟨w, hw, hwx⟩
    · exact ⟨x, hx, hpath⟩
    · exact ⟨w, hw, hpath.head hwx⟩

theorem subset_reachUpTo {x : α} (h : x ∈ seen) :
    x ∈ reachUpTo next n seen := by
  induction n generalizing seen with
  | zero => exact h
  | succ n ih => exact ih (mem_round.2 (Or.inl h))

/-- Nothing is found from a list that is closed. -/
theorem mem_of_mem_reachUpTo (hclosed : ∀ x ∈ seen, ∀ y ∈ next x, y ∈ seen)
    (h : y ∈ reachUpTo next n seen) : y ∈ seen := by
  obtain ⟨x, hx, hpath⟩ := reflTransGen_of_mem_reachUpTo h
  clear h
  induction hpath with
  | refl => exact hx
  | tail _ hy ih => exact hclosed _ ih _ hy

/-- The rounds end in a list that is closed, when they are as many as there are targets still to be
found. -/
theorem reachUpTo_closed {targets : List α} (htargets : ∀ x y, y ∈ next x → y ∈ targets)
    (hn : targets.countP (· ∉ seen) ≤ n) {x : α}
    (hx : x ∈ reachUpTo next n seen) (hy : y ∈ next x) : y ∈ reachUpTo next n seen := by
  induction n generalizing seen with
  | zero =>
    have hall := countP_eq_zero.1 (Nat.le_zero.1 hn) y (htargets x y hy)
    by_contra hnot
    exact hall (decide_eq_true hnot)
  | succ n ih =>
    by_cases hclosed : ∀ x ∈ seen, ∀ y ∈ next x, y ∈ seen
    · exact subset_reachUpTo (hclosed x (mem_of_mem_reachUpTo hclosed hx) y hy)
    · refine ih ?_ hx
      push Not at hclosed
      obtain ⟨w, hw, z, hz, hznot⟩ := hclosed
      refine Nat.lt_succ_iff.1 (lt_of_lt_of_le ?_ hn)
      refine countP_lt_countP (fun t _ ht => ?_) (htargets w z hz) (decide_eq_true hznot) ?_
      · exact decide_eq_true fun hmem => of_decide_eq_true ht (mem_round.2 (Or.inl hmem))
      · exact fun hnot => of_decide_eq_true hnot (mem_round.2 (Or.inr ⟨w, hw, hz⟩))

/-- **The rounds find all reachable nodes**, when there are as many rounds as targets. -/
theorem mem_reachUpTo {targets : List α} (htargets : ∀ x y, y ∈ next x → y ∈ targets)
    (hn : targets.length ≤ n) :
    y ∈ reachUpTo next n seen ↔ ∃ x ∈ seen, ReflTransGen (fun x y => y ∈ next x) x y := by
  refine ⟨reflTransGen_of_mem_reachUpTo, ?_⟩
  rintro ⟨x, hx, hpath⟩
  have hcount : targets.countP (· ∉ seen) ≤ n := countP_le_length.trans hn
  induction hpath with
  | refl => exact subset_reachUpTo hx
  | tail _ hy ih => exact reachUpTo_closed htargets hcount ih hy

end Reach

end Idhan
