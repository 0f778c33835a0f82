import Mathlib.Data.List.Dedup
import Mathlib.Data.List.Perm.Basic
import Mathlib.Data.List.Pairwise
import Mathlib.Order.Basic
import Mathlib.Tactic.Common

/-!
# Cutting a list into runs

`runsBy key` cuts a list into runs of elements with the same key.  On a list that is sorted by the
key these are the groups of the elements: every key has one run, and the run holds all of its
elements.

* `runsBy_cons`: the loop, which cuts off the first run.
* `runsBy_of_sorted`: the runs of a sorted list.
* `flatMap_filter_perm`: a list is put together again from the parts into which numbers divide it.
* `perm_cons_eraseIdx`, `perm_cons_flatten_set`: taking something from a place of a list.
-/

namespace Idhan

open List

variable {α κ : Type} [DecidableEq κ] {as : List α} {a : α} {lists : List (List α)} {i : ℕ}

/-- The runs of elements with the same key, with the key of each. -/
def runsBy (key : α → κ) : List α → List (κ × List α)
  | [] => []
  | a :: as =>
    match runsBy key as with
    | [] => [(key a, [a])]
    | (k, run) :: runs =>
      if key a = k then (k, a :: run) :: runs else (key a, [a]) :: (k, run) :: runs

/-- The runs of a list that starts with a run: the loop cuts it off, up to the first element with
another key, and goes on behind it. -/
theorem runsBy_cons (key : α → κ) (a : α) (as : List α) :
    runsBy key (a :: as) = (key a, a :: as.takeWhile fun b => key b = key a) ::
      runsBy key (as.dropWhile fun b => key b = key a) := by
  induction as generalizing a with
  | nil => rfl
  | cons b as ih =>
    rw [runsBy, ih b]
    by_cases h : key a = key b
    · simp only [h, takeWhile_cons, dropWhile_cons, decide_true, if_true]
    · have h' : ¬ key b = key a := fun heq => h heq.symm
      simp only [if_neg h, takeWhile_cons, dropWhile_cons, h', decide_false, Bool.false_eq_true,
        if_false]
      rw [ih b]

/-- The groups do not change if an element with another key is put in front. -/
theorem map_filter_cons_of_ne {key : α → κ} {ks : List κ} (h : key a ∉ ks) :
    (ks.map fun k => (k, (a :: as).filter fun b => key b = k)) =
      ks.map fun k => (k, as.filter fun b => key b = k) := by
  refine map_congr_left fun k hk => ?_
  have hne : ¬ key a = k := fun heq => h (heq ▸ hk)
  rw [filter_cons_of_neg (by simpa using hne)]

section Sorted

variable [PartialOrder κ] {key : α → κ}

/-- **The runs of a sorted list** are the groups of its elements. -/
theorem runsBy_of_sorted {as : List α} (h : as.Pairwise fun a b => key a ≤ key b) :
    runsBy key as = (as.map key).dedup.map fun k => (k, as.filter fun a => key a = k) := by
  induction as with
  | nil => rfl
  | cons a as ih =>
    obtain ⟨hle, hsorted⟩ := pairwise_cons.1 h
    have hih := ih hsorted
    rw [runsBy, map_cons]
    by_cases hmem : key a ∈ as.map key
    · -- the first element of the rest has the key of `a`, being between it and one with its key
      obtain ⟨b, as, rfl⟩ := exists_cons_of_ne_nil fun hnil : as = [] => by
        rw [hnil] at hmem
        exact nomatch hmem
      have hkey : key a = key b := by
        obtain ⟨c, hc, hkc⟩ := mem_map.1 hmem
        refine le_antisymm (hle b (mem_cons_self ..)) ?_
        rcases mem_cons.1 hc with rfl | hc
        · exact hkc.le
        · exact hkc ▸ (pairwise_cons.1 hsorted).1 c hc
      rw [dedup_cons_of_mem hmem]
      rw [runsBy_cons] at hih ⊢
      obtain ⟨k, ks, hks⟩ := exists_cons_of_ne_nil fun hnil : ((b :: as).map key).dedup = [] => by
        rw [hnil] at hih
        exact nomatch hih
      have hnodup := nodup_dedup ((b :: as).map key)
      rw [hks] at hih hnodup ⊢
      rw [map_cons, List.cons.injEq, Prod.mk.injEq] at hih
      obtain ⟨⟨rfl, hrun⟩, hruns⟩ := hih
      simp only [hkey, if_true]
      rw [map_cons, filter_cons_of_pos (by simpa using hkey), ← hrun,
        map_filter_cons_of_ne (hkey ▸ (nodup_cons.1 hnodup).1), ← hruns]
    · rw [dedup_cons_of_notMem hmem, map_cons, map_filter_cons_of_ne
        (fun hk => hmem (mem_dedup.1 hk)), ← hih]
      have hempty : (as.filter fun b => key b = key a) = [] := by
        refine filter_eq_nil_iff.2 fun b hb hkey => hmem ?_
        exact of_decide_eq_true hkey ▸ mem_map_of_mem hb
      rw [filter_cons_of_pos (by simp), hempty]
      cases as with
      | nil => rfl
      | cons b as =>
        rw [runsBy_cons]
        have hne : ¬ key a = key b := fun heq => hmem (heq ▸ mem_cons_self ..)
        simp only [if_neg hne]

/-- Without repetitions a sorted list is strictly sorted. -/
theorem pairwise_lt_dedup {ks : List κ} (h : ks.Pairwise (· ≤ ·)) :
    ks.dedup.Pairwise (· < ·) :=
  ((nodup_dedup ks).and (h.sublist (dedup_sublist ks))).imp fun ⟨hne, hle⟩ => hle.lt_of_ne hne

end Sorted

/-! ## Parts -/

/-- **A list from its parts**: the elements with each of the numbers below `n`. -/
theorem flatMap_filter_perm (part : α → ℕ) (as : List α) (n : ℕ) :
    ((List.range n).flatMap fun i => as.filter fun a => part a = i).Perm
      (as.filter fun a => part a < n) := by
  induction n with
  | zero => simp
  | succ n ih =>
    rw [range_succ, flatMap_append, flatMap_singleton]
    have hsplit := filter_append_perm (fun a => part a < n) (as.filter fun a => part a < n + 1)
    have hbelow : ((as.filter fun a => part a < n + 1).filter fun a => part a < n) =
        as.filter fun a => part a < n := by
      rw [filter_filter]
      refine filter_congr fun a _ => ?_
      simp only [← Bool.decide_and, decide_eq_decide]
      omega
    have hlast : ((as.filter fun a => part a < n + 1).filter fun a => !decide (part a < n)) =
        as.filter fun a => part a = n := by
      rw [filter_filter]
      refine filter_congr fun a _ => ?_
      rw [← decide_not, ← Bool.decide_and, decide_eq_decide]
      omega
    rw [hbelow, hlast] at hsplit
    exact (ih.append_right _).trans hsplit

/-! ## Places -/

/-- What stands at a place, and the rest. -/
theorem perm_cons_eraseIdx (h : as[i]? = some a) :
    as.Perm (a :: as.eraseIdx i) := by
  obtain ⟨hlt, rfl⟩ := List.getElem?_eq_some_iff.1 h
  exact (getElem_cons_eraseIdx_perm hlt).symm

/-- The first element of the list at a place, and the rest of all lists. -/
theorem perm_cons_flatten_set (h : lists[i]? = some (a :: as)) :
    lists.flatten.Perm (a :: (lists.set i as).flatten) := by
  obtain ⟨hlt, _⟩ := List.getElem?_eq_some_iff.1 h
  refine (perm_cons_eraseIdx h).flatten.trans ?_
  exact ((set_perm_cons_eraseIdx hlt as).flatten.symm).cons a

/-- If lists hold anything then one of them does. -/
theorem exists_getElem?_cons (h : lists.flatten ≠ []) :
    ∃ (i : ℕ) (a : α) (as : List α), lists[i]? = some (a :: as) := by
  obtain ⟨list, hmem, hlist⟩ : ∃ list ∈ lists, list ≠ [] := by
    simpa [flatten_eq_nil_iff] using h
  obtain ⟨i, hi⟩ := mem_iff_getElem?.1 hmem
  obtain ⟨a, as, rfl⟩ := exists_cons_of_ne_nil hlist
  exact ⟨i, a, as, hi⟩

end Idhan
