import Mathlib.Data.List.Sort

/-!
# Stable sorting by a key

`sortBy key` is a stable sort: elements with one key keep their order.  What such a sort returns is
determined by the order of the elements of each key alone, so two lists that agree in that are
sorted to the same list.

* `filter_sortBy`: the elements of one key, in their order.
* `sortBy_congr`: lists that agree in the elements of each key.
* `head?_sortBy`: the first element is the first of those with the smallest key.
-/

namespace Idhan

open List

variable {α κ : Type} [LinearOrder κ] {key : α → κ} {l l' : List α}

/-- The elements sorted by their keys; those with one key keep their order. -/
def sortBy (key : α → κ) (l : List α) : List α :=
  l.insertionSort fun a b => key a ≤ key b

theorem perm_sortBy (key : α → κ) (l : List α) : (sortBy key l).Perm l :=
  perm_insertionSort _ l

@[simp] theorem mem_sortBy {a : α} : a ∈ sortBy key l ↔ a ∈ l :=
  (perm_sortBy key l).mem_iff

theorem sortBy_pairwise (key : α → κ) (l : List α) :
    (sortBy key l).Pairwise fun a b => key a ≤ key b := by
  have hmap : (sortBy key l).map key = (l.map key).insertionSort (· ≤ ·) :=
    map_insertionSort _ _ key l (by simp)
  rw [← pairwise_map (R := (· ≤ ·)), hmap]
  exact pairwise_insertionSort _ _

theorem sortBy_of_pairwise (h : l.Pairwise fun a b => key a ≤ key b) : sortBy key l = l :=
  h.insertionSort_eq

theorem sortBy_cons_of_le {a : α} (h : ∀ b ∈ l, key a ≤ key b) :
    sortBy key (a :: l) = a :: sortBy key l :=
  insertionSort_cons_of_forall_rel _ h

/-- The elements of one key keep their order. -/
theorem filter_sortBy [DecidableEq κ] (k : κ) :
    (sortBy key l).filter (key · = k) = l.filter (key · = k) := by
  have hsorted : (l.filter (key · = k)).Pairwise fun a b => key a ≤ key b := by
    refine pairwise_of_forall_mem_list fun a ha b hb => ?_
    rw [of_decide_eq_true (mem_filter.1 ha).2, of_decide_eq_true (mem_filter.1 hb).2]
  have hsublist : (l.filter (key · = k)).Sublist ((sortBy key l).filter (key · = k)) := by
    simpa [sortBy] using (sublist_insertionSort hsorted filter_sublist).filter (key · = k)
  exact (hsublist.eq_of_length ((perm_sortBy key l).filter _).length_eq.symm).symm

/-- Sorted lists are equal if they agree in the elements of each key. -/
theorem eq_of_filter_eq [DecidableEq κ] (hl : l.Pairwise fun a b => key a ≤ key b)
    (hl' : l'.Pairwise fun a b => key a ≤ key b)
    (h : ∀ k, l.filter (key · = k) = l'.filter (key · = k)) : l = l' := by
  have hmem : ∀ a, a ∈ l ↔ a ∈ l' := fun a => by simpa using congrArg (a ∈ ·) (h (key a))
  induction l generalizing l' with
  | nil => exact (eq_nil_iff_forall_not_mem.2 fun a ha => not_mem_nil ((hmem a).2 ha)).symm
  | cons a l ih =>
    cases l' with
    | nil => exact absurd ((hmem a).1 (mem_cons_self ..)) not_mem_nil
    | cons b l' =>
      -- the two first elements have the smallest key, and are the first ones with it
      have hkey : key a = key b := by
        refine le_antisymm ?_ ?_
        · rcases mem_cons.1 ((hmem b).2 (mem_cons_self ..)) with heq | hb
          · rw [heq]
          · exact rel_of_pairwise_cons hl hb
        · rcases mem_cons.1 ((hmem a).1 (mem_cons_self ..)) with heq | ha
          · rw [heq]
          · exact rel_of_pairwise_cons hl' ha
      have hfirst := h (key a)
      rw [filter_cons_of_pos (by simp), filter_cons_of_pos (by simp [hkey])] at hfirst
      obtain ⟨rfl, -⟩ := List.cons.inj hfirst
      have htail : ∀ k, l.filter (key · = k) = l'.filter (key · = k) := by
        intro k
        have hk := h k
        rw [filter_cons, filter_cons] at hk
        split at hk
        · exact (List.cons.inj hk).2
        · exact hk
      rw [ih hl.of_cons hl'.of_cons htail fun c => by simpa using congrArg (c ∈ ·) (htail (key c))]

/-- **A stable sort depends only on the order of the elements of each key.** -/
theorem sortBy_congr [DecidableEq κ] (h : ∀ k, l.filter (key · = k) = l'.filter (key · = k)) :
    sortBy key l = sortBy key l' := by
  refine eq_of_filter_eq (sortBy_pairwise key l) (sortBy_pairwise key l') fun k => ?_
  rw [filter_sortBy, filter_sortBy, h]

/-- The first element is the first of those with the smallest key. -/
theorem head?_sortBy : (sortBy key l).head? = l.find? fun a => l.all fun b => key a ≤ key b := by
  cases hsort : sortBy key l with
  | nil =>
    have hnil : l = [] := (hsort ▸ perm_sortBy key l).nil_eq.symm
    subst hnil
    rfl
  | cons a rest =>
    have hle : ∀ b ∈ l, key a ≤ key b := by
      intro b hb
      have hsorted := sortBy_pairwise key l
      rw [← (perm_sortBy key l).mem_iff, hsort] at hb
      rw [hsort] at hsorted
      rcases mem_cons.1 hb with rfl | hb
      · exact le_rfl
      · exact rel_of_pairwise_cons hsorted hb
    have ha : a ∈ l := by
      rw [← (perm_sortBy key l).mem_iff, hsort]
      exact mem_cons_self ..
    have hsmallest : l.filter (fun b => l.all fun c => key b ≤ key c) =
        l.filter (key · = key a) := by
      refine filter_congr fun b hb => ?_
      rw [Bool.eq_iff_iff, all_eq_true, decide_eq_true_iff]
      refine ⟨fun h => le_antisymm (of_decide_eq_true (h a ha)) (hle b hb), fun h c hc => ?_⟩
      rw [h]
      exact decide_eq_true (hle c hc)
    rw [← head?_filter, hsmallest, ← filter_sortBy, hsort, filter_cons_of_pos (by simp)]
    rfl

end Idhan
