import Mathlib.Data.List.Pairwise
import Mathlib.Order.Lattice
import Mathlib.Tactic.Common

/-!
# Merging two sorted lists

A merge reads two sorted lists side by side and emits the elements of one list only, of the other
only, or of both, as three switches say.  With all three it is the union, with the last alone the
intersection, and so on.

The lists are sorted by a rank in a linear order, and the comparison of the merge agrees with the
ranks on the elements that it meets; nothing is asked of it elsewhere.

* `mem_map_mergeWith`: which ranks are emitted.
* `sorted_mergeWith`: the result is sorted.
* `SortedBy.ext`: a sorted list is determined by its elements.
-/

namespace Idhan

open List

variable {α β : Type} {x a : α} {rest : List α} {emit : Bool}

/-- What a merge emits. -/
structure Emits where
  /-- elements of the left list only -/
  left : Bool
  /-- elements of the right list only -/
  right : Bool
  /-- elements of both, as the left list has them -/
  both : Bool

/-- The switches select something that is in the left list if `p` and in the right list if `q`. -/
def Emits.Selects (emits : Emits) (p q : Prop) : Prop :=
  (p ∧ q ∧ emits.both = true) ∨ (p ∧ ¬ q ∧ emits.left = true) ∨ (¬ p ∧ q ∧ emits.right = true)

/-- The element in front of the list, if the switch is set. -/
def emitIf (emit : Bool) (a : α) (rest : List α) : List α :=
  if emit then a :: rest else rest

/-- The merge. -/
def mergeWith (less : α → α → Bool) (emits : Emits) : List α → List α → List α
  | a :: as, b :: bs =>
    if less a b then
      emitIf emits.left a (mergeWith less emits as (b :: bs))
    else if less b a then
      emitIf emits.right b (mergeWith less emits (a :: as) bs)
    else
      emitIf emits.both a (mergeWith less emits as bs)
  | as, [] => if emits.left then as else []
  | [], bs => if emits.right then bs else []
termination_by as bs => as.length + bs.length

theorem mem_emitIf :
    x ∈ emitIf emit a rest ↔ (x = a ∧ emit = true) ∨ x ∈ rest := by
  cases emit <;> simp [emitIf]

theorem mem_map_emitIf {rank : α → β} {r : β} :
    r ∈ (emitIf emit a rest).map rank ↔ (r = rank a ∧ emit = true) ∨ r ∈ rest.map rank := by
  cases emit <;> simp [emitIf]

/-- Nothing is made up. -/
theorem of_mem_mergeWith {less : α → α → Bool} {emits : Emits} {as bs : List α}
    (h : x ∈ mergeWith less emits as bs) : x ∈ as ∨ x ∈ bs := by
  fun_induction mergeWith less emits as bs with
  | case1 a as b bs hless ih =>
    rcases mem_emitIf.1 h with ⟨rfl, _⟩ | h
    · exact Or.inl (mem_cons_self ..)
    · exact (ih h).imp_left (mem_cons_of_mem a)
  | case2 a as b bs hnot hless ih =>
    rcases mem_emitIf.1 h with ⟨rfl, _⟩ | h
    · exact Or.inr (mem_cons_self ..)
    · exact (ih h).imp_right (mem_cons_of_mem b)
  | case3 a as b bs hnot hnot' ih =>
    rcases mem_emitIf.1 h with ⟨rfl, _⟩ | h
    · exact Or.inl (mem_cons_self ..)
    · exact (ih h).imp (mem_cons_of_mem a) (mem_cons_of_mem b)
  | case4 as hleft => exact Or.inl h
  | case5 as hleft => exact (not_mem_nil h).elim
  | case6 bs hbs hright => exact Or.inr h
  | case7 bs hbs hright => exact (not_mem_nil h).elim

section Ranked

variable [LinearOrder β] {rank : α → β} {less : α → α → Bool} {as bs : List α} {a b : α} {r : β}

/-- The list is sorted by rank, each rank once. -/
def SortedBy (rank : α → β) (as : List α) : Prop :=
  as.Pairwise fun a b => rank a < rank b

/-- The comparison agrees with the ranks between the elements of two lists. -/
def AgreesOn (rank : α → β) (less : α → α → Bool) (as bs : List α) : Prop :=
  ∀ a ∈ as, ∀ b ∈ bs, (less a b = true ↔ rank a < rank b) ∧ (less b a = true ↔ rank b < rank a)

theorem AgreesOn.cons_left (h : AgreesOn rank less (a :: as) bs) : AgreesOn rank less as bs :=
  fun x hx => h x (mem_cons_of_mem a hx)

theorem AgreesOn.cons_right (h : AgreesOn rank less as (b :: bs)) : AgreesOn rank less as bs :=
  fun x hx y hy => h x hx y (mem_cons_of_mem b hy)

theorem SortedBy.tail (h : SortedBy rank (a :: as)) : SortedBy rank as :=
  (pairwise_cons.1 h).2

theorem SortedBy.head_lt (h : SortedBy rank (a :: as)) : ∀ x ∈ as, rank a < rank x :=
  (pairwise_cons.1 h).1

/-- What is below the head of a sorted list is below all of it. -/
theorem SortedBy.lt_of_lt_head (h : SortedBy rank (b :: bs)) (hr : r < rank b) :
    ∀ x ∈ b :: bs, r < rank x := by
  intro x hx
  rcases mem_cons.1 hx with rfl | hx
  · exact hr
  · exact hr.trans (h.head_lt x hx)

theorem SortedBy.not_mem_of_lt (h : SortedBy rank (b :: bs)) (hr : r < rank b) :
    r ∉ (b :: bs).map rank := by
  intro hmem
  obtain ⟨c, hc, rfl⟩ := mem_map.1 hmem
  exact lt_irrefl _ (h.lt_of_lt_head hr c hc)

theorem SortedBy.not_mem_tail (h : SortedBy rank (a :: as)) : rank a ∉ as.map rank := by
  intro hmem
  obtain ⟨c, hc, heq⟩ := mem_map.1 hmem
  exact (h.head_lt c hc).ne heq.symm

theorem sortedBy_emitIf {emit : Bool} (h : SortedBy rank as) (ha : ∀ x ∈ as, rank a < rank x) :
    SortedBy rank (emitIf emit a as) := by
  cases emit with
  | false => exact h
  | true => exact pairwise_cons.2 ⟨ha, h⟩

section

variable (emits : Emits) (hagrees : AgreesOn rank less as bs) (ha : SortedBy rank as)
  (hb : SortedBy rank bs)
include hagrees ha hb

/-- **What a merge emits**: a rank of both lists, of the left one only or of the right one only, as
the switches say. -/
theorem mem_map_mergeWith : r ∈ (mergeWith less emits as bs).map rank ↔
      emits.Selects (r ∈ as.map rank) (r ∈ bs.map rank) := by
  unfold Emits.Selects
  fun_induction mergeWith less emits as bs with
  | case1 a as b bs hless ih =>
    have hlt := (hagrees a (mem_cons_self ..) b (mem_cons_self ..)).1.1 hless
    have hright : rank a ∉ (b :: bs).map rank := hb.not_mem_of_lt hlt
    rw [mem_map_emitIf, ih hagrees.cons_left ha.tail hb, @List.map_cons _ _ rank a, mem_cons]
    by_cases hr : r = rank a
    · subst hr
      simp [ha.not_mem_tail, hright, -map_cons, -mem_map]
    · simp [hr]
  | case2 a as b bs hnot hless ih =>
    have hlt := (hagrees a (mem_cons_self ..) b (mem_cons_self ..)).2.1 hless
    have hleft : rank b ∉ (a :: as).map rank := ha.not_mem_of_lt hlt
    rw [mem_map_emitIf, ih hagrees.cons_right ha hb.tail, @List.map_cons _ _ rank b,
      mem_cons]
    by_cases hr : r = rank b
    · subst hr
      simp [hb.not_mem_tail, hleft, -map_cons, -mem_map]
    · simp [hr]
  | case3 a as b bs hnot hnot' ih =>
    have hagree := hagrees a (mem_cons_self ..) b (mem_cons_self ..)
    have heq : rank a = rank b :=
      le_antisymm (not_lt.1 fun h => hnot' (hagree.2.2 h)) (not_lt.1 fun h => hnot (hagree.1.2 h))
    rw [mem_map_emitIf, ih hagrees.cons_left.cons_right ha.tail hb.tail, map_cons, map_cons,
      mem_cons, mem_cons, ← heq]
    by_cases hr : r = rank a
    · subst hr
      have htail : rank a ∉ bs.map rank := heq ▸ hb.not_mem_tail
      simp [ha.not_mem_tail, htail, -mem_map]
    · simp [hr]
  | case4 as hleft => simp [hleft]
  | case5 as hleft => simp [hleft]
  | case6 bs hbs hright => simp [hright]
  | case7 bs hbs hright => simp [hright]

/-- **A merge of sorted lists is sorted.** -/
theorem sorted_mergeWith : SortedBy rank (mergeWith less emits as bs) := by
  fun_induction mergeWith less emits as bs with
  | case1 a as b bs hless ih =>
    have hlt := (hagrees a (mem_cons_self ..) b (mem_cons_self ..)).1.1 hless
    refine sortedBy_emitIf (ih hagrees.cons_left ha.tail hb) fun x hx => ?_
    exact (of_mem_mergeWith hx).elim (ha.head_lt x) (hb.lt_of_lt_head hlt x)
  | case2 a as b bs hnot hless ih =>
    have hlt := (hagrees a (mem_cons_self ..) b (mem_cons_self ..)).2.1 hless
    refine sortedBy_emitIf (ih hagrees.cons_right ha hb.tail) fun x hx => ?_
    exact (of_mem_mergeWith hx).elim (ha.lt_of_lt_head hlt x) (hb.head_lt x)
  | case3 a as b bs hnot hnot' ih =>
    have hagree := hagrees a (mem_cons_self ..) b (mem_cons_self ..)
    have hle : rank a ≤ rank b := not_lt.1 fun h => hnot' (hagree.2.2 h)
    refine sortedBy_emitIf (ih hagrees.cons_left.cons_right ha.tail hb.tail) fun x hx => ?_
    exact (of_mem_mergeWith hx).elim (ha.head_lt x) fun hx => hle.trans_lt (hb.head_lt x hx)
  | case4 as hleft => exact ha
  | case5 as hleft => exact Pairwise.nil
  | case6 bs hbs hright => exact hb
  | case7 bs hbs hright => exact Pairwise.nil

end

theorem SortedBy.nodup (h : SortedBy rank as) : as.Nodup :=
  Pairwise.imp (fun hlt heq => hlt.ne (congrArg rank heq)) h

/-- A sorted list is determined by its elements. -/
theorem SortedBy.ext (ha : SortedBy rank as) (hb : SortedBy rank bs) (h : ∀ x, x ∈ as ↔ x ∈ bs) :
    as = bs := by
  have hperm : as.Perm bs := (perm_ext_iff_of_nodup ha.nodup hb.nodup).2 h
  have ha' : as.Pairwise fun a b => rank a < rank b := ha
  have hb' : bs.Pairwise fun a b => rank a < rank b := hb
  exact Perm.eq_of_pairwise (fun a b _ _ hab hba => (lt_asymm hab hba).elim) ha' hb' hperm

end Ranked

end Idhan
