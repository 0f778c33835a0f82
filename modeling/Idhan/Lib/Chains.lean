import Mathlib.Tactic.Common
import Mathlib.Data.Option.Basic

/-!
# Chains of pointers

A partial function `next : α → Option α` is a table of pointers.  Following the pointers from a node
may stop; `Ends next x y` says that it does, and that it stops at `y`.

* `Ends.link` and `Ends.unlink`: what a new pointer and a removed pointer do to the ends.
* `Ends.of_fewer`: resolving with fewer pointers first changes nothing.
* `Ends.compressed`: a table of shortcuts that is right at every single step is right altogether.
-/

namespace Idhan

open Option

variable {α : Type}

/-- Following the pointers from the first node stops at the second. -/
inductive Ends (next : α → Option α) : α → α → Prop where
  | stop {x : α} : next x = none → Ends next x x
  | follow {x y z : α} : next x = some y → Ends next y z → Ends next x z

namespace Ends

variable {next next' : α → Option α} {x y z : α}

/-- The end has no pointer. -/
theorem next_end (h : Ends next x y) : next y = none := by
  induction h with
  | stop h => exact h
  | follow _ _ ih => exact ih

/-- There is one end at most. -/
theorem unique (h : Ends next x y) (h' : Ends next x z) : y = z := by
  induction h with
  | stop hx =>
    cases h' with
    | stop _ => rfl
    | follow hy _ => exact absurd (hx.symm.trans hy) (some_ne_none _).symm
  | follow hy _ ih =>
    cases h' with
    | stop hx => exact absurd (hx.symm.trans hy) (some_ne_none _).symm
    | follow hy' h' =>
      rw [hy] at hy'
      cases hy'
      exact ih h'

theorem congr (h : Ends next x y) (hn : ∀ x, next' x = next x) : Ends next' x y := by
  induction h with
  | stop hx => exact stop ((hn _).trans hx)
  | follow hy _ ih => exact follow ((hn _).trans hy) ih

/-- A chain of fewer pointers, and then the chain of all of them from its end. -/
theorem of_fewer (h : Ends next' x y) (hn : ∀ x t, next' x = some t → next x = some t)
    (h' : Ends next y z) : Ends next x z := by
  induction h with
  | stop _ => exact h'
  | follow hy _ ih => exact follow (hn _ _ hy) (ih h')

/-- The pointer from the end of a chain is no pointer of the chain. -/
theorem of_agree {a : α} (h : Ends next x y) (hya : y ≠ a) (ha : next a = none)
    (hn : ∀ x, x ≠ a → next' x = next x) : Ends next' x y := by
  induction h with
  | stop hx => exact stop ((hn _ hya).trans hx)
  | @follow x t y hy _ ih =>
    refine follow ((hn x ?_).trans hy) (ih hya)
    rintro rfl
    exact absurd (ha.symm.trans hy) (some_ne_none _).symm

/-- **A new pointer** from `a` to a node whose chain does not end at `a`: the chains that ended at
`a` now end where that one does. -/
theorem link {a b e : α} [DecidableEq α] (h : Ends next x y) (ha : next a = none)
    (hb : Ends next b e) (hea : e ≠ a) (hn : ∀ x, x ≠ a → next' x = next x)
    (hna : next' a = some b) :
    Ends next' x (if y = a then e else y) := by
  have hb' : Ends next' b e := hb.of_agree hea ha hn
  by_cases hya : y = a
  · rw [if_pos hya]
    subst hya
    induction h with
    | stop _ => exact follow hna hb'
    | @follow x t y hy h ih =>
      refine follow ((hn x ?_).trans hy) (ih ha hea hn hna)
      rintro rfl
      exact absurd (ha.symm.trans hy) (some_ne_none _).symm
  · rw [if_neg hya]
    exact h.of_agree hya ha hn

/-- **A removed pointer**: every chain that had an end has one. -/
theorem unlink {a : α} (h : Ends next x y) (hn : ∀ x, x ≠ a → next' x = next x)
    (hna : next' a = none) : ∃ z, Ends next' x z := by
  induction h with
  | @stop x hx =>
    by_cases hxa : x = a
    · exact ⟨x, stop (hxa ▸ hna)⟩
    · exact ⟨x, stop ((hn x hxa).trans hx)⟩
  | @follow x t y hy _ ih =>
    by_cases hxa : x = a
    · exact ⟨x, stop (hxa ▸ hna)⟩
    · obtain ⟨z, hz⟩ := ih
      exact ⟨z, follow ((hn x hxa).trans hy) hz⟩

/-- **Shortcuts**: if the shortcut of a node is the shortcut of its target, or the target where the
target has none, then it is the end of the chain. -/
theorem compressed {short : α → Option α} (h : Ends next x y)
    (hs : ∀ x, short x = (next x).map fun t => (short t).getD t) : (short x).getD x = y := by
  induction h with
  | stop hx => rw [hs, hx, map_none, getD_none]
  | follow hy _ ih => rw [hs, hy, map_some, getD_some, ih]

end Ends

end Idhan
