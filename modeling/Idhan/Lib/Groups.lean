import Mathlib.Logic.Function.Basic

/-!
# Groups with a king, and rulings between them

A partition is kept as a function that takes every element to the king of its group.  It is `Flat`
when a king is its own king.  A ruling joins the kings of two groups and holds for all their
members.

* `merge`: a group goes to a king, which is the king of another group or a member that is promoted.
* `Function.update`: one member goes to another group, or to a group of its own.
* `Ruled.merge`: if the rulings of a group go with it (`transfer`), no pair stops being ruled.
* `ruled_update_iff`: if one member moves, only its pairs are affected.
-/

namespace Idhan

open Function

variable {α : Type}

/-- A king is its own king. -/
def Flat (king : α → α) : Prop :=
  ∀ x, king (king x) = king x

/-- The relation joins kings of different groups. -/
structure JoinsKings (king : α → α) (r : α → α → Prop) : Prop where
  left : ∀ {a b}, r a b → king a = a
  right : ∀ {a b}, r a b → king b = b
  ne : ∀ {a b}, r a b → a ≠ b

/-- The pair is decided: the elements are in one group, or their kings are joined. -/
def Ruled (king : α → α) (r : α → α → Prop) (x y : α) : Prop :=
  king x = king y ∨ r (king x) (king y)

section Merge

variable [DecidableEq α] {king : α → α} {r : α → α → Prop} {k n : α}

/-- The group of `k` gets the king `n`. -/
def merge (king : α → α) (k n : α) (x : α) : α :=
  if king x = k then n else king x

theorem merge_of_eq {x : α} (h : king x = k) : merge king k n x = n :=
  if_pos h

theorem merge_of_ne {x : α} (h : king x ≠ k) : merge king k n x = king x :=
  if_neg h

/-- The old king has no group any more. -/
theorem merge_ne (hne : n ≠ k) {x : α} : merge king k n x ≠ k := by
  by_cases hx : king x = k
  · rwa [merge_of_eq hx]
  · rwa [merge_of_ne hx]

/-- Another king stays. -/
theorem merge_king {a : α} (ha : king a = a) (hak : a ≠ k) : merge king k n a = a := by
  rw [merge_of_ne (by rwa [ha]), ha]

/-- The new king is its own king afterwards. -/
theorem merge_self (hn : king n = n ∨ king n = k) : merge king k n n = n := by
  rcases hn with hn | hn
  · by_cases hk : king n = k
    · exact merge_of_eq hk
    · rw [merge_of_ne hk, hn]
  · exact merge_of_eq hn

theorem Flat.merge (h : Flat king) (hn : king n = n ∨ king n = k) : Flat (merge king k n) := by
  intro x
  by_cases hx : king x = k
  · rw [merge_of_eq hx, merge_self hn]
  · rw [merge_of_ne hx, merge_of_ne, h]
    rwa [h]

/-- The rulings of `k` become rulings of `n`. -/
def transfer (r : α → α → Prop) (k n : α) (a b : α) : Prop :=
  (r a b ∧ a ≠ k ∧ b ≠ k) ∨ (a = n ∧ b ≠ n ∧ r k b) ∨ (b = n ∧ a ≠ n ∧ r a k)

/-- **No pair stops being ruled** when a group is merged and its rulings are transferred. -/
theorem Ruled.merge {x y : α} (h : Ruled king r x y) :
    Ruled (merge king k n) (transfer r k n) x y := by
  by_cases hx : king x = k
  · by_cases hy : king y = k
    · exact Or.inl ((merge_of_eq hx).trans (merge_of_eq hy).symm)
    · rcases h with h | h
      · exact absurd (h.symm.trans hx) hy
      · rw [Ruled, merge_of_eq hx, merge_of_ne hy]
        by_cases hyn : king y = n
        · exact Or.inl hyn.symm
        · exact Or.inr (Or.inr (Or.inl ⟨rfl, hyn, hx ▸ h⟩))
  · by_cases hy : king y = k
    · rcases h with h | h
      · exact absurd (h.trans hy) hx
      · rw [Ruled, merge_of_ne hx, merge_of_eq hy]
        by_cases hxn : king x = n
        · exact Or.inl hxn
        · exact Or.inr (Or.inr (Or.inr ⟨rfl, hxn, hy ▸ h⟩))
    · rw [Ruled, merge_of_ne hx, merge_of_ne hy]
      exact h.imp_right fun h => Or.inl ⟨h, hx, hy⟩

/-- Transferred rulings join kings. -/
theorem JoinsKings.merge (h : JoinsKings king r) (hn : king n = n ∨ king n = k) :
    JoinsKings (merge king k n) (transfer r k n) where
  left := by
    rintro a b (⟨hab, ha, _⟩ | ⟨rfl, _, _⟩ | ⟨rfl, ha, hak⟩)
    · exact merge_king (h.left hab) ha
    · exact merge_self hn
    · exact merge_king (h.left hak) (h.ne hak)
  right := by
    rintro a b (⟨hab, _, hb⟩ | ⟨rfl, hb, hkb⟩ | ⟨rfl, _, _⟩)
    · exact merge_king (h.right hab) hb
    · exact merge_king (h.right hkb) (h.ne hkb).symm
    · exact merge_self hn
  ne := by
    rintro a b (⟨hab, _, _⟩ | ⟨rfl, hb, _⟩ | ⟨rfl, ha, _⟩)
    · exact h.ne hab
    · exact hb.symm
    · exact ha

end Merge

section Update

variable [DecidableEq α] {king : α → α} {r : α → α → Prop} {w n : α}

/-- A member that is not a king goes to a king, or becomes one. -/
theorem Flat.update (h : Flat king) (hw : king w ≠ w) (hn : n = w ∨ king n = n) :
    Flat (Function.update king w n) := by
  have hking : ∀ x, king x ≠ w := fun x hx => hw (hx ▸ h x)
  intro x
  by_cases hx : x = w
  · subst hx
    rw [update_self]
    by_cases hnx : n = x
    · rw [hnx, update_self]
    · rw [update_of_ne hnx]
      exact hn.resolve_left hnx
  · rw [update_of_ne hx, update_of_ne (hking x), h]

/-- The rulings join kings as before. -/
theorem JoinsKings.update (h : JoinsKings king r) (hw : king w ≠ w) :
    JoinsKings (Function.update king w n) r where
  left := fun {a b} hab => by
    rw [update_of_ne fun ha : a = w => hw (ha ▸ h.left hab), h.left hab]
  right := fun {a b} hab => by
    rw [update_of_ne fun hb : b = w => hw (hb ▸ h.right hab), h.right hab]
  ne := h.ne

/-- **Only the pairs of the member that moves** are affected. -/
theorem ruled_update_iff {x y : α} (hx : x ≠ w) (hy : y ≠ w) :
    Ruled (Function.update king w n) r x y ↔ Ruled king r x y := by
  rw [Ruled, Ruled, update_of_ne hx, update_of_ne hy]

end Update

end Idhan
