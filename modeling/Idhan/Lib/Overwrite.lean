import Mathlib.Data.List.TakeDrop

/-!
# Overwriting a region of a list

A list of cells as a random access file has it: a write at an offset replaces the cells of its
region and, if it begins past the end, fills the gap with a default cell.  A write of nothing
changes nothing, even past the end.

* `overwrite_overwrite`: a write that continues where another ended is one write of both.
* `holds_overwrite`, `holds_overwrite_append_iff`: what stands in the region after the write of a
  part of it.
-/

namespace Idhan.Overwrite

open List

variable {α : Type*} {cells more file : List α} {offset : ℕ}

/-- The cells after a write of `cells` at an offset. -/
def overwrite [Inhabited α] (file : List α) (offset : ℕ) : List α → List α
  | [] => file
  | cell :: cells =>
    file.takeD offset default ++ cell :: cells ++ file.drop (offset + (cells.length + 1))

/-- The cells stand at an offset. -/
def Holds (file : List α) (offset : ℕ) (cells : List α) : Prop :=
  (file.drop offset).take cells.length = cells

@[simp] theorem holds_nil (file : List α) (offset : ℕ) : Holds file offset [] := rfl

theorem holds_append_iff :
    Holds file offset (cells ++ more) ↔ Holds file offset cells ∧
    Holds file (offset + cells.length) more := by
  unfold Holds
  rw [length_append, take_add, drop_drop]
  constructor
  · intro h
    have hlength := congrArg List.length h
    simp only [length_append, length_take, length_drop] at hlength
    refine append_inj h ?_
    rw [length_take, length_drop]
    omega
  · rintro ⟨hcells, hmore⟩
    rw [hcells, hmore]

variable [Inhabited α]

@[simp] theorem overwrite_nil (file : List α) (offset : ℕ) : overwrite file offset [] = file := rfl

theorem overwrite_of_ne_nil (file : List α) (offset : ℕ) (h : cells ≠ []) :
    overwrite file offset cells =
      file.takeD offset default ++ cells ++ file.drop (offset + cells.length) := by
  cases cells with
  | nil => exact absurd rfl h
  | cons cell cells => rfl

theorem overwrite_all (h : cells.length = file.length) : overwrite file 0 cells = cells := by
  cases cells with
  | nil => exact length_eq_zero_iff.1 h.symm
  | cons cell cells =>
    rw [overwrite, Nat.zero_add, ← length_cons, h, drop_length]
    simp

section

variable (file) (offset)

/-- The cells from the end of the written region on are those of the file before. -/
theorem drop_overwrite (cells : List α) :
    (overwrite file offset cells).drop (offset + cells.length) =
      file.drop (offset + cells.length) := by
  by_cases h : cells = []
  · rw [h, overwrite_nil]
  · rw [overwrite_of_ne_nil file offset h]
    exact drop_left' (by rw [length_append, takeD_length])

theorem takeD_overwrite (h : cells ≠ []) :
    (overwrite file offset cells).takeD (offset + cells.length) default =
      file.takeD offset default ++ cells := by
  have hlength : (file.takeD offset default ++ cells).length = offset + cells.length := by
    rw [length_append, takeD_length]
  rw [overwrite_of_ne_nil file offset h,
    takeD_eq_take _ (by rw [length_append, hlength]; exact Nat.le_add_right _ _)]
  exact take_left' hlength

/-- **A write that continues where another ended** is one write of both. -/
theorem overwrite_overwrite (cells more : List α) :
    overwrite (overwrite file offset cells) (offset + cells.length) more =
      overwrite file offset (cells ++ more) := by
  by_cases hcells : cells = []
  · rw [hcells, overwrite_nil, nil_append, length_nil, Nat.add_zero]
  by_cases hmore : more = []
  · rw [hmore, overwrite_nil, append_nil]
  have hend : (overwrite file offset cells).drop (offset + cells.length + more.length) =
      file.drop (offset + cells.length + more.length) := by
    rw [← drop_drop, drop_overwrite, drop_drop]
  rw [overwrite_of_ne_nil _ _ hmore, takeD_overwrite file offset hcells, hend,
    overwrite_of_ne_nil file offset (by simp [hcells]), length_append, Nat.add_assoc,
    append_assoc _ cells more]

/-- The written cells stand where they were written. -/
theorem holds_overwrite (cells : List α) : Holds (overwrite file offset cells) offset cells := by
  by_cases h : cells = []
  · rw [h]
    exact holds_nil _ _
  · rw [Holds, overwrite_of_ne_nil file offset h, append_assoc,
      drop_left' (by rw [takeD_length]), take_left' rfl]

end

/-- After the write of a part of the cells all of them stand there exactly if the others stood there
before. -/
theorem holds_overwrite_append_iff :
    Holds (overwrite file offset cells) offset (cells ++ more) ↔
    Holds file (offset + cells.length) more := by
  rw [holds_append_iff, and_iff_right (holds_overwrite file offset cells), Holds, drop_overwrite,
    Holds]

end Idhan.Overwrite
