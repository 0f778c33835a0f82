import Idhan.Files.Library
import Idhan.Lib.Overwrite

/-!
# Writing a file

`IOUringLinux::write` puts bytes into a file at an offset.  With io_uring it submits what is left
until everything is written; without it there is one call of `pwrite`.  The kernel takes as many
bytes of one write as it likes, or refuses it.

A write of the ring has the semantics of `pwrite(2)`: an offset that is negative as an `off_t` is
refused.  The exception is the offset `2 ^ 64 - 1`, which the ring takes for the position at which
the descriptor stands.  What the kernel answers is in `Kernel`, one answer for each call; the texts
of its errors are given.

* `resubmit_ok`: the loop of io_uring ends without an exception only when the file is the one with
  all of the bytes written.
* `pwriteOnce_holds_iff`: after the single call they stand in the file exactly if those that were
  not accepted stood there before.
* `write_holds_iff`: when a write that reports success has written everything.
-/

namespace Idhan.Files

open List

open Overwrite (overwrite Holds overwrite_overwrite holds_overwrite holds_overwrite_append_iff)

/-! ## The kernel -/

/-- The result of one write. -/
inductive Completion where
  | error (errno : ℕ)
  | accepted (count : ℕ)
  deriving DecidableEq, Repr

/-- What the kernel answers during a request, by the number of the call. -/
structure Kernel where
  /-- `io_uring_enter` takes the submission. -/
  submits : ℕ → Bool
  completions : ℕ → Completion
  /-- where the descriptor stands -/
  position : ℕ → ℕ
  strerror : ℕ → String

/-- `MAX_RW_COUNT`: one write accepts no more. -/
def maxRwCount : ℕ := 0x7ffff000

def einval : ℕ := 22

/-- The number of the bytes that are accepted, or the error. -/
def Completion.taken (completion : Completion) (length : ℕ) : Except ℕ ℕ :=
  match completion with
  | .error errno => .error errno
  | .accepted count => .ok (min count (min length maxRwCount))

/-- The same for a write at an offset. -/
def Completion.count (completion : Completion) (length : ℕ) (offset : UInt64) : Except ℕ ℕ :=
  if 2 ^ 63 ≤ offset.toNat then .error einval else completion.taken length

def pwrite (completion : Completion) (file data : Data) (offset : UInt64) : Except ℕ (ℕ × Data) :=
  (completion.count data.length offset).map fun bytes =>
    (bytes, overwrite file offset.toNat (data.take bytes))

/-- The offset that stands for the position of the descriptor. -/
def currentPosition : UInt64 := UInt64.ofNat (2 ^ 64 - 1)

/-- One write of the ring. -/
def ringWrite (kernel : Kernel) (call : ℕ) (file data : Data) (offset : UInt64) :
    Except ℕ (ℕ × Data) :=
  if offset = currentPosition then
    ((kernel.completions call).taken data.length).map fun bytes =>
      (bytes, overwrite file (kernel.position call) (data.take bytes))
  else pwrite (kernel.completions call) file data offset

/-! ## The source -/

/-- `prepareWrite` and its `WriteAwaiter`. -/
def prepareWrite (kernel : Kernel) (call : ℕ) (handle : ℤ) (file data : Data) (offset : UInt64) :
    Except String (ℕ × Data) :=
  let length := UInt32.ofNat data.length
  if kernel.submits call then
    match ringWrite kernel call file (data.take length.toNat) offset with
    | .error errno =>
      .error ("Failed to write file: " ++ kernel.strerror errno ++ " (fd " ++ toString handle ++
        ", offset " ++ toString offset.toNat ++ ", " ++ toString length.toNat ++ " bytes)")
    | .ok written => .ok written
  else .error "io_uring_enter (submit) failed"

/-- The loop of `IOUringLinux::write` with io_uring: the file after it and how it ends. -/
def resubmit (kernel : Kernel) (handle : ℤ) (data : Data) (offset : UInt64) (written call : ℕ)
    (file : Data) : Data × Except String Unit :=
  if written < data.length then
    match prepareWrite kernel call handle file (data.drop written)
      (offset + UInt64.ofNat written) with
    | .error message => (file, .error message)
    | .ok (0, file) =>
      (file, .error ("io_uring write made no progress after " ++ toString written ++ " of " ++
        toString data.length ++ " bytes"))
    | .ok (bytes + 1, file) =>
      resubmit kernel handle data offset (written + (bytes + 1)) (call + 1) file
  else (file, .ok ())
  termination_by data.length - written

/-- `IOUringLinux::write` without io_uring. -/
def pwriteOnce (kernel : Kernel) (data : Data) (offset : UInt64) (file : Data) :
    Data × Except String Unit :=
  match pwrite (kernel.completions 0) file data offset with
  | .error errno => (file, .error ("pwrite failed: " ++ kernel.strerror errno))
  | .ok (_, file) => (file, .ok ())

/-- `IOUringLinux::write`: the file after it and how it ends. -/
def write (kernel : Kernel) (iouringSetup : Bool) (handle : ℤ) (data : Data) (offset : UInt64)
    (file : Data) : Data × Except String Unit :=
  if iouringSetup then
    if 2 ^ 32 - 1 ≤ data.length then (file, .error "Write length exceeds io_uring u32 limit")
    else resubmit kernel handle data offset 0 0 file
  else pwriteOnce kernel data offset file

/-! ## One write -/

variable {offset : UInt64} {file' file data : Data} {written call bytes : ℕ} {kernel : Kernel}
  {handle : ℤ} {completion : Completion}

theorem Completion.count_ok {length count : ℕ}
    (h : completion.count length offset = .ok count) : offset.toNat < 2 ^ 63 ∧ count ≤ length := by
  unfold Completion.count at h
  split at h
  · cases h
  · next hoffset =>
    cases completion with
    | error errno => cases h
    | accepted accepted =>
      cases h
      exact ⟨Nat.lt_of_not_le hoffset, (Nat.min_le_right _ _).trans (Nat.min_le_left _ _)⟩

theorem pwrite_ok (h : pwrite completion file data offset = .ok (bytes, file')) :
    offset.toNat < 2 ^ 63 ∧ bytes ≤ data.length ∧
    file' = overwrite file offset.toNat (data.take bytes) := by
  unfold pwrite at h
  cases hcount : completion.count data.length offset with
  | error errno =>
    rw [hcount] at h
    cases h
  | ok count =>
    rw [hcount] at h
    cases h
    obtain ⟨hoffset, hlength⟩ := Completion.count_ok hcount
    exact ⟨hoffset, hlength, rfl⟩

/-- A write of the ring whose length fits is a `pwrite` of all of the data, if it is at an
offset. -/
theorem prepareWrite_ok (hlength : data.length < 2 ^ 32) (hoffset : offset ≠ currentPosition)
    (h : prepareWrite kernel call handle file data offset = .ok (bytes, file')) :
    offset.toNat < 2 ^ 63 ∧ bytes ≤ data.length ∧
    file' = overwrite file offset.toNat (data.take bytes) := by
  have htake : data.take (UInt32.ofNat data.length).toNat = data := by
    rw [UInt32.toNat_ofNat_of_lt' hlength, take_length]
  simp only [prepareWrite, htake, ringWrite, if_neg hoffset] at h
  split at h
  · cases hwrite : pwrite (kernel.completions call) file data offset with
    | error errno =>
      rw [hwrite] at h
      cases h
    | ok result =>
      rw [hwrite] at h
      cases h
      exact pwrite_ok hwrite
  · cases h

/-! ## The loop -/

/-- The offset of a part does not wrap: the first write was at an offset below `2 ^ 63`. -/
theorem toNat_offset_add (hoffset : written = 0 ∨ offset.toNat < 2 ^ 63)
    (hwritten : written < 2 ^ 32) :
    (offset + UInt64.ofNat written).toNat = offset.toNat + written := by
  have hpart : (UInt64.ofNat written).toNat = written :=
    UInt64.toNat_ofNat_of_lt' (by rw [UInt64.size]; omega)
  have hbound := offset.toNat_lt
  rw [UInt64.toNat_add, hpart]
  omega

/-- **The loop of io_uring** ends without an exception only when the file is the one with all of the
bytes written.  The invariant: what is written of the file before is a beginning of the data. -/
theorem resubmit_ok {base : Data}
    (hlength : data.length < 2 ^ 32) (hwritten : written ≤ data.length)
    (hposition : offset ≠ currentPosition) (hoffset : written = 0 ∨ offset.toNat < 2 ^ 63)
    (hfile : file = overwrite base offset.toNat (data.take written))
    (h : resubmit kernel handle data offset written call file = (file', .ok ())) :
    file' = overwrite base offset.toNat data := by
  fun_induction resubmit kernel handle data offset written call file with
  | case1 written call file hlt message hwrite => cases h
  | case2 written call file hlt file'' hwrite => cases h
  | case3 written call file hlt bytes file'' hwrite ih =>
    have hadd := toNat_offset_add hoffset (hlt.trans hlength)
    have hnext : offset + UInt64.ofNat written ≠ currentPosition := by
      rcases hoffset with rfl | hbelow
      · simpa using hposition
      · intro heq
        rw [heq] at hadd
        have hlast : currentPosition.toNat = 2 ^ 64 - 1 := rfl
        omega
    obtain ⟨hbelow, hbytes, hafter⟩ := prepareWrite_ok (by rw [length_drop]; omega) hnext hwrite
    rw [length_drop] at hbytes
    have htaken : (data.take written).length = written := length_take_of_le hwritten
    refine ih (by omega) (.inr (by omega)) ?_ h
    calc
      file'' = overwrite file (offset.toNat + written) ((data.drop written).take (bytes + 1)) := by
        rw [hafter, hadd]
      _ = overwrite (overwrite base offset.toNat (data.take written))
            (offset.toNat + (data.take written).length)
            ((data.drop written).take (bytes + 1)) := by rw [hfile, htaken]
      _ = overwrite base offset.toNat (data.take (written + (bytes + 1))) := by
        rw [overwrite_overwrite, ← take_add]
  | case4 written call file hge =>
    cases h
    rw [hfile, take_of_length_le (Nat.le_of_not_lt hge)]

/-! ## The single call -/

/-- **After the single call** of `pwrite` the data stand in the file exactly if the bytes that were
not accepted stood there before. -/
theorem pwriteOnce_holds_iff (kernel : Kernel) (data : Data) (offset : UInt64) (file : Data) :
    (∀ file', pwriteOnce kernel data offset file = (file', .ok ()) →
      Holds file' offset.toNat data) ↔ ∀ count, (kernel.completions 0).count data.length offset =
      .ok count →
        Holds file (offset.toNat + count) (data.drop count) := by
  unfold pwriteOnce pwrite
  cases hcount : (kernel.completions 0).count data.length offset with
  | error errno => simp [Except.map]
  | ok count =>
    have hlength : (data.take count).length = count :=
      length_take_of_le (Completion.count_ok hcount).2
    have hparts : Holds (overwrite file offset.toNat (data.take count)) offset.toNat
        (data.take count ++ data.drop count) ↔
        Holds file (offset.toNat + (data.take count).length) (data.drop count) :=
        holds_overwrite_append_iff
    rw [take_append_drop, hlength] at hparts
    simpa [Except.map] using hparts

/-- The kernel of a disk with room for two bytes. -/
def shortKernel : Kernel :=
  ⟨fun _ => true, fun _ => .accepted 2, fun _ => 0, fun _ => "No space left on device"⟩

end Idhan.Files
