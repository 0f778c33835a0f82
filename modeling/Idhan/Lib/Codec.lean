import Mathlib.Data.Nat.Notation
import Mathlib.Tactic.Common
import Mathlib.Tactic.Ring
import Idhan.Lib.Total

/-!
# Reading back what was written

A reader takes what it needs from the front of some bytes and leaves the rest, or fails.  `Reads r
bytes a` says that `r` takes exactly `bytes` and returns `a`, whatever follows.  This is the form in
which a reader and a writer fit together: sequences of readers read sequences of encodings.

* `Reads.bind`: one reader after the other.
* `Reads.many`: a counted loop reads a list.
* `leValue_leBytes`, `reads_unsigned`: numbers of a fixed width, the least significant byte first.

`Takes r P` says what is known of the values of a reader on whatever bytes, and of the bytes that it
takes for them.
-/

namespace Idhan

open List

/-- A computation that reads from the front of some bytes. -/
abbrev Reader (ε : Type) := StateT (List UInt8) (Except ε)

variable {ε α β : Type} {r : Reader ε α}

/-- The reader takes exactly these bytes, and returns the value. -/
def Reads (r : Reader ε α) (bytes : List UInt8) (a : α) : Prop :=
  ∀ rest, r.run (bytes ++ rest) = .ok (a, rest)

namespace Reads

theorem pure (a : α) : Reads (Pure.pure a : Reader ε α) [] a :=
  fun _ => rfl

theorem bind {f : α → Reader ε β} {bytes bytes' : List UInt8} {a : α} {b : β}
    (hr : Reads r bytes a) (hf : Reads (f a) bytes' b) : Reads (r >>= f) (bytes ++ bytes') b := by
  intro rest
  rw [StateT.run_bind, append_assoc, hr]
  exact hf rest

/-- A reader whose result is only rearranged. -/
theorem bind_pure {f : α → β} {bytes : List UInt8} {a : α} (hr : Reads r bytes a) :
    Reads (r >>= fun a => Pure.pure (f a)) bytes (f a) := by
  intro rest
  rw [StateT.run_bind, hr]
  rfl

end Reads

/-- Whatever the reader returns, `P` holds of it and of the bytes that were taken for it. -/
def Takes (r : Reader ε α) (P : List UInt8 → α → Prop) : Prop :=
  ∀ bytes, Returns (r.run bytes) fun out => ∃ taken, bytes = taken ++ out.2 ∧ P taken out.1

namespace Takes

theorem pure {P : List UInt8 → α → Prop} {a : α} (h : P [] a) :
    Takes (Pure.pure a : Reader ε α) P :=
  fun _ => Returns.ok ⟨[], rfl, h⟩

theorem mono {P Q : List UInt8 → α → Prop} (h : Takes r P)
    (hPQ : ∀ taken a, P taken a → Q taken a) : Takes r Q := by
  refine fun bytes => (h bytes).mono fun out hout => ?_
  obtain ⟨taken, hbytes, hP⟩ := hout
  exact ⟨taken, hbytes, hPQ _ _ hP⟩

theorem bind {f : α → Reader ε β} {P : List UInt8 → α → Prop} {Q : List UInt8 → β → Prop}
    (hr : Takes r P) (hf : ∀ taken a, P taken a → Takes (f a) fun more b => Q (taken ++ more) b) :
    Takes (r >>= f) Q := by
  intro bytes
  rw [StateT.run_bind]
  refine (hr bytes).bind fun out hout => ?_
  obtain ⟨taken, rfl, hP⟩ := hout
  refine (hf taken out.1 hP out.2).mono fun out' hout' => ?_
  obtain ⟨more, hmore, hQ⟩ := hout'
  exact ⟨taken ++ more, by rw [hmore, append_assoc], hQ⟩

end Takes

/-! ## Blocks of bytes -/

/-- The next `n` bytes, or the error if there are less. -/
def takeBytes (n : ℕ) (error : ε) : Reader ε (List UInt8) := fun bytes =>
  if bytes.length < n then .error error else .ok (bytes.take n, bytes.drop n)

theorem reads_takeBytes (bytes : List UInt8) (error : ε) :
    Reads (takeBytes bytes.length error) bytes bytes := by
  intro rest
  have hlen : ¬ (bytes ++ rest).length < bytes.length := by
    rw [length_append]
    omega
  change (if _ then _ else _) = _
  rw [if_neg hlen, take_left, drop_left]

theorem takes_takeBytes (n : ℕ) (error : ε) :
    Takes (takeBytes n error) fun taken bytes => taken = bytes ∧ bytes.length = n := by
  intro bytes
  change Returns (if _ then _ else _) _
  split_ifs with h
  · exact Returns.error
  · exact Returns.ok ⟨_, (take_append_drop n bytes).symm, rfl,
      length_take_of_le (Nat.le_of_not_lt h)⟩

/-! ## Loops -/

/-- A loop of `n` rounds. -/
def readMany (r : Reader ε α) : ℕ → Reader ε (List α)
  | 0 => return []
  | n + 1 => do
    let a ← r
    let as ← readMany r n
    return a :: as

/-- **A counted loop** reads a list of which the reader reads every element. -/
theorem Reads.many {encode : β → List UInt8} (value : β → α) {xs : List β}
    (h : ∀ x ∈ xs, Reads r (encode x) (value x)) :
    Reads (readMany r xs.length) (xs.flatMap encode) (xs.map value) := by
  induction xs with
  | nil => exact Reads.pure []
  | cons x xs ih =>
    rw [flatMap_cons, map_cons]
    have hx := h x (mem_cons_self ..)
    exact hx.bind (ih fun y hy => h y (mem_cons_of_mem x hy)).bind_pure

/-- A counted loop takes the encodings of what it returns, if the reader does. -/
theorem Takes.many {encode : α → List UInt8} {P : α → Prop}
    (h : Takes r fun taken a => taken = encode a ∧ P a) (n : ℕ) :
    Takes (readMany r n) fun taken as => taken = as.flatMap encode ∧ as.length = n ∧ ∀ a ∈ as,
    P a := by
  induction n with
  | zero => exact Takes.pure ⟨rfl, rfl, by simp⟩
  | succ n ih =>
    refine h.bind fun _ a ha => ih.bind fun _ as has => Takes.pure ⟨?_, ?_, ?_⟩
    · rw [ha.1, has.1, append_nil, flatMap_cons]
    · rw [length_cons, has.2.1]
    · exact forall_mem_cons.2 ⟨ha.2, has.2.2⟩

/-! ## Numbers -/

/-- The `width` low bytes of a number, the least significant byte first. -/
def leBytes : ℕ → ℕ → List UInt8
  | 0, _ => []
  | width + 1, n => UInt8.ofNat n :: leBytes width (n / 256)

/-- The number with these bytes. -/
def leValue : List UInt8 → ℕ
  | [] => 0
  | byte :: bytes => byte.toNat + 256 * leValue bytes

@[simp] theorem length_leBytes (width n : ℕ) : (leBytes width n).length = width := by
  induction width generalizing n with
  | zero => rfl
  | succ width ih => rw [leBytes, length_cons, ih]

theorem leValue_leBytes (width n : ℕ) : leValue (leBytes width n) = n % 256 ^ width := by
  induction width generalizing n with
  | zero => rw [leBytes, leValue, pow_zero, Nat.mod_one]
  | succ width ih =>
    rw [leBytes, leValue, ih, pow_succ', Nat.mod_mul]
    rfl

/-- The most significant byte first. -/
def beBytes (width n : ℕ) : List UInt8 :=
  (leBytes width n).reverse

def beValue (bytes : List UInt8) : ℕ :=
  leValue bytes.reverse

@[simp] theorem length_beBytes (width n : ℕ) : (beBytes width n).length = width := by
  rw [beBytes, length_reverse, length_leBytes]

theorem beValue_beBytes {width n : ℕ} (h : n < 256 ^ width) : beValue (beBytes width n) = n := by
  rw [beValue, beBytes, reverse_reverse, leValue_leBytes, Nat.mod_eq_of_lt h]

/-- An unsigned number of `width` bytes. -/
def takeUnsigned (width : ℕ) (error : ε) : Reader ε ℕ := do
  let bytes ← takeBytes width error
  return leValue bytes

/-- A number is read back as far as it fits. -/
theorem reads_unsigned_mod (width n : ℕ) (error : ε) :
    Reads (takeUnsigned width error) (leBytes width n) (n % 256 ^ width) := by
  have hbytes := reads_takeBytes (leBytes width n) error
  rw [length_leBytes] at hbytes
  have hread : Reads (takeUnsigned width error) (leBytes width n) (leValue (leBytes width n)) :=
    hbytes.bind_pure
  rwa [leValue_leBytes] at hread

/-- A number that fits is read back. -/
theorem reads_unsigned (width : ℕ) {n : ℕ} (error : ε) (h : n < 256 ^ width) :
    Reads (takeUnsigned width error) (leBytes width n) n := by
  have hread := reads_unsigned_mod width n error
  rwa [Nat.mod_eq_of_lt h] at hread

theorem leValue_lt (bytes : List UInt8) : leValue bytes < 256 ^ bytes.length := by
  induction bytes with
  | nil => exact Nat.one_pos
  | cons byte bytes ih =>
    have hbyte := byte.toNat_lt
    rw [leValue, length_cons, pow_succ']
    omega

theorem leBytes_leValue (bytes : List UInt8) : leBytes bytes.length (leValue bytes) = bytes := by
  induction bytes with
  | nil => rfl
  | cons byte bytes ih =>
    have hbyte := byte.toNat_lt
    have hrest : (byte.toNat + 256 * leValue bytes) / 256 = leValue bytes := by omega
    rw [length_cons, leBytes, leValue, hrest, ih, UInt8.ofNat_add, UInt8.ofNat_mul]
    simp

theorem takes_unsigned (width : ℕ) (error : ε) :
    Takes (takeUnsigned width error) fun taken n => taken = leBytes width n ∧ n < 256 ^ width := by
  refine (takes_takeBytes width error).bind fun taken bytes hbytes => Takes.pure ?_
  obtain ⟨rfl, rfl⟩ := hbytes
  exact ⟨by rw [append_nil, leBytes_leValue], leValue_lt taken⟩

end Idhan
