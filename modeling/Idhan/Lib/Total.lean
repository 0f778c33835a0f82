import Mathlib.Tactic.Common

/-!
# Computations that return

A database statement either returns a new state or raises, and a raised error rolls the statement
back.  For a statement built from nested statements the useful notion is total correctness:
`Succeeds x Q` says that `x` returns, and that what it returns satisfies `Q`.

* `Succeeds.bind`: sequencing.
* `Succeeds.foldlM`: a loop over a list, with an invariant that reads the part of the list that is
  still to come.
* `Succeeds.of_ok`: what is known of a computation is known of its result.

`Returns x Q` is the partial form: if `x` returns, what it returns satisfies `Q`.  `Meets P x Q`
adds that `x` does return if `P` holds.
-/

namespace Idhan

open List

variable {ε α β γ : Type} {x : Except ε α} {Q : α → Prop} {f : α → Except ε β}

/-- The computation returns a value, and the value satisfies `Q`. -/
def Succeeds (x : Except ε α) (Q : α → Prop) : Prop :=
  ∃ a, x = .ok a ∧ Q a

namespace Succeeds

variable {x : Except ε α} {a : α}

theorem ok (h : Q a) : Succeeds (.ok a : Except ε α) Q :=
  ⟨a, rfl, h⟩

theorem mono {P Q : α → Prop} (hx : Succeeds x P) (h : ∀ a, P a → Q a) :
    Succeeds x Q := by
  obtain ⟨a, ha, hP⟩ := hx
  exact ⟨a, ha, h a hP⟩

theorem bind {P : α → Prop} {Q : β → Prop} (hx : Succeeds x P) (hf : ∀ a, P a → Succeeds (f a) Q) :
    Succeeds (x >>= f) Q := by
  obtain ⟨a, rfl, hP⟩ := hx
  exact hf a hP

/-- What is known of a computation is known of its result. -/
theorem of_ok (hx : Succeeds x Q) (h : x = .ok a) : Q a := by
  obtain ⟨b, hb, hQ⟩ := hx
  rw [h] at hb
  rw [Except.ok.inj hb]
  exact hQ

/-- A computation that succeeds raises nothing. -/
theorem ne_error {e : ε} (hx : Succeeds x Q) : x ≠ .error e := by
  obtain ⟨b, hb, _⟩ := hx
  rw [hb]
  exact fun h => nomatch h

/-- A loop: the invariant `I` reads the rows still to come and the state reached. -/
theorem foldlM {f : α → β → Except ε α} (I : List β → α → Prop) :
    ∀ {l : List β} {a : α}, I l a → (∀ b l a, I (b :: l) a → Succeeds (f a b) (I l)) →
      Succeeds (l.foldlM f a) (I [])
  | [], _, h, _ => ok h
  | b :: l, a, h, step => by
    rw [foldlM_cons]
    exact bind (step b l a h) fun a' h' => foldlM I h' step

/-- A loop whose body keeps an invariant that does not read the rows. -/
theorem foldlM_of_forall {f : α → β → Except ε α} {I : α → Prop} {l : List β} (h : I a)
    (step : ∀ b ∈ l, ∀ a, I a → Succeeds (f a b) I) : Succeeds (l.foldlM f a) I := by
  have hI : Succeeds (l.foldlM f a) fun a' => (∀ b ∈ ([] : List β), b ∈ l) ∧ I a' := by
    refine foldlM (fun rest a => (∀ b ∈ rest, b ∈ l) ∧ I a) ⟨fun _ hb => hb, h⟩ ?_
    rintro b rest a ⟨hsub, ha⟩
    refine (step b (hsub b (mem_cons_self ..)) a ha).mono fun a' ha' => ⟨?_, ha'⟩
    exact fun c hc => hsub c (mem_cons_of_mem _ hc)
  exact hI.mono fun _ h => h.2

end Succeeds

/-- A sequence returns exactly when both of its parts do. -/
theorem bind_eq_ok_iff {b : β} : (x >>= f) = .ok b ↔ ∃ a, x = .ok a ∧ f a = .ok b := by
  cases x with
  | error e =>
    constructor
    · intro h
      cases h
    · rintro ⟨_, h, _⟩
      cases h
  | ok a =>
    constructor
    · exact fun h => ⟨a, rfl, h⟩
    · rintro ⟨a', ha, h⟩
      rw [Except.ok.inj ha]
      exact h

/-- Another error changes nothing of what is returned. -/
theorem mapError_eq_ok_iff {δ : Type} {f : ε → δ} {a : α} : x.mapError f = .ok a ↔ x = .ok a := by
  cases x <;> simp [Except.mapError]

/-- If the computation returns a value, the value satisfies `Q`. -/
def Returns (x : Except ε α) (Q : α → Prop) : Prop :=
  ∀ a, x = .ok a → Q a

namespace Returns

theorem ok {a : α} (h : Q a) : Returns (.ok a : Except ε α) Q := by
  intro b hb
  rw [← Except.ok.inj hb]
  exact h

theorem error {e : ε} : Returns (.error e : Except ε α) Q :=
  fun _ h => nomatch h

theorem mono {x : Except ε α} {P Q : α → Prop} (hx : Returns x P) (h : ∀ a, P a → Q a) :
    Returns x Q :=
  fun a ha => h a (hx a ha)

theorem bind {x : Except ε α} {P : α → Prop} {Q : β → Prop} (hx : Returns x P)
    (hf : ∀ a, P a → Returns (f a) Q) : Returns (x >>= f) Q := by
  intro b hb
  obtain ⟨a, ha, hb⟩ := bind_eq_ok_iff.1 hb
  exact hf a (hx a ha) b hb

/-- A loop whose body keeps an invariant. -/
theorem foldlM {f : α → β → Except ε α} {I : α → Prop} {l : List β} {a : α} (h : I a)
    (step : ∀ b ∈ l, ∀ a, I a → Returns (f a b) I) : Returns (l.foldlM f a) I := by
  induction l generalizing a with
  | nil => exact ok h
  | cons b l ih =>
    rw [foldlM_cons]
    refine bind (step b (mem_cons_self ..) a h) fun a' h' => ?_
    exact ih h' fun c hc => step c (mem_cons_of_mem _ hc)

end Returns

theorem Succeeds.returns (h : Succeeds x Q) : Returns x Q :=
  fun _ ha => h.of_ok ha

theorem Returns.succeeds (h : Returns x Q) (hok : ∃ a, x = .ok a) : Succeeds x Q := by
  obtain ⟨a, ha⟩ := hok
  exact ⟨a, ha, h a ha⟩

theorem isOk_iff : x.isOk ↔ ∃ a, x = .ok a := by
  cases x <;> simp [Except.isOk, Except.toBool]

/-- A sequence returns exactly when its first part does, if its second part always returns. -/
theorem isOk_bind_iff_of_forall (hf : ∀ a, (f a).isOk) : (x >>= f).isOk ↔ x.isOk := by
  cases x with
  | error e => exact Iff.rfl
  | ok a => exact iff_of_true (hf a) rfl

/-- A loop returns exactly when every round does, if what a round needs does not depend on the
rounds before. -/
theorem isOk_foldlM_iff {f : α → β → Except ε α} {P : β → Prop} (hf : ∀ a b, (f a b).isOk ↔ P b) :
    ∀ {l : List β} {a : α}, (l.foldlM f a).isOk ↔ ∀ b ∈ l, P b
  | [], a => iff_of_true rfl (by simp)
  | b :: l, a => by
    rw [foldlM_cons, forall_mem_cons, ← hf a b]
    cases f a b with
    | error e => exact iff_of_false (fun h => nomatch h) (fun h => nomatch h.1)
    | ok a' => exact (isOk_foldlM_iff hf).trans (and_iff_right rfl).symm

/-- Whatever the computation returns satisfies `Q`, and it returns if `P` holds. -/
def Meets (P : Prop) (x : Except ε α) (Q : α → Prop) : Prop :=
  Returns x Q ∧ (P → ∃ a, x = .ok a)

namespace Meets

variable {P : Prop} {Q : α → Prop}

theorem ok {a : α} (h : Q a) : Meets P (.ok a : Except ε α) Q :=
  ⟨.ok h, fun _ => ⟨a, rfl⟩⟩

theorem mono {R : α → Prop} (hx : Meets P x Q) (h : ∀ a, Q a → R a) : Meets P x R :=
  ⟨hx.1.mono h, hx.2⟩

theorem bind {R : β → Prop} (hx : Meets P x Q) (hf : ∀ a, Q a → Meets P (f a) R) :
    Meets P (x >>= f) R := by
  refine ⟨hx.1.bind fun a ha => (hf a ha).1, fun hP => ?_⟩
  obtain ⟨a, ha⟩ := hx.2 hP
  obtain ⟨b, hb⟩ := (hf a (hx.1 a ha)).2 hP
  exact ⟨b, bind_eq_ok_iff.2 ⟨a, ha, hb⟩⟩

end Meets

end Idhan
