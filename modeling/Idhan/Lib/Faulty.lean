import Mathlib.Tactic.Common

/-!
# Programs that can stop at any step

A program works on a state in steps.  Each step can be refused before it has an effect, or be cut
off after it, and then the program stops and leaves the state as it is.  Which of the coming steps
fail is given by a list; the steps behind its end do not fail.

* `Faulty`: the programs, a monad.
* `Faulty.step`: one step, which can also fail by itself, with an effect.
* `Faulty.Triple p P Q E`: if `P` holds before `p`, then `Q` holds if it returns and `E` if it
  stops, whatever fails.
* `Faulty.Triple.bind`, `Faulty.Triple.step`: the rules.
* `Faulty.Keeps`: the program keeps an invariant.
-/

namespace Idhan

/-- What happens to a step from outside. -/
inductive Fault where
  | no
  | before
  | after
  deriving DecidableEq, Repr

/-- A program with results in `α`, on states in `σ`. -/
def Faulty (ε σ α : Type) : Type :=
  σ → List Fault → Except ε α × σ × List Fault

namespace Faulty

variable {ε σ α β : Type} {s' s : σ} {p : Faulty ε σ α} {faults' faults : List Fault}
  {f : α → Faulty ε σ β}

instance : Monad (Faulty ε σ) where
  pure a := fun s faults => (.ok a, s, faults)
  bind p f := fun s faults =>
    match p s faults with
    | (.ok a, s', faults') => f a s' faults'
    | (.error e, s', faults') => (.error e, s', faults')

/-- One step.  If it is refused or cut off, the program stops with `stop`. -/
def step (stop : ε) (f : σ → Except ε α × σ) : Faulty ε σ α := fun s faults =>
  match faults.head?.getD .no with
  | .no => ((f s).1, (f s).2, faults.tail)
  | .before => (.error stop, s, faults.tail)
  | .after => (.error stop, (f s).2, faults.tail)

/-- One step that leaves the state if it fails by itself. -/
def attempt (stop : ε) (f : σ → Except ε (α × σ)) : Faulty ε σ α :=
  step stop fun s =>
    match f s with
    | .ok (a, s') => (.ok a, s')
    | .error e => (.error e, s)

theorem bind_run_of_ok {a : α}
    (h : p s faults = (.ok a, s', faults')) : (p >>= f) s faults = f a s' faults' := by
  simp only [bind, h]

theorem bind_run_of_error {e : ε}
    (h : p s faults = (.error e, s', faults')) : (p >>= f) s faults = (.error e, s', faults') := by
  simp only [bind, h]

/-- A program of two parts returns only where both of them return. -/
theorem eq_ok_of_bind {b : β} {s'' : σ} {faults'' : List Fault}
    (h : (p >>= f) s faults = (.ok b, s'', faults'')) :
    ∃ a s' faults', p s faults = (.ok a, s', faults') ∧
    f a s' faults' = (.ok b, s'', faults'') := by
  rcases hrun : p s faults with ⟨_ | a, s', faults'⟩
  · rw [bind_run_of_error hrun] at h
    cases h
  · exact ⟨a, s', faults', rfl, bind_run_of_ok (f := f) hrun ▸ h⟩

/-- A step that returns has not been refused or cut off. -/
theorem eq_ok_of_step {stop : ε} {f : σ → Except ε α × σ} {a : α}
    (h : step stop f s faults = (.ok a, s', faults')) : f s = (.ok a, s') := by
  unfold step at h
  split at h
  · obtain ⟨hresult, hrest⟩ := Prod.mk.inj h
    exact Prod.ext hresult (Prod.mk.inj hrest).1
  · cases h
  · cases h

theorem eq_ok_of_attempt {stop : ε} {f : σ → Except ε (α × σ)} {a : α}
    (h : attempt stop f s faults = (.ok a, s', faults')) : f s = .ok (a, s') := by
  have hstep := eq_ok_of_step h
  split at hstep
  · next hok =>
    cases hstep
    exact hok
  · cases hstep

/-- What holds after a program that may stop anywhere. -/
def Triple (p : Faulty ε σ α) (P : σ → Prop) (Q : α → σ → Prop) (E : σ → Prop) : Prop :=
  ∀ s faults, P s → (∀ a s' faults', p s faults = (.ok a, s', faults') → Q a s') ∧
    ∀ e s' faults', p s faults = (.error e, s', faults') → E s'

namespace Triple

variable {P : σ → Prop} {Q : α → σ → Prop} {E : σ → Prop} {stop : ε} {p : Faulty ε σ α}

theorem pure {a : α} (h : ∀ s, P s → Q a s) : Triple (Pure.pure a : Faulty ε σ α) P Q E := by
  intro s faults hs
  constructor
  · intro b s' faults' hrun
    cases hrun
    exact h s hs
  · intro e s' faults' hrun
    cases hrun

theorem bind {f : α → Faulty ε σ β} {R : β → σ → Prop} (hp : Triple p P Q E)
    (hf : ∀ a, Triple (f a) (Q a) R E) : Triple (p >>= f) P R E := by
  intro s faults hs
  obtain ⟨hok, herror⟩ := hp s faults hs
  rcases hrun : p s faults with ⟨_ | a, s', faults'⟩
  · rw [bind_run_of_error hrun]
    refine ⟨fun b s'' faults'' h => ?_, fun e s'' faults'' h => ?_⟩
    · cases h
    · cases h
      exact herror _ _ _ hrun
  · rw [bind_run_of_ok hrun]
    exact hf a s' faults' (hok a s' faults' hrun)

/-- A step: what it leaves, if it returns, if it fails by itself, and if it is refused or cut
off. -/
theorem step {f : σ → Except ε α × σ} (hbefore : ∀ s, P s → E s) (hafter : ∀ s, P s → E (f s).2)
    (hok : ∀ s a, P s → (f s).1 = .ok a → Q a (f s).2) : Triple (Faulty.step stop f) P Q E := by
  intro s faults hs
  unfold Faulty.step
  split
  · refine ⟨fun a s' faults' h => ?_, fun e s' faults' h => ?_⟩
    · obtain ⟨hresult, hrest⟩ := Prod.mk.inj h
      rw [← (Prod.mk.inj hrest).1]
      exact hok s a hs hresult
    · rw [← (Prod.mk.inj (Prod.mk.inj h).2).1]
      exact hafter s hs
  · refine ⟨fun a s' faults' h => ?_, fun e s' faults' h => ?_⟩
    · cases h
    · cases h
      exact hbefore s hs
  · refine ⟨fun a s' faults' h => ?_, fun e s' faults' h => ?_⟩
    · cases h
    · cases h
      exact hafter s hs

/-- A step that leaves the state if it fails by itself. -/
theorem attempt {f : σ → Except ε (α × σ)} (hP : ∀ s, P s → E s)
    (hf : ∀ s a s', P s → f s = .ok (a, s') → Q a s' ∧ E s') :
    Triple (Faulty.attempt stop f) P Q E := by
  refine .step hP (fun s hs => ?_) fun s a hs hresult => ?_
  · split
    · next a s' hresult => exact (hf s a s' hs hresult).2
    · exact hP s hs
  · split at hresult
    · next b s' hok =>
      cases hresult
      exact (hf s a s' hs hok).1
    · cases hresult

/-- A step that reads. -/
theorem read {f : σ → Except ε α} (hP : ∀ s, P s → E s) (hf : ∀ s a, P s → f s = .ok a → Q a s) :
    Triple (Faulty.attempt stop fun s => (f s).map (·, s)) P Q E := by
  refine attempt hP fun s a s' hs hresult => ?_
  cases hok : f s with
  | error e =>
    rw [hok] at hresult
    cases hresult
  | ok b =>
    rw [hok] at hresult
    cases hresult
    exact ⟨hf s a hs hok, hP s hs⟩

/-- A step that changes the state. -/
theorem change {f : σ → Except ε σ} {R : σ → Prop} (hP : ∀ s, P s → E s) (hR : ∀ s, R s → E s)
    (hf : ∀ s s', P s → f s = .ok s' → R s') :
    Triple (Faulty.attempt stop fun s => (f s).map ((), ·)) P (fun _ => R) E := by
  refine attempt hP fun s _ s' hs hresult => ?_
  cases hok : f s with
  | error e =>
    rw [hok] at hresult
    cases hresult
  | ok s'' =>
    rw [hok] at hresult
    cases hresult
    exact ⟨hf s s' hs hok, hR s' (hf s s' hs hok)⟩

/-- What holds after the program, however it ends. -/
theorem run {R : σ → Prop} (h : Triple p P Q E) (hQ : ∀ a s, Q a s → R s) (hE : ∀ s, E s → R s)
    {s : σ} (hs : P s) (faults : List Fault) : R (p s faults).2.1 := by
  obtain ⟨hok, herror⟩ := h s faults hs
  rcases hrun : p s faults with ⟨_ | a, s', faults'⟩
  · exact hE _ (herror _ _ _ hrun)
  · exact hQ _ _ (hok _ _ _ hrun)

end Triple

/-- Whatever fails, the program keeps an invariant of the state. -/
def Keeps (p : Faulty ε σ α) (P : σ → Prop) : Prop :=
  Triple p P (fun _ => P) P

namespace Keeps

variable {P : σ → Prop} {stop : ε} {p : Faulty ε σ α}

theorem pure (a : α) : Keeps (Pure.pure a : Faulty ε σ α) P :=
  Triple.pure fun _ h => h

theorem bind {f : α → Faulty ε σ β} (hp : Keeps p P) (hf : ∀ a, Keeps (f a) P) :
    Keeps (p >>= f) P :=
  Triple.bind hp hf

theorem step {f : σ → Except ε α × σ} (h : ∀ s, P s → P (f s).2) : Keeps (Faulty.step stop f) P :=
  Triple.step (fun _ hs => hs) h fun s _ hs _ => h s hs

theorem attempt {f : σ → Except ε (α × σ)} (h : ∀ s a s', P s → f s = .ok (a, s') → P s') :
    Keeps (Faulty.attempt stop f) P :=
  Triple.attempt (fun _ hs => hs) fun s a s' hs hresult =>
    ⟨h s a s' hs hresult, h s a s' hs hresult⟩

/-- A step that reads. -/
theorem read (f : σ → Except ε α) : Keeps (Faulty.attempt stop fun s => (f s).map (·, s)) P :=
  Triple.read (fun _ hs => hs) fun _ _ hs _ => hs

theorem run (h : Keeps p P) {s : σ} (hs : P s) (faults : List Fault) : P (p s faults).2.1 :=
  Triple.run h (fun _ _ hs => hs) (fun _ hs => hs) hs faults

end Keeps

end Faulty

end Idhan
