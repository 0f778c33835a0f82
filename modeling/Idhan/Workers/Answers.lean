import Mathlib.Data.List.Count
import Mathlib.Data.List.Induction
import Idhan.Lib.Grouping
import Idhan.Lib.Table
import Idhan.Workers.Calls

/-!
# Every call is answered once

A registered call is in the table, or has been claimed and is about to be resumed, or has been
resumed; and it is in one of these places once.  Results, failures to post and the end of the worker
only move calls from one place to the next.

The table, the claims and the resumed calls are compared as multisets: together they are the calls
that were registered, each once (`Sound`).  A result and the end of the worker race for a call under
the lock of the table, and the one who takes it out of the table resumes it with its own outcome.  A
call that begins after the worker was marked dead is a different matter, since it is never
registered; `dead_run` follows it.  `calls_answered_once` has both.
-/

namespace Idhan.Workers

open List Function
open State (run)

variable {J B : Type} {s : State J B} {call : ℕ}

/-- The call has passed the check under the lock, and was registered or found its id taken. -/
def CallPhase.Passed : CallPhase → Prop
  | .posting _ => True
  | .failed _ _ => True
  | .suspended => True
  | _ => False

/-- What a call gets that comes to a dead worker. -/
def refusal : CallOutcome J B :=
  { CallOutcome.initial with ok := false, error := "worker is not running", workerDied := true }

/-- The invariant. -/
structure Sound (s : State J B) : Prop where
  places : (s.calls.map (·.2) ++ (s.inFlight.map (·.1) ++ s.resumed)).Perm s.registered
  once : s.registered.Nodup
  ids : KeyUnique Prod.fst s.calls
  claimed : (s.claims.map (·.1)).Perm (s.inFlight.map (·.1) ++ s.resumed)
  inFlight : ∀ claim ∈ s.inFlight, claim ∈ s.claims
  stored : ∀ call ∈ s.resumed, ∃ claim, (call, claim) ∈ s.claims ∧
    s.outcome call = claim.store .initial
  initial : ∀ call, call ∉ s.resumed → s.phase call ≠ .refused → s.outcome call = .initial
  passed : ∀ call ∈ s.registered, (s.phase call).Passed
  refused : ∀ call, s.phase call = .refused → s.outcome call = refusal
  terminated : s.terminated = true → s.calls = [] ∧ s.alive = false
  terminating : s.terminating ≠ none → s.alive = false

namespace Sound

variable {s : State J B}

theorem start : Sound (State.start : State J B) where
  places := .rfl
  once := nodup_nil
  ids := nodup_nil
  claimed := .rfl
  inFlight := fun _ h => nomatch h
  stored := fun _ h => nomatch h
  initial := fun _ _ _ => rfl
  passed := fun _ h => nomatch h
  refused := fun _ h => nomatch h
  terminated := fun h => nomatch h
  terminating := fun h => absurd rfl h

section

variable (h : Sound s)
include h

/-- A change of the phase of a call that is not refused, neither before nor after. -/
theorem setPhase (call : ℕ) (phase : CallPhase) (hbefore : s.phase call ≠ .refused)
    (hafter : phase ≠ .refused) (hpassed : (s.phase call).Passed → phase.Passed) :
    Sound { s with phase := Function.update s.phase call phase } := by
  have hrefused : ∀ other, Function.update s.phase call phase other = .refused ↔
      s.phase other = .refused := by
    intro other
    by_cases heq : other = call
    · rw [heq, update_self]
      exact ⟨fun h => absurd h hafter, fun h => absurd h hbefore⟩
    · rw [update_of_ne heq]
  refine { h with
    initial := fun other hother hphase => ?_
    passed := fun other hother => ?_
    refused := fun other hphase => ?_ }
  · exact h.initial other hother fun heq => hphase ((hrefused other).2 heq)
  · by_cases heq : other = call
    · subst heq
      simpa only [update_self] using hpassed (h.passed other hother)
    · simpa only [update_of_ne heq] using h.passed other hother
  · exact h.refused other ((hrefused other).1 hphase)

theorem begin (call : ℕ) : Sound (s.begin call) := by
  unfold State.begin
  split
  case h_2 => exact h
  case h_1 hphase =>
    have h' := h.setPhase call (.assigned s.nextCallId) (by rw [hphase]; nofun) nofun
      (by rw [hphase]; exact False.elim)
    exact { h' with }

theorem post (call : ℕ) (failure : Option String) : Sound (s.post call failure) := by
  unfold State.post
  split
  case h_2 => exact h
  case h_1 callId hphase =>
    have hbefore : s.phase call ≠ .refused := by
      rw [hphase]
      nofun
    split
    · exact h.setPhase call _ hbefore nofun fun _ => trivial
    · exact h.setPhase call _ hbefore nofun fun _ => trivial

theorem register (call : ℕ) : Sound (s.register call) := by
  unfold State.register
  split
  case h_2 => exact h
  case h_1 callId hphase =>
    have hbefore : s.phase call ≠ .refused := by
      rw [hphase]
      nofun
    have hnew : call ∉ s.registered := by
      intro hmem
      have hpassed := h.passed call hmem
      rw [hphase] at hpassed
      exact hpassed
    have hresumed : call ∉ s.resumed := fun hmem =>
      hnew (h.places.subset (mem_append_right _ (mem_append_right _ hmem)))
    split_ifs with hdead htaken
    · -- the worker is dead: the outcome is stored here, and the call is not registered
      have hinitial := h.initial call hresumed hbefore
      refine { h with
        stored := fun other hother => ?_
        initial := fun other hother hphase' => ?_
        passed := fun other hother => ?_
        refused := fun other hphase' => ?_ }
      · have hne : other ≠ call := fun heq => hresumed (heq ▸ hother)
        simpa only [update_of_ne hne] using h.stored other hother
      · have hne : other ≠ call := by
          rintro rfl
          exact hphase' (update_self ..)
        simp only [update_of_ne hne] at hphase' ⊢
        exact h.initial other hother hphase'
      · have hne : other ≠ call := fun heq => hnew (heq ▸ hother)
        simpa only [update_of_ne hne] using h.passed other hother
      · by_cases heq : other = call
        · subst heq
          simp only [update_self, hinitial, refusal]
        · simp only [update_of_ne heq] at hphase' ⊢
          exact h.refused other hphase'
    · exact h.setPhase call _ hbefore nofun fun _ => trivial
    · have h' := h.setPhase call (.posting callId) hbefore nofun fun _ => trivial
      refine { h' with places := ?_, once := ?_, ids := ?_, passed := ?_, terminated := ?_ }
      · simp only [map_append, map_singleton, append_assoc, singleton_append]
        exact (perm_middle.trans ((h.places.cons call))).trans (perm_append_singleton ..).symm
      · exact nodup_append.2 ⟨h.once, nodup_singleton call, fun a ha b hb heq =>
          hnew (mem_singleton.1 hb ▸ heq ▸ ha)⟩
      · exact h.ids.append_singleton htaken
      · refine forall_mem_append.2 ⟨h'.passed, forall_mem_singleton.2 ?_⟩
        simp only [update_self]
        exact trivial
      · intro hterminated
        have halive := (h.terminated hterminated).2
        simp [halive] at hdead

/-- Calls are claimed, and leave the table. -/
theorem claim {kept : List (ℕ × ℕ)} {moved : List (ℕ × Claim J B)} (hkept : kept.Sublist s.calls)
    (hcalls : (s.calls.map (·.2)).Perm (kept.map (·.2) ++ moved.map (·.1))) :
    Sound { s with
      calls := kept, inFlight := s.inFlight ++ moved, claims := s.claims ++ moved } := by
  refine { h with
    places := .trans (perm_iff_count.2 fun call => ?_) h.places
    ids := h.ids.sublist (hkept.map _)
    claimed := perm_iff_count.2 fun call => ?_
    inFlight := forall_mem_append.2
      ⟨fun claim hclaim => mem_append_left _ (h.inFlight claim hclaim), fun _ => mem_append_right _⟩
    stored := fun call hcall => (h.stored call hcall).imp fun claim hclaim =>
      ⟨mem_append_left _ hclaim.1, hclaim.2⟩
    terminated := fun hterminated => ⟨?_, (h.terminated hterminated).2⟩ }
  · simp only [map_append, count_append, hcalls.count_eq call]
    omega
  · simp only [map_append, count_append, h.claimed.count_eq call]
    omega
  · rw [(h.terminated hterminated).1] at hcalls
    exact map_eq_nil_iff.1 (append_eq_nil_iff.1 (nil_perm.1 hcalls)).1

theorem finish (callId : ℕ) (outcome : CallOutcome J B) : Sound (s.finish callId outcome) := by
  unfold State.finish
  split
  case h_1 => exact h
  case h_2 found hfound =>
    exact h.claim erase_sublist (((perm_cons_erase (mem_of_find?_eq_some hfound)).map (·.2)).trans
      (perm_append_singleton ..).symm)

theorem finishFailed (call : ℕ) : Sound (s.finishFailed call) := by
  unfold State.finishFailed
  split
  case h_2 => exact h
  case h_1 callId error hphase =>
    exact (h.setPhase call .suspended (by rw [hphase]; nofun) nofun fun _ => trivial).finish _ _

theorem terminate (reason : String) : Sound (s.terminate reason) := by
  unfold State.terminate
  split_ifs with halive
  · refine { h with terminated := ?_, terminating := fun _ => rfl }
    exact fun hterminated => ⟨(h.terminated hterminated).1, rfl⟩
  · exact h

theorem failAll : Sound s.failAll := by
  unfold State.failAll
  split
  case h_1 => exact h
  case h_2 reason hreason =>
    have halive := h.terminating (by rw [hreason]; nofun)
    have hclaimed := @claim _ _ s h [] (s.calls.map fun call => (call.2, .fail reason true))
      (nil_sublist _) (by rw [map_map]; rfl)
    exact { hclaimed with
      terminated := fun _ => ⟨rfl, halive⟩, terminating := fun h => absurd rfl h }

/-- What is in flight has not been resumed yet, and its outcome is untouched. -/
theorem of_inFlight {call : ℕ} {claim : Claim J B} (hmem : (call, claim) ∈ s.inFlight) :
    call ∉ s.resumed ∧ s.outcome call = .initial ∧ s.phase call ≠ .refused := by
  have hcall : call ∈ s.inFlight.map (·.1) := mem_map_of_mem hmem
  have hnodup := (h.places.nodup_iff.2 h.once).of_append_right
  have hresumed : call ∉ s.resumed := fun hres => (disjoint_of_nodup_append hnodup) hcall hres
  have hphase : s.phase call ≠ .refused := by
    intro hrefused
    have hpassed := h.passed call (h.places.subset (mem_append_right _ (mem_append_left _ hcall)))
    rw [hrefused] at hpassed
    exact hpassed
  exact ⟨hresumed, h.initial call hresumed hphase, hphase⟩

theorem resume (place : ℕ) : Sound (s.resume place) := by
  unfold State.resume
  split
  case h_1 => exact h
  case h_2 call claim hget =>
    have hmem := mem_of_getElem? hget
    obtain ⟨hresumed, hinitial, hphase⟩ := h.of_inFlight hmem
    have hinFlight := (perm_cons_eraseIdx hget).map (·.1)
    have hmove : ((s.inFlight.eraseIdx place).map (·.1) ++ (s.resumed ++ [call])).Perm
        (s.inFlight.map (·.1) ++ s.resumed) := by
      refine Perm.trans ?_ (hinFlight.append_right _).symm
      rw [← append_assoc]
      exact perm_append_singleton ..
    refine ⟨(hmove.append_left _).trans h.places, h.once, h.ids, h.claimed.trans hmove.symm, ?_, ?_,
      ?_, h.passed, ?_, h.terminated, h.terminating⟩
    · exact fun other hother => h.inFlight other ((eraseIdx_subset ..) hother)
    · intro other hother
      by_cases heq : other = call
      · subst heq
        exact ⟨claim, h.inFlight _ hmem, by simp only [update_self, hinitial]⟩
      · simp only [update_of_ne heq]
        refine h.stored other ?_
        simpa [heq] using hother
    · intro other hother hphase'
      have hne : other ≠ call := fun heq => hother (by simp [heq])
      simp only [update_of_ne hne]
      exact h.initial other (fun hres => hother (mem_append_left _ hres)) hphase'
    · intro other hrefused
      have hne : other ≠ call := by
        rintro rfl
        exact hphase hrefused
      simpa only [update_of_ne hne] using h.refused other hrefused

end

/-- **Every action keeps the invariant.** -/
theorem step (library : String) (h : Sound s) (action : Action J B) :
    Sound (s.step library action) := by
  cases action with
  | begin call => exact h.begin call
  | register call => exact h.register call
  | post call failure => exact h.post call failure
  | finishFailed call => exact h.finishFailed call
  | result frame =>
    simp only [State.step]
    split
    · exact h.finish _ _
    · exact h.terminate _
  | resume place => exact h.resume place
  | terminate reason => exact h.terminate reason
  | failAll => exact h.failAll

theorem run (library : String) (actions : List (Action J B)) : Sound (run library actions) :=
  foldlRecOn actions _ start fun _ h action _ => h.step library action

/-- A call is claimed once. -/
theorem claims_unique (h : Sound s) : KeyUnique Prod.fst s.claims :=
  h.claimed.nodup_iff.2 ((h.places.nodup_iff.2 h.once).of_append_right)

end Sound

/-! ## Dead workers -/

/-- The worker is dead and the call has not passed the check. -/
def TooLate (s : State J B) (call : ℕ) : Prop :=
  s.alive = false ∧ ¬ (s.phase call).Passed

theorem finish_alive_phase (s : State J B) (callId : ℕ) (outcome : CallOutcome J B) :
    (s.finish callId outcome).alive = s.alive ∧ (s.finish callId outcome).phase = s.phase := by
  unfold State.finish
  split <;> exact ⟨rfl, rfl⟩

/-- Other calls change their phases, but this one does not pass. -/
theorem TooLate.setPhase (h : TooLate s call) {other : ℕ} {phase : CallPhase}
    (hphase : phase.Passed → (s.phase other).Passed) :
    ¬ (Function.update s.phase other phase call).Passed := by
  by_cases heq : call = other
  · subst heq
    rw [update_self]
    exact fun hpassed => h.2 (hphase hpassed)
  · rw [update_of_ne heq]
    exact h.2

theorem TooLate.step (library : String) (h : TooLate s call) (action : Action J B) :
    TooLate (s.step library action) call := by
  cases action with
  | begin other =>
    simp only [State.step, State.begin]
    split
    · exact ⟨h.1, h.setPhase False.elim⟩
    · exact h
  | register other =>
    simp only [State.step, State.register, h.1, Bool.not_false, if_true]
    split
    · exact ⟨rfl, h.setPhase False.elim⟩
    · exact h
  | post other failure =>
    simp only [State.step, State.post]
    split
    case h_2 => exact h
    case h_1 callId hphase =>
      have hpassed : (s.phase other).Passed := by
        rw [hphase]
        trivial
      split
      · exact ⟨h.1, h.setPhase fun _ => hpassed⟩
      · exact ⟨h.1, h.setPhase fun _ => hpassed⟩
  | finishFailed other =>
    simp only [State.step, State.finishFailed]
    split
    case h_2 => exact h
    case h_1 callId error hphase =>
      obtain ⟨halive, hphases⟩ := finish_alive_phase
        { s with phase := Function.update s.phase other .suspended } callId
        { CallOutcome.initial with ok := false, error := error, workerDied := true }
      refine ⟨halive.trans h.1, ?_⟩
      rw [hphases]
      refine h.setPhase fun _ => ?_
      rw [hphase]
      trivial
  | result frame =>
    simp only [State.step]
    split
    case h_1 callId outcome _ =>
      obtain ⟨halive, hphases⟩ := finish_alive_phase s callId outcome
      exact ⟨halive.trans h.1, hphases ▸ h.2⟩
    case h_2 reason _ => simpa only [State.terminate, h.1, Bool.false_eq_true, if_false] using h
  | resume place =>
    simp only [State.step, State.resume]
    split
    · exact h
    · exact h
  | terminate reason =>
    simpa only [State.step, State.terminate, h.1, Bool.false_eq_true, if_false] using h
  | failAll =>
    simp only [State.step, State.failAll]
    split
    · exact h
    · exact h

theorem dead_run (library : String) (h : TooLate s call)
    (actions : List (Action J B)) : TooLate (actions.foldl (State.step library) s) call :=
  foldlRecOn (motive := fun s => TooLate s call) actions _ h fun _ h action _ =>
    h.step library action

/-- What a call that comes too late can be at: it has not yet come to the check, where it will be
refused, or it has been refused. -/
theorem Sound.of_tooLate (library : String) (h : Sound s) (hlate : TooLate s call) :
    call ∉ s.registered ∧
      (s.phase call = .unborn ∨
        (∃ callId, s.phase call = .assigned callId) ∧ (s.step library (.register call)).phase call =
          .refused ∨
        s.phase call = .refused ∧ s.outcome call = refusal) := by
  refine ⟨fun hmem => hlate.2 (h.passed call hmem), ?_⟩
  cases hphase : s.phase call with
  | unborn => exact Or.inl rfl
  | assigned callId =>
    refine Or.inr (Or.inl ⟨⟨callId, rfl⟩, ?_⟩)
    simp only [State.step, State.register, hphase, hlate.1, Bool.not_false, if_true, update_self]
  | posting | failed | suspended => exact absurd (hphase ▸ trivial) hlate.2
  | refused => exact Or.inr (Or.inr ⟨rfl, h.refused call hphase⟩)

/-! ## Answers -/

/-- What holds of a worker whatever its threads have done. -/
structure AnswersOnce (library : String) (s : State J B) : Prop where
  /-- no call is resumed twice -/
  once : ∀ call, s.resumed.count call ≤ 1
  /-- after the `terminate` that marks the worker dead has claimed the calls, none is left in the
  table; when what it has claimed is stored, every call that was registered has been resumed -/
  terminated : s.terminated = true → s.calls = [] ∧
    (s.inFlight = [] → ∀ call ∈ s.registered, s.resumed.count call = 1)
  /-- a result claims the call that is registered under its id -/
  result : ∀ frame callId outcome call, readResult frame = .ok (callId, outcome) →
    (callId, call) ∈ s.calls →
    s.step library (.result frame) =
      { s with
        calls := s.calls.erase (callId, call)
        inFlight := s.inFlight ++ [(call, .finish outcome)]
        claims := s.claims ++ [(call, .finish outcome)] }
  /-- what is claimed is stored when the call is resumed -/
  resume : ∀ place call claim, s.inFlight[place]? = some (call, claim) →
    (s.step library (.resume place)).resumed = s.resumed ++ [call] ∧
      (s.step library (.resume place)).outcome call = claim.store .initial
  /-- a call that has been resumed was claimed once, and its outcome is the one of that claim -/
  stored : ∀ call ∈ s.resumed, ∃ claim,
    (s.claims.filter fun c => c.1 = call) = [(call, claim)] ∧ s.outcome call = claim.store .initial
  /-- a call that begins when the worker is marked dead is never registered, and gets a failure that
  says that the worker is not running -/
  late : ∀ call, s.alive = false → s.phase call = .unborn → ∀ (later : List (Action J B)) s',
    s' = later.foldl (State.step library) s → call ∉ s'.registered ∧
    (s'.phase call = .unborn ∨
      (∃ callId, s'.phase call = .assigned callId) ∧ (s'.step library (.register call)).phase call =
      .refused ∨
      s'.phase call = .refused ∧ s'.outcome call = refusal)

theorem Sound.step_result (library : String) (h : Sound s) {frame : ResultFrame J B} {callId : ℕ}
    {outcome : CallOutcome J B} (hread : readResult frame = .ok (callId, outcome))
    (hcall : (callId, call) ∈ s.calls) :
    s.step library (.result frame) =
      { s with
        calls := s.calls.erase (callId, call)
        inFlight := s.inFlight ++ [(call, .finish outcome)]
        claims := s.claims ++ [(call, .finish outcome)] } := by
  have hfind : s.calls.find? (·.1 == callId) = some (callId, call) := h.ids.find?_eq_some hcall
  simp only [State.step, hread, State.finish, hfind]

theorem Sound.step_resume (library : String) (h : Sound s) {place : ℕ} {claim : Claim J B}
    (hplace : s.inFlight[place]? = some (call, claim)) :
    (s.step library (.resume place)).resumed = s.resumed ++ [call] ∧
      (s.step library (.resume place)).outcome call = claim.store .initial := by
  have hinitial := (h.of_inFlight (mem_of_getElem? hplace)).2.1
  simp only [State.step, State.resume, hplace, update_self, hinitial, and_self]

end Idhan.Workers
