import Idhan.Downloader.WorkAccounts

/-!
# Work after cancel and close

`cancel` and `close` set a flag, and then take the work of the session out of the queue of the
runner.  A submission tests the flags with the mutex of the runner before it puts work into the
queue, and the work is taken out with the same mutex.  What has passed the test before the flag was
set is therefore in the queue when it is emptied, and what tests later does not pass.

A second `close` is told by the flag that the first one has begun, and returns.  The work may still
be in the queue then.

## The invariant

A session is `Clear` if one of its flags is set, no work of it is in the queue, and no thread is
past the test with a work that it has still to put there.  The step that empties the queue makes a
session clear, because the mutex of the runner is held by one thread (`holding_balanced`), and every
step keeps it clear, since flags are not reset.

`ClosesAlone` is the condition that no `close` begins before another one of the session has emptied
the queue.  With it every call that has returned has left a clear session, which
`work_accounted_for` adds to the accounts of all works; `close_returns_early` is a run without it.
-/

namespace Idhan.Downloader

open Threads List

/-- Whether an action will put work of the session into the queue, or may do so. -/
def Action.Late (runner : ScriptRunner) (session : ℕ) : Action → Prop
  | .push work => work.session = session
  | .checkClosed work _ => work.session = session ∧ (runner.sessions session).closed = false
  | _ => False

/-- No work of the session is in the queue, or can come into it. -/
structure Clear (session : ℕ) (state : Threads ScriptRunner Action) : Prop where
  shut : (state.shared.sessions session).cancelled = true ∨ (state.shared.sessions session).closed =
    true
  queue : ∀ work ∈ state.shared.queue, work.session ≠ session
  late : ∀ action ∈ state.actions, ¬ action.Late state.shared session

/-- A `close` begins when no other one of the session is between setting the flag and emptying the
queue. -/
def ClosesAlone (state : Threads ScriptRunner Action) : Action → Prop
  | .close session => .discard session true ∉ state.actions
  | _ => True

/-- The queue has no work of a session of which `cancel` or `close` has returned. -/
def Cleared (state : Threads ScriptRunner Action) : Prop :=
  ∀ session ∈ state.shared.returned, ∀ work ∈ state.shared.queue, work.session ≠ session

/-! ## What one action does -/

section Acts

variable {comparisonKey : Text → Text} {action : Action} {runner runner' : ScriptRunner}
  {calls : List Action} {session : ℕ}

/-- The actions that put work into the queue or are about to, and those that empty it or say that it
is empty. -/
@[simp]
def Action.turns : Action → ℕ
  | .checkClosed _ _ => 1
  | .push _ => 1
  | .discard _ _ => 1
  | .returned _ => 1
  | _ => 0

@[simp]
theorem turns_calls (execution : ScriptExecution) (call : ScriptCall) :
    weigh Action.turns (execution.calls call) = 0 := by
  cases call <;> rfl

theorem turns_retireQueued (works : List Work) :
    ∀ other ∈ works.flatMap retireQueued, other.turns = 0 := by
  intro other hother
  obtain ⟨work, -, hother⟩ := mem_flatMap.1 hother
  simp only [retireQueued, mem_cons, not_mem_nil, or_false] at hother
  obtain rfl | rfl | rfl := hother <;> rfl

/-- Which actions call one of these. -/
inductive Turn (runner : ScriptRunner) : Action → ScriptRunner → List Action → Prop
  | plain {action : Action} {runner' : ScriptRunner} {calls : List Action} :
      (∀ other ∈ calls, other.turns = 0) → Turn runner action runner' calls
  | notCancelled (work : Work) (followed : Bool) :
      (runner.sessions work.session).cancelled = false →
      Turn runner (.checkCancelled work followed) (runner.check true) [.checkClosed work followed]
  | notClosed (work : Work) (followed : Bool) : (runner.sessions work.session).closed = false →
      Turn runner (.checkClosed work followed) (runner.check true) [.push work]
  | cancel (session : ℕ) :
      Turn runner (.cancel session) (runner.update session Session.cancel) [.discard session false]
  | close (session : ℕ) : (runner.sessions session).closed = false →
      Turn runner (.close session) (runner.update session Session.close) [.discard session true]
  | closeAgain (session : ℕ) : (runner.sessions session).closed = true →
      Turn runner (.close session) (runner.update session Session.close) [.returned session]
  | discard (session : ℕ) (closing : Bool) : runner.mutex = false →
      Turn runner (.discard session closing) (runner.discard session).1
        ((runner.discard session).2 ++ [.returned session])

theorem Turn.of_weigh (h : weigh Action.turns calls = 0) : Turn runner action runner' calls :=
  .plain fun _ hother => sum_eq_zero_iff.1 h _ (mem_map_of_mem hother)

theorem closed_of_update {f : Session → Session}
    (hf : ∀ session : Session, (f session).closed = session.closed) {target : ℕ}
    (h : ((runner.update target f).sessions session).closed = true) :
    (runner.sessions session).closed = true := by
  rw [sessions_update] at h
  split at h
  · rwa [hf] at h
  · exact h

variable (h : Act comparisonKey action runner runner' calls)

include h

theorem Act.mem_queue {work : Work} (hwork : work ∈ runner'.queue) :
    work ∈ runner.queue ∨ action = .push work := by
  cases h with
  | push pushed =>
    obtain hwork | rfl := mem_append.1 hwork |>.imp_right mem_singleton.1
    · exact .inl hwork
    · exact .inr rfl
  | discard _ _ _ => exact .inl (mem_of_mem_filter hwork)
  | swap _ => exact absurd hwork not_mem_nil
  | remove _ _ _ _ => exact .inl (mem_of_mem_eraseIdx hwork)
  | _ => exact .inl hwork

theorem Act.turn : Turn runner action runner' calls := by
  cases h with
  | checkCancelled work followed =>
    cases hcancelled : (runner.sessions work.session).cancelled with
    | false => exact .notCancelled work followed hcancelled
    | true => exact .of_weigh (by simp)
  | checkClosed work followed =>
    cases hclosed : (runner.sessions work.session).closed with
    | false => exact .notClosed work followed hclosed
    | true => exact .of_weigh (by simp)
  | cancel session => exact .cancel session
  | close session =>
    cases hclosed : (runner.sessions session).closed with
    | false => exact .close session hclosed
    | true => exact .closeAgain session hclosed
  | discard session closing hmutex => exact .discard session closing hmutex
  | _ => exact .of_weigh (by simp [weigh_flatMap, apply_ite (weigh Action.turns)])

/-- The queue is to be emptied of the work of a session whose flag has just been set. -/
theorem Act.of_discard_mem {closing : Bool}
    (hmem : .discard session closing ∈ calls) :
    (runner'.sessions session).cancelled = true ∨ (runner'.sessions session).closed = true := by
  cases h.turn with
  | plain hplain => cases hplain _ hmem
  | notCancelled | notClosed | closeAgain => cases mem_singleton.1 hmem
  | cancel target =>
    cases mem_singleton.1 hmem
    exact .inl (by simp [Session.cancel])
  | close target _ =>
    cases mem_singleton.1 hmem
    exact .inr (by simp [Session.close])
  | discard target _ _ =>
    obtain hmem | hmem := mem_append.1 hmem
    · cases turns_retireQueued _ _ hmem
    · cases mem_singleton.1 hmem

/-- What is about to return has emptied the queue, or is a `close` that found the flag set. -/
theorem Act.of_returned_mem (hmem : .returned session ∈ calls) :
    (∃ closing, action = .discard session closing ∧ runner.mutex = false ∧
        runner' = (runner.discard session).1 ∧
        calls = (runner.discard session).2 ++ [.returned session]) ∨
      action = .close session ∧ (runner.sessions session).closed = true := by
  cases h.turn with
  | plain hplain => cases hplain _ hmem
  | notCancelled | notClosed | cancel | close => cases mem_singleton.1 hmem
  | closeAgain target hclosed =>
    cases mem_singleton.1 hmem
    exact .inr ⟨rfl, hclosed⟩
  | discard target closing hmutex =>
    obtain hmem | hmem := mem_append.1 hmem
    · cases turns_retireQueued _ _ hmem
    · cases mem_singleton.1 hmem
      exact .inl ⟨closing, rfl, hmutex, rfl, rfl⟩

theorem Act.mem_returned (hmem : session ∈ runner'.returned) :
    session ∈ runner.returned ∨ action = .returned session := by
  cases h with
  | returned returned =>
    obtain hmem | rfl := mem_append.1 hmem |>.imp_right mem_singleton.1
    · exact .inl hmem
    · exact .inr rfl
  | _ => exact .inl hmem

/-- The flag of `close` is set by a `close` that will empty the queue. -/
theorem Act.of_closed (hclosed : (runner'.sessions session).closed = true) :
    (runner.sessions session).closed = true ∨ .discard session true ∈ calls := by
  cases h.sessionChange with
  | quiet hquiet _ _ => exact .inl ((hquiet session).closed.symm.trans hclosed)
  | enqueue key work =>
    exact .inl (closed_of_update (f := Session.enqueue key) (fun _ => rfl) hclosed)
  | retire work => exact .inl (closed_of_update (f := Session.retire) (fun _ => rfl) hclosed)
  | cancel target => exact .inl (closed_of_update (f := Session.cancel) (fun _ => rfl) hclosed)
  | close target =>
    cases h with
    | close =>
      rw [sessions_update] at hclosed
      split at hclosed
      · next heq =>
        subst heq
        cases (runner.sessions session).closed with
        | false => exact .inr (mem_singleton_self _)
        | true => exact .inl rfl
      · exact .inl hclosed

end Acts

/-! ## Runs -/

section Runs

variable {comparisonKey : Text → Text} {limits : ℕ → ℕ} {threads : ℕ}
  {allowed : Threads ScriptRunner Action → Action → Prop}
  {state state' : Threads ScriptRunner Action} {session : ℕ} {shared shared' : ScriptRunner}
  {before after : List (List Action)} {action : Action} {rest calls : List Action}

theorem Action.Late.of_act (h : Act comparisonKey action shared shared' calls) {other : Action}
    (hlate : other.Late shared' session) : other.Late shared session := by
  cases other with
  | checkClosed work followed =>
    refine ⟨hlate.1, ?_⟩
    cases hclosed : (shared.sessions session).closed with
    | false => rfl
    | true => exact ((h.later session).closed hclosed).symm.trans hlate.2
  | _ => exact hlate

theorem not_late_of_turns {other : Action} (h : other.turns = 0) : ¬ other.Late shared session := by
  cases other with
  | push | checkClosed => cases h
  | _ => exact id

/-- Only a test that passes leads to what may put work into the queue. -/
theorem Act.late (h : Act comparisonKey action shared shared' calls) {other : Action}
    (hother : other ∈ calls) (hlate : other.Late shared' session) :
    action.Late shared session ∨ (shared.sessions session).cancelled = false ∧
    (shared.sessions session).closed = false := by
  cases h.turn with
  | plain hplain => exact absurd hlate (not_late_of_turns (hplain other hother))
  | notCancelled work followed hcancelled =>
    rw [mem_singleton.1 hother] at hlate
    obtain ⟨rfl, hclosed⟩ := hlate
    exact .inr ⟨hcancelled, hclosed⟩
  | notClosed work followed hclosed =>
    rw [mem_singleton.1 hother] at hlate
    obtain rfl : work.session = session := hlate
    exact .inl ⟨rfl, hclosed⟩
  | cancel | close | closeAgain =>
    rw [mem_singleton.1 hother] at hlate
    exact hlate.elim
  | discard target closing _ =>
    obtain hdropped | hreturned := mem_append.1 hother
    · exact absurd hlate (not_late_of_turns (turns_retireQueued _ other hdropped))
    · rw [mem_singleton.1 hreturned] at hlate
      exact hlate.elim

/-- What is clear stays clear. -/
theorem Clear.run (hclear : Clear session ⟨shared, before ++ (action :: rest) :: after⟩)
    (h : Act comparisonKey action shared shared' calls) :
    Clear session ⟨shared', before ++ (calls ++ rest) :: after⟩ where
  shut := hclear.shut.imp (h.later session).cancelled (h.later session).closed
  queue := by
    intro work hwork
    obtain hwork | rfl := h.mem_queue hwork
    · exact hclear.queue work hwork
    · exact hclear.late _ action_mem_actions
  late := by
    intro other hother hlate
    obtain hother | hother := mem_actions_run hother
    · obtain hlate | ⟨hcancelled, hclosed⟩ := h.late hother hlate
      · exact hclear.late _ action_mem_actions hlate
      · obtain hshut | hshut := hclear.shut
        · exact Bool.noConfusion (hshut.symm.trans hcancelled)
        · exact Bool.noConfusion (hshut.symm.trans hclosed)
    · exact hclear.late other hother (hlate.of_act h)

theorem Clear.spawn (hclear : Clear session state) (h : Call action) :
    Clear session ⟨state.shared, state.programs ++ [[action]]⟩ where
  shut := hclear.shut
  queue := hclear.queue
  late := by
    intro other hother
    obtain hother | rfl := mem_actions_spawn.1 hother
    · exact hclear.late other hother
    · cases h <;> exact id

/-- With the mutex, `discard` makes clear what is shut: nobody else is between a test and the
queue. -/
theorem clear_discard {closing : Bool} (hmutex : shared.mutex = false)
    (hone : 1 = shared.free + load Action.holding ⟨shared,
      before ++ (.discard session closing :: rest) :: after⟩)
    (hshut : (shared.sessions session).cancelled = true ∨ (shared.sessions session).closed = true) :
    Clear session ⟨(shared.discard session).1,
      before ++ (((shared.discard session).2 ++ [.returned session]) ++ rest) :: after⟩ where
  shut := hshut
  queue := by
    intro work hwork
    simpa using of_mem_filter hwork
  late := by
    have hload :
        load Action.holding ⟨shared, before ++ (.discard session closing :: rest) :: after⟩ =
      0 := by
      simp only [ScriptRunner.free, hmutex, Bool.not_false, Bool.toNat_true] at hone
      omega
    intro other hother hlate
    obtain hother | hother := mem_actions_run hother
    · obtain hdropped | hreturned := mem_append.1 hother
      · exact not_late_of_turns (turns_retireQueued _ other hdropped) hlate
      · rw [mem_singleton.1 hreturned] at hlate
        exact hlate
    · have hfree := weight_eq_zero_of_load hload hother
      cases other with
      | push | checkClosed => cases hfree
      | _ => exact hlate

/-- What is known of the sessions that are being shut. -/
structure Shutting (state : Threads ScriptRunner Action) : Prop where
  discard : ∀ session closing, .discard session closing ∈ state.actions →
    (state.shared.sessions session).cancelled = true ∨ (state.shared.sessions session).closed = true
  closed : ∀ session, (state.shared.sessions session).closed = true →
    .discard session true ∈ state.actions ∨ Clear session state
  returning : ∀ session, .returned session ∈ state.actions → Clear session state
  returned : ∀ session ∈ state.shared.returned, Clear session state

/-- What is known of them is kept by an action, if no `close` begins too early. -/
theorem Shutting.run (hshutting : Shutting ⟨shared, before ++ (action :: rest) :: after⟩)
    (halone : ClosesAlone ⟨shared, before ++ (action :: rest) :: after⟩ action)
    (hone : 1 = shared.free + load Action.holding ⟨shared, before ++ (action :: rest) :: after⟩)
    (h : Act comparisonKey action shared shared' calls) :
    Shutting ⟨shared', before ++ (calls ++ rest) :: after⟩ where
  discard := by
    intro session closing hmem
    obtain hmem | hmem := mem_actions_run hmem
    · exact h.of_discard_mem hmem
    · exact (hshutting.discard session closing hmem).imp (h.later session).cancelled
        (h.later session).closed
  closed := by
    intro session hclosed
    obtain hclosed | hmem := h.of_closed hclosed
    · obtain hmem | hclear := hshutting.closed session hclosed
      · by_cases heq : .discard session true = action
        · subst heq
          cases h with
          | discard _ _ hmutex => exact .inr (clear_discard hmutex hone (.inr hclosed))
        · exact .inl (mem_actions_of_ne hmem heq)
      · exact .inr (hclear.run h)
    · exact .inl (by simp [actions, hmem])
  returning := by
    intro session hmem
    obtain hmem | hmem := mem_actions_run hmem
    · obtain ⟨closing, rfl, hmutex, rfl, rfl⟩ | ⟨rfl, hclosed⟩ := h.of_returned_mem hmem
      · exact clear_discard hmutex hone (hshutting.discard session closing action_mem_actions)
      · exact ((hshutting.closed session hclosed).resolve_left halone).run h
    · exact (hshutting.returning session hmem).run h
  returned := by
    intro session hmem
    obtain hmem | rfl := h.mem_returned hmem
    · exact (hshutting.returned session hmem).run h
    · exact (hshutting.returning session action_mem_actions).run h

theorem Shutting.spawn (hshutting : Shutting state) (h : Call action) :
    Shutting ⟨state.shared, state.programs ++ [[action]]⟩ where
  discard := by
    intro session closing hmem
    obtain hmem | rfl := mem_actions_spawn.1 hmem
    · exact hshutting.discard session closing hmem
    · cases h
  closed := fun session hclosed =>
    (hshutting.closed session hclosed).imp (fun hmem => mem_actions_spawn.2 (.inl hmem))
      fun hclear => hclear.spawn h
  returning := by
    intro session hmem
    obtain hmem | rfl := mem_actions_spawn.1 hmem
    · exact (hshutting.returning session hmem).spawn h
    · cases h
  returned := fun session hmem => (hshutting.returned session hmem).spawn h

theorem shutting_start : Shutting (ScriptRunner.start limits threads) := by
  have hloop : ∀ action ∈ (ScriptRunner.start limits threads).actions, ∃ worker,
      action = .loop worker := by
    intro action hmem
    obtain ⟨program, hprogram, hmem⟩ := mem_flatten.1 hmem
    obtain ⟨worker, -, rfl⟩ := mem_map.1 hprogram
    exact ⟨worker, mem_singleton.1 hmem⟩
  constructor
  · intro session closing hmem
    obtain ⟨worker, hworker⟩ := hloop _ hmem
    cases hworker
  · intro session hclosed
    cases hclosed
  · intro session hmem
    obtain ⟨worker, hworker⟩ := hloop _ hmem
    cases hworker
  · intro session hmem
    cases hmem

theorem shutting_run (hrun : ScriptRunner.Reaches comparisonKey limits threads ClosesAlone state) :
    Shutting state := by
  induction hrun with
  | start => exact shutting_start
  | step hrun hstep ih =>
    cases hstep with
    | run h halone => exact ih.run halone (mutex_run hrun) h
    | spawn h => exact ih.spawn h

/-- **Every work is accounted for once.**  In every run `m_outstanding` counts the works that are
not retired, every work is retired once when it leaves the runner, and its end is reported once at
most.  Where no `close` begins before another one has emptied the queue, no work of a session is in
the queue once `cancel` or `close` has returned. -/
theorem work_accounted_for
    (hrun : ScriptRunner.Reaches comparisonKey limits threads (fun _ _ => True) state) :
    Accounted state ∧ (ScriptRunner.Reaches comparisonKey limits threads ClosesAlone state →
      Cleared state) :=
  ⟨accounted hrun, fun hrun session hmem => ((shutting_run hrun).returned session hmem).queue⟩

end Runs

/-! ## Two closes -/

/-- The arguments of a `submit`. -/
def firstEntry : Entry :=
  ⟨0, none, "https://example.org/post".toList, false⟩

def firstWork : Work :=
  ⟨0, 1, none, "https://example.org/post".toList⟩

/-- A runner with one work in its queue. -/
def oneQueued : ScriptRunner :=
  (((ScriptRunner.new (fun _ => .new 1) 1).issue firstEntry).1.enqueue firstEntry.url
    firstWork).push firstWork

/-- The runner after a `close`. -/
def oneRetired : ScriptRunner :=
  { ((((oneQueued.update 0 Session.close).discard 0).1.update 0 Session.dequeued).retire
    firstWork).reportDrainedIfIdle 0 with
    returned := [0] }

section Examples

variable {allowed : Threads ScriptRunner Action → Action → Prop}

section

variable (hallowed : ∀ state action, ClosesAlone state action → allowed state action)
include hallowed

theorem reaches_oneQueued :
    ScriptRunner.Reaches id (fun _ => 1) 1 allowed ⟨oneQueued, [[.loop 0], []]⟩ := by
  have hnew : ScriptRunner.Reaches id (fun _ => 1) 1 allowed ⟨.new (fun _ => .new 1) 1,
      [[.loop 0]]⟩ := .start
  have hspawned := hnew.step (.spawn (Call.submit 0 none firstEntry.url))
  have hentered := hspawned.take [[.loop 0]] [] (Act.enter firstEntry) (hallowed _ _ trivial)
  have hopen := hentered.take [[.loop 0]] [] (Act.enterClosed firstEntry) (hallowed _ _ trivial)
  have hrouted := hopen.take [[.loop 0]] [] (Act.route firstEntry true) (hallowed _ _ trivial)
  have hissued := hrouted.take [[.loop 0]] [] (Act.issue firstEntry) (hallowed _ _ trivial)
  have hcounted := hissued.take [[.loop 0]] [] (Act.enqueue firstWork false) (hallowed _ _ trivial)
  have hoffered := hcounted.take [[.loop 0]] [] (Act.offer firstWork false rfl)
    (hallowed _ _ trivial)
  have hrunning := hoffered.take [[.loop 0]] [] (Act.checkRunning firstWork false)
    (hallowed _ _ trivial)
  have hnotCancelled := hrunning.take [[.loop 0]] [] (Act.checkCancelled firstWork false)
    (hallowed _ _ trivial)
  have hnotClosed := hnotCancelled.take [[.loop 0]] [] (Act.checkClosed firstWork false)
    (hallowed _ _ trivial)
  exact hnotClosed.take [[.loop 0]] [] (Act.push firstWork) (hallowed _ _ trivial)

/-- A `close` has set the flag, and has not emptied the queue yet. -/
theorem reaches_closing : ScriptRunner.Reaches id (fun _ => 1) 1 allowed
      ⟨oneQueued.update 0 Session.close, [[.loop 0], [], [.discard 0 true]]⟩ := by
  have hspawned := (reaches_oneQueued hallowed).step (.spawn (Call.close 0))
  exact hspawned.take [[.loop 0], []] [] (Act.close 0)
    (hallowed _ _ (by simp [ClosesAlone, actions]))

/-- The `close` has returned. -/
theorem reaches_closed :
    ScriptRunner.Reaches id (fun _ => 1) 1 allowed ⟨oneRetired, [[.loop 0], [], []]⟩ := by
  have hdiscarded := (reaches_closing hallowed).take [[.loop 0], []] [] (Act.discard 0 true rfl)
    (hallowed _ _ trivial)
  have hdequeued := hdiscarded.take [[.loop 0], []] [] (Act.dequeued 0) (hallowed _ _ trivial)
  have hretired := hdequeued.take [[.loop 0], []] [] (Act.retire firstWork) (hallowed _ _ trivial)
  have hdrained := hretired.take [[.loop 0], []] [] (Act.drained 0) (hallowed _ _ trivial)
  exact hdrained.take [[.loop 0], []] [] (Act.returned 0) (hallowed _ _ trivial)

end

end Examples

theorem work_accounted_for_closed :
    Accounted ⟨oneRetired, [[.loop 0], [], []]⟩ ∧ Cleared ⟨oneRetired, [[.loop 0], [], []]⟩ :=
  ⟨(work_accounted_for (reaches_closed fun _ _ _ => trivial)).1,
    (work_accounted_for (reaches_closed fun _ _ _ => trivial)).2 (reaches_closed fun _ _ h => h)⟩

/-- Two calls of `close`: the second one returns before the first one has emptied the queue. -/
theorem close_returns_early :
    ∃ state, ScriptRunner.Reaches id (fun _ => 1) 1 (fun _ _ => True) state ∧ ¬ Cleared state := by
  have hspawned := (reaches_closing fun _ _ _ => trivial).step (.spawn (Call.close 0))
  have hreturning := hspawned.take [[.loop 0], [], [.discard 0 true]] [] (Act.close 0) trivial
  have hreturned := hreturning.take [[.loop 0], [], [.discard 0 true]] [] (Act.returned 0) trivial
  exact ⟨_, hreturned, fun hcleared => hcleared 0 (mem_singleton_self 0) firstWork
    (mem_singleton_self _) rfl⟩

end Idhan.Downloader
