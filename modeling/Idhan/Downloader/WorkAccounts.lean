import Idhan.Downloader.ScriptRunner
import Mathlib.Data.List.Pairwise
import Mathlib.Data.Multiset.Filter
import Mathlib.Data.Multiset.OrderedMonoid

/-!
# Accounts of the downloaded works

A work that a session has counted is in one place: in the hands of a thread, in the queue, with a
worker, or retired.  The places are kept as multisets, and an action moves a work from one to the
next.  The same is done for the works that have an ID and are not counted yet, for the right to
report the end of a work, and for the mutex of the runner.  What the multisets say at the end is
that `m_outstanding` is exact, that a work is retired once, and that its end is reported once at
most.

* `hand_balanced`, `entering_balanced`, `mayReport_covered`, `holding_balanced`: one action keeps
  the accounts.
* `Act.sessionChange`: what an action does to the counters and flags of a session.
* `accounted`: the accounts of every state that is reached.
-/

namespace Idhan.Downloader

open Threads List

/-! ## What the actions have -/

/-- The work of an execution that is not settled. -/
def ScriptExecution.mayReport (execution : ScriptExecution) : Multiset Work :=
  if execution.settled then 0 else {execution.work}

/-- The work whose end is reported. -/
@[simp]
def WorkReport.ends : WorkReport → Multiset Work
  | .completed work => {work}
  | .failed work _ => {work}
  | _ => 0

namespace Action

/-- The works that an action has in hand: counted, in no queue, with no worker, and not retired. -/
@[simp]
def hand : Action → Multiset Work
  | .offer work _ => {work}
  | .checkRunning work _ => {work}
  | .checkCancelled work _ => {work}
  | .checkClosed work _ => {work}
  | .push work => {work}
  | .retire work => {work}
  | .begin _ work => {work}
  | .openRealm _ work => {work}
  | .abort work _ => {work}
  | .download execution => {execution.work}
  | .evaluate execution => {execution.work}
  | .step _ execution => {execution.work}
  | .parse _ execution _ => {execution.work}
  | _ => 0

/-- The works that an action is about to count. -/
@[simp]
def entering : Action → Multiset Work
  | .enqueue work _ => {work}
  | _ => 0

/-- The works on which an action, or what it leads to, may still report the end. -/
@[simp]
def mayReport : Action → Multiset Work
  | .enqueue work _ => {work}
  | .offer work _ => {work}
  | .checkRunning work _ => {work}
  | .checkCancelled work _ => {work}
  | .checkClosed work _ => {work}
  | .push work => {work}
  | .refuse work => {work}
  | .begin _ work => {work}
  | .openRealm _ work => {work}
  | .abort work _ => {work}
  | .download execution => {execution.work}
  | .evaluate execution => {execution.work}
  | .step _ execution => execution.mayReport
  | .parse _ execution _ => execution.mayReport
  | _ => 0

/-- Whether an action has the mutex of the runner. -/
@[simp]
def holding : Action → ℕ
  | .checkRunning _ _ => 1
  | .checkCancelled _ _ => 1
  | .checkClosed _ _ => 1
  | .push _ => 1
  | .take _ _ => 1
  | .takeClosed _ _ => 1
  | .reserve _ _ => 1
  | .remove _ _ => 1
  | _ => 0

end Action

namespace ScriptRunner

/-- Where the counted works are that no thread has in hand. -/
def placed (runner : ScriptRunner) : Multiset Work :=
  runner.retired + runner.queue + runner.resident.map ScriptExecution.work

/-- The works whose end was reported, and those on which it may be reported when they are taken up
again. -/
def reported (runner : ScriptRunner) : Multiset Work :=
  (runner.reports.map WorkReport.ends).sum + runner.queue +
    (runner.resident.map ScriptExecution.mayReport).sum

/-- The mutex, where nobody has it. -/
def free (runner : ScriptRunner) : ℕ :=
  (!runner.mutex).toNat

end ScriptRunner

/-! ## Lists and multisets -/

section Lists

variable {α β : Type}

theorem coe_concat (list : List α) (a : α) : ((list ++ [a] : List α) : Multiset α) = list + {a} :=
  rfl

theorem coe_split (before after : List α) (a : α) :
    ((before ++ a :: after : List α) : Multiset α) = ↑(before ++ after) + {a} := by
  rw [Multiset.add_comm, Multiset.singleton_add, Multiset.cons_coe, Multiset.coe_eq_coe]
  exact perm_middle

theorem coe_eraseIdx {list : List α} {position : ℕ} {a : α} (h : list[position]? = some a) :
    ((list.eraseIdx position : List α) : Multiset α) + {a} = list := by
  obtain ⟨hlt, rfl⟩ := List.getElem?_eq_some_iff.1 h
  rw [Multiset.add_comm, Multiset.singleton_add, Multiset.cons_coe, Multiset.coe_eq_coe]
  exact getElem_cons_eraseIdx_perm hlt

theorem coe_filter_not (p : α → Prop) [DecidablePred p] (list : List α) :
    ((list.filter fun a => ¬ p a : List α) : Multiset α) + (list.filter fun a => p a : List α) =
      list := by
  rw [Multiset.add_comm, ← Multiset.filter_coe, ← Multiset.filter_coe, Multiset.filter_add_not]

theorem sum_singletons (f : α → β) (list : List α) :
    (list.map fun a => ({f a} : Multiset β)).sum = list.map f := by
  induction list with
  | nil => rfl
  | cons a list ih =>
    rw [map_cons, sum_cons, ih, map_cons, Multiset.singleton_add, Multiset.cons_coe]

end Lists

/-! ## What calls have -/

section Calls

variable {M : Type} [AddCommMonoid M]

@[simp]
theorem weigh_checked (weight : Action → M) (passes : Bool) (next : Action) (work : Work)
    (followed : Bool) : weigh weight (checked passes next work followed) =
      if passes then weight next else weigh weight (retireQueued work) + if followed then
        weight (.refuse work) else 0 := by
  unfold checked
  split
  · simp
  · rw [weigh_append]
    cases followed <;> simp [add_assoc]

@[simp]
theorem weigh_startReleased (weight : Action → M) (first : Bool) (work : Work) :
    weigh weight (startReleased first work) = if first then weight (.releaseStart work.session)
      else 0 := by
  cases first <;> simp [startReleased]

section

variable (execution : ScriptExecution) (call : ScriptCall)
include execution call

@[simp]
theorem hand_calls : weigh Action.hand (execution.calls call) = 0 := by
  cases call <;> rfl

@[simp]
theorem entering_calls : weigh Action.entering (execution.calls call) = 0 := by
  cases call <;> rfl

@[simp]
theorem mayReport_calls : weigh Action.mayReport (execution.calls call) = 0 := by
  cases call <;> rfl

@[simp]
theorem holding_calls : weigh Action.holding (execution.calls call) = 0 := by
  cases call <;> rfl

end

end Calls

/-! ## Executions -/

section Executions

open ScriptExecution

@[simp]
theorem work_after (execution : ScriptExecution) (call : ScriptCall) :
    (execution.after call).work = execution.work := by
  cases call <;> rfl

@[simp]
theorem mayReport_after (execution : ScriptExecution) (call : ScriptCall) :
    (execution.after call).mayReport = execution.mayReport := by
  cases call <;> rfl

/-- The answer to a call changes no execution otherwise. -/
theorem map_answered {α : Type} {f : ScriptExecution → α}
    (hf : ∀ execution : ScriptExecution, f execution.answered = f execution)
    (pending : Pending) (executions : List ScriptExecution) :
    (executions.map fun execution => if pending.execution = some execution.work then
      execution.answered else execution).map f = executions.map f := by
  rw [map_map]
  refine map_congr_left fun execution _ => ?_
  simp only [Function.comp_apply]
  split
  · exact hf execution
  · rfl

theorem mayReport_le (execution : ScriptExecution) : execution.mayReport ≤ {execution.work} := by
  unfold ScriptExecution.mayReport
  split
  · exact Multiset.zero_le _
  · exact le_rfl

/-- An execution that is not done is not settled, so that its end may be reported. -/
theorem mayReport_of_not_done {execution : ScriptExecution} (h : execution.stage ≠ .done) :
    execution.mayReport = {execution.work} := by
  unfold ScriptExecution.mayReport
  rw [if_neg fun hsettled => h (execution.done_of_settled hsettled)]

section

variable (execution : ScriptExecution)
include execution

@[simp]
theorem work_failWork (error : Text) : (execution.failWork error).1.work = execution.work := by
  unfold failWork
  split <;> rfl

@[simp]
theorem work_finishWork (h : execution.stage = .done) :
    (execution.finishWork h).1.work = execution.work := by
  unfold finishWork
  split <;> rfl

/-- `finishWork` reports no work that is settled. -/
theorem reports_finishWork (h : execution.stage = .done) :
    ((execution.finishWork h).2.map WorkReport.ends).sum + (execution.finishWork h).1.mayReport ≤
      execution.mayReport := by
  unfold finishWork
  split
  · simp
  · next hsettled => simp [ScriptExecution.mayReport, hsettled]

/-- `failWork` reports a work once, if it is not done. -/
theorem reports_failWork (error : Text) (h : execution.stage ≠ .done) :
    ((execution.failWork error).2.map WorkReport.ends).sum +
    (execution.failWork error).1.mayReport ≤ execution.mayReport := by
  rw [mayReport_of_not_done h]
  unfold failWork
  split
  · simpa using mayReport_le execution
  · simp [ScriptExecution.mayReport]

@[simp]
theorem work_step (outcome : PromiseOutcome) :
    (execution.step outcome).1.work = execution.work := by
  unfold step
  split
  · split
    · rfl
    · exact work_finishWork _ _
  · rfl
  · exact work_failWork _ _
  · rfl
  · split
    · rfl
    · exact work_finishWork _ _

/-- `step` reports the end of a work at most once. -/
theorem reports_step (outcome : PromiseOutcome) :
    ((execution.step outcome).2.1.map WorkReport.ends).sum + (execution.step outcome).1.mayReport ≤
      execution.mayReport := by
  unfold step
  split
  · split
    · simp
    · exact reports_finishWork _ _
  · simp
  · next hdone => exact reports_failWork _ _ hdone
  · exact (Multiset.zero_add _).le
  · split
    · exact (Multiset.zero_add _).le
    · exact reports_finishWork _ _

end

end Executions

/-! ## One action -/

section Balances

variable {comparisonKey : Text → Text} {action : Action} {runner runner' : ScriptRunner}
  {calls : List Action} {others : ℕ}

open ScriptRunner (placed reported free)

theorem hand_retireQueued (works : List Work) :
    weigh Action.hand (works.flatMap retireQueued) = works := by
  rw [weigh_flatMap]
  simpa using sum_singletons id works

theorem hand_discardAll (executions : List ScriptExecution) :
    weigh Action.hand (executions.flatMap fun execution => .abandon execution.work ::
      releaseWork execution.work) = executions.map ScriptExecution.work := by
  rw [weigh_flatMap]
  simpa using sum_singletons ScriptExecution.work executions

theorem placed_keep (runner : ScriptRunner) (execution : ScriptExecution) :
    (runner.keep execution).placed = runner.placed + {execution.work} := by
  simp only [placed, ScriptRunner.keep, map_append, map_cons, map_nil, coe_concat,
    Multiset.add_assoc]

/-- A counted work is in hand, in the queue, with a worker, or retired, and goes from one to the
next. -/
theorem hand_balanced (h : Act comparisonKey action runner runner' calls) :
    ∃ added : Multiset Work, (runner'.accepted : Multiset Work) = runner.accepted + added ∧
      runner'.placed + weigh Action.hand calls = runner.placed + action.hand + added := by
  cases h with
  | enqueue work followed => exact ⟨{work}, coe_concat _ _, by simp [placed]⟩
  | push work =>
    refine ⟨0, by simp, ?_⟩
    simp only [placed, ScriptRunner.push, coe_concat, Action.hand, weigh_nil]
    abel
  | retire work =>
    refine ⟨0, by simp, ?_⟩
    simp only [placed, ScriptRunner.retire, ScriptRunner.update, coe_concat, Action.hand, weigh_nil]
    abel
  | discard session closing _ =>
    refine ⟨0, by simp, ?_⟩
    simp only [placed, ScriptRunner.discard, weigh_append, hand_retireQueued, weigh_cons, weigh_nil,
      Action.hand]
    rw [← coe_filter_not (fun work => work.session = session) runner.queue]
    abel
  | swap _ =>
    refine ⟨0, by simp, ?_⟩
    simp only [placed, ScriptRunner.swap, hand_retireQueued, Action.hand, Multiset.coe_nil]
    abel
  | leave worker _ =>
    refine ⟨0, by simp, ?_⟩
    simp only [placed, ScriptRunner.discardAll, weigh_append, hand_discardAll, weigh_cons,
      weigh_nil, Action.hand, ← Multiset.map_coe]
    rw [← coe_filter_not (fun execution => execution.worker = worker) runner.resident,
      Multiset.map_add]
    abel
  | advance worker before after execution _ hresident =>
    refine ⟨0, by simp, ?_⟩
    simp only [placed, hresident, map_append, map_cons, coe_split, weigh_cons, weigh_nil,
      Action.hand]
    abel
  | pumpJobs worker before after execution call _ hresident =>
    exact ⟨0, by simp, by simp [placed, hresident]⟩
  | settle worker session pending _ _ =>
    refine ⟨0, by simp, ?_⟩
    simp only [placed, ScriptRunner.settle, ScriptRunner.update,
      map_answered (f := ScriptExecution.work) fun _ => rfl, weigh_cons, weigh_nil, Action.hand]
    abel
  | remove worker position work hwork =>
    refine ⟨0, by simp, ?_⟩
    simp only [placed, ScriptRunner.remove, ← coe_eraseIdx hwork, weigh_cons, weigh_nil,
      Action.hand]
    abel
  | stepKept | parseThrows | parse => exact ⟨0, by simp, by rw [placed_keep]; simp [placed]⟩
  | _ =>
    refine ⟨0, by simp, ?_⟩
    simp [placed, ScriptExecution.done, ScriptExecution.new, apply_ite (weigh Action.hand)]

/-- A work that has got an ID is counted next. -/
theorem entering_balanced (h : Act comparisonKey action runner runner' calls) :
    ∃ added : Multiset Work, (runner'.issued : Multiset Work) = runner.issued + added ∧
      runner'.accepted + weigh Action.entering calls =
        runner.accepted + action.entering + added := by
  cases h with
  | issue entry => exact ⟨{(runner.issue entry).2}, coe_concat _ _, by simp⟩
  | enqueue work followed => exact ⟨0, by simp, by simp [coe_concat]⟩
  | _ => exact ⟨0, by simp, by simp [weigh_flatMap, apply_ite (weigh Action.entering)]⟩

theorem mutex_of_holding (hone : 1 = runner.free + (others + action.holding))
    (h : action.holding = 1) : runner.mutex = true := by
  cases hmutex : runner.mutex with
  | true => rfl
  | false => rw [h] at hone; simp [free, hmutex] at hone

/-- The mutex of the runner is with nobody or with one action. -/
theorem holding_balanced (hone : 1 = runner.free + (others + action.holding))
    (h : Act comparisonKey action runner runner' calls) :
    runner'.free + weigh Action.holding calls = runner.free + action.holding := by
  cases h with
  | offer _ _ hmutex | startWork _ hmutex => simp [free, hmutex]
  | push | takeNone | remove => simp [free, mutex_of_holding hone rfl]
  | checkRunning work followed =>
    cases hrunning : runner.running <;> simp [free, mutex_of_holding hone rfl, hrunning]
  | checkCancelled work followed =>
    cases (runner.sessions work.session).cancelled <;> simp [free, mutex_of_holding hone rfl]
  | checkClosed work followed =>
    cases (runner.sessions work.session).closed <;> simp [free, mutex_of_holding hone rfl]
  | _ => simp [free, weigh_flatMap, apply_ite (weigh Action.holding)]

theorem reported_report (runner : ScriptRunner) (reports : List WorkReport) :
    (runner.report reports).reported = runner.reported + (reports.map WorkReport.ends).sum := by
  simp only [reported, ScriptRunner.report, map_append, sum_append]
  abel

theorem reported_keep (runner : ScriptRunner) (execution : ScriptExecution) :
    (runner.keep execution).reported = runner.reported + execution.mayReport := by
  simp [reported, Multiset.add_assoc]

/-- A work that leaves the queue or its worker without a report is not reported later. -/
theorem reported_le_of_sublist (hreports : runner'.reports = runner.reports)
    (hqueue : runner'.queue.Sublist runner.queue)
    (hresident : runner'.resident.Sublist runner.resident)
    (hcalls : weigh Action.mayReport calls = 0) :
    runner'.reported + weigh Action.mayReport calls ≤ runner.reported + action.mayReport + 0 := by
  rw [hcalls, Multiset.add_zero, Multiset.add_zero]
  refine le_trans ?_ (Multiset.le_add_right _ _)
  unfold reported
  rw [hreports]
  exact add_le_add (add_le_add le_rfl (Multiset.coe_le.2 hqueue.subperm))
    ((hresident.map _).sum_le_sum fun _ _ => Multiset.zero_le _)

theorem mayReport_checked (passes : Bool) {next : Action} (work : Work) (followed : Bool)
    (h : next.mayReport = {work}) :
    weigh Action.mayReport (checked passes next work followed) ≤ {work} := by
  rw [weigh_checked, h]
  cases passes <;> cases followed <;> simp

/-- What the rest of a work's life reports. -/
theorem reported_le {added : Multiset Work} (hreported : runner'.reported = runner.reported + added)
    (h : added + weigh Action.mayReport calls ≤ action.mayReport) :
    runner'.reported + weigh Action.mayReport calls ≤ runner.reported + action.mayReport + 0 := by
  rw [hreported, Multiset.add_assoc, Multiset.add_zero]
  exact Multiset.add_le_add_left h

/-- The end of a work is reported at most once. -/
theorem mayReport_covered (h : Act comparisonKey action runner runner' calls) :
    ∃ added : Multiset Work, (runner'.issued : Multiset Work) = runner.issued + added ∧
      runner'.reported + weigh Action.mayReport calls ≤
        runner.reported + action.mayReport + added := by
  cases h with
  | issue entry => exact ⟨{(runner.issue entry).2}, coe_concat _ _, by simp [reported]⟩
  | checkRunning | checkCancelled | checkClosed =>
    exact ⟨0, by simp, reported_le (Multiset.add_zero _).symm
      (by rw [Multiset.zero_add]; exact mayReport_checked _ _ _ rfl)⟩
  | push work =>
    refine ⟨0, by simp, le_of_eq ?_⟩
    simp only [reported, ScriptRunner.push, coe_concat, weigh_nil, Action.mayReport]
    abel
  | drained session =>
    exact ⟨0, by simp, reported_le (reported_report _ _)
      (by simp [apply_ite (List.map WorkReport.ends), apply_ite List.sum])⟩
  | refuse | abort => exact ⟨0, by simp, reported_le (reported_report _ _) (by simp)⟩
  | discard session closing _ =>
    exact ⟨0, by simp, reported_le_of_sublist rfl filter_sublist (.refl _)
      (by simp [weigh_flatMap])⟩
  | swap _ =>
    exact ⟨0, by simp, reported_le_of_sublist rfl (nil_sublist _) (.refl _)
      (by simp [weigh_flatMap])⟩
  | leave worker _ =>
    exact ⟨0, by simp, reported_le_of_sublist rfl (.refl _) filter_sublist
      (by simp [weigh_flatMap])⟩
  | advance worker before after execution _ hresident =>
    refine ⟨0, by simp, le_of_eq ?_⟩
    simp only [reported, hresident, map_append, map_cons, sum_append, sum_cons, weigh_cons,
      weigh_nil, Action.mayReport]
    abel
  | pumpJobs worker before after execution call _ hresident =>
    exact ⟨0, by simp, by simp [reported, hresident]⟩
  | settle worker session pending _ _ =>
    refine ⟨0, by simp, le_of_eq ?_⟩
    simp only [reported, ScriptRunner.settle, ScriptRunner.update,
      map_answered (f := ScriptExecution.mayReport) fun _ => rfl, weigh_cons, weigh_nil,
      Action.mayReport]
    abel
  | remove worker position work hwork =>
    refine ⟨0, by simp, le_of_eq ?_⟩
    simp only [reported, ScriptRunner.remove, ← coe_eraseIdx hwork, weigh_cons, weigh_nil,
      Action.mayReport]
    abel
  | openRealm worker work route =>
    exact ⟨0, by simp, reported_le (reported_report _ _)
      (by simp [ScriptExecution.new, apply_ite (weigh Action.mayReport)])⟩
  | evaluate execution =>
    exact ⟨0, by simp, reported_le (Multiset.add_zero _).symm
      (by simpa using mayReport_le execution)⟩
  | download execution =>
    refine ⟨0, by simp, reported_le (Multiset.add_zero _).symm ?_⟩
    simp only [weigh_cons, weigh_nil, Action.mayReport, Multiset.zero_add, Multiset.add_zero]
    exact mayReport_le execution.done
  | stepKept first execution outcome _ =>
    refine ⟨0, by simp, reported_le
      ((reported_keep _ _).trans (by rw [reported_report, Multiset.add_assoc])) ?_⟩
    simpa using reports_step execution outcome
  | stepFinished first execution outcome _ =>
    refine ⟨0, by simp, reported_le (reported_report _ _) ?_⟩
    simpa using (Multiset.le_add_right _ _).trans (reports_step execution outcome)
  | stepParses first execution outcome _ _ =>
    refine ⟨0, by simp, reported_le (reported_report _ _) ?_⟩
    simpa using reports_step execution outcome
  | parseThrows first execution hstage error =>
    refine ⟨0, by simp, reported_le
      ((reported_keep _ _).trans (by rw [reported_report, Multiset.add_assoc])) ?_⟩
    simpa using reports_failWork execution error (by simp [hstage])
  | parse first execution _ => exact ⟨0, by simp, reported_le (reported_keep _ _) (by simp)⟩
  | _ => exact ⟨0, by simp, by simp [reported, apply_ite (weigh Action.mayReport)]⟩

end Balances

/-! ## The flags and the counters of a session -/

/-- What most changes of a session keep: an ID is not given out again, and the count and the flags
stay. -/
structure Session.Quiet (session session' : Session) : Prop where
  nextWork : session.nextWork ≤ session'.nextWork
  outstanding : session'.outstanding = session.outstanding
  cancelled : session'.cancelled = session.cancelled
  closed : session'.closed = session.closed

namespace Session.Quiet

theorem refl (session : Session) : session.Quiet session :=
  ⟨le_rfl, rfl, rfl, rfl⟩

theorem reportDrainedIfIdle (session : Session) : session.Quiet session.reportDrainedIfIdle.1 := by
  unfold Session.reportDrainedIfIdle
  split <;> exact ⟨le_rfl, rfl, rfl, rfl⟩

theorem settle (id : ℕ) (session : Session) : session.Quiet (session.settle id) := by
  unfold Session.settle
  split <;> exact ⟨le_rfl, rfl, rfl, rfl⟩

theorem reserveStart (session : Session) : session.Quiet (session.reserveStart.getD session) := by
  unfold Session.reserveStart
  split <;> exact ⟨le_rfl, rfl, rfl, rfl⟩

theorem call (execution : ScriptExecution) (call : ScriptCall) (session : Session) :
    session.Quiet (if call = .request then session.track execution.worker (some execution.work)
      else session) := by
  split <;> exact ⟨le_rfl, rfl, rfl, rfl⟩

end Session.Quiet

section Sessions

variable {comparisonKey : Text → Text} {action : Action} {runner runner' : ScriptRunner}
  {calls : List Action} {f : Session → Session}

theorem quiet_update (hf : ∀ session : Session, session.Quiet (f session)) (runner : ScriptRunner)
    (target session : ℕ) :
    (runner.sessions session).Quiet ((runner.update target f).sessions session) := by
  by_cases heq : session = target
  · subst heq
    simpa using hf _
  · simpa [heq] using Session.Quiet.refl _

/-- What an action does to the sessions: it counts a work, retires one, sets a flag, or does nothing
of the kind. -/
inductive SessionChange (runner : ScriptRunner) : Action → ScriptRunner → Prop
  | quiet {action : Action} {runner' : ScriptRunner} :
      (∀ session, (runner.sessions session).Quiet (runner'.sessions session)) →
      runner'.accepted = runner.accepted → runner'.retired = runner.retired →
      SessionChange runner action runner'
  | enqueue {followed : Bool} (key : Text) (work : Work) :
      SessionChange runner (.enqueue work followed) (runner.enqueue key work)
  | retire (work : Work) : SessionChange runner (.retire work) (runner.retire work)
  | cancel (session : ℕ) :
      SessionChange runner (.cancel session) (runner.update session Session.cancel)
  | close (session : ℕ) :
      SessionChange runner (.close session) (runner.update session Session.close)

theorem Act.sessionChange (h : Act comparisonKey action runner runner' calls) :
    SessionChange runner action runner' := by
  cases h with
  | enqueue work followed => exact .enqueue _ _
  | retire work => exact .retire _
  | cancel session => exact .cancel _
  | close session => exact .close _
  | issue | importFile =>
    refine .quiet (quiet_update (fun _ => ?_) _ _) rfl rfl
    exact ⟨Nat.le_succ _, rfl, rfl, rfl⟩
  | remember | claim | dequeued | begin | abandon | releaseStart | trackImport =>
    refine .quiet (quiet_update (fun _ => ?_) _ _) rfl rfl
    exact ⟨le_rfl, rfl, rfl, rfl⟩
  | drained session => exact .quiet (quiet_update .reportDrainedIfIdle _ _) rfl rfl
  | forget | settle => exact .quiet (quiet_update (.settle _) _ _) rfl rfl
  | reserve worker position work _ => exact .quiet (quiet_update .reserveStart _ _) rfl rfl
  | pumpJobs | evaluateCall | parseCall => exact .quiet (quiet_update (.call _ _) _ _) rfl rfl
  | _ => exact .quiet (fun _ => .refl _) rfl rfl

theorem sessions_update (f : Session → Session) (runner : ScriptRunner) (target session : ℕ) :
    (runner.update target f).sessions session = if session = target then f (runner.sessions session)
      else runner.sessions session := by
  by_cases heq : session = target
  · subst heq
    simp
  · simp [heq]

/-- An ID is not given out again, and a flag that is set stays set. -/
structure Session.Later (session session' : Session) : Prop where
  nextWork : session.nextWork ≤ session'.nextWork
  cancelled : session.cancelled = true → session'.cancelled = true
  closed : session.closed = true → session'.closed = true

theorem later_update (hf : ∀ session : Session, session.Later (f session)) (runner : ScriptRunner)
    (target session : ℕ) :
    (runner.sessions session).Later ((runner.update target f).sessions session) := by
  rw [sessions_update]
  split
  · exact hf _
  · exact ⟨le_rfl, id, id⟩

theorem Act.later (h : Act comparisonKey action runner runner' calls) (session : ℕ) :
    (runner.sessions session).Later (runner'.sessions session) := by
  cases h.sessionChange with
  | quiet hquiet _ _ =>
    obtain ⟨hnext, -, hcancelled, hclosed⟩ := hquiet session
    exact ⟨hnext, hcancelled.trans, hclosed.trans⟩
  | enqueue key work =>
    exact later_update (f := Session.enqueue key) (fun _ => ⟨le_rfl, id, id⟩) runner work.session
      session
  | retire work =>
    exact later_update (f := Session.retire) (fun _ => ⟨le_rfl, id, id⟩) runner work.session session
  | cancel target =>
    exact later_update (f := Session.cancel) (fun _ => ⟨le_rfl, fun _ => rfl, id⟩) runner target
      session
  | close target =>
    exact later_update (f := Session.close) (fun _ => ⟨le_rfl, id, fun _ => rfl⟩) runner target
      session

/-- The IDs that were given out are different, and lie below the next one. -/
structure ScriptRunner.Fresh (runner : ScriptRunner) : Prop where
  below : ∀ work ∈ runner.issued, work.id < (runner.sessions work.session).nextWork
  distinct : runner.issued.Pairwise fun first second => first.session = second.session →
    first.id ≠ second.id

theorem Act.issued (h : Act comparisonKey action runner runner' calls) :
    runner'.issued = runner.issued ∨ ∃ entry, runner' = (runner.issue entry).1 := by
  cases h with
  | issue entry => exact .inr ⟨entry, rfl⟩
  | _ => exact .inl rfl

theorem ScriptRunner.Fresh.act (hfresh : runner.Fresh)
    (h : Act comparisonKey action runner runner' calls) : runner'.Fresh := by
  obtain hissued | ⟨entry, rfl⟩ := h.issued
  · constructor
    · intro work hwork
      rw [hissued] at hwork
      exact (hfresh.below work hwork).trans_le (h.later _).nextWork
    · rw [hissued]
      exact hfresh.distinct
  · constructor
    · intro work hwork
      obtain hwork | rfl := mem_append.1 hwork |>.imp_right mem_singleton.1
      · exact (hfresh.below work hwork).trans_le (h.later _).nextWork
      · simp [Session.takeId]
    · refine pairwise_append.2 ⟨hfresh.distinct, pairwise_singleton _ _, ?_⟩
      intro work hwork new hnew hsession
      rw [mem_singleton.1 hnew] at hsession ⊢
      have hbelow := hfresh.below work hwork
      rw [hsession] at hbelow
      exact hbelow.ne

/-- `m_outstanding` counts the works that were counted and not retired. -/
def ScriptRunner.Counted (runner : ScriptRunner) : Prop :=
  ∀ session, (runner.sessions session).outstanding + runner.retired.countP (·.session = session) =
    runner.accepted.countP (·.session = session)

theorem ScriptRunner.Counted.act (hcounted : runner.Counted)
    (h : Act comparisonKey action runner runner' calls) : runner'.Counted := by
  intro session
  have hsession := hcounted session
  cases h.sessionChange with
  | quiet hquiet haccepted hretired =>
    rw [(hquiet session).outstanding, haccepted, hretired, hsession]
  | enqueue key work =>
    change ((runner.update work.session (Session.enqueue key)).sessions session).outstanding + _ =
      ((runner.accepted ++ [work]).countP _ : ℤ)
    rw [sessions_update, countP_append, countP_singleton]
    by_cases heq : session = work.session
    · simp only [heq, Session.enqueue] at hsession ⊢
      push_cast
      simp
      omega
    · simpa [heq, Ne.symm heq] using hsession
  | retire work =>
    change ((runner.update work.session Session.retire).sessions session).outstanding +
      ((runner.retired ++ [work]).countP _ : ℤ) = _
    rw [sessions_update, countP_append, countP_singleton]
    by_cases heq : session = work.session
    · simp only [heq, Session.retire] at hsession ⊢
      push_cast
      simp
      omega
    · simpa [heq, Ne.symm heq] using hsession
  | cancel | close =>
    change ((runner.update _ _).sessions session).outstanding + _ = _
    rw [sessions_update]
    split <;> exact hsession

end Sessions

/-! ## Runs -/

section Runs

variable {comparisonKey : Text → Text} {limits : ℕ → ℕ} {threads : ℕ}
  {allowed : Threads ScriptRunner Action → Action → Prop} {state : Threads ScriptRunner Action}

theorem load_start {M : Type} [AddCommMonoid M] {weight : Action → M}
    (h : ∀ worker, weight (.loop worker) = 0) :
    load weight (ScriptRunner.start limits threads) = 0 := by
  change weigh weight ((List.range (max threads 1)).flatMap fun worker => [.loop worker]) = 0
  simp [weigh_flatMap, h]

/-- The works that have not left the runner: in the queue, with a worker, or in the hands of a
thread. -/
def heldWorks (state : Threads ScriptRunner Action) : Multiset Work :=
  state.shared.queue + state.shared.resident.map ScriptExecution.work + load Action.hand state

/-- Whether a report says that a work has ended. -/
def WorkReport.isEnd (work : Work) : WorkReport → Bool
  | .completed ended => ended = work
  | .failed ended _ => ended = work
  | _ => false

/-- **Every work is accounted for once.** -/
structure Accounted (state : Threads ScriptRunner Action) : Prop where
  /-- a work is known by its ID -/
  ids : ∀ first ∈ state.shared.accepted, ∀ second ∈ state.shared.accepted,
    first.session = second.session → first.id = second.id →
    first = second
  /-- `m_outstanding` is the number of the accepted works that are not retired -/
  outstanding : ∀ session, (state.shared.sessions session).outstanding =
    state.shared.accepted.countP fun work => work.session = session ∧ work ∉ state.shared.retired
  /-- an accepted work has not left the runner, or it was retired once -/
  retired : ∀ work ∈ state.shared.accepted,
    (heldWorks state).count work + state.shared.retired.count work = 1
  /-- and nothing else is with the runner or retired -/
  accepted : ∀ work, work ∈ heldWorks state ∨ work ∈ state.shared.retired →
    work ∈ state.shared.accepted
  /-- the end of a work is reported once at most -/
  reported : ∀ work, state.shared.reports.countP (WorkReport.isEnd work) ≤ 1

theorem count_ends (reports : List WorkReport) (work : Work) :
    (reports.map WorkReport.ends).sum.count work = reports.countP (WorkReport.isEnd work) := by
  induction reports with
  | nil => rfl
  | cons report reports ih =>
    rw [map_cons, sum_cons, Multiset.count_add, countP_cons, ih, Nat.add_comm]
    cases report <;> simp [WorkReport.isEnd, Multiset.count_singleton, eq_comm]

variable (hrun : ScriptRunner.Reaches comparisonKey limits threads allowed state)

include hrun

theorem accepted_run :
    (state.shared.accepted : Multiset Work) = state.shared.placed + load Action.hand state := by
  refine hrun.balanced (fun runner => (runner.accepted : Multiset Work)) ScriptRunner.placed
    (fun _ _ _ _ _ _ h => hand_balanced h) ?_ ?_
  · rintro action (_ | _ | _ | _ | _) <;> rfl
  · rw [load_start fun _ => rfl]
    rfl

theorem issued_run :
    (state.shared.issued : Multiset Work) = state.shared.accepted + load Action.entering state := by
  refine hrun.balanced (fun runner => (runner.issued : Multiset Work))
    (fun runner => (runner.accepted : Multiset Work))
    (fun _ _ _ _ _ _ h => entering_balanced h) ?_ ?_
  · rintro action (_ | _ | _ | _ | _) <;> rfl
  · rw [load_start fun _ => rfl]
    rfl

theorem reported_run :
    state.shared.reported + load Action.mayReport state ≤ state.shared.issued := by
  refine hrun.covered (fun runner => (runner.issued : Multiset Work)) ScriptRunner.reported
    (fun _ _ _ _ h => mayReport_covered h) ?_ ?_
  · rintro action (_ | _ | _ | _ | _) <;> rfl
  · rw [load_start fun _ => rfl]
    exact Multiset.zero_le _

theorem mutex_run :
    1 = state.shared.free + load Action.holding state := by
  refine hrun.balanced (fun _ => 1) ScriptRunner.free
    (fun _ _ _ _ _ hone h => ⟨0, rfl, holding_balanced hone h⟩) ?_ ?_
  · rintro action (_ | _ | _ | _ | _) <;> rfl
  · rw [load_start fun _ => rfl]
    rfl

theorem fresh_run : state.shared.Fresh :=
  hrun.shared_of_act (fun _ _ _ _ h hfresh => hfresh.act h) ⟨forall_mem_nil _, .nil⟩

theorem counted_run : state.shared.Counted :=
  hrun.shared_of_act (fun _ _ _ _ h hcounted => hcounted.act h) fun _ => rfl

/-- What was accepted is retired or held. -/
theorem accepted_eq :
    (state.shared.accepted : Multiset Work) = state.shared.retired + heldWorks state := by
  rw [accepted_run hrun, ScriptRunner.placed, heldWorks]
  simp only [Multiset.add_assoc]

theorem nodup_issued : state.shared.issued.Nodup :=
  (fresh_run hrun).distinct.imp fun hne heq => hne (congrArg _ heq) (congrArg _ heq)

theorem accepted_le_issued :
    (state.shared.accepted : Multiset Work) ≤ state.shared.issued := by
  rw [issued_run hrun]
  exact Multiset.le_add_right _ _

theorem nodup_accepted :
    (state.shared.accepted : Multiset Work).Nodup :=
  Multiset.nodup_of_le (accepted_le_issued hrun) (Multiset.coe_nodup.2 (nodup_issued hrun))

theorem outstanding_eq (session : ℕ) :
    (state.shared.sessions session).outstanding =
      state.shared.accepted.countP fun work => work.session = session ∧
      work ∉ state.shared.retired := by
  have hcounted := counted_run hrun session
  have hnodup := nodup_accepted hrun
  rw [accepted_eq hrun, Multiset.nodup_add] at hnodup
  have hheld : ∀ work ∈ heldWorks state, work ∉ state.shared.retired := fun work hwork hretired =>
    Multiset.disjoint_left.1 hnodup.2.2 (Multiset.mem_coe.2 hretired) hwork
  have haccepted : state.shared.accepted.countP (fun work => work.session = session) =
      state.shared.retired.countP (fun work => work.session = session) + (heldWorks state).countP
        fun work => work.session = session := by
    rw [← Multiset.coe_countP, accepted_eq hrun, Multiset.countP_add, Multiset.coe_countP]
  have hunretired :
      state.shared.accepted.countP
        (fun work => work.session = session ∧ work ∉ state.shared.retired) =
      (heldWorks state).countP fun work => work.session = session := by
    rw [← Multiset.coe_countP, accepted_eq hrun, Multiset.countP_add]
    have hzero : (state.shared.retired : Multiset Work).countP
        (fun work => work.session = session ∧ work ∉ state.shared.retired) = 0 :=
      Multiset.countP_eq_zero.2 fun work hwork h => h.2 (Multiset.mem_coe.1 hwork)
    rw [hzero, Nat.zero_add]
    exact Multiset.countP_congr rfl fun work hwork => by simp [hheld work hwork]
  omega

theorem accounted : Accounted state where
  ids := by
    intro first hfirst second hsecond hsession hid
    by_contra hne
    have : Std.Symm fun first second : Work => first.session = second.session →
        first.id ≠ second.id :=
      ⟨fun _ _ hne hsession => (hne hsession.symm).symm⟩
    have hissued := Multiset.subset_of_le (accepted_le_issued hrun)
    exact (fresh_run hrun).distinct.forall (hissued hfirst) (hissued hsecond) hne hsession hid
  outstanding := outstanding_eq hrun
  retired := by
    intro work hwork
    have hcount := Multiset.count_eq_one_of_mem (nodup_accepted hrun) (Multiset.mem_coe.2 hwork)
    rw [accepted_eq hrun, Multiset.count_add, Multiset.coe_count] at hcount
    omega
  accepted := by
    intro work hwork
    rw [← Multiset.mem_coe, accepted_eq hrun, Multiset.mem_add, Multiset.mem_coe]
    exact hwork.symm
  reported := by
    intro work
    have hle : (state.shared.reports.map WorkReport.ends).sum ≤ state.shared.issued := by
      refine le_trans ?_ (reported_run hrun)
      rw [ScriptRunner.reported, Multiset.add_assoc, Multiset.add_assoc]
      exact Multiset.le_add_right _ _
    rw [← count_ends]
    exact (Multiset.count_le_of_le _ hle).trans
      (Multiset.nodup_iff_count_le_one.1 (Multiset.coe_nodup.2 (nodup_issued hrun)) _)

end Runs

end Idhan.Downloader
