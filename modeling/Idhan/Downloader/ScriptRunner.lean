import Idhan.Downloader.Http
import Idhan.Lib.Threads

/-!
# Download sessions and the script runner

`SessionContext` and `ScriptRunner`: a session counts the work that is submitted to it or followed
by its scripts, the runner queues the work of all the sessions, and its workers take it, begin it,
step it and release it, until the work is retired.

Every critical section of a session's mutex is one action here, and so is every load, store,
exchange and addition of an atomic.  The mutex of the runner is a flag of its own, since sections
that hold it read the atomics of a session on the way: between the test of a flag and the change of
the queue that depends on it, other threads act.  A worker does the parts of its loop in any order.
What the registry of the URL classes, the host and the script engine answer is left open, and the
requests of a script are answered at any time.

The texts of reports are as in the source.  The records and events for the diagnostics are left out,
and so are the inboxes of the workers, with which nothing is decided.  A call of a session has a
handle of it, and `m_outstanding` is an integer without a width: an underflow shows as a negative
number.  `Action` is what the threads have still to do, and `Act` what an action does and calls.
-/

namespace Idhan.Downloader

/-! ## Works and executions -/

/-- `ScriptWork`, with the session for its handle. -/
structure Work where
  session : ℕ
  id : ℕ
  parent : Option ℕ
  url : Text
  deriving DecidableEq, Repr

/-- `ScriptRoute`, with the file name of its script. -/
structure ScriptRoute where
  urlClass : Text
  script : Text
  exportName : Text
  download : Bool
  deriving DecidableEq, Repr

inductive ScriptStage where
  | module
  | parser
  | done
  deriving DecidableEq, Repr

/-- `PromiseOutcome`, with the reason of a rejection. -/
inductive PromiseOutcome where
  | pending
  | fulfilled
  | rejected (reason : Text)
  deriving DecidableEq, Repr

/-- What the observer of a session is told about a work. -/
inductive WorkReport where
  | started (work : Work)
  | completed (work : Work)
  | failed (work : Work) (error : Text)
  | finished (session : ℕ)
  deriving DecidableEq, Repr

/-- `ScriptExecution`.  One that is settled is done. -/
structure ScriptExecution where
  worker : ℕ
  work : Work
  route : ScriptRoute
  stage : ScriptStage
  /-- how many requests of the script are not answered yet -/
  outstanding : ℕ
  settled : Bool
  failed : Bool
  error : Text
  done_of_settled : settled = true → stage = .done
  deriving DecidableEq, Repr

/-- What `step` leads to. -/
inductive Verdict where
  /-- the work stays with its worker -/
  | kept
  /-- `callParser` runs the script -/
  | parses
  /-- the work is released -/
  | finished
  deriving DecidableEq, Repr

/-- What a script asks its session for. -/
inductive ScriptCall where
  | request
  | importFile
  | follow (url : Text)
  deriving DecidableEq, Repr

namespace ScriptExecution

/-- The execution that `beginWork` makes. -/
def new (worker : ℕ) (work : Work) (route : ScriptRoute) : ScriptExecution :=
  ⟨worker, work, route, .module, 0, false, false, [], Bool.noConfusion⟩

/-- `stage = ScriptStage::DONE`. -/
def done (execution : ScriptExecution) : ScriptExecution :=
  { execution with stage := .done, done_of_settled := fun _ => rfl }

/-- What is left of the execution after a call of its script: a request is outstanding until it is
answered. -/
def after (execution : ScriptExecution) : ScriptCall → ScriptExecution
  | .request => { execution with outstanding := execution.outstanding + 1 }
  | .importFile => execution
  | .follow _ => execution

/-- A request of the script is answered. -/
def answered (execution : ScriptExecution) : ScriptExecution :=
  { execution with outstanding := execution.outstanding - 1 }

/-- `finishWork`, of an execution that is done. -/
def finishWork (execution : ScriptExecution) (h : execution.stage = .done) :
    ScriptExecution × List WorkReport :=
  if execution.settled then (execution, [])
  else ({ execution with settled := true, done_of_settled := fun _ => h },
    [.completed execution.work])

def failWork (execution : ScriptExecution) (error : Text) : ScriptExecution × List WorkReport :=
  if execution.failed then (execution, [])
  else
    ({ execution with
      failed := true, settled := true, stage := .done, error := error,
      done_of_settled := fun _ => rfl },
      [.failed execution.work ("URL class '".toList ++ execution.route.urlClass ++
      "', parser ".toList ++ execution.route.script
        ++ " export '".toList ++ execution.route.exportName ++ "':\n".toList ++ error)])

/-- `callParser` enters the stage of the parser. -/
def parsing (execution : ScriptExecution) (h : execution.stage = .module) : ScriptExecution :=
  { execution with
    stage := .parser
    done_of_settled := fun hsettled =>
      absurd (h.symm.trans (execution.done_of_settled hsettled)) ScriptStage.noConfusion }

/-- `return execution.outstanding == 0`. -/
def verdict (execution : ScriptExecution) : Verdict :=
  if execution.outstanding = 0 then .finished else .kept

/-- `SessionContext::Impl::step`, with the outcome of the promise that the execution waits for. -/
def step (execution : ScriptExecution) (outcome : PromiseOutcome) :
    ScriptExecution × List WorkReport × Verdict :=
  match h : execution.stage, outcome with
  | .done, _ =>
    if execution.failed then (execution, [], execution.verdict)
    else ((execution.finishWork h).1, (execution.finishWork h).2,
      (execution.finishWork h).1.verdict)
  | _, .pending => (execution, [], .kept)
  -- the execution has failed, so that `finishWork` is not called
  | _, .rejected reason =>
    ((execution.failWork reason).1, (execution.failWork reason).2,
      (execution.failWork reason).1.verdict)
  | .module, .fulfilled => (execution.parsing h, [], .parses)
  | .parser, .fulfilled =>
    if execution.failed then (execution.done, [], execution.verdict)
    else ((execution.done.finishWork rfl).1, (execution.done.finishWork rfl).2,
      (execution.done.finishWork rfl).1.verdict)

end ScriptExecution

/-! ## Sessions -/

/-- `SessionContext::Impl::Pending`: the worker that its result goes to, and the work whose
execution waits for it.  An import has none. -/
structure Pending where
  id : ℕ
  worker : ℕ
  execution : Option Work
  deriving DecidableEq, Repr

/-- `SessionContext::Impl`. -/
structure Session where
  /-- `m_seen`, the comparison keys of the URLs -/
  seen : List Text
  queued : ℕ
  inflightRequests : ℕ
  starting : ℕ
  /-- `m_options.inflight_requests` -/
  limit : ℕ
  pending : List Pending
  nextPending : ℕ
  drainedReported : Bool
  nextWork : ℕ
  outstanding : ℤ
  cancelled : Bool
  closed : Bool
  deriving DecidableEq, Repr

namespace Session

/-- The constructor. -/
def new (limit : ℕ) : Session :=
  ⟨[], 0, 0, 0, limit, [], 1, false, 1, 0, false, false⟩

/-- `m_next_work.fetch_add( 1 )`. -/
def takeId (session : Session) : Session :=
  { session with nextWork := session.nextWork + 1 }

/-- `m_cancelled.store( true )`. -/
def cancel (session : Session) : Session :=
  { session with cancelled := true }

/-- `m_closed.exchange( true )`. -/
def close (session : Session) : Session :=
  { session with closed := true }

/-- `m_seen.emplace`. -/
def remember (key : Text) (session : Session) : Session :=
  { session with seen := session.seen.insert key }

/-- The critical section of `enqueue`. -/
def enqueue (key : Text) (session : Session) : Session :=
  { session with
    seen := session.seen.insert key
    queued := session.queued + 1
    outstanding := session.outstanding + 1
    drainedReported := false }

/-- The critical section of `reserveStart`. -/
def reserveStart (session : Session) : Option Session :=
  if session.limit ≤ session.inflightRequests + session.starting then none
  else some { session with starting := session.starting + 1 }

def releaseStart (session : Session) : Session :=
  { session with starting := session.starting - 1 }

/-- The first critical section of `retireQueued` and of `beginWork`. -/
def dequeued (session : Session) : Session :=
  { session with queued := session.queued - 1 }

/-- The critical section of `retire`. -/
def retire (session : Session) : Session :=
  { session with outstanding := session.outstanding - 1 }

/-- `reportDrainedIfIdle`, and whether it reports. -/
def reportDrainedIfIdle (session : Session) : Session × Bool :=
  if session.outstanding ≠ 0 ∨ session.pending ≠ [] ∨ session.drainedReported = true then
    (session, false)
  else ({ session with drainedReported := true }, true)

def track (worker : ℕ) (execution : Option Work) (session : Session) : Session :=
  { session with
    nextPending := session.nextPending + 1
    inflightRequests := session.inflightRequests + 1
    pending := session.pending ++ [⟨session.nextPending, worker, execution⟩] }

/-- The critical section of `settle`, and of `deliver` when the runner has stopped. -/
def settle (id : ℕ) (session : Session) : Session :=
  if session.pending.any fun pending => pending.id = id then
    { session with
      pending := session.pending.filter fun pending => pending.id ≠ id
      inflightRequests := session.inflightRequests - 1 }
  else session

/-- The critical section of `abandon`. -/
def abandon (work : Work) (session : Session) : Session :=
  { session with
    pending := session.pending.filter fun pending => pending.execution ≠ some work
    inflightRequests := session.inflightRequests -
      session.pending.countP fun pending => pending.execution = some work }

end Session

/-! ## What the threads have still to do -/

/-- The arguments of `submit`, or of `follow` by the script of the work `parent`. -/
structure Entry where
  session : ℕ
  parent : Option ℕ
  url : Text
  followed : Bool
  deriving DecidableEq, Repr

/-- What a thread does next. -/
inductive Action where
  /-- `submit` and `follow` load `m_cancelled` -/
  | enter (entry : Entry)
  /-- and `m_closed` -/
  | enterClosed (entry : Entry)
  /-- `follow` looks for the URL in `m_seen` -/
  | explore (entry : Entry)
  /-- `alreadyImported` -/
  | observe (entry : Entry)
  | remember (entry : Entry)
  /-- `registry->route` -/
  | route (entry : Entry)
  /-- `follow` inserts the URL into `m_seen` -/
  | claim (entry : Entry)
  /-- `m_next_work.fetch_add` -/
  | issue (entry : Entry)
  /-- the critical section of `enqueue` -/
  | enqueue (work : Work) (followed : Bool)
  /-- `ScriptRunner::submit` takes the mutex of the runner -/
  | offer (work : Work) (followed : Bool)
  /-- with the mutex, it loads `m_running` -/
  | checkRunning (work : Work) (followed : Bool)
  /-- and in `acceptsWork` `m_cancelled` -/
  | checkCancelled (work : Work) (followed : Bool)
  /-- and `m_closed` -/
  | checkClosed (work : Work) (followed : Bool)
  /-- `m_queue.emplace_back`, and the mutex is given back -/
  | push (work : Work)
  /-- the critical section of `retireQueued` -/
  | dequeued (session : ℕ)
  /-- the critical section of `retire` -/
  | retire (work : Work)
  /-- `reportDrainedIfIdle` -/
  | drained (session : ℕ)
  /-- `follow` reports that its work was not queued -/
  | refuse (work : Work)
  | cancel (session : ℕ)
  | close (session : ℕ)
  /-- `ScriptRunner::discard`, for `close` or for `cancel` -/
  | discard (session : ℕ) (closing : Bool)
  /-- `cancel` or `close` returns -/
  | returned (session : ℕ)
  | stop
  /-- `stop` waits for the workers -/
  | join
  /-- `queued.swap( m_queue )` -/
  | swap
  /-- a result is delivered: `complete` loads `m_running` -/
  | deliver (session id : ℕ)
  /-- no worker can settle it any more -/
  | forget (session id : ℕ)
  /-- the loop of a worker -/
  | loop (worker : ℕ)
  /-- `take`, with the mutex of the runner, is at an entry of the queue and loads `m_cancelled` -/
  | take (worker position : ℕ)
  /-- and `m_closed` -/
  | takeClosed (worker position : ℕ)
  /-- the critical section of `reserveStart` -/
  | reserve (worker position : ℕ)
  /-- the entry is taken, and the mutex is given back -/
  | remove (worker position : ℕ)
  /-- the first critical section of `beginWork` -/
  | begin (worker : ℕ) (work : Work)
  /-- `beginWork` looks for the route and makes the realm -/
  | openRealm (worker : ℕ) (work : Work)
  /-- `abort` in `beginWork` -/
  | abort (work : Work) (error : Text)
  /-- `beginWork` of a URL that is a file -/
  | download (execution : ScriptExecution)
  /-- `evaluate` -/
  | evaluate (execution : ScriptExecution)
  /-- `step`, in `startWork` for the first time -/
  | step (first : Bool) (execution : ScriptExecution)
  /-- `callParser` runs the script -/
  | parse (first : Bool) (execution : ScriptExecution) (h : execution.stage = .parser)
  | abandon (work : Work)
  | releaseStart (session : ℕ)
  /-- `startImport` takes a work ID -/
  | importFile (session worker : ℕ)
  | trackImport (session worker : ℕ)
  /-- the thread of a worker ends -/
  | ended
  deriving DecidableEq, Repr

@[simp]
def retireQueued (work : Work) : List Action :=
  [.dequeued work.session, .retire work, .drained work.session]

/-- `releaseWork`, and the end of `abort`. -/
@[simp]
def releaseWork (work : Work) : List Action :=
  [.retire work, .drained work.session]

/-- `ScriptRunner::submit` goes on where its test passes, and `enqueue` is refused where it
fails. -/
def checked (passes : Bool) (next : Action) (work : Work) (followed : Bool) : List Action :=
  if passes then [next] else retireQueued work ++ if followed then [.refuse work] else []

/-- `releaseStart` after the first step. -/
def startReleased (first : Bool) (work : Work) : List Action :=
  if first then [.releaseStart work.session] else []

/-- The call of a script. -/
def ScriptExecution.calls (execution : ScriptExecution) : ScriptCall → List Action
  | .request => []
  | .importFile => [.importFile execution.work.session execution.worker]
  | .follow url => [.enter ⟨execution.work.session, some execution.work.id, url, true⟩]

theorem ScriptExecution.stage_after (execution : ScriptExecution) (call : ScriptCall) :
    (execution.after call).stage = execution.stage := by
  cases call <;> rfl

/-! ## The runner -/

/-- `ScriptRunner`, with the sessions whose work it runs, and what has happened so far. -/
structure ScriptRunner where
  sessions : ℕ → Session
  /-- a section with `m_mutex` is going on -/
  mutex : Bool
  queue : List Work
  running : Bool
  /-- how many threads of workers have not ended -/
  workers : ℕ
  /-- the executions of all the workers -/
  resident : List ScriptExecution
  /-- the works that have got an ID -/
  issued : List Work
  /-- the works that a session has counted -/
  accepted : List Work
  /-- the works that were retired -/
  retired : List Work
  reports : List WorkReport
  /-- the sessions of which a `cancel` or `close` has returned -/
  returned : List ℕ

namespace ScriptRunner

/-- A runner before any session is used. -/
def new (sessions : ℕ → Session) (workers : ℕ) : ScriptRunner :=
  ⟨sessions, false, [], true, workers, [], [], [], [], [], []⟩

/-- A session does something. -/
@[simp]
def update (session : ℕ) (f : Session → Session) (runner : ScriptRunner) : ScriptRunner :=
  { runner with sessions := Function.update runner.sessions session (f (runner.sessions session)) }

/-- The observer is told something. -/
@[simp]
def report (reports : List WorkReport) (runner : ScriptRunner) : ScriptRunner :=
  { runner with reports := runner.reports ++ reports }

/-- `m_next_work.fetch_add`. -/
@[simp]
def issue (entry : Entry) (runner : ScriptRunner) : ScriptRunner × Work :=
  ({ runner.update entry.session Session.takeId with
      issued := runner.issued ++ [⟨entry.session, (runner.sessions entry.session).nextWork,
      entry.parent, entry.url⟩] },
    ⟨entry.session, (runner.sessions entry.session).nextWork, entry.parent, entry.url⟩)

/-- The critical section of `enqueue`. -/
@[simp]
def enqueue (key : Text) (work : Work) (runner : ScriptRunner) : ScriptRunner :=
  { runner.update work.session (Session.enqueue key) with accepted := runner.accepted ++ [work] }

/-- A test of `ScriptRunner::submit` with the mutex, which is given back where the test fails. -/
@[simp]
def check (passes : Bool) (runner : ScriptRunner) : ScriptRunner :=
  { runner with mutex := passes && runner.mutex }

/-- `m_queue.emplace_back`. -/
@[simp]
def push (work : Work) (runner : ScriptRunner) : ScriptRunner :=
  { runner with queue := runner.queue ++ [work], mutex := false }

/-- The critical section of `retire`. -/
@[simp]
def retire (work : Work) (runner : ScriptRunner) : ScriptRunner :=
  { runner.update work.session Session.retire with retired := runner.retired ++ [work] }

@[simp]
def reportDrainedIfIdle (session : ℕ) (runner : ScriptRunner) : ScriptRunner :=
  (runner.update session fun session => session.reportDrainedIfIdle.1).report
    (if (runner.sessions session).reportDrainedIfIdle.2 then [.finished session] else [])

/-- The critical section of `discard`, and the rest of it. -/
@[simp]
def discard (session : ℕ) (runner : ScriptRunner) : ScriptRunner × List Action :=
  ({ runner with queue := runner.queue.filter fun work => work.session ≠ session },
    (runner.queue.filter fun work => work.session = session).flatMap retireQueued)

/-- The end of `stop`. -/
@[simp]
def swap (runner : ScriptRunner) : ScriptRunner × List Action :=
  ({ runner with queue := [] }, runner.queue.flatMap retireQueued)

@[simp]
def discardAll (worker : ℕ) (runner : ScriptRunner) : ScriptRunner × List Action :=
  ({ runner with resident := runner.resident.filter fun execution => execution.worker ≠ worker },
    (runner.resident.filter fun execution => execution.worker = worker).flatMap fun execution =>
      .abandon execution.work :: releaseWork execution.work)

/-- What a call of a script does at once. -/
@[simp]
def call (execution : ScriptExecution) (call : ScriptCall) (runner : ScriptRunner) : ScriptRunner :=
  runner.update execution.work.session fun session =>
    if call = .request then session.track execution.worker (some execution.work) else session

/-- `settle`: the execution that waits for the result goes on. -/
@[simp]
def settle (session : ℕ) (pending : Pending) (runner : ScriptRunner) : ScriptRunner :=
  { runner.update session (Session.settle pending.id) with
    resident := runner.resident.map fun execution =>
      if pending.execution = some execution.work then execution.answered else execution }

/-- `take` takes an entry out of the queue. -/
@[simp]
def remove (position : ℕ) (runner : ScriptRunner) : ScriptRunner :=
  { runner with queue := runner.queue.eraseIdx position, mutex := false }

/-- The execution stays with its worker. -/
@[simp]
def keep (execution : ScriptExecution) (runner : ScriptRunner) : ScriptRunner :=
  { runner with resident := runner.resident ++ [execution] }

end ScriptRunner

/-! ## What an action does -/

/-- The reason that `follow` reports. -/
def closedBeforeQueued : Text :=
  "The download session closed before followed work could be queued".toList

section Act

open ScriptRunner

variable (comparisonKey : Text → Text)

/-- What an action makes of the runner, and which actions it calls. -/
inductive Act : Action → ScriptRunner → ScriptRunner → List Action → Prop
  | enter {runner : ScriptRunner} (entry : Entry) :
      Act (.enter entry) runner runner
        (if (runner.sessions entry.session).cancelled then [] else [.enterClosed entry])
  | enterClosed {runner : ScriptRunner} (entry : Entry) :
      Act (.enterClosed entry) runner runner
        (if (runner.sessions entry.session).closed then []
          else if entry.followed then [.explore entry] else [.route entry])
  | explore {runner : ScriptRunner} (entry : Entry) :
      Act (.explore entry) runner runner
        (if comparisonKey entry.url ∈ (runner.sessions entry.session).seen then []
          else [.observe entry])
  | observe {runner : ScriptRunner} (entry : Entry) (imported : Bool) :
      Act (.observe entry) runner runner (if imported then [.remember entry] else [.route entry])
  | remember {runner : ScriptRunner} (entry : Entry) :
      Act (.remember entry) runner
        (runner.update entry.session (Session.remember (comparisonKey entry.url))) []
  | route {runner : ScriptRunner} (entry : Entry) (found : Bool) :
      Act (.route entry) runner runner
        (if found then (if entry.followed then [.claim entry] else [.issue entry]) else [])
  | claim {runner : ScriptRunner} (entry : Entry) :
      Act (.claim entry) runner
        (runner.update entry.session (Session.remember (comparisonKey entry.url)))
        (if comparisonKey entry.url ∈ (runner.sessions entry.session).seen then []
          else [.issue entry])
  | issue {runner : ScriptRunner} (entry : Entry) :
      Act (.issue entry) runner (runner.issue entry).1
        [.enqueue (runner.issue entry).2 entry.followed]
  | enqueue {runner : ScriptRunner} (work : Work) (followed : Bool) :
      Act (.enqueue work followed) runner (runner.enqueue (comparisonKey work.url) work)
        [.offer work followed]
  | offer {runner : ScriptRunner} (work : Work) (followed : Bool) : runner.mutex = false →
      Act (.offer work followed) runner { runner with mutex := true } [.checkRunning work followed]
  | checkRunning {runner : ScriptRunner} (work : Work) (followed : Bool) :
      Act (.checkRunning work followed) runner (runner.check runner.running)
        (checked runner.running (.checkCancelled work followed) work followed)
  | checkCancelled {runner : ScriptRunner} (work : Work) (followed : Bool) :
      Act (.checkCancelled work followed) runner
        (runner.check (!(runner.sessions work.session).cancelled))
        (checked (!(runner.sessions work.session).cancelled) (.checkClosed work followed)
          work followed)
  | checkClosed {runner : ScriptRunner} (work : Work) (followed : Bool) :
      Act (.checkClosed work followed) runner
        (runner.check (!(runner.sessions work.session).closed))
        (checked (!(runner.sessions work.session).closed) (.push work) work followed)
  | push {runner : ScriptRunner} (work : Work) : Act (.push work) runner (runner.push work) []
  | dequeued {runner : ScriptRunner} (session : ℕ) :
      Act (.dequeued session) runner (runner.update session Session.dequeued) []
  | retire {runner : ScriptRunner} (work : Work) : Act (.retire work) runner (runner.retire work) []
  | drained {runner : ScriptRunner} (session : ℕ) :
      Act (.drained session) runner (runner.reportDrainedIfIdle session) []
  | refuse {runner : ScriptRunner} (work : Work) :
      Act (.refuse work) runner (runner.report [.failed work closedBeforeQueued]) []
  | cancel {runner : ScriptRunner} (session : ℕ) :
      Act (.cancel session) runner (runner.update session Session.cancel) [.discard session false]
  | close {runner : ScriptRunner} (session : ℕ) :
      Act (.close session) runner (runner.update session Session.close)
        (if (runner.sessions session).closed then [.returned session] else [.discard session true])
  | discard {runner : ScriptRunner} (session : ℕ) (closing : Bool) : runner.mutex = false →
      Act (.discard session closing) runner (runner.discard session).1
        ((runner.discard session).2 ++ [.returned session])
  | returned {runner : ScriptRunner} (session : ℕ) :
      Act (.returned session) runner { runner with returned := runner.returned ++ [session] } []
  | stop {runner : ScriptRunner} :
      Act .stop runner { runner with running := false } (if runner.running then [.join] else [])
  | join {runner : ScriptRunner} : runner.workers = 0 → Act .join runner runner [.swap]
  | swap {runner : ScriptRunner} : runner.mutex = false →
      Act .swap runner runner.swap.1 runner.swap.2
  | deliver {runner : ScriptRunner} (session id : ℕ) :
      Act (.deliver session id) runner runner (if runner.running then [] else [.forget session id])
  | forget {runner : ScriptRunner} (session id : ℕ) :
      Act (.forget session id) runner (runner.update session (Session.settle id)) [.drained session]
  /-- the loop of a worker ends -/
  | leave {runner : ScriptRunner} (worker : ℕ) : runner.running = false →
      Act (.loop worker) runner (runner.discardAll worker).1
        ((runner.discardAll worker).2 ++ [.ended])
  | ended {runner : ScriptRunner} :
      Act .ended runner { runner with workers := runner.workers - 1 } []
  /-- `advance` steps one of the executions -/
  | advance {runner : ScriptRunner} (worker : ℕ) (before after : List ScriptExecution)
      (execution : ScriptExecution) :
      execution.worker = worker → runner.resident = before ++ execution :: after →
      Act (.loop worker) runner { runner with resident := before ++ after }
        [.step false execution, .loop worker]
  /-- `pumpJobs` runs the script of one of them -/
  | pumpJobs {runner : ScriptRunner} (worker : ℕ) (before after : List ScriptExecution)
      (execution : ScriptExecution) (call : ScriptCall) :
      execution.worker = worker → runner.resident = before ++ execution :: after →
      Act (.loop worker) runner
        ({ runner with resident := before ++ execution.after call :: after }.call execution call)
        (execution.calls call ++ [.loop worker])
  /-- `drainInbox` settles a request or an import -/
  | settle {runner : ScriptRunner} (worker session : ℕ) (pending : Pending) :
      pending ∈ (runner.sessions session).pending → pending.worker = worker →
      Act (.loop worker) runner (runner.settle session pending) [.drained session, .loop worker]
  /-- `startWork` calls `take`, which takes the mutex of the runner -/
  | startWork {runner : ScriptRunner} (worker : ℕ) : runner.mutex = false →
      Act (.loop worker) runner { runner with mutex := true } [.take worker 0]
  | takeNone {runner : ScriptRunner} (worker position : ℕ) : runner.queue[position]? = none →
      Act (.take worker position) runner { runner with mutex := false } [.loop worker]
  | take {runner : ScriptRunner} (worker position : ℕ) (work : Work) :
      runner.queue[position]? = some work →
      Act (.take worker position) runner runner
        (if (runner.sessions work.session).cancelled then [.take worker (position + 1)]
          else [.takeClosed worker position])
  | takeClosed {runner : ScriptRunner} (worker position : ℕ) (work : Work) :
      runner.queue[position]? = some work →
      Act (.takeClosed worker position) runner runner
        (if (runner.sessions work.session).closed then [.take worker (position + 1)]
          else [.reserve worker position])
  | reserve {runner : ScriptRunner} (worker position : ℕ) (work : Work) :
      runner.queue[position]? = some work →
      Act (.reserve worker position) runner
        (runner.update work.session fun session => session.reserveStart.getD session)
        (if (runner.sessions work.session).reserveStart.isSome then [.remove worker position]
          else [.take worker (position + 1)])
  | remove {runner : ScriptRunner} (worker position : ℕ) (work : Work) :
      runner.queue[position]? = some work →
      Act (.remove worker position) runner (runner.remove position)
        [.begin worker work, .loop worker]
  | begin {runner : ScriptRunner} (worker : ℕ) (work : Work) :
      Act (.begin worker work) runner (runner.update work.session Session.dequeued)
        [.openRealm worker work]
  /-- the URL has no route any more, or the registry has an error -/
  | noRoute {runner : ScriptRunner} (worker : ℕ) (work : Work) (error : Option Text) :
      Act (.openRealm worker work) runner runner
        [.abort work (error.getD ("No URL class accepts URL: ".toList ++ work.url))]
  | noRealm {runner : ScriptRunner} (worker : ℕ) (work : Work) (error : Text) :
      Act (.openRealm worker work) runner runner [.abort work error]
  | openRealm {runner : ScriptRunner} (worker : ℕ) (work : Work) (route : ScriptRoute) :
      Act (.openRealm worker work) runner (runner.report [.started work])
        (if route.download then [.download (.new worker work route)]
          else [.evaluate (.new worker work route)])
  | abort {runner : ScriptRunner} (work : Work) (error : Text) :
      Act (.abort work error) runner (runner.report [.failed work error])
        (releaseWork work ++ [.releaseStart work.session])
  | download {runner : ScriptRunner} (execution : ScriptExecution) :
      Act (.download execution) runner runner
        [.importFile execution.work.session execution.worker, .step true execution.done]
  | evaluateCall {runner : ScriptRunner} (execution : ScriptExecution) (call : ScriptCall) :
      Act (.evaluate execution) runner (runner.call execution call)
        (execution.calls call ++ [.evaluate (execution.after call)])
  | evaluateThrows {runner : ScriptRunner} (execution : ScriptExecution) (error : Text) :
      Act (.evaluate execution) runner runner [.abandon execution.work, .abort execution.work error]
  | evaluate {runner : ScriptRunner} (execution : ScriptExecution) :
      Act (.evaluate execution) runner runner [.step true execution]
  | stepKept {runner : ScriptRunner} (first : Bool) (execution : ScriptExecution)
      (outcome : PromiseOutcome) : (execution.step outcome).2.2 = .kept →
      Act (.step first execution) runner
        ((runner.report (execution.step outcome).2.1).keep (execution.step outcome).1)
        (startReleased first execution.work)
  | stepFinished {runner : ScriptRunner} (first : Bool) (execution : ScriptExecution)
      (outcome : PromiseOutcome) : (execution.step outcome).2.2 = .finished →
      Act (.step first execution) runner (runner.report (execution.step outcome).2.1)
        (startReleased first execution.work ++ releaseWork execution.work)
  | stepParses {runner : ScriptRunner} (first : Bool) (execution : ScriptExecution)
      (outcome : PromiseOutcome) (h : (execution.step outcome).1.stage = .parser) :
      (execution.step outcome).2.2 = .parses →
      Act (.step first execution) runner (runner.report (execution.step outcome).2.1)
        [.parse first (execution.step outcome).1 h]
  | parseCall {runner : ScriptRunner} (first : Bool) (execution : ScriptExecution)
      (h : execution.stage = .parser) (call : ScriptCall) :
      Act (.parse first execution h) runner (runner.call execution call)
        (execution.calls call ++
          [.parse first (execution.after call) ((execution.stage_after call).trans h)])
  | parseThrows {runner : ScriptRunner} (first : Bool) (execution : ScriptExecution)
      (h : execution.stage = .parser) (error : Text) :
      Act (.parse first execution h) runner
        ((runner.report (execution.failWork error).2).keep (execution.failWork error).1)
        (startReleased first execution.work)
  | parse {runner : ScriptRunner} (first : Bool) (execution : ScriptExecution)
      (h : execution.stage = .parser) :
      Act (.parse first execution h) runner (runner.keep execution)
        (startReleased first execution.work)
  | abandon {runner : ScriptRunner} (work : Work) :
      Act (.abandon work) runner (runner.update work.session (Session.abandon work)) []
  | releaseStart {runner : ScriptRunner} (session : ℕ) :
      Act (.releaseStart session) runner (runner.update session Session.releaseStart) []
  | importFile {runner : ScriptRunner} (session worker : ℕ) (sent : Bool) :
      Act (.importFile session worker) runner (runner.update session Session.takeId)
        (if sent then [.trackImport session worker] else [])
  | trackImport {runner : ScriptRunner} (session worker : ℕ) :
      Act (.trackImport session worker) runner (runner.update session (Session.track worker none))
        []

end Act

/-- What a thread of the host or of the transport begins with. -/
inductive Call : Action → Prop
  | submit (session : ℕ) (parent : Option ℕ) (url : Text) :
      Call (.enter ⟨session, parent, url, false⟩)
  | cancel (session : ℕ) : Call (.cancel session)
  | close (session : ℕ) : Call (.close session)
  | stop : Call .stop
  | deliver (session id : ℕ) : Call (.deliver session id)

/-- The constructor of `ScriptRunner`: the loops of the workers begin. -/
def ScriptRunner.start (limits : ℕ → ℕ) (threads : ℕ) : Threads ScriptRunner Action :=
  ⟨.new (fun session => .new (limits session)) (max threads 1),
    (List.range (max threads 1)).map fun worker => [.loop worker]⟩

/-- What a runner with these threads and its sessions come to, by actions that are all allowed where
they are taken. -/
abbrev ScriptRunner.Reaches (comparisonKey : Text → Text) (limits : ℕ → ℕ) (threads : ℕ)
    (allowed : Threads ScriptRunner Action → Action → Prop) (state : Threads ScriptRunner Action) :
    Prop :=
  Threads.Run (Act comparisonKey) Call allowed (ScriptRunner.start limits threads) state

end Idhan.Downloader
