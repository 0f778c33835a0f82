import Idhan.Ipc.Delivery
import Idhan.Workers.Replies

/-!
# The end of a worker

`WorkerRunner::run` with its pool of threads.  The loop of `run` reads the frames of the host; when
`SHUTDOWN` has arrived it is left, the threads are asked to stop and joined, and what is in the
outbound queue is flushed.  A thread takes a call from the queue, runs it and sends its result; it
looks whether it should stop before it waits for the next call.

A run is a list of actions of the thread of `run`, of the threads of the pool and of the thread that
starts the modules.  A thread that waits may test its condition at any time.  The channel stays
writable: a round of the writer puts something into the socket.  A module whose callback fails
returns like any other.  Heartbeats are left out, and so are the locks of modules which are not
thread-safe: they delay calls.

`Wired` says that what is in the socket and what is left to send are the frames of the outbound
queue, and `Serving.Sound` where the calls are, in every orderly run.  A thread that is asked to
stop ends its call first, so joining the threads waits for the calls that are being run, and
flushing sends their results; but nobody takes what is in the queue.  So every call is answered if
the queue is empty when the loop is left (`shutdown_answers`), and `shutdown_loses` is a run in
which it is not.
-/

namespace Idhan.Workers

open Ipc List

variable {φ : Type} {threads : List PoolThread}

/-! ## The threads -/

/-- Where a thread of the pool is. -/
inductive ThreadPhase where
  /-- at the condition of its loop -/
  | top
  /-- at the condition of its wait -/
  | waiting
  | busy (call : QueuedCall)
  | exited
  deriving DecidableEq, Repr

/-- A thread of the pool. -/
structure PoolThread where
  phase : ThreadPhase := .top
  stopRequested : Bool := false
  deriving DecidableEq, Repr

/-- The call that a thread runs. -/
def PoolThread.call (thread : PoolThread) : Option QueuedCall :=
  match thread.phase with
  | .busy call => some call
  | _ => none

/-- Where the thread of `run` is. -/
inductive RunPhase where
  | reading
  /-- it has left the loop -/
  | left
  /-- it asks the threads to stop, from a place on -/
  | requesting (place : ℕ)
  | joining
  | flushing
  | returned
  deriving DecidableEq, Repr

/-- A worker with its threads. -/
structure Serving (φ : Type) where
  runner : Runner φ
  /-- what has been put into the socket -/
  socket : List (Cell φ)
  threads : List PoolThread
  phase : RunPhase
  /-- `m_stopping` -/
  stopping : Bool
  /-- `m_ready` -/
  ready : Bool
  /-- `m_reader.atEof()` -/
  atEof : Bool

/-- What a thread does next. -/
inductive ServingAction (φ : Type) where
  /-- a call is read -/
  | receive (frame : CallFrame φ)
  /-- `SHUTDOWN` is read -/
  | shutdown
  /-- the host has closed the channel -/
  | readEof
  /-- the loop is left; `failed` says that the channel has failed -/
  | leave (failed : Bool)
  /-- the thread of `run` goes on after the loop -/
  | proceed
  /-- a round of the writer -/
  | drain (limit : ℕ)
  /-- the modules have started -/
  | becomeReady
  /-- a thread comes to the condition of its loop -/
  | check (place : ℕ)
  /-- a thread tests the condition of its wait -/
  | test (place : ℕ)
  /-- the call of a thread ends -/
  | finish (place : ℕ) (run : ModuleRun φ) (dupError : Option String)

namespace Serving

/-- A worker with a number of threads. -/
def start (threads : ℕ) : Serving φ :=
  ⟨.start, [], List.replicate threads {}, .reading, false, false, false⟩

/-- A thread comes to another phase. -/
def advance (s : Serving φ) (place : ℕ) (thread : PoolThread) (phase : ThreadPhase) : Serving φ :=
  { s with threads := s.threads.set place { thread with phase := phase } }

variable (library : List ModuleInfo)

/-- `while ( !stop.stop_requested() )`. -/
def check (s : Serving φ) (place : ℕ) : Serving φ :=
  match s.threads[place]? with
  | some thread =>
    if thread.phase = .top then s.advance place thread (if thread.stopRequested then .exited
      else .waiting) else s
  | none => s

/-- The wait of a thread for a call, when its condition is tested. -/
def test (s : Serving φ) (place : ℕ) : Serving φ :=
  match s.threads[place]? with
  | some thread =>
    if thread.phase = .waiting then
      match s.ready, s.runner.queue with
      | true, call :: _ =>
        { s.advance place thread (.busy call) with runner := s.runner.step library .take }
      | _, _ => if thread.stopRequested then s.advance place thread .top else s
    else s
  | none => s

/-- `runCall`. -/
def finish (s : Serving φ) (place : ℕ) (run : ModuleRun φ) (dupError : Option String) : Serving φ :=
  match s.threads[place]? with
  | some thread =>
    match thread.phase with
    | .busy call =>
      { s.advance place thread .top with
        runner := s.runner.step library (.finish (s.runner.running.idxOf call) run dupError) }
    | _ => s
  | none => s

/-- The thread of `run` after the loop: `failAllCallbacks`, `request_stop` of each thread, the joins
and `flush`. -/
def proceed (s : Serving φ) : Serving φ :=
  match s.phase with
  | .reading => s
  | .left => { s with phase := .requesting 0 }
  | .requesting place =>
    match s.threads[place]? with
    | some thread =>
      { s with
        threads := s.threads.set place { thread with stopRequested := true }
        phase := .requesting (place + 1) }
    | none => { s with phase := .joining }
  | .joining =>
    if s.ready ∧ ∀ thread ∈ s.threads, thread.phase = .exited then { s with phase := .flushing }
      else s
  | .flushing => if s.atEof ∨ s.runner.writer.queue = [] then { s with phase := .returned } else s
  | .returned => s

/-- A round of `drain`, in the loop or in `flush`. -/
def drain (s : Serving φ) (limit : ℕ) : Serving φ :=
  if s.phase = .reading ∨ s.phase = .flushing ∧ !s.atEof then
    { s with
      runner := { s.runner with writer := (s.runner.writer.drainRound limit).2 }
      socket := s.socket ++ (s.runner.writer.drainRound limit).1 }
  else s

/-- What an action does, as long as no exception has ended the worker. -/
def act (s : Serving φ) : ServingAction φ → Serving φ
  | .receive frame =>
    if s.phase = .reading then { s with runner := s.runner.step library (.receive frame) } else s
  | .shutdown => if s.phase = .reading then { s with stopping := true } else s
  | .readEof => if s.phase = .reading then { s with atEof := true } else s
  | .leave failed =>
    if s.phase = .reading ∧ (s.stopping ∨ s.atEof ∨ failed) then { s with
      phase := .left, stopping := true } else s
  | .proceed => s.proceed
  | .drain limit => s.drain limit
  | .becomeReady => { s with ready := true }
  | .check place => s.check place
  | .test place => s.test library place
  | .finish place run dupError => s.finish library place run dupError

def step (s : Serving φ) (action : ServingAction φ) : Serving φ :=
  if s.runner.crashed then s else s.act library action

/-- The worker after some actions. -/
def run (threads : ℕ) (actions : List (ServingAction φ)) : Serving φ :=
  actions.foldl (step library) (start threads)

end Serving

/-! ## The outbound queue -/

/-- A frame in the socket. -/
def wire (frame : Frame JsonObject φ) : List (Cell φ) :=
  attach frame.fds
    (Header.toBytes ⟨(writeObject frame.body).length, frame.fds.length⟩ ++ writeObject frame.body)

/-- What is in the socket and what is left to send are the frames of the outbound queue. -/
structure Wired (r : Runner φ) (socket : List (Cell φ)) : Prop where
  sane : ∀ pending ∈ r.writer.queue, pending.Sane
  cells : socket ++ r.writer.unsent = r.outbound.flatMap wire

namespace Wired

variable {r : Runner φ} {socket : List (Cell φ)}

theorem send (h : Wired r socket) (dupError : Option String) (body : JsonObject) (fds : List φ) :
    Wired (r.send dupError body fds) socket := by
  unfold Runner.send
  split
  · exact h
  · next writer hwriter =>
    obtain ⟨-, hsane, hunsent⟩ := enqueue_eq_ok h.sane hwriter
    refine ⟨hsane, ?_⟩
    rw [hunsent, ← append_assoc, h.cells, flatMap_append, flatMap_singleton]
    rfl

theorem drain (h : Wired r socket) (limit : ℕ) :
    Wired { r with writer := (r.writer.drainRound limit).2 }
      (socket ++ (r.writer.drainRound limit).1) := by
  obtain ⟨hcells, hsane, -⟩ := drainRound_cells r.writer limit h.sane
  refine ⟨hsane, ?_⟩
  rw [append_assoc, hcells]
  exact h.cells

theorem handleCall (h : Wired r socket) (frame : CallFrame φ) :
    Wired (r.handleCall frame) socket := by
  unfold Runner.handleCall
  split
  · exact ⟨h.sane, h.cells⟩
  · split
    · exact send (r := { r with received := r.received ++ [frame.callId] }) ⟨h.sane, h.cells⟩ _ _ _
    · exact ⟨h.sane, h.cells⟩

theorem step (h : Wired r socket) (library : List ModuleInfo) (action : RunnerAction φ) :
    Wired (r.step library action) socket := by
  unfold Runner.step
  split_ifs
  · exact h
  · cases action with
    | receive frame => exact h.handleCall frame
    | take =>
      dsimp only
      split
      · exact h
      · exact ⟨h.sane, h.cells⟩
    | finish place run dupError =>
      dsimp only
      split
      · exact h
      · exact send (r := { r with running := r.running.eraseIdx place }) ⟨h.sane, h.cells⟩ _ _ _

end Wired

/-! ## The calls of the threads -/

/-- The calls that the threads run. -/
def busyCalls (threads : List PoolThread) : List QueuedCall :=
  threads.filterMap PoolThread.call

/-- A thread changes: its call is exchanged. -/
theorem busyCalls_set {place : ℕ} {old : PoolThread} (h : threads[place]? = some old)
    (new : PoolThread) : ∃ rest, (busyCalls threads).Perm (old.call.toList ++ rest) ∧
    (busyCalls (threads.set place new)).Perm (new.call.toList ++ rest) := by
  obtain ⟨hlt, -⟩ := List.getElem?_eq_some_iff.1 h
  have hcons : ∀ thread, busyCalls (thread :: threads.eraseIdx place) =
      thread.call.toList ++ busyCalls (threads.eraseIdx place) := by
    intro thread
    cases hcall : thread.call <;> simp [busyCalls, hcall]
  refine ⟨busyCalls (threads.eraseIdx place), ?_, ?_⟩
  · rw [← hcons]
    exact (perm_cons_eraseIdx h).filterMap _
  · rw [← hcons]
    exact (set_perm_cons_eraseIdx hlt new).filterMap _

theorem busyCalls_eq_nil (h : ∀ thread ∈ threads, thread.phase = .exited) :
    busyCalls threads = [] := by
  refine filterMap_eq_nil_iff.2 fun thread hthread => ?_
  rw [PoolThread.call, h thread hthread]

section Runner

variable (r : Runner φ) (library : List ModuleInfo) {call : QueuedCall}

@[simp] theorem Runner.send_queue (dupError : Option String) (body : JsonObject) (fds : List φ) :
    (r.send dupError body fds).queue = r.queue := by
  unfold Runner.send
  split <;> rfl

@[simp] theorem Runner.send_running (dupError : Option String) (body : JsonObject) (fds : List φ) :
    (r.send dupError body fds).running = r.running := by
  unfold Runner.send
  split <;> rfl

theorem Runner.running_receive (frame : CallFrame φ) :
    (r.step library (.receive frame)).running = r.running := by
  simp only [Runner.step, Runner.handleCall]
  split_ifs
  · rfl
  · split
    · rfl
    · split
      · rw [Runner.send_running]
      · rfl

theorem Runner.step_take {queue : List QueuedCall} (hcrashed : r.crashed = false)
    (hqueue : r.queue = call :: queue) :
    r.step library .take = { r with queue := queue, running := r.running ++ [call] } := by
  simp [Runner.step, hcrashed, hqueue]

theorem Runner.running_finish {place : ℕ} (hcrashed : r.crashed = false)
    (hcall : r.running[place]? = some call) (run : ModuleRun φ) (dupError : Option String) :
    (r.step library (.finish place run dupError)).running = r.running.eraseIdx place := by
  simp [Runner.step, hcrashed, hcall, Runner.runCall]

theorem Runner.queue_finish (place : ℕ) (run : ModuleRun φ) (dupError : Option String) :
    (r.step library (.finish place run dupError)).queue = r.queue := by
  simp only [Runner.step]
  split_ifs
  · rfl
  · split
    · rfl
    · simp [Runner.runCall]

end Runner

/-! ## Where the calls are -/

namespace Serving

variable {s : Serving φ} {library : List ModuleInfo}

/-- No call is lost by an action: its result is taken by `enqueue`, the loop is left with an empty
queue, and the host does not close the channel. -/
def Orderly (library : List ModuleInfo) (s : Serving φ) : ServingAction φ → Prop
  | .receive frame => Answers library s.runner (.receive frame)
  | .finish place run dupError =>
    ∀ thread call, s.threads[place]? = some thread → thread.phase = .busy call →
    Answers library s.runner (.finish (s.runner.running.idxOf call) run dupError)
  | .leave _ => s.runner.queue = []
  | .readEof => False
  | _ => True

/-- All actions of a run are orderly. -/
def AllOrderly (library : List ModuleInfo) : Serving φ → List (ServingAction φ) → Prop
  | _, [] => True
  | s, action :: actions =>
    s.Orderly library action ∧ AllOrderly library (s.step library action) actions

/-- Every call is in the queue, with a thread or answered; the queue is empty after the loop, the
threads have exited before the flush, and everything is in the socket after it. -/
structure Sound (s : Serving φ) : Prop where
  kept : Kept s.runner []
  wired : Wired s.runner s.socket
  busy : s.runner.running.Perm (busyCalls s.threads)
  drained : s.phase ≠ .reading → s.runner.queue = []
  exited : s.phase = .flushing ∨ s.phase = .returned → ∀ thread ∈ s.threads, thread.phase = .exited
  flushed : s.phase = .returned → s.runner.writer.queue = []
  atEof : s.atEof = false

theorem sound_start (threads : ℕ) : (start threads : Serving φ).Sound where
  kept := ⟨.rfl, fun h => nomatch h⟩
  wired := ⟨forall_mem_nil _, rfl⟩
  busy := by
    have hnil : busyCalls (List.replicate threads {}) = [] :=
      filterMap_eq_nil_iff.2 fun thread hthread => by rw [eq_of_mem_replicate hthread]; rfl
    show List.Perm [] (busyCalls (List.replicate threads {}))
    rw [hnil]
  drained h := absurd rfl h
  exited h := by simp [start] at h
  flushed h := by simp [start] at h
  atEof := rfl

namespace Sound

theorem kept_step (h : s.Sound) {action : RunnerAction φ}
    (hanswers : Answers library s.runner action) :
    Kept (s.runner.step library action) [] := by
  obtain ⟨lost, hkept, hiff⟩ := step_kept library h.kept action
  rwa [hiff.2 ⟨rfl, hanswers⟩] at hkept

theorem receive (h : s.Sound) (hphase : s.phase = .reading) {frame : CallFrame φ}
    (hanswers : Answers library s.runner (.receive frame)) :
    { s with runner := s.runner.step library (.receive frame) }.Sound where
  kept := h.kept_step hanswers
  wired := h.wired.step library (.receive frame)
  busy := by
    rw [Runner.running_receive]
    exact h.busy
  drained hne := absurd hphase hne
  exited := h.exited
  flushed hreturned := by
    rw [hphase] at hreturned
    cases hreturned
  atEof := h.atEof

variable {thread : PoolThread} {place : ℕ} {call : QueuedCall}

section

variable (h : s.Sound) (hthread : s.threads[place]? = some thread)
include h hthread

/-- A thread comes to another phase without taking or ending a call. -/
theorem advance {phase : ThreadPhase}
    (hcall : ({ thread with phase := phase } : PoolThread).call = thread.call)
    (hlive : thread.phase ≠ .exited) : (s.advance place thread phase).Sound := by
  refine { h with
    busy := ?_, exited := fun hphase => absurd (h.exited hphase thread
      (mem_of_getElem? hthread)) hlive }
  obtain ⟨rest, hold, hnew⟩ := busyCalls_set hthread { thread with phase := phase }
  rw [hcall] at hnew
  exact h.busy.trans (hold.trans hnew.symm)

/-- A thread takes the first call of the queue; the loop is still going on. -/
theorem take (hwaiting : thread.phase = .waiting) {queue : List QueuedCall}
    (hqueue : s.runner.queue = call :: queue) (hcrashed : s.runner.crashed = false) :
    { s.advance place thread (.busy call) with runner := s.runner.step library .take }.Sound := by
  have hphase : s.phase = .reading := by
    by_contra hne
    rw [h.drained hne] at hqueue
    cases hqueue
  refine ⟨h.kept_step (show Answers library s.runner .take from trivial),
    h.wired.step library .take, ?_, fun hne => absurd hphase hne, fun hflushing => ?_,
    fun hreturned => ?_, h.atEof⟩
  · obtain ⟨rest, hold, hnew⟩ := busyCalls_set hthread { thread with phase := .busy call }
    have hnone : thread.call = none := by rw [PoolThread.call, hwaiting]
    rw [hnone] at hold
    rw [s.runner.step_take library hcrashed hqueue]
    exact (perm_append_singleton call s.runner.running).trans
      (((h.busy.trans hold).cons call).trans hnew.symm)
  · exact absurd (h.exited hflushing thread (mem_of_getElem? hthread))
      (by rw [hwaiting]; exact ThreadPhase.noConfusion)
  · exact absurd (show s.phase = .returned from hreturned) (by simp [hphase])

/-- The call of a thread ends. -/
theorem finish (hbusy : thread.phase = .busy call) (hcrashed : s.runner.crashed = false)
    {run : ModuleRun φ} {dupError : Option String}
    (hanswers : Answers library s.runner (.finish (s.runner.running.idxOf call) run dupError)) :
    { s.advance place thread .top with
      runner := s.runner.step library (.finish (s.runner.running.idxOf call) run
        dupError) }.Sound := by
  obtain ⟨rest, hold, hnew⟩ := busyCalls_set hthread { thread with phase := .top }
  have hsome : thread.call = some call := by rw [PoolThread.call, hbusy]
  rw [hsome] at hold
  have hmem : call ∈ s.runner.running := h.busy.mem_iff.2 (hold.mem_iff.2 (mem_cons_self))
  have hplace : s.runner.running[s.runner.running.idxOf call]? = some call := getElem?_idxOf hmem
  have hlive : ¬∀ other ∈ s.threads, other.phase = .exited := by
    intro hexited
    rw [hexited thread (mem_of_getElem? hthread)] at hbusy
    cases hbusy
  refine ⟨h.kept_step hanswers,
    h.wired.step library (.finish (s.runner.running.idxOf call) run dupError), ?_, fun hne => ?_,
    fun hflushing => absurd (h.exited hflushing) hlive,
    fun hreturned => absurd (h.exited (.inr hreturned)) hlive, h.atEof⟩
  · rw [s.runner.running_finish library hcrashed hplace]
    refine Perm.trans (Perm.cons_inv (a := call) ?_) hnew.symm
    exact (perm_cons_eraseIdx hplace).symm.trans (h.busy.trans hold)
  · rw [s.runner.queue_finish library]
    exact h.drained hne

end

section

variable (h : s.Sound)
include h

theorem drain (limit : ℕ) : (s.drain limit).Sound := by
  unfold Serving.drain
  split_ifs with hphase
  · refine ⟨⟨h.kept.places, h.kept.crashed⟩, h.wired.drain limit, h.busy, h.drained, h.exited,
      fun hreturned => ?_, h.atEof⟩
    rw [show s.phase = _ from hreturned] at hphase
    simp at hphase
  · exact h

/-- The thread of `run` comes to another phase after the loop. -/
theorem rephase {phase : RunPhase} (hleft : s.phase ≠ .reading)
    (hexited : phase = .flushing ∨ phase = .returned → ∀ thread ∈ s.threads, thread.phase = .exited)
    (hflushed : phase = .returned → s.runner.writer.queue = []) : { s with phase := phase }.Sound :=
  ⟨h.kept, h.wired, h.busy, fun _ => h.drained hleft, hexited, hflushed, h.atEof⟩

theorem proceed : s.proceed.Sound := by
  unfold Serving.proceed
  cases hphase : s.phase with
  | reading => exact h
  | left => exact h.rephase (by simp [hphase]) (by simp) (by simp)
  | requesting place =>
    dsimp only
    split
    · next thread hthread =>
      obtain ⟨rest, hold, hnew⟩ := busyCalls_set hthread { thread with stopRequested := true }
      exact ⟨h.kept, h.wired, h.busy.trans (hold.trans hnew.symm),
        fun _ => h.drained (by simp [hphase]), by simp, by simp, h.atEof⟩
    · exact h.rephase (by simp [hphase]) (by simp) (by simp)
  | joining =>
    dsimp only
    split_ifs with hjoined
    · exact h.rephase (by simp [hphase]) (fun _ => hjoined.2) (by simp)
    · exact h
  | flushing =>
    dsimp only
    split_ifs with hdone
    · exact h.rephase (by simp [hphase]) (fun _ => h.exited (.inl hphase))
        (fun _ => hdone.resolve_left (by simp [h.atEof]))
    · exact h
  | returned => exact h

theorem check (place : ℕ) : (s.check place).Sound := by
  unfold Serving.check
  split
  · next thread hthread =>
    split_ifs with htop hstop
    · exact h.advance hthread (by simp [PoolThread.call, htop]) (by simp [htop])
    · exact h.advance hthread (by simp [PoolThread.call, htop]) (by simp [htop])
    · exact h
  · exact h

theorem test (hcrashed : s.runner.crashed = false) (place : ℕ) : (s.test library place).Sound := by
  unfold Serving.test
  split
  · next thread hthread =>
    split
    · next hwaiting =>
      split
      · next call queue _ hqueue => exact h.take hthread hwaiting hqueue hcrashed
      · split_ifs with hstop
        · exact h.advance hthread (by simp [PoolThread.call, hwaiting]) (by simp [hwaiting])
        · exact h
    · exact h
  · exact h

/-- **Each orderly action** keeps the calls. -/
theorem step {action : ServingAction φ} (horderly : s.Orderly library action) :
    (s.step library action).Sound := by
  unfold Serving.step
  split_ifs with hcrashed
  · exact h
  have hcrashed : s.runner.crashed = false := Bool.eq_false_iff.2 hcrashed
  cases action with
  | receive frame =>
    simp only [act]
    split_ifs with hphase
    · exact h.receive hphase horderly
    · exact h
  | shutdown =>
    simp only [act]
    split_ifs
    · exact { h with }
    · exact h
  | readEof => exact horderly.elim
  | leave failed =>
    simp only [act]
    split_ifs
    · exact ⟨h.kept, h.wired, h.busy, fun _ => horderly, by simp, by simp, h.atEof⟩
    · exact h
  | proceed => exact h.proceed
  | drain limit => exact h.drain limit
  | becomeReady => exact { h with }
  | check place => exact h.check place
  | test place => exact h.test hcrashed place
  | finish place run dupError =>
    simp only [act, Serving.finish]
    split
    · next thread hthread =>
      split
      · next call hbusy =>
          exact h.finish hthread hbusy hcrashed (horderly thread call hthread hbusy)
      · exact h
    · exact h

theorem run {actions : List (ServingAction φ)} (horderly : AllOrderly library s actions) :
    (actions.foldl (Serving.step library) s).Sound := by
  induction actions generalizing s with
  | nil => exact h
  | cons action actions ih => exact ih (h.step horderly.1) horderly.2

/-- When `run` has returned, there is one result for each call. -/
theorem results_of_returned (hreturned : s.phase = .returned) :
    s.runner.results.Perm s.runner.received := by
  have hqueue : s.runner.queue = [] := h.drained (by simp [hreturned])
  have hrunning : s.runner.running = [] := by
    have hbusy := h.busy
    rw [busyCalls_eq_nil (h.exited (.inr hreturned))] at hbusy
    exact hbusy.eq_nil
  have hplaces := h.kept.places
  simpa [hqueue, hrunning] using hplaces

theorem socket_of_returned (hreturned : s.phase = .returned) :
    s.socket = s.runner.outbound.flatMap wire := by
  have hcells := h.wired.cells
  rwa [FrameWriter.unsent, h.flushed hreturned, flatMap_nil, append_nil] at hcells

end

end Sound

/-- **`SHUTDOWN` finishes outstanding work** in an orderly run: when `run` returns, each call that
was received has its result, and all results are in the socket. -/
theorem shutdown_answers (library : List ModuleInfo) (threads : ℕ)
    (actions : List (ServingAction φ)) (horderly : AllOrderly library (start threads) actions)
    (hreturned : (run library threads actions).phase = .returned) :
    (∀ callId, (run library threads actions).runner.results.count callId =
      (run library threads actions).runner.received.count callId) ∧
      (run library threads actions).socket =
      (run library threads actions).runner.outbound.flatMap wire := by
  have h : (run library threads actions).Sound := (sound_start threads).run horderly
  exact ⟨fun callId => (h.results_of_returned hreturned).count_eq callId,
    h.socket_of_returned hreturned⟩

/-- A call that is taken and answered before `SHUTDOWN` is read. -/
def servedCall : List (ServingAction ℕ) :=
  [.receive ⟨2, .ok (), .ok .metadata, .ok 0, none, [.ok 5]⟩, .becomeReady, .check 0, .test 0,
    .finish 0 ⟨.returns (.ok (ascii "null")), .throwsOther, .throwsOther, .throwsOther, .ok (),
    .ok (), .ok 6⟩ none, .shutdown, .leave false, .proceed, .proceed, .proceed, .check 0, .proceed,
    .drain 4096, .proceed]

/-- The call has its result when `run` returns. -/
theorem shutdown_answers_served :
    (run [⟨"images", 1, false, "", 0⟩] 1 servedCall).phase = .returned ∧
      (run [⟨"images", 1, false, "", 0⟩] 1 servedCall).runner.results.count 2 = 1 := by
  refine (and_iff_left_of_imp fun hreturned => ?_).2 (by decide +kernel)
  have h := shutdown_answers _ 1 servedCall
    ⟨⟨rfl, ?_⟩, trivial, trivial, trivial, ?_, trivial, ?_, trivial, trivial, trivial, trivial,
    trivial, trivial, trivial, trivial⟩ hreturned
  · exact h.1 2
  · rintro reason ⟨⟩
  · rintro thread call ⟨⟩ ⟨⟩ call ⟨⟩
    exact ⟨by decide +kernel, Or.inr rfl⟩
  · rfl

/-- **A call may be lost**: it is in the queue when the loop is left, and the thread of the pool,
which is asked to stop, does not look at the queue again. -/
theorem shutdown_loses :
    let s : Serving ℕ := run [⟨"images", 1, false, "", 0⟩] 1
      [.receive ⟨2, .ok (), .ok .metadata, .ok 0, none, [.ok 5]⟩, .shutdown, .leave false, .proceed,
        .proceed, .proceed, .becomeReady, .check 0, .proceed, .proceed]
    s.phase = .returned ∧ s.atEof = false ∧ s.runner.crashed = false ∧ s.runner.received = [2] ∧
      s.runner.results = [] ∧
      s.runner.queue.length = 1 :=
  ⟨rfl, rfl, rfl, rfl, rfl, rfl⟩

end Serving

end Idhan.Workers
