import Idhan.Database.Pipeline
import Idhan.Lib.Threads
import Mathlib.Algebra.Order.Group.Nat
import Mathlib.Algebra.Order.Monoid.Prod

/-!
# Pumps of a connection

`DBReactor::request` makes a task of a worker that pumps a connection, unless there is one.  Two
flags of the watch keep the requests together: `pending` says that a pump was asked for, and
`scheduled` that there is a task.  Requests come from `DBConnection::enqueue` and from the socket,
at any time.

The right to pump is a turn.  It lies with the flag, with a task, or in a pump that runs; an
exception that leaves the pump takes it away for good, as it goes past the statement that clears
`scheduled`.  Nothing catches it, and nothing fails the operations that wait: `DBOperation::fail` is
not called.

## One turn

`turn_balanced` is a balance over the threads: there is one turn, so there is one pump at a time,
and what a reactor makes of a connection is a run of the connection (`connection_run`), to which the
results about one pump apply.  After an exception no pump begins and what is queued stays queued
(`left_for_ever`), so that requests are served as long as libpq has reported no error, and not after
it (`lost_connection_iff`).

## Requests

To say that a request is followed by a pump, the state is paired with a bit that is set by a request
and taken back when a pump begins.  `Kept` is what the two flags owe to it.  A task that finds
`scheduled` set gives its turn up to the one who has set it, and a request is lost if the pump of
that one has begun already; `requests_pumped` has that nothing else loses one.
-/

namespace Idhan.Database

open List
namespace Reactor

open DbConnection Threads

variable {ρ ε : Type}

/-- `DBReactor::Watch`, with the operations that were queued or in flight when the last pump began,
and whether libpq has reported an error. -/
structure Watch (ρ ε : Type) where
  connection : DbConnection ρ ε
  scheduled : Bool
  pending : Bool
  due : List ℕ
  reported : Bool

/-- What the threads do, cut at the accesses to the flags. -/
inductive Action where
  /-- Another thread uses an operation, or a reply arrives. -/
  | use (move : Move)
  /-- `DBConnection::enqueue`. -/
  | enqueue (id : ℕ)
  /-- `DBReactor::request` sets `pending`, -/
  | request
  /-- and `scheduled`. -/
  | schedule
  /-- A task clears `pending` and begins a pump, -/
  | work
  /-- which takes its steps. -/
  | pump
  /-- The task takes `pending`, -/
  | again
  /-- clears `scheduled`, -/
  | unschedule
  /-- takes `pending` again, -/
  | recheck
  /-- and sets `scheduled`. -/
  | reschedule
  deriving DecidableEq, Repr

/-- A move on a connection that is made without the reactor. -/
def IsUse : Move → Prop
  | .create | .start _ | .register _ _ | .abandon _ | .arrive => True
  | .enqueue _ | .wake | .pump _ => False

/-- How a task goes on after a step of its pump: an exception ends it. -/
def afterStep : Pump → List Action
  | .idle => [.again]
  | .threw _ => []
  | _ => [.pump]

/-- What an action does.  A task is put in the place of the request that makes it, which has nothing
more to do. -/
inductive Act (answers : ℕ → Answer ρ ε) : Action → Watch ρ ε → Watch ρ ε → List Action → Prop
  | use {watch : Watch ρ ε} {move : Move} {connection : DbConnection ρ ε} :
      IsUse move → Step answers move watch.connection connection →
      Act answers (.use move) watch { watch with connection } []
  | enqueue {watch : Watch ρ ε} {id : ℕ} {operation : Operation ρ ε} :
      watch.connection.operations[id]? = some operation → id ∈ watch.connection.starting →
      Act answers (.enqueue id) watch { watch with
        connection := watch.connection.enqueue id operation }
        (if operation.markQueued.isOk then [.request] else [])
  | request (watch : Watch ρ ε) :
      Act answers .request watch { watch with pending := true } [.schedule]
  | schedule (watch : Watch ρ ε) :
      Act answers .schedule watch { watch with scheduled := true }
        (if watch.scheduled then [] else [.work])
  | work (watch : Watch ρ ε) :
      Act answers .work watch
        { watch with
          pending := false
          connection := { watch.connection with pump := .dispatching 0 }
          due := watch.connection.queued ++ watch.connection.inflight }
        [.pump]
  | pump {watch : Watch ρ ε} {error : Bool} {connection : DbConnection ρ ε} :
      watch.connection.pumpStep answers error = some connection →
      Act answers .pump watch { watch with connection, reported := watch.reported || error }
        (afterStep connection.pump)
  | again (watch : Watch ρ ε) :
      Act answers .again watch { watch with pending := false }
        (if watch.pending then [.work] else [.unschedule])
  | unschedule (watch : Watch ρ ε) :
      Act answers .unschedule watch { watch with scheduled := false } [.recheck]
  | recheck (watch : Watch ρ ε) :
      Act answers .recheck watch { watch with pending := false }
        (if watch.pending then [.reschedule] else [])
  | reschedule (watch : Watch ρ ε) :
      Act answers .reschedule watch { watch with scheduled := true }
        (if watch.scheduled then [] else [.work])

/-- What threads begin with: the use of an operation, `enqueue`, and a request of the poller. -/
def Action.IsEntry : Action → Prop
  | .use _ | .enqueue _ | .request => True
  | _ => False

/-- The watch of a new connection. -/
def Watch.new (pipeline : Bool) : Watch ρ ε :=
  ⟨.new pipeline, false, false, [], false⟩

/-- What is reached from a new connection by actions that are allowed where they are taken. -/
abbrev Run (answers : ℕ → Answer ρ ε) (allowed : Threads (Watch ρ ε) Action → Action → Prop)
    (pipeline : Bool) :
    Threads (Watch ρ ε) Action → Prop :=
  Threads.Run (Act answers) Action.IsEntry allowed ⟨.new pipeline, []⟩

/-! ## The turn -/

/-- The part of the turn that an action has: the turn of a task that does not pump, and the turn of
one that does. -/
def Action.turn : Action → ℕ × ℕ
  | .work | .again | .unschedule => (1, 0)
  | .pump => (0, 1)
  | _ => (0, 0)

/-- Whether a pump runs. -/
def running : Pump → ℕ
  | .idle | .threw _ => 0
  | _ => 1

/-- Whether a pump has thrown. -/
def thrown : Pump → ℕ
  | .threw _ => 1
  | _ => 0

/-- The part of the turn that is with no task that waits: with the flag, with a pump that runs, or
lost. -/
def Watch.turn (watch : Watch ρ ε) : ℕ × ℕ :=
  ((if watch.scheduled then 0 else 1) + (thrown watch.connection.pump +
    running watch.connection.pump), 1 - running watch.connection.pump)

variable {answers : ℕ → Answer ρ ε} {allowed : Threads (Watch ρ ε) Action → Action → Prop}
  {pipeline : Bool} {threads threads' : Threads (Watch ρ ε) Action} {watch watch' : Watch ρ ε}
  {c c' : DbConnection ρ ε} {others : ℕ × ℕ} {pump : Pump} {action : Action}

/-- The use of an operation leaves the pump and the queue alone. -/
theorem eq_of_use {move : Move} (huse : IsUse move) (hstep : Step answers move c c') :
    c'.pump = c.pump ∧ c'.queued = c.queued := by
  cases hstep with
  | enqueue => exact huse.elim
  | wake => exact huse.elim
  | pump => exact huse.elim
  | _ => exact ⟨rfl, rfl⟩

theorem pump_enqueue (id : ℕ) (operation : Operation ρ ε) :
    (c.enqueue id operation).pump = c.pump := by
  unfold DbConnection.enqueue
  split <;> rfl

theorem running_of_pumpStep {error : Bool} (hstep : c.pumpStep answers error = some c') :
    running c.pump = 1 := by
  unfold pumpStep at hstep
  cases hpump : c.pump <;> first | rfl | simp [hpump] at hstep

theorem turn_afterStep (pump : Pump) :
    (thrown pump + running pump, 1 - running pump) + weigh Action.turn (afterStep pump) =
    (1, 1) := by
  cases pump <;> rfl

/-- A task that does not pump has the turn. -/
theorem of_turn (hbalance : (1, 1) = watch.turn + (others + (1, 0))) :
    watch.scheduled = true ∧ thrown watch.connection.pump = 0 ∧ running watch.connection.pump =
      0 := by
  have hfirst := congrArg Prod.fst hbalance
  simp only [Watch.turn, Prod.fst_add] at hfirst
  split at hfirst
  · next hscheduled => exact ⟨hscheduled, by omega, by omega⟩
  · omega

/-- A pump that runs has the turn. -/
theorem scheduled_of_running (hbalance : (1, 1) = watch.turn + others)
    (hrunning : running watch.connection.pump = 1) :
    watch.scheduled = true ∧ thrown watch.connection.pump = 0 := by
  have hfirst := congrArg Prod.fst hbalance
  simp only [Watch.turn, Prod.fst_add, hrunning] at hfirst
  split at hfirst
  · next hscheduled => exact ⟨hscheduled, by omega⟩
  · omega

/-- Every action hands the turn on. -/
theorem turn_act {calls : List Action} (hbalance : (1, 1) = watch.turn + (others + action.turn))
    (hact : Act answers action watch watch' calls) :
    watch'.turn + weigh Action.turn calls = watch.turn + action.turn := by
  cases hact with
  | use huse hstep => simp [Watch.turn, (eq_of_use huse hstep).1, Action.turn]
  | @enqueue _ id operation =>
    simp only [Watch.turn, pump_enqueue]
    cases operation.markQueued.isOk <;> rfl
  | request => rfl
  | schedule | reschedule =>
    cases hscheduled : watch.scheduled with
    | true => simp [Watch.turn, hscheduled, Action.turn]
    | false => simp [Watch.turn, hscheduled, Action.turn, Nat.add_comm]
  | work =>
    obtain ⟨hscheduled, hthrown, hrunning⟩ := of_turn hbalance
    simp only [Watch.turn, hscheduled, if_true, hthrown, hrunning, Nat.zero_add]
    rfl
  | pump hstep =>
    have hrunning := running_of_pumpStep hstep
    obtain ⟨hscheduled, hthrown⟩ := scheduled_of_running hbalance hrunning
    simp only [Watch.turn, hscheduled, if_true, hthrown, hrunning, Nat.zero_add]
    exact turn_afterStep _
  | again | recheck =>
    cases hpending : watch.pending <;> rfl
  | unschedule =>
    obtain ⟨hscheduled, hthrown, hrunning⟩ := of_turn hbalance
    simp [Watch.turn, hscheduled, hthrown, hrunning, Action.turn]

/-- **One turn**: a pump runs only for the task that has the turn, and while one runs no other task
has it. -/
theorem turn_balanced (hrun : Run answers allowed pipeline threads) :
    (1, 1) = threads.shared.turn + load Action.turn threads := by
  refine hrun.balanced (fun _ => (1, 1)) Watch.turn
    (fun action watch watch' calls others hbalance hact => ?_) (fun action hentry => ?_) rfl
  · exact ⟨0, rfl, by rw [add_zero, turn_act hbalance hact]⟩
  · cases action <;> first | rfl | exact hentry.elim

/-- What the balance says where a task is about to take an action. -/
theorem turn_of_action {before after : List (List Action)} {rest : List Action}
    (hrun : Run answers allowed pipeline ⟨watch, before ++ (action :: rest) :: after⟩) :
    ∃ others, (1, 1) = watch.turn + (others + action.turn) := by
  obtain ⟨others, hload, _⟩ := load_run Action.turn watch watch before after action rest []
  exact ⟨others, hload ▸ turn_balanced hrun⟩

theorem eq_idle (hthrown : thrown pump = 0) (hrunning : running pump = 0) : pump = .idle := by
  cases pump with
  | idle => rfl
  | threw error => cases hthrown
  | _ => cases hrunning

theorem thrown_eq_zero_iff : thrown pump = 0 ↔ ∀ error, pump ≠ .threw error := by
  cases pump <;> simp [thrown]

/-! ## The connection -/

/-- **What a reactor makes of a connection is a run of the connection**: a pump begins only when
there is none. -/
theorem connection_run {permitted : DbConnection ρ ε → Move → Prop}
    (huse : ∀ threads move, IsUse move → allowed threads (.use move) →
      permitted threads.shared.connection move)
    (hown : ∀ c move, ¬ IsUse move → move ≠ .pump true → permitted c move)
    (hrun : Run answers allowed pipeline threads)
    (herror : threads.shared.reported = true → ∀ c, permitted c (.pump true)) :
    DbConnection.Run answers permitted pipeline threads.shared.connection := by
  revert herror
  refine hrun.shared_of_run (P := fun watch => (watch.reported = true →
    ∀ c, permitted c (.pump true)) → DbConnection.Run answers permitted pipeline watch.connection)
    ?_ fun _ => .new
  intro before after action rest watch watch' calls hrun hallowed hact ih herror
  cases hact with
  | use hisUse hstep => exact (ih herror).step (huse _ _ hisUse hallowed) hstep
  | enqueue hget hmem => exact (ih herror).step (hown _ _ id (by simp)) (.enqueue hget hmem)
  | work =>
    obtain ⟨others, hbalance⟩ := turn_of_action hrun
    obtain ⟨_, hthrown, hrunning⟩ := of_turn hbalance
    exact (ih herror).step (hown _ _ id (by simp)) (.wake (eq_idle hthrown hrunning))
  | @pump _ error connection hstep =>
    refine (ih fun hreported => herror (by simp [hreported])).step ?_ (.pump hstep)
    cases error with
    | false => exact hown _ _ id (by simp)
    | true => exact herror (by simp) _
  | _ => exact ih herror

/-! ## Exceptions -/

/-- The tasks that pump, or clear the flag. -/
def Action.IsTask (action : Action) : Prop :=
  action.turn ≠ 0

/-- The flag is set only while there is a task. -/
def Served (threads : Threads (Watch ρ ε) Action) : Prop :=
  threads.shared.scheduled = true → ∃ action ∈ threads.actions, action.IsTask

/-- What was queued or in flight when the last pump began has been completed with an error. -/
def Watch.Answered (watch : Watch ρ ε) : Prop :=
  ∀ id ∈ watch.due, At watch.connection.operations id fun operation => operation.phase =
    .completed ∧ operation.error.isSome = true

section

variable (hrun : Run answers allowed pipeline threads)
include hrun

/-- An exception is all that can take the turn away. -/
theorem served_iff : Served threads ↔ ∀ error, threads.shared.connection.pump ≠ .threw error := by
  have hbalance := turn_balanced hrun
  have hfirst := congrArg Prod.fst hbalance
  have hsecond := congrArg Prod.snd hbalance
  simp only [Watch.turn, Prod.fst_add, Prod.snd_add] at hfirst hsecond
  rw [← thrown_eq_zero_iff]
  constructor
  · intro hserved
    by_contra hthrown
    have hscheduled : threads.shared.scheduled = true := by
      by_contra hfree
      rw [if_neg hfree] at hfirst
      omega
    obtain ⟨action, hmem, htask⟩ := hserved hscheduled
    have hload : load Action.turn threads = 0 := by
      rw [if_pos hscheduled] at hfirst
      exact Prod.ext (by simp only [Prod.fst_zero]; omega) (by simp only [Prod.snd_zero]; omega)
    exact htask (load_eq_zero_iff.1 hload action hmem)
  · intro hthrown hscheduled
    rw [if_pos hscheduled, hthrown] at hfirst
    by_contra hnone
    have hload : load Action.turn threads = 0 := load_eq_zero_iff.2 fun action hmem => by
      by_contra htask
      exact hnone ⟨action, hmem, htask⟩
    rw [hload, Prod.fst_zero] at hfirst
    rw [hload, Prod.snd_zero] at hsecond
    omega

/-- Once libpq has reported an error, the pump has thrown. -/
theorem threw_of_reported :
    threads.shared.reported = true → ∃ error, threads.shared.connection.pump = .threw error := by
  refine hrun.shared_of_run (P := fun watch => watch.reported = true →
    ∃ error, watch.connection.pump = .threw error) ?_ Bool.noConfusion
  intro before after action rest watch watch' calls hrun hallowed hact ih hreported
  cases hact with
  | use huse hstep => exact (eq_of_use huse hstep).1 ▸ ih hreported
  | enqueue => exact (pump_enqueue _ _).symm ▸ ih hreported
  | work =>
    obtain ⟨others, hbalance⟩ := turn_of_action hrun
    obtain ⟨error, hthrew⟩ := ih hreported
    exact absurd hthrew (thrown_eq_zero_iff.1 (of_turn hbalance).2.1 error)
  | @pump _ error connection hstep =>
    cases error with
    | false =>
      obtain ⟨error, hthrew⟩ := ih (by simpa using hreported)
      have hrunning := running_of_pumpStep hstep
      rw [hthrew] at hrunning
      cases hrunning
    | true =>
      obtain ⟨⟨error, rfl⟩, _⟩ := threw_of_error hstep
      exact ⟨error, rfl⟩
  | _ => exact ih hreported

/-- **After an exception no pump begins**, and what is queued stays queued. -/
theorem left_for_ever {error : PumpError} (hthrew : threads.shared.connection.pump = .threw error)
    (hlater : Threads.Run (Act answers) Action.IsEntry allowed threads threads') :
    threads'.shared.connection.pump = .threw error ∧
      ∃ added, threads'.shared.connection.queued = threads.shared.connection.queued ++ added := by
  refine hlater.shared_of_run (P := fun watch => watch.connection.pump = .threw error ∧
    ∃ added, watch.connection.queued = threads.shared.connection.queued ++ added) ?_ ⟨hthrew, [],
    (append_nil _).symm⟩
  intro before after action rest watch watch' calls hlater hallowed hact ⟨hpump, added, hqueued⟩
  cases hact with
  | use huse hstep =>
    exact ⟨(eq_of_use huse hstep).1.trans hpump, added, (eq_of_use huse hstep).2.trans hqueued⟩
  | @enqueue _ id =>
    refine ⟨(pump_enqueue _ _).trans hpump, ?_⟩
    unfold DbConnection.enqueue
    split
    · exact ⟨added ++ [id], by simp only [hqueued, append_assoc]⟩
    · exact ⟨added, hqueued⟩
  | work =>
    obtain ⟨others, hbalance⟩ := turn_of_action (hrun.trans hlater)
    exact absurd hpump (thrown_eq_zero_iff.1 (of_turn hbalance).2.1 error)
  | pump hstep =>
    have hrunning := running_of_pumpStep hstep
    rw [hpump] at hrunning
    cases hrunning
  | _ => exact ⟨hpump, added, hqueued⟩

end

/-- No operation is abandoned while it is being sent. -/
def Untouched (threads : Threads (Watch ρ ε) Action) : Action → Prop
  | .use (.abandon id) => id ∉ threads.shared.connection.pump.between
  | _ => True

/-- **An error of libpq leaves the flag set and no task**: what a lost connection owes to its
operations it owes in vain.  Without an error a pipelined connection is served, unless an operation
is abandoned while it is being sent. -/
theorem lost_connection_iff (hrun : Run answers allowed pipeline threads) :
    ((threads.shared.reported = true → threads.shared.Answered ∧ Served threads) ↔
      threads.shared.reported = false) ∧
    (pipeline = true → (∀ threads action, allowed threads action → Untouched threads action) →
      (Served threads ↔ threads.shared.reported = false)) := by
  have hlost : threads.shared.reported = true → ¬ Served threads := fun hreported hserved => by
    obtain ⟨error, hthrew⟩ := threw_of_reported hrun hreported
    exact (served_iff hrun).1 hserved error hthrew
  refine ⟨⟨fun h => ?_, fun hfine hreported => ?_⟩, ?_⟩
  · refine Bool.eq_false_of_not_eq_true fun hreported => hlost hreported (h hreported).2
  · rw [hfine] at hreported
    cases hreported
  · rintro rfl huntouched
    refine ⟨fun hserved => Bool.eq_false_of_not_eq_true fun hreported => hlost hreported hserved,
      fun hfine => ?_⟩
    have hconnection : DbConnection.Run answers (fun c move => c.untouched move = true) true
        threads.shared.connection := by
      refine connection_run (fun threads move huse hallowed => ?_) (fun c move huse hfault => ?_)
        hrun (hfine ▸ Bool.noConfusion)
      · cases move with
        | abandon id => exact decide_eq_true (huntouched _ _ hallowed)
        | enqueue | wake | pump => exact huse.elim
        | _ => rfl
      · cases move with
        | enqueue | wake => rfl
        | pump error =>
          cases error with
          | false => rfl
          | true => exact absurd rfl hfault
        | _ => exact absurd trivial huse
    exact (served_iff hrun).2 (aligned_run hconnection).fine

/-- A connection with one operation that has just been enqueued. -/
def enqueued : Watch ℕ Unit :=
  ⟨{ (new true : DbConnection ℕ Unit) with
    operations := [{ Operation.new with phase := .queued }], queued := [0] }, true, true, [], false⟩

theorem enqueued_run : Run numbered Untouched true ⟨enqueued, [[], [], [.work]]⟩ := by
  have hstart : Run numbered Untouched true ⟨.new true, []⟩ := .start
  have hcreated := (hstart.enter (.use .create) trivial).take [] [] (.use (by trivial) (.create _))
    (by trivial)
  have hstarted := (hcreated.enter (.use (.start 0)) trivial).take [[]] []
    (.use (by trivial) (.start rfl rfl)) (by trivial)
  have henqueued := (hstarted.enter (.enqueue 0) trivial).take [[], []] []
    (.enqueue rfl (by decide)) (by trivial)
  have hrequested := henqueued.take [[], []] [] (.request _) (by trivial)
  exact hrequested.take [[], []] [] (.schedule _) (by trivial)

/-- There is a task for an operation that was enqueued. -/
theorem lost_connection_iff_enqueued :
    enqueued.scheduled = true ∧ Served ⟨enqueued, [[], [], [.work]]⟩ :=
  ⟨rfl, ((lost_connection_iff enqueued_run).2 rfl fun _ _ hallowed => hallowed).2 rfl⟩

/-- A step of the pump of the last task, in which libpq reports no error. -/
theorem pumped (before : List (List Action)) {connection : DbConnection ρ ε}
    (hrun : Run answers Untouched pipeline ⟨watch, before ++ [[.pump]]⟩)
    (hstep : watch.connection.pumpStep answers false = some connection) :
    Run answers Untouched pipeline ⟨{ watch with connection },
      before ++ [afterStep connection.pump]⟩ := by
  have htaken := hrun.take before [] (.pump hstep) (by trivial)
  rwa [Bool.or_false, append_nil] at htaken

/-- The operation is sent, and `PQflush` reports an error.  The operation is not told, `scheduled`
stays set, and there is no task. -/
theorem flush_error_unanswered : ∃ watch : Watch ℕ Unit,
    Run numbered Untouched true ⟨watch, [[], [], []]⟩ ∧ watch.reported = true ∧
    watch.due = [0] ∧ ¬ watch.Answered ∧ ¬ Served ⟨watch, [[], [], []]⟩ := by
  have hwork := enqueued_run.take [[], []] [] (.work _) (by trivial)
  have hsending := pumped [[], []] (pumped [[], []] hwork rfl) rfl
  have hpushing := pumped [[], []] (pumped [[], []] hsending rfl) rfl
  have hflushing := pumped [[], []] (pumped [[], []] hpushing rfl) rfl
  have hflush := hflushing.take [[], []] []
    (.pump (show pumpStep numbered true _ = some _ from rfl)) (by trivial)
  refine ⟨_, hflush, rfl, rfl, fun hanswered => ?_, fun hserved => ?_⟩
  · obtain ⟨operation, hget, hcompleted, _⟩ := hanswered 0 (by decide)
    cases hget
    cases hcompleted
  · obtain ⟨action, hmem, _⟩ := hserved rfl
    cases hmem

/-- The last thread makes a request, and finds `scheduled` set. -/
theorem requested (before : List (List Action)) (hscheduled : watch.scheduled = true) :
    Threads.Run (Act answers) Action.IsEntry Untouched ⟨watch, before ++ [[.request]]⟩
      ⟨{ watch with pending := true, scheduled := true }, before ++ [[]]⟩ := by
  have hstart : Threads.Run (Act answers) Action.IsEntry Untouched
      ⟨watch, before ++ [[.request]]⟩ ⟨watch, before ++ [[.request]]⟩ := .start
  have hrequested := hstart.take before [] (.request watch) (by trivial)
  have hleft := hrequested.take before [] (.schedule _) (by trivial)
  rwa [if_pos hscheduled] at hleft

/-- The send of the first operation fails while a second one is queued.  A later request comes to
its end, and the second operation is where it was. -/
theorem left_for_ever_sending : ∃ threads : Threads (Watch ℕ Unit) Action,
    threads.actions = [] ∧ threads.shared.pending = true ∧
    threads.shared.connection.pump = .threw .send ∧
    ∃ added, threads.shared.connection.queued = [1] ++ added := by
  have hwork := enqueued_run.take [[], []] [] (.work _) (by trivial)
  have hsending := pumped [[], []] (pumped [[], []] hwork rfl) rfl
  have hcreated := (hsending.enter (.use .create) trivial).take [[], [], [Action.pump]] []
    (.use (by trivial) (.create _)) (by trivial)
  have hstarted := (hcreated.enter (.use (.start 1)) trivial).take [[], [], [Action.pump], []] []
    (.use (by trivial) (.start rfl rfl)) (by trivial)
  have henqueued := (hstarted.enter (.enqueue 1) trivial).take [[], [], [Action.pump], [], []] []
    (.enqueue rfl (by decide)) (by trivial)
  have hthrew := henqueued.take [[], []] [[], [], [Action.request]]
    (.pump (show pumpStep numbered true _ = some _ from rfl)) (by trivial)
  exact ⟨_, rfl, rfl, left_for_ever hthrew rfl (requested [[], [], [], [], []] rfl)⟩

/-! ## Requests -/

/-- Whether a request has come since the last pump began. -/
def owedAfter : Action → Bool → Bool
  | .request, _ => true
  | .work, _ => false
  | _, owed => owed

/-- What an action does, next to what is owed.  No pump throws. -/
def Track (answers : ℕ → Answer ρ ε) (action : Action) (s s' : Watch ρ ε × Bool)
    (calls : List Action) : Prop :=
  Act answers action s.1 s'.1 calls ∧ s'.2 = owedAfter action s.2 ∧ thrown s'.1.connection.pump = 0

abbrev Tracked (answers : ℕ → Answer ρ ε)
    (allowed : Threads (Watch ρ ε × Bool) Action → Action → Prop) (pipeline : Bool) :
    Threads (Watch ρ ε × Bool) Action → Prop :=
  Threads.Run (Track answers) Action.IsEntry allowed ⟨(.new pipeline, false), []⟩

section Requests

variable {allowed : Threads (Watch ρ ε × Bool) Action → Action → Prop}
  {threads : Threads (Watch ρ ε × Bool) Action}

theorem run_of_tracked (hrun : Tracked answers allowed pipeline threads) :
    Run answers (fun _ _ => True) pipeline ⟨threads.shared.1, threads.programs⟩ ∧
    thrown threads.shared.1.connection.pump = 0 := by
  induction hrun with
  | start => exact ⟨.start, rfl⟩
  | step _ hstep ih =>
    cases hstep with
    | run htaken _ => exact ⟨ih.1.step (.run htaken.1 trivial), htaken.2.2⟩
    | spawn hentry => exact ⟨ih.1.step (.spawn hentry), ih.2⟩

/-- A task gives up its turn only to a task that has still to begin its pump. -/
def Waits (threads : Threads (Watch ρ ε × Bool) Action) (action : Action) : Prop :=
  action = .reschedule → threads.shared.1.scheduled = true → .work ∈ threads.actions

/-- Who will see to `pending`, and to what is owed. -/
structure Kept (s : Watch ρ ε × Bool) (actions : List Action) : Prop where
  pending : s.1.pending = true → s.1.scheduled = true ∨ .schedule ∈ actions ∨ .recheck ∈ actions
  owed : s.2 = true → s.1.pending = true ∨ .work ∈ actions ∨ .reschedule ∈ actions

/-- What an action keeps: all the others are still to be taken, and so is what it calls. -/
theorem Kept.act {s s' : Watch ρ ε × Bool} {actions actions' calls : List Action}
    (h : Kept s actions) (hact : Act answers action s.1 s'.1 calls)
    (howed : s'.2 = owedAfter action s.2)
    (hwaits : action = .reschedule → s.1.scheduled = true → .work ∈ actions)
    (hother : ∀ other, other ≠ action → other ∈ actions → other ∈ actions')
    (hcall : ∀ call ∈ calls, call ∈ actions') : Kept s' actions' := by
  obtain ⟨watch, owed⟩ := s
  obtain ⟨watch', owed'⟩ := s'
  obtain rfl : owed' = owedAfter action owed := howed
  have hpending := h.pending
  have howed := h.owed
  -- whoever sees to a flag, and is not the one that acts, still does
  have hkeep {P : Prop} {one two : Action} (hone : one ≠ action) (htwo : two ≠ action)
      (h : P ∨ one ∈ actions ∨ two ∈ actions) : P ∨ one ∈ actions' ∨ two ∈ actions' :=
    h.imp_right (.imp (hother one hone) (hother two htwo))
  cases hact with
  | use | enqueue | pump =>
    exact ⟨fun hset => hkeep (by simp) (by simp) (hpending hset),
      fun hset => hkeep (by simp) (by simp) (howed hset)⟩
  | request => exact ⟨fun _ => .inr (.inl (hcall _ mem_cons_self)), fun _ => .inl rfl⟩
  | schedule => exact ⟨fun _ => .inl rfl, fun hset => hkeep (by simp) (by simp) (howed hset)⟩
  | work => exact ⟨Bool.noConfusion, Bool.noConfusion⟩
  | again =>
    refine ⟨Bool.noConfusion, fun hset => ?_⟩
    rcases hkeep (by simp) (by simp) (howed hset) with hset | hmem
    · exact .inr (.inl (hcall _ (by simp only at hset; simp [hset])))
    · exact .inr hmem
  | unschedule =>
    exact ⟨fun _ => .inr (.inr (hcall _ mem_cons_self)),
      fun hset => hkeep (by simp) (by simp) (howed hset)⟩
  | recheck =>
    refine ⟨Bool.noConfusion, fun hset => ?_⟩
    rcases hkeep (by simp) (by simp) (howed hset) with hset | hmem
    · exact .inr (.inr (hcall _ (by simp only at hset; simp [hset])))
    · exact .inr hmem
  | reschedule =>
    refine ⟨fun _ => .inl rfl, fun hset => ?_⟩
    have hwork : Action.work ∈ actions → Action.work ∈ actions' := hother _ (by simp)
    rcases howed hset with hset | hmem | hmem
    · exact .inl hset
    · exact .inr (.inl (hwork hmem))
    · -- the task takes the turn, or leaves it to one that has still to begin its pump
      cases hscheduled : watch.scheduled with
      | true => exact .inr (.inl (hwork (hwaits rfl hscheduled)))
      | false => exact .inr (.inl (hcall _ (by simp [hscheduled])))

theorem kept_run (hallowed : ∀ threads action, allowed threads action → Waits threads action)
    (hrun : Tracked answers allowed pipeline threads) : Kept threads.shared threads.actions := by
  induction hrun with
  | start => exact ⟨Bool.noConfusion, Bool.noConfusion⟩
  | @step earlier _ _ hstep ih =>
    cases hstep with
    | run htaken hok =>
      refine ih.act htaken.1 htaken.2.1 (hallowed _ _ hok)
        (fun other hne hmem => mem_actions_of_ne hmem hne) fun call hmem => ?_
      simp [Threads.actions, hmem]
    | @spawn _ action =>
      have hother : ∀ other ∈ earlier.actions,
          other ∈ (⟨earlier.shared, earlier.programs ++ [[action]]⟩ : Threads _ _).actions :=
        fun other hmem => mem_actions_spawn.2 (.inl hmem)
      exact ⟨fun h => (ih.pending h).imp_right (.imp (hother _) (hother _)),
        fun h => (ih.owed h).imp_right (.imp (hother _) (hother _))⟩

theorem snd_weigh (actions : List Action) :
    (weigh Action.turn actions).2 = actions.count .pump := by
  induction actions with
  | nil => rfl
  | cons action actions ih =>
    rw [weigh_cons, Prod.snd_add, ih, count_cons, Nat.add_comm]
    cases action <;> rfl

/-- **One pump runs at a time**, and when every call and every task has come to its end, a pump has
begun after every request, if no task gives up its turn to one whose pump has begun. -/
theorem requests_pumped (hrun : Tracked answers allowed pipeline threads) :
    threads.actions.count .pump ≤ 1 ∧
    ((∀ threads action, allowed threads action → Waits threads action) →
      (∀ action ∈ threads.actions, action.IsEntry) →
      threads.shared.2 = false) := by
  obtain ⟨hreactor, hthrown⟩ := run_of_tracked hrun
  constructor
  · have hsecond := congrArg Prod.snd (turn_balanced hreactor)
    rw [Prod.snd_add, load, snd_weigh] at hsecond
    exact (Nat.le_add_left _ _).trans hsecond.ge
  · intro hallowed hended
    have hserved := (served_iff hreactor).2 (thrown_eq_zero_iff.1 hthrown)
    have hkept := kept_run hallowed hrun
    by_contra howed
    obtain hpending | hwork | hreschedule := hkept.owed (eq_true_of_ne_false howed)
    · obtain hscheduled | hschedule | hrecheck := hkept.pending hpending
      · obtain ⟨action, hmem, htask⟩ := hserved hscheduled
        have hentry := hended action hmem
        cases action <;> first | exact htask rfl | exact hentry
      · exact hended _ hschedule
      · exact hended _ hrecheck
    · exact hended _ hwork
    · exact hended _ hreschedule

end Requests

/-- A thread takes its last action. -/
theorem go {allowed : Threads (Watch ρ ε × Bool) Action → Action → Prop} {calls : List Action}
    {owed : Bool} (before after : List (List Action))
    (hrun : Tracked answers allowed pipeline ⟨(watch, owed), before ++ [action] :: after⟩)
    (hact : Act answers action watch watch' calls) (hfine : thrown watch'.connection.pump = 0)
    (hallowed : allowed ⟨(watch, owed), before ++ [action] :: after⟩ action) :
    Tracked answers allowed pipeline ⟨(watch', owedAfter action owed),
      before ++ calls :: after⟩ := by
  have htrack : Track answers action (watch, owed) (watch', owedAfter action owed) calls :=
    ⟨hact, rfl, hfine⟩
  have htaken := hrun.take before after htrack hallowed
  rwa [append_nil] at htaken

/-- A pump with nothing to do. -/
theorem pumped_idle {allowed : Threads (Watch ℕ Unit × Bool) Action → Action → Prop}
    (before after : List (List Action)) {pending owed : Bool}
    (hallowed : ∀ threads, allowed threads .pump) (hrun : Tracked numbered allowed true
      ⟨(⟨{ (new true) with pump := .dispatching 0 }, true, pending, [], false⟩, owed),
      before ++ [.pump] :: after⟩) :
    Tracked numbered allowed true ⟨(⟨new true, true, pending, [], false⟩, owed),
      before ++ [.again] :: after⟩ := by
  have hstep : ∀ {c c' : DbConnection ℕ Unit}, c.pumpStep numbered false = some c' →
      thrown c'.pump = 0 →
      Tracked numbered allowed true ⟨(⟨c, true, pending, [], false⟩, owed),
      before ++ [.pump] :: after⟩ →
      Tracked numbered allowed true ⟨(⟨c', true, pending, [], false⟩, owed),
        before ++ afterStep c'.pump :: after⟩ :=
    fun hstep hfine hrun => go before after hrun (.pump hstep) hfine (hallowed _)
  have hreading := hstep rfl rfl (hstep rfl rfl (hstep rfl rfl (hstep rfl rfl hrun)))
  exact hstep rfl rfl (hstep rfl rfl hreading)

/-- A request is made and pumped for, and the task has cleared `scheduled`. -/
theorem recheck_run : Tracked numbered Waits true ⟨(.new true, false), [[.recheck]]⟩ := by
  have hstart : Tracked numbered Waits true ⟨(.new true, false), []⟩ := .start
  have hrequest := go [] [] (hstart.enter .request trivial) (.request _) rfl nofun
  have hwork := go [] [] (go [] [] hrequest (.schedule _) rfl nofun) (.work _) rfl nofun
  have hagain := go [] [] (pumped_idle [] [] (fun _ => nofun) hwork) (.again _) rfl nofun
  exact go [] [] hagain (.unschedule _) rfl nofun

/-- A second request comes while the pump for the first one runs, and the task pumps once more. -/
theorem requests_pumped_twice : ∃ threads, Tracked numbered Waits true threads ∧
    threads.programs = [[], []] ∧ threads.actions.count .pump ≤ 1 ∧ threads.shared.2 = false := by
  have hstart : Tracked numbered Waits true ⟨(.new true, false), []⟩ := .start
  have hrequest := go [] [] (hstart.enter .request trivial) (.request _) rfl nofun
  have hwork := go [] [] (go [] [] hrequest (.schedule _) rfl nofun) (.work _) rfl nofun
  have hsecond := go [[.pump]] [] (hwork.enter .request trivial) (.request _) rfl nofun
  have hpending := go [[.pump]] [] hsecond (.schedule _) rfl nofun
  have hagain := go [] [[]] (pumped_idle [] [[]] (fun _ => nofun) hpending) (.again _) rfl nofun
  have hpumping := go [] [[]] hagain (.work _) rfl nofun
  have hdone := go [] [[]] (pumped_idle [] [[]] (fun _ => nofun) hpumping) (.again _) rfl nofun
  have hended := go [] [[]] (go [] [[]] hdone (.unschedule _) rfl nofun) (.recheck _) rfl nofun
  exact ⟨_, hended, rfl, (requests_pumped hended).1,
    (requests_pumped hended).2 (fun _ _ h => h) (fun _ hmem => (not_mem_nil hmem).elim)⟩

/-- A task has cleared `scheduled`.  The next request has another task made, whose pump begins; then
a third request sets `pending`, and the first task takes it and gives up its turn.  All come to
their ends, and no pump has begun after the third request. -/
theorem request_lost :
    ∃ watch, Tracked numbered (fun _ _ => True) true ⟨(watch, true), [[], [], []]⟩ := by
  have hfirst : Tracked numbered (fun _ _ => True) true _ := recheck_run.mono fun _ _ _ => trivial
  have hsecond := go [[.recheck]] [] (hfirst.enter .request trivial) (.request _) rfl trivial
  have hpumping := go [[.recheck]] [] (go [[.recheck]] [] hsecond (.schedule _) rfl trivial)
    (.work _) rfl trivial
  have hthird := go [[.recheck], [.pump]] [] (hpumping.enter .request trivial) (.request _) rfl
    trivial
  have htaken := go [] [[.pump], [.schedule]] hthird (.recheck _) rfl trivial
  have hgiven := go [] [[.pump], [.schedule]] htaken (.reschedule _) rfl trivial
  have hleft := go [[], [.pump]] [] hgiven (.schedule _) rfl trivial
  have hagain := go [[]] [[]] (pumped_idle [[]] [[]] (fun _ => trivial) hleft) (.again _) rfl
    trivial
  exact ⟨_, go [[]] [[]] (go [[]] [[]] hagain (.unschedule _) rfl trivial) (.recheck _) rfl trivial⟩

end Reactor
end Idhan.Database
