import Mathlib.Data.List.Basic
import Mathlib.Data.Nat.Notation

/-!
# Operations

`DBOperation`, a statement on its way to the server and back, with every critical section of its
mutex as one function.  An operation is queued, sent, answered and completed; `abandon` takes it
back before it is sent, and afterwards only its consumer goes away.

What the operation remembers beyond the source is which consumers were registered and which were
resumed.

* `Operation.Consumers`: a consumer that was registered waits or was resumed, once.
* `outcome_eq`: what the consumer of a statement gets for an answer of the server.
-/

namespace Idhan.Database

open List

inductive OperationPhase where
  | cold | queued | sent | streaming | synchronizing | completed | abandoned
  deriving DecidableEq, Repr

/-- What `m_error` is set to: an error of the server, or `DBOperationCancelled`. -/
inductive Failure (ε : Type) where
  | server (error : ε)
  | cancelled
  deriving DecidableEq, Repr

/-- The texts of the logic errors of an operation. -/
inductive LogicError where
  /-- "Database operation was queued more than once" -/
  | queuedTwice
  /-- "Sent database operation was not queued" -/
  | notQueued
  /-- "Result does not belong to a sent database operation", and the same for an error. -/
  | notSent
  /-- "Database operation returned more than one primary result" -/
  | secondResult
  /-- "Completed database operation was not sent" -/
  | completedUnsent
  /-- "Database operation already has a consumer" -/
  | secondConsumer
  /-- "Database result is not complete" -/
  | notComplete
  /-- "Database operation completed without a result" -/
  | noResult
  /-- "PostgreSQL returned a result without an operation ledger entry" -/
  | noEntry
  deriving DecidableEq, Repr

/-- What a consumer may see thrown. -/
inductive Thrown (ε : Type) where
  | failure (failure : Failure ε)
  | logic (error : LogicError)
  deriving DecidableEq, Repr

/-- A result of libpq other than a sync, by its status: `PGRES_TUPLES_OK`, `PGRES_COMMAND_OK`, or an
error. -/
inductive Answer (ρ ε : Type) where
  | tuplesOk (result : ρ)
  | commandOk (result : ρ)
  | error (error : ε)
  deriving DecidableEq, Repr

/-- `DBOperation`. -/
structure Operation (ρ ε : Type) where
  phase : OperationPhase
  result : Option ρ
  error : Option (Failure ε)
  /-- `m_consumer_cancelled`. -/
  cancelled : Bool
  continuation : Option ℕ
  /-- The consumers that were registered, and those that were given to the executor. -/
  registered : List ℕ
  resumed : List ℕ
  deriving DecidableEq, Repr

namespace Operation

variable {ρ ε : Type}

/-- A new operation. -/
def new : Operation ρ ε :=
  ⟨.cold, none, none, false, none, [], []⟩

/-- The waiting consumer is taken out and resumed. -/
def resume (operation : Operation ρ ε) : Operation ρ ε :=
  { operation with
    continuation := none, resumed := operation.resumed ++ operation.continuation.toList }

/-- `start`, up to the call of the starter, which is called only for a cold operation. -/
def start (operation : Operation ρ ε) : Operation ρ ε :=
  if operation.phase = .cold then { operation with phase := .queued } else operation

def markQueued (operation : Operation ρ ε) : Except LogicError (Operation ρ ε) :=
  if operation.phase = .queued then .ok operation
  else if operation.phase = .cold then .ok { operation with phase := .queued }
  else .error .queuedTwice

/-- The end of `send`, after the statement was given to libpq. -/
def markSent (operation : Operation ρ ε) : Except LogicError (Operation ρ ε) :=
  if operation.phase = .queued then .ok { operation with phase := .sent } else .error .notQueued

/-- The operation waits for answers of the server. -/
def isSent (operation : Operation ρ ε) : Bool :=
  operation.phase = .sent || operation.phase = .synchronizing

def acceptResult (result : ρ) (operation : Operation ρ ε) : Except LogicError (Operation ρ ε) :=
  if operation.isSent then
    if operation.result.isSome then .error .secondResult
      else .ok { operation with result := some result, phase := .synchronizing }
  else .error .notSent

def acceptFailure (error : Failure ε) (operation : Operation ρ ε) :
    Except LogicError (Operation ρ ε) :=
  if operation.isSent then .ok { operation with error := some error, phase := .synchronizing }
    else .error .notSent

/-- What `pumpConnected` does with a result that is not a sync. -/
def accept : Answer ρ ε → Operation ρ ε → Except LogicError (Operation ρ ε)
  | .tuplesOk result => acceptResult result
  | .commandOk result => acceptResult result
  | .error error => acceptFailure (.server error)

def complete (operation : Operation ρ ε) : Except LogicError (Operation ρ ε) :=
  if operation.isSent then .ok { operation.resume with phase := .completed }
    else .error .completedUnsent

def abandon (operation : Operation ρ ε) : Operation ρ ε :=
  if operation.phase = .completed ∨ operation.phase = .abandoned then operation
  else if operation.phase = .cold ∨ operation.phase = .queued then
    { operation.resume with error := some .cancelled, phase := .completed }
  else { operation.resume with cancelled := true }

def registerContinuation (consumer : ℕ) (operation : Operation ρ ε) :
    Except LogicError (Operation ρ ε) :=
  if operation.continuation.isSome then .error .secondConsumer
  else
    let operation := { operation with registered := operation.registered ++ [consumer] }
    if operation.phase = .completed ∨ operation.cancelled then .ok { operation with
      resumed := operation.resumed ++ [consumer] }
    else .ok { operation with continuation := some consumer }

def needsSynchronization (operation : Operation ρ ε) : Bool :=
  operation.phase = .synchronizing

/-- `rethrowIfFailed` and `takeResult`, as `await_resume` calls them. -/
def takeResult (operation : Operation ρ ε) : Except (Thrown ε) ρ :=
  if operation.cancelled then .error (.failure .cancelled)
  else if operation.phase ≠ .completed then .error (.logic .notComplete)
  else match operation.error, operation.result with
    | some error, _ => .error (.failure error)
    | none, none => .error (.logic .noResult)
    | none, some result => .ok result

/-! ## Consumers -/

/-- A consumer that was registered was resumed, once, or it is the one that waits; nobody waits for
an operation that is over. -/
structure Consumers (operation : Operation ρ ε) : Prop where
  perm : operation.registered.Perm (operation.resumed ++ operation.continuation.toList)
  released : operation.phase = .completed ∨ operation.cancelled = true →
    operation.continuation = none

namespace Consumers

variable {operation operation' : Operation ρ ε}

theorem new : (Operation.new : Operation ρ ε).Consumers :=
  ⟨.refl _, fun _ => rfl⟩

section

variable (h : operation.Consumers)
include h

/-- Only the phase and what the operation was told change, and it is not over. -/
theorem of_eq (hregistered : operation'.registered = operation.registered)
    (hresumed : operation'.resumed = operation.resumed)
    (hcontinuation : operation'.continuation = operation.continuation)
    (hcancelled : operation'.cancelled = operation.cancelled)
    (hphase : operation'.phase ≠ .completed) : operation'.Consumers := by
  refine ⟨?_, fun hover => ?_⟩
  · rw [hregistered, hresumed, hcontinuation]
    exact h.perm
  · rw [hcontinuation]
    exact h.released (.inr (hcancelled ▸ hover.resolve_left hphase))

/-- The waiting consumer was resumed. -/
theorem resumed (hregistered : operation'.registered = operation.registered)
    (hresumed : operation'.resumed = operation.resumed ++ operation.continuation.toList)
    (hcontinuation : operation'.continuation = none) : operation'.Consumers := by
  refine ⟨?_, fun _ => hcontinuation⟩
  rw [hregistered, hresumed, hcontinuation, Option.toList_none, append_nil]
  exact h.perm

theorem start : operation.start.Consumers := by
  unfold Operation.start
  split
  · exact h.of_eq rfl rfl rfl rfl (by simp)
  · exact h

theorem markQueued (heq : operation.markQueued = .ok operation') : operation'.Consumers := by
  unfold Operation.markQueued at heq
  split at heq
  · cases heq
    exact h
  · split at heq
    · cases heq
      exact h.of_eq rfl rfl rfl rfl (by simp)
    · cases heq

theorem markSent (heq : operation.markSent = .ok operation') : operation'.Consumers := by
  unfold Operation.markSent at heq
  split at heq
  · cases heq
    exact h.of_eq rfl rfl rfl rfl (by simp)
  · cases heq

theorem acceptResult {result : ρ} (heq : operation.acceptResult result = .ok operation') :
    operation'.Consumers := by
  unfold Operation.acceptResult at heq
  split at heq
  · split at heq
    · cases heq
    · cases heq
      exact h.of_eq rfl rfl rfl rfl (by simp)
  · cases heq

theorem accept {answer : Answer ρ ε} (heq : operation.accept answer = .ok operation') :
    operation'.Consumers := by
  cases answer with
  | tuplesOk result => exact h.acceptResult heq
  | commandOk result => exact h.acceptResult heq
  | error error =>
    simp only [Operation.accept, acceptFailure] at heq
    split at heq
    · cases heq
      exact h.of_eq rfl rfl rfl rfl (by simp)
    · cases heq

theorem complete (heq : operation.complete = .ok operation') : operation'.Consumers := by
  unfold Operation.complete at heq
  split at heq
  · cases heq
    exact h.resumed rfl rfl rfl
  · cases heq

theorem abandon : operation.abandon.Consumers := by
  unfold Operation.abandon
  split
  · exact h
  · split
    · exact h.resumed rfl rfl rfl
    · exact h.resumed rfl rfl rfl

theorem registerContinuation {consumer : ℕ}
    (heq : operation.registerContinuation consumer = .ok operation') : operation'.Consumers := by
  unfold Operation.registerContinuation at heq
  split at heq
  · cases heq
  · next hnone =>
    have hfree : operation.continuation = none := by simpa using hnone
    have hperm := h.perm
    rw [hfree, Option.toList_none, append_nil] at hperm
    simp only at heq
    split at heq
    · cases heq
      refine ⟨?_, fun _ => hfree⟩
      simp only [hfree, Option.toList_none, append_nil]
      exact hperm.append_right _
    · next hwaits =>
      cases heq
      exact ⟨hperm.append_right _, fun hover => absurd hover hwaits⟩

end

end Consumers

/-! ## What a consumer gets -/

/-- A statement from `start` to the end of its `await`, when the server answers it and nobody
abandons it. -/
def outcome (answer : Answer ρ ε) : Except (Thrown ε) ρ :=
  match (do
    let operation ← (new.start : Operation ρ ε).markQueued
    let operation ← operation.markSent
    let operation ← operation.accept answer
    operation.complete) with
  | .ok operation => operation.takeResult
  | .error error => .error (.logic error)

/-- What the consumer gets depends only on whether the answer is an error. -/
theorem outcome_eq (answer : Answer ρ ε) : outcome answer = match answer with
    | .tuplesOk result => .ok result
    | .commandOk result => .ok result
    | .error error => .error (.failure (.server error)) := by
  cases answer with
  | tuplesOk result => rfl
  | commandOk result => rfl
  | error error => rfl

end Operation
end Idhan.Database
