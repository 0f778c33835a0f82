import Mathlib.Tactic.Ring
import Mathlib.Logic.Function.Basic
import Mathlib.Data.Nat.Notation

/-!
# Calls of a worker process

`call`, `finish`, `failAll` and `terminate` of `IDHANServer/src/modules/WorkerProcess.cpp`, with the
part of `handleFrame` that takes results.  A call is registered under an id and its coroutine is
suspended; a result, a failure to post it or the end of the worker claims it, stores an outcome and
resumes the coroutine.

These run in several threads.  A run is a list of actions, each of which is done under one lock or
is one access to an atomic variable: so a call begins, is registered and is posted in three actions,
`finish` claims a call in one and resumes it in another, and `terminate` marks the worker dead in
one and claims all calls in another.  A call is known here by a number of its own, which stands for
its coroutine and its outcome.

Left out are the inputs of calls (`m_call_inputs`), the times of the last activity, and what
`terminate` does between its two parts: it wakes those who wait for the manifest and reaps the
process.
-/

namespace Idhan.Workers

variable {J B : Type}

/-- `CallOutcome`.  `J` are the values of JSON and `B` the blobs. -/
structure CallOutcome (J B : Type) where
  ok : Bool
  error : String
  body : Option J
  blob : Option B
  workerDied : Bool
  deriving DecidableEq, Repr

/-- `CallOutcome {}`. -/
def CallOutcome.initial : CallOutcome J B :=
  ⟨false, "", none, none, false⟩

/-! ## Results -/

/-- The error field of a result. -/
inductive ErrorField where
  | absent
  | text (error : String)
  | other
  deriving DecidableEq, Repr

/-- What `handleFrame` reads of a result: the fields as far as they have the right type, and what
comes of adopting each descriptor. -/
structure ResultFrame (J B : Type) where
  callId : Option ℕ
  ok : Option Bool
  error : ErrorField
  body : J
  fds : List (Except String B)

/-- The error text of a result; a field that is absent reads as the empty text. -/
def ErrorField.asString : ErrorField → String
  | .text error => error
  | _ => ""

/-- The outcome of a result with some descriptors. -/
def adoptBlob (outcome : CallOutcome J B) : List (Except String B) → CallOutcome J B
  | [] => outcome
  | .ok blob :: _ => { outcome with blob := some blob }
  | .error error :: _ =>
    if outcome.ok then { outcome with ok := false, error := error } else outcome

/-- The part of `handleFrame` for results: the id and the outcome, or the reason to reject the
frame. -/
def readResult (frame : ResultFrame J B) : Except String (ℕ × CallOutcome J B) :=
  match frame.callId, frame.ok, frame.error with
  | none, _, _ => .error "result has invalid fields"
  | some _, none, _ => .error "result has invalid fields"
  | some _, some _, .other => .error "result has invalid fields"
  | some _, some false, .absent => .error "failed result has no error string"
  | some callId, some ok, error =>
    if 1 < frame.fds.length then .error "result has more than one descriptor"
    else .ok (callId, adoptBlob ⟨ok, error.asString, some frame.body, none, false⟩ frame.fds)

/-! ## The state -/

/-- Where a call is. -/
inductive CallPhase where
  | unborn
  /-- it has its id -/
  | assigned (callId : ℕ)
  /-- it has been registered and is about to be posted -/
  | posting (callId : ℕ)
  /-- it could not be posted and is about to be finished -/
  | failed (callId : ℕ) (error : String)
  /-- it is suspended, or has been resumed -/
  | suspended
  /-- it has not been suspended, since the worker was dead -/
  | refused
  deriving DecidableEq, Repr

/-- What is to be stored as the outcome of a call. -/
inductive Claim (J B : Type) where
  /-- `finish` -/
  | finish (outcome : CallOutcome J B)
  /-- `failAll` -/
  | fail (reason : String) (died : Bool)

/-- The outcome with which a claim leaves a call. -/
def Claim.store (outcome : CallOutcome J B) : Claim J B → CallOutcome J B
  | .finish outcome' => outcome'
  | .fail reason died => { outcome with ok := false, error := reason, workerDied := died }

/-- The state of a worker process, as far as calls go. -/
structure State (J B : Type) where
  alive : Bool
  /-- `m_next_call_id` -/
  nextCallId : ℕ
  phase : ℕ → CallPhase
  /-- `m_calls`: the calls under their ids -/
  calls : List (ℕ × ℕ)
  /-- what has been claimed and is still to be stored -/
  inFlight : List (ℕ × Claim J B)
  /-- the reason of a `terminate` that has not yet claimed the calls -/
  terminating : Option String
  /-- a `terminate` has claimed the calls -/
  terminated : Bool
  outcome : ℕ → CallOutcome J B
  /-- the calls that have been registered, in their order -/
  registered : List ℕ
  /-- the claims, in their order -/
  claims : List (ℕ × Claim J B)
  /-- the calls that have been resumed, in their order -/
  resumed : List ℕ

/-- What a thread does next. -/
inductive Action (J B : Type) where
  /-- a call is begun -/
  | begin (call : ℕ)
  /-- it comes to the check under the lock of the table -/
  | register (call : ℕ)
  /-- it is posted; `failure` says what queueing or waking the thread fails with, if it does -/
  | post (call : ℕ) (failure : Option String)
  /-- a call that could not be posted is finished -/
  | finishFailed (call : ℕ)
  /-- a result arrives -/
  | result (frame : ResultFrame J B)
  /-- a claim is stored and the call resumed -/
  | resume (place : ℕ)
  /-- `terminate` marks the worker dead -/
  | terminate (reason : String)
  /-- `terminate` claims the calls -/
  | failAll

namespace State

/-- A worker that has been started. -/
def start : State J B :=
  ⟨true, 1, fun _ => .unborn, [], [], none, false, fun _ => .initial, [], [], []⟩

/-- `m_next_call_id.fetch_add( 1 )`. -/
def begin (s : State J B) (call : ℕ) : State J B :=
  match s.phase call with
  | .unborn =>
    { s with
      nextCallId := (s.nextCallId + 1) % 2 ^ 64
      phase := Function.update s.phase call (.assigned s.nextCallId) }
  | _ => s

/-- The first part of `await_suspend`, under the lock.  `emplace` leaves an id that is taken
alone. -/
def register (s : State J B) (call : ℕ) : State J B :=
  match s.phase call with
  | .assigned callId =>
    if !s.alive then
      { s with
        phase := Function.update s.phase call .refused
        outcome := Function.update s.outcome call
          { s.outcome call with
            ok := false, error := "worker is not running", workerDied := true } }
    else if callId ∈ s.calls.map (·.1) then
      { s with phase := Function.update s.phase call (.posting callId) }
    else
      { s with
        phase := Function.update s.phase call (.posting callId)
        calls := s.calls ++ [(callId, call)]
        registered := s.registered ++ [call] }
  | _ => s

def post (s : State J B) (call : ℕ) (failure : Option String) : State J B :=
  match s.phase call with
  | .posting callId =>
    match (if !s.alive then some "worker is not running" else failure) with
    | some error => { s with phase := Function.update s.phase call (.failed callId error) }
    | none => { s with phase := Function.update s.phase call .suspended }
  | _ => s

/-- The first part of `finish`, under the lock: the call with the id is taken out of the table. -/
def finish (s : State J B) (callId : ℕ) (outcome : CallOutcome J B) : State J B :=
  match s.calls.find? (·.1 == callId) with
  | none => s
  | some found =>
    { s with
      calls := s.calls.erase found
      inFlight := s.inFlight ++ [(found.2, .finish outcome)]
      claims := s.claims ++ [(found.2, .finish outcome)] }

/-- A call that could not be posted is finished by its own thread. -/
def finishFailed (s : State J B) (call : ℕ) : State J B :=
  match s.phase call with
  | .failed callId error =>
    { s with phase := Function.update s.phase call .suspended }.finish callId
      { CallOutcome.initial with ok := false, error := error, workerDied := true }
  | _ => s

/-- The first part of `terminate`: only one of several goes on. -/
def terminate (s : State J B) (reason : String) : State J B :=
  if s.alive then { s with alive := false, terminating := some reason } else s

/-- `failAll`, up to the end of the lock. -/
def failAll (s : State J B) : State J B :=
  match s.terminating with
  | none => s
  | some reason =>
    { s with
      calls := []
      inFlight := s.inFlight ++ s.calls.map fun call => (call.2, .fail reason true)
      claims := s.claims ++ s.calls.map fun call => (call.2, .fail reason true)
      terminating := none
      terminated := true }

/-- The second part of `finish` and a round of the loop of `failAll`. -/
def resume (s : State J B) (place : ℕ) : State J B :=
  match s.inFlight[place]? with
  | none => s
  | some (call, claim) =>
    { s with
      inFlight := s.inFlight.eraseIdx place
      outcome := Function.update s.outcome call (claim.store (s.outcome call))
      resumed := s.resumed ++ [call] }

/-- What an action does.  `library` is the name of the library in the reason for rejecting a
frame. -/
def step (library : String) (s : State J B) : Action J B → State J B
  | .begin call => s.begin call
  | .register call => s.register call
  | .post call failure => s.post call failure
  | .finishFailed call => s.finishFailed call
  | .result frame =>
    match readResult frame with
    | .ok (callId, outcome) => s.finish callId outcome
    | .error reason =>
      s.terminate ("worker for " ++ library ++ " sent an invalid message: " ++ reason)
  | .resume place => s.resume place
  | .terminate reason => s.terminate reason
  | .failAll => s.failAll

/-- The state after some actions. -/
def run (library : String) (actions : List (Action J B)) : State J B :=
  actions.foldl (step library) start

end State

end Idhan.Workers
