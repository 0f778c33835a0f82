import Idhan.Database.Operation

/-!
# Connections

`DBConnection` sends its queued operations and matches what libpq returns to the operations in
flight by their order alone.  `pumpConnected` is cut into steps at its critical sections and at its
calls of libpq; other threads start, enqueue and abandon operations and register consumers between
any two of them, and replies arrive at any time.  One pump runs at a time.

libpq has a buffer of replies that were read from the socket.  Of a pipelined operation it returns a
result, a null and a sync, of another one a result and a null.  `PQgetResult` waits if there is
nothing in the buffer while a reply is due.
-/

namespace Idhan.Database

/-! ## libpq -/

/-- What `PQgetResult` returns: the result of a statement, a null, or the result of a pipeline
sync. -/
inductive Item where
  | result (statement : ℕ)
  | null
  | sync
  deriving DecidableEq, Repr

/-- The state of libpq and of what is behind it, in the order of the statements: those whose reply
has not arrived, those whose reply is on the socket, and the buffer. -/
structure Libpq where
  server : List ℕ
  socket : List ℕ
  buffer : List Item
  deriving DecidableEq, Repr

/-- What is returned for a statement. -/
def items (pipeline : Bool) (statement : ℕ) : List Item :=
  .result statement :: .null :: if pipeline then [.sync] else []

namespace Libpq

/-- `PQsendQueryParams` and `PQpipelineSync`. -/
def send (statement : ℕ) (libpq : Libpq) : Libpq :=
  { libpq with server := libpq.server ++ [statement] }

/-- The server answers a statement. -/
def arrive (libpq : Libpq) : Libpq :=
  { libpq with server := libpq.server.drop 1, socket := libpq.socket ++ libpq.server.take 1 }

/-- `PQconsumeInput`. -/
def consumeInput (pipeline : Bool) (libpq : Libpq) : Libpq :=
  { libpq with socket := [], buffer := libpq.buffer ++ libpq.socket.flatMap (items pipeline) }

/-- `PQisBusy`. -/
def isBusy (libpq : Libpq) : Bool :=
  libpq.buffer.isEmpty && !(libpq.server.isEmpty && libpq.socket.isEmpty)

/-- `PQgetResult`, if it need not wait: from the buffer, from the socket, or a null where nothing is
due. -/
def getResult (pipeline : Bool) (libpq : Libpq) : Option (Item × Libpq) :=
  match libpq.buffer with
  | item :: rest => some (item, { libpq with buffer := rest })
  | [] =>
    match libpq.socket.flatMap (items pipeline) with
    | item :: rest => some (item, { libpq with socket := [], buffer := rest })
    | [] => if libpq.server.isEmpty then some (.null, libpq) else none

end Libpq

/-! ## The pump -/

def pumpOperationBudget : ℕ := 64

/-- Why `pumpConnected` throws. -/
inductive PumpError where
  /-- "Could not send PostgreSQL operation" -/
  | send
  /-- "Could not flush PostgreSQL operations" -/
  | flush
  /-- "Could not read PostgreSQL operation results" -/
  | read
  /-- "PostgreSQL connection has no socket" -/
  | socket
  | logic (error : LogicError)
  deriving DecidableEq, Repr

/-- Where `pumpConnected` is; `count` is the counter of the loop. -/
inductive Pump where
  | idle
  | dispatching (count : ℕ)
  | checking (count id : ℕ)
  | sending (count id : ℕ)
  | marking (count id : ℕ)
  | pushing (count id : ℕ)
  | flushing
  | consuming
  | testing
  | reading (count : ℕ) (advanced_delimiter : Bool)
  | watching
  | threw (error : PumpError)
  deriving DecidableEq, Repr

/-- `DBConnection`, once it is connected.  Operations are known by their places in the list of all
of them. -/
structure DbConnection (ρ ε : Type) where
  /-- The role is not `management`. -/
  pipeline : Bool
  operations : List (Operation ρ ε)
  /-- Operations that were started and are about to be enqueued. -/
  starting : List ℕ
  queued : List ℕ
  inflight : List ℕ
  libpq : Libpq
  pump : Pump
  /-- The operations whose statements were sent, and those that were retired. -/
  sent : List ℕ
  retired : List ℕ
  deriving DecidableEq, Repr

namespace DbConnection

variable {ρ ε : Type} {c c' : DbConnection ρ ε} {answers : ℕ → Answer ρ ε}

/-- A connection that has just been made. -/
def new (pipeline : Bool) : DbConnection ρ ε :=
  ⟨pipeline, [], [], [], [], ⟨[], [], []⟩, .idle, [], []⟩

/-- An operation in a new state. -/
def put (id : ℕ) (operation : Operation ρ ε) (c : DbConnection ρ ε) : DbConnection ρ ε :=
  { c with operations := c.operations.set id operation }

/-- The operation goes through one of its critical sections, which may throw. -/
def update (id : ℕ) (f : Operation ρ ε → Except LogicError (Operation ρ ε))
    (next : DbConnection ρ ε → DbConnection ρ ε) (c : DbConnection ρ ε) : DbConnection ρ ε :=
  match c.operations[id]? with
  | none => { c with pump := .threw (.logic .noEntry) }
  | some operation =>
    match f operation with
    | .ok operation => next (c.put id operation)
    | .error error => { c with pump := .threw (.logic error) }

def popDispatchable (c : DbConnection ρ ε) : Option (ℕ × List ℕ) :=
  if !c.pipeline && !c.inflight.isEmpty then none
  else match c.queued with
    | [] => none
    | id :: rest => some (id, rest)

def hasWork (c : DbConnection ρ ε) : Bool :=
  !c.queued.isEmpty || !c.inflight.isEmpty

def retireHead (c : DbConnection ρ ε) : DbConnection ρ ε :=
  { c with inflight := c.inflight.drop 1, retired := c.retired ++ c.inflight.take 1 }

/-- A turn of the second loop of `pumpConnected`, with what `PQgetResult` returned. -/
def handle (answers : ℕ → Answer ρ ε) (count : ℕ) (advanced_delimiter : Bool) (item : Item)
    (c : DbConnection ρ ε) : DbConnection ρ ε :=
  match item, c.inflight with
  | .null, [] => { c with pump := .watching }
  | .null, id :: _ =>
    if c.pipeline then
      if (c.operations[id]?.any Operation.needsSynchronization) && !advanced_delimiter then { c with
        pump := .reading (count + 1) true }
      else { c with pump := .watching }
    else c.update id Operation.complete fun c => { c.retireHead with pump := .watching }
  | _, [] => { c with pump := .threw (.logic .noEntry) }
  | .sync, id :: _ =>
    c.update id Operation.complete fun c => { c.retireHead with pump := .reading (count + 1) false }
  | .result statement, id :: _ =>
    c.update id (Operation.accept (answers statement)) fun c => { c with
      pump := .reading (count + 1) false }

/-- A step of `pumpConnected`.  `error` says whether the call of libpq that the step makes reports
an error; a step without a call has none to report, and a step may have to wait. -/
def pumpStep (answers : ℕ → Answer ρ ε) (error : Bool) (c : DbConnection ρ ε) :
    Option (DbConnection ρ ε) :=
  match c.pump, error with
  | .dispatching count, false =>
    if count < pumpOperationBudget then
      match c.popDispatchable with
      | some (id, rest) => some { c with queued := rest, pump := .checking count id }
      | none => some { c with pump := .flushing }
    else some { c with pump := .flushing }
  | .checking count id, false =>
    if c.operations[id]?.any fun operation =>
        operation.phase = .completed || operation.phase = .abandoned then
      some { c with pump := .dispatching (count + 1) }
    else some { c with pump := .sending count id }
  | .sending count id, false =>
    some { c with libpq := c.libpq.send id, sent := c.sent ++ [id], pump := .marking count id }
  | .sending _ _, true => some { c with pump := .threw .send }
  | .marking count id, false =>
    some (c.update id Operation.markSent fun c => { c with pump := .pushing count id })
  | .pushing count id, false =>
    some { c with inflight := c.inflight ++ [id], pump := .dispatching (count + 1) }
  | .flushing, false => some { c with pump := .consuming }
  | .flushing, true => some { c with pump := .threw .flush }
  | .consuming, false => some { c with libpq := c.libpq.consumeInput c.pipeline, pump := .testing }
  | .consuming, true => some { c with pump := .threw .read }
  | .testing, false =>
    some { c with pump := if c.libpq.isBusy then .watching else .reading 0 false }
  | .reading count advanced_delimiter, false =>
    if count < pumpOperationBudget then
      (c.libpq.getResult c.pipeline).map fun (item, libpq) =>
      ({ c with libpq } : DbConnection ρ ε).handle answers count advanced_delimiter item
    else some { c with pump := .watching }
  | .watching, false => some { c with pump := .idle }
  | .watching, true => if c.hasWork then some { c with pump := .threw .socket } else none
  | _, _ => none

/-- An error of libpq makes the pump throw.  It is reported before the pump reads, or after that. -/
theorem threw_of_error (h : c.pumpStep answers true = some c') :
    (∃ error, c' = { c with pump := .threw error }) ∧ c.pump ≠ .testing ∧
    ∀ count advanced_delimiter, c.pump ≠ .reading count advanced_delimiter := by
  unfold pumpStep at h
  cases hpump : c.pump <;> simp only [hpump, reduceCtorEq] at h
  case watching =>
    split at h
    · exact ⟨⟨_, (Option.some.inj h).symm⟩, by simp⟩
    · cases h
  all_goals exact ⟨⟨_, (Option.some.inj h).symm⟩, by simp⟩

/-! ## What happens on a connection -/

/-- What happens on a connection, by whoever does it. -/
inductive Move where
  /-- A new operation, -/
  | create
  /-- `DBOperation::start`, -/
  | start (id : ℕ)
  /-- `DBConnection::enqueue`, -/
  | enqueue (id : ℕ)
  /-- `DBOperation::registerContinuation`, -/
  | register (id consumer : ℕ)
  /-- `DBOperation::abandon`. -/
  | abandon (id : ℕ)
  /-- A reply arrives. -/
  | arrive
  /-- A pump begins, -/
  | wake
  /-- and takes a step. -/
  | pump (error : Bool)
  deriving DecidableEq, Repr

/-- `enqueue`: `markQueued`, and the operation is queued unless that throws. -/
def enqueue (id : ℕ) (operation : Operation ρ ε) (c : DbConnection ρ ε) : DbConnection ρ ε :=
  match operation.markQueued with
  | .ok operation =>
    { c.put id operation with starting := c.starting.erase id, queued := c.queued ++ [id] }
  | .error _ => { c with starting := c.starting.erase id }

/-- What a move leads to. -/
inductive Step (answers : ℕ → Answer ρ ε) : Move → DbConnection ρ ε → DbConnection ρ ε → Prop
  | create (c : DbConnection ρ ε) :
      Step answers .create c { c with operations := c.operations ++ [.new] }
  | start {c : DbConnection ρ ε} {id : ℕ} {operation : Operation ρ ε} : c.operations[id]? =
      some operation → operation.phase = .cold →
      Step answers (.start id) c { c.put id operation.start with starting := c.starting ++ [id] }
  | enqueue {c : DbConnection ρ ε} {id : ℕ} {operation : Operation ρ ε} :
      c.operations[id]? = some operation → id ∈ c.starting →
      Step answers (.enqueue id) c (c.enqueue id operation)
  | register {c : DbConnection ρ ε} {id consumer : ℕ} {operation operation' : Operation ρ ε} :
      c.operations[id]? = some operation →
      operation.registerContinuation consumer = .ok operation' →
      Step answers (.register id consumer) c (c.put id operation')
  | abandon {c : DbConnection ρ ε} {id : ℕ} {operation : Operation ρ ε} :
      c.operations[id]? = some operation →
      Step answers (.abandon id) c (c.put id operation.abandon)
  | arrive (c : DbConnection ρ ε) : Step answers .arrive c { c with libpq := c.libpq.arrive }
  | wake {c : DbConnection ρ ε} : c.pump = .idle →
      Step answers .wake c { c with pump := .dispatching 0 }
  | pump {c c' : DbConnection ρ ε} {error : Bool} : c.pumpStep answers error = some c' →
      Step answers (.pump error) c c'

/-- What is reached from a new connection by moves that are allowed where they are made. -/
inductive Run (answers : ℕ → Answer ρ ε) (allowed : DbConnection ρ ε → Move → Prop)
    (pipeline : Bool) : DbConnection ρ ε → Prop
  | new : Run answers allowed pipeline (new pipeline)
  | step {c c' : DbConnection ρ ε} {move : Move} : Run answers allowed pipeline c → allowed c move →
      Step answers move c c' → Run answers allowed pipeline c'

/-! ## Performing moves -/

/-- What a move leads to, if it can be made. -/
def perform (answers : ℕ → Answer ρ ε) (c : DbConnection ρ ε) : Move → Option (DbConnection ρ ε)
  | .create => some { c with operations := c.operations ++ [.new] }
  | .start id => (c.operations[id]?).bind fun operation =>
    if operation.phase = .cold then some { c.put id operation.start with
      starting := c.starting ++ [id] } else none
  | .enqueue id =>
    (c.operations[id]?).bind fun operation => if id ∈ c.starting then some (c.enqueue id operation)
      else none
  | .register id consumer => (c.operations[id]?).bind fun operation =>
    match operation.registerContinuation consumer with
    | .ok operation => some (c.put id operation)
    | .error _ => none
  | .abandon id => (c.operations[id]?).map fun operation => c.put id operation.abandon
  | .arrive => some { c with libpq := c.libpq.arrive }
  | .wake => if c.pump = .idle then some { c with pump := .dispatching 0 } else none
  | .pump error => c.pumpStep answers error

theorem step_of_perform {move : Move} (h : c.perform answers move = some c') :
    Step answers move c c' := by
  cases move with
  | create =>
    cases h
    exact .create c
  | start id =>
    obtain ⟨operation, hget, h⟩ := Option.bind_eq_some_iff.1 h
    split at h
    · next hcold =>
      cases h
      exact .start hget hcold
    · cases h
  | enqueue id =>
    obtain ⟨operation, hget, h⟩ := Option.bind_eq_some_iff.1 h
    split at h
    · next hmem =>
      cases h
      exact .enqueue hget hmem
    · cases h
  | register id consumer =>
    obtain ⟨operation, hget, h⟩ := Option.bind_eq_some_iff.1 h
    split at h
    · next hregister =>
      cases h
      exact .register hget hregister
    · cases h
  | abandon id =>
    obtain ⟨operation, hget, rfl⟩ := Option.map_eq_some_iff.1 h
    exact .abandon hget
  | arrive =>
    cases h
    exact .arrive c
  | wake =>
    simp only [perform] at h
    split at h
    · next hidle =>
      cases h
      exact .wake hidle
    · cases h
  | pump error => exact .pump h

/-- Moves one after the other, as long as they can be made and are allowed. -/
def performs (answers : ℕ → Answer ρ ε) (allowed : DbConnection ρ ε → Move → Bool)
    (c : DbConnection ρ ε) : List Move → Option (DbConnection ρ ε)
  | [] => some c
  | move :: moves =>
    if allowed c move then (c.perform answers move).bind fun c => c.performs answers allowed moves
        else none

/-- Moves that can be made are a run. -/
theorem run_of_performs {allowed : DbConnection ρ ε → Move → Bool} {pipeline : Bool}
    {moves : List Move} (hrun : Run answers (fun c move => allowed c move = true) pipeline c)
    (h : c.performs answers allowed moves = some c') :
    Run answers (fun c move => allowed c move = true) pipeline c' := by
  induction moves generalizing c with
  | nil =>
    cases h
    exact hrun
  | cons move moves ih =>
    unfold performs at h
    split at h
    · next hallowed =>
      obtain ⟨next, hperform, h⟩ := Option.bind_eq_some_iff.1 h
      exact ih (hrun.step hallowed (step_of_perform hperform)) h
    · cases h

/-- A run is found by performing its moves and testing what they lead to. -/
theorem exists_run (answers : ℕ → Answer ρ ε) (allowed : DbConnection ρ ε → Move → Bool)
    (pipeline : Bool) (moves : List Move) (P : DbConnection ρ ε → Bool)
    (h : ((new pipeline).performs answers allowed moves).any P = true) :
    ∃ c, Run answers (fun c move => allowed c move = true) pipeline c ∧ P c = true := by
  cases hperformed : (new pipeline).performs answers allowed moves with
  | none =>
    rw [hperformed] at h
    cases h
  | some c =>
    rw [hperformed] at h
    exact ⟨c, run_of_performs .new hperformed, h⟩

end DbConnection
end Idhan.Database
