import Idhan.Database.Operation
import Idhan.Lib.Threads

/-!
# Transactions of a pool

`DBPool::transaction` takes a connection from the queue of leases, sends `BEGIN` on it and hands out
a `DBTransaction`.  `commit`, `rollback`, the destructor and the move assignment end it: they leave
the active phase under the mutex of the transaction, send the last command and give the lease back
when it is answered.  `DBTransaction::query` makes a task that remembers the connection; the
statement is enqueued on it when the task is awaited.

A critical section, an enqueued statement and an answer of the server are actions of threads, which
interleave.  The log has everything that is enqueued on any of the connections, in order.
-/

namespace Idhan.Database

abbrev Connection := ℕ

/-- Where a transaction is; `TransactionPhase`, and before that the opening, which may be
refused. -/
inductive TransactionPhase where
  | opening | refused | active | finalizing | completed
  deriving DecidableEq, Repr

/-- `DBTransaction::State`, from the moment on that its lease is taken. -/
structure Transaction where
  /-- The connection whose lease was taken. -/
  lease : Connection
  connection : Option Connection
  phase : TransactionPhase
  deriving DecidableEq, Repr

/-- The transaction has the connection of its lease. -/
def TransactionPhase.holds : TransactionPhase → Bool
  | .opening | .active | .finalizing => true
  | .refused | .completed => false

/-- A `DBTask` made by `DBTransaction::query`, with the connection its starter remembers.  The log
ends where the statement is enqueued, so nothing of its answer matters. -/
structure Task where
  transaction : ℕ
  connection : Option Connection
  operation : Operation Unit Unit
  deriving DecidableEq, Repr

/-- The commands that end a transaction. -/
inductive Ending where
  | commit | rollback
  deriving DecidableEq, Repr

/-- What is enqueued: `BEGIN`, a statement or the last command. -/
inductive Command where
  | start | statement | last (ending : Ending)
  deriving DecidableEq, Repr

/-- The command ends a transaction. -/
def Command.ends : Command → Bool
  | .last _ => true
  | _ => false

/-- A command of a transaction that was enqueued on a connection. -/
structure Entry where
  transaction : ℕ
  connection : Connection
  command : Command
  deriving DecidableEq, Repr

/-- What the code says when something went wrong with a lease: `notReturned` for "Could not return a
failed database transaction lease", `returnedTwice` for "Database transaction lease was returned
more than once"; `noConnection` where a null pointer would be used. -/
inductive Fault where
  | notReturned | returnedTwice | noConnection
  deriving DecidableEq, Repr

/-- `DBPool`, with all the transactions and tasks there have been and the `DBTransaction` objects,
each with its state if it has one. -/
structure Pool where
  /-- `m_transactions`. -/
  connections : List Connection
  /-- `m_available_transactions`, which has room for all the connections. -/
  leases : List Connection
  transactions : List Transaction
  objects : List (Option ℕ)
  tasks : List Task
  log : List Entry
  faults : List Fault
  deriving DecidableEq, Repr

/-- What a thread has still to do. -/
inductive Action where
  /-- A call of `DBPool::transaction`. -/
  | transaction
  /-- `BEGIN` is enqueued, -/
  | begin (id : ℕ)
  /-- and answered. -/
  | begun (id : ℕ)
  /-- The lease of a refused transaction is put back. -/
  | giveBack (id : ℕ) (connection : Connection)
  /-- Calls for an object: `commit`, `rollback`, the destructor, the assignment from another object,
  the move into a new object. -/
  | commit (object : ℕ)
  | rollback (object : ℕ)
  | destroy (object : ℕ)
  | assign (object other : ℕ)
  | move (object : ℕ)
  /-- `finalize` enqueues its command, -/
  | finalize (id : ℕ) (command : Ending)
  /-- and gives the lease back when it is answered, -/
  | releaseLease (id : ℕ)
  /-- by the callback. -/
  | release (id : ℕ) (connection : Connection)
  /-- `DBTransaction::query`. -/
  | query (object : ℕ)
  /-- A task is awaited, -/
  | start (task : ℕ)
  /-- and enqueued; or abandoned. -/
  | enqueue (task : ℕ)
  | abandon (task : ℕ)
  deriving DecidableEq, Repr

/-- What a thread may begin with. -/
def Action.IsEntry : Action → Prop
  | .transaction | .commit _ | .rollback _ | .destroy _ | .assign _ _ | .move _ | .query _
  | .start _ | .abandon _ => True
  | _ => False

namespace Pool

/-- A pool that has started. -/
def new (connections : List Connection) : Pool :=
  ⟨connections, connections, [], [], [], [], []⟩

/-- The state of an object. -/
def stateOf (pool : Pool) (object : ℕ) : Option ℕ :=
  pool.objects[object]?.join

/-- A lease is taken, for a new transaction. -/
def opened (pool : Pool) (connection : Connection) (leases : List Connection) : Pool :=
  { pool with
    leases, transactions := pool.transactions ++ [⟨connection, some connection, .opening⟩] }

/-- A transaction in a new state. -/
def put (pool : Pool) (id : ℕ) (transaction : Transaction) : Pool :=
  { pool with transactions := pool.transactions.set id transaction }

/-- The end of `DBConnection::enqueue`: the command is in the queue of its connection. -/
def enqueue (pool : Pool) (entry : Entry) : Pool :=
  { pool with log := pool.log ++ [entry] }

/-- `try_enqueue` of a lease, and what is thrown when the queue is full. -/
def returnLease (pool : Pool) (fault : Fault) (connection : Connection) : Pool :=
  if pool.leases.length < pool.connections.length then { pool with
    leases := pool.leases ++ [connection] }
  else { pool with faults := pool.faults ++ [fault] }

/-- The critical section of `commit`, `rollback` and `queueRollback`: an active transaction is to be
finalized. -/
def finish (pool : Pool) (command : Ending) (state : Option ℕ) : Pool × List Action :=
  match state with
  | none => (pool, [])
  | some id =>
    match pool.transactions[id]? with
    | none => (pool, [])
    | some transaction =>
      if transaction.phase = .active then (pool.put id { transaction with phase := .finalizing },
        [.finalize id command])
      else (pool, [])

/-- `createTask` in `finalize`, and the start of its task. -/
def sendLast (pool : Pool) (id : ℕ) (command : Ending) (transaction : Transaction) :
    Pool × List Action :=
  match transaction.connection with
  | some connection => (pool.enqueue ⟨id, connection, .last command⟩, [.releaseLease id])
  | none => ({ pool with faults := pool.faults ++ [.noConnection] }, [])

/-- `releaseLease`, up to the call of the callback. -/
def releaseLease (pool : Pool) (id : ℕ) (transaction : Transaction) : Pool × List Action :=
  if transaction.phase = .completed then (pool, [])
  else (pool.put id { transaction with phase := .completed, connection := none },
    transaction.connection.toList.map (Action.release id))

/-- `DBTransaction::query`: a task of an active transaction. -/
def query (pool : Pool) (state : Option ℕ) : Pool :=
  match state with
  | none => pool
  | some id =>
    match pool.transactions[id]? with
    | none => pool
    | some transaction =>
      if transaction.phase = .active then { pool with
        tasks := pool.tasks ++ [⟨id, transaction.connection, .new⟩] } else pool

/-- The operation of a task in a new state. -/
def putTask (pool : Pool) (place : ℕ) (task : Task) (operation : Operation Unit Unit) : Pool :=
  { pool with tasks := pool.tasks.set place { task with operation } }

/-- The start of a task, which calls the starter of a cold operation. -/
def startTask (pool : Pool) (place : ℕ) (task : Task) : Pool × List Action :=
  (pool.putTask place task task.operation.start,
    if task.operation.phase = .cold then [.enqueue place] else [])

/-- The starter of a task, which calls `DBConnection::enqueue`. -/
def enqueueTask (pool : Pool) (place : ℕ) (task : Task) : Pool :=
  match task.connection with
  | none => { pool with faults := pool.faults ++ [.noConnection] }
  | some connection =>
    match task.operation.markQueued with
    | .ok operation =>
      (pool.putTask place task operation).enqueue ⟨task.transaction, connection, .statement⟩
    | .error _ => pool

end Pool

open Pool in
/-- One action of a thread: the pool after it, and what the thread does next. -/
inductive Act : Action → Pool → Pool → List Action → Prop
  | transaction {pool : Pool} {connection : Connection} {leases : List Connection} :
      pool.leases = connection :: leases →
      Act .transaction pool (pool.opened connection leases) [.begin pool.transactions.length]
  | begin {pool : Pool} {id : ℕ} {transaction : Transaction} :
      pool.transactions[id]? = some transaction →
      Act (.begin id) pool (pool.enqueue ⟨id, transaction.lease, .start⟩) [.begun id]
  | begun {pool : Pool} {id : ℕ} {transaction : Transaction} :
      pool.transactions[id]? = some transaction →
      Act (.begun id) pool { pool.put id { transaction with phase := .active } with
        objects := pool.objects ++ [some id] } []
  | refused {pool : Pool} {id : ℕ} {transaction : Transaction} :
      pool.transactions[id]? = some transaction →
      Act (.begun id) pool (pool.put id { transaction with phase := .refused, connection := none })
        (transaction.connection.toList.map (Action.giveBack id))
  | giveBack {pool : Pool} {id : ℕ} {connection : Connection} :
      Act (.giveBack id connection) pool (pool.returnLease .notReturned connection) []
  | commit {pool : Pool} {object : ℕ} :
      Act (.commit object) pool (pool.finish .commit (pool.stateOf object)).1
        (pool.finish .commit (pool.stateOf object)).2
  | rollback {pool : Pool} {object : ℕ} :
      Act (.rollback object) pool (pool.finish .rollback (pool.stateOf object)).1
        (pool.finish .rollback (pool.stateOf object)).2
  | destroy {pool : Pool} {object : ℕ} :
      Act (.destroy object) pool
        { (pool.finish .rollback (pool.stateOf object)).1 with
          objects := pool.objects.set object none }
        (pool.finish .rollback (pool.stateOf object)).2
  | assign {pool : Pool} {object other : ℕ} : object ≠ other → object < pool.objects.length →
      Act (.assign object other) pool
        { (pool.finish .rollback (pool.stateOf object)).1 with
          objects := (pool.objects.set object (pool.stateOf other)).set other none }
        (pool.finish .rollback (pool.stateOf object)).2
  | assignSelf {pool : Pool} {object : ℕ} : Act (.assign object object) pool pool []
  | move {pool : Pool} {object : ℕ} :
      Act (.move object) pool { pool with
        objects := pool.objects.set object none ++ [pool.stateOf object] } []
  | finalize {pool : Pool} {id : ℕ} {command : Ending} {transaction : Transaction} :
      pool.transactions[id]? = some transaction →
      Act (.finalize id command) pool (pool.sendLast id command transaction).1
        (pool.sendLast id command transaction).2
  | releaseLease {pool : Pool} {id : ℕ} {transaction : Transaction} :
      pool.transactions[id]? = some transaction →
      Act (.releaseLease id) pool (pool.releaseLease id transaction).1
        (pool.releaseLease id transaction).2
  | release {pool : Pool} {id : ℕ} {connection : Connection} :
      Act (.release id connection) pool (pool.returnLease .returnedTwice connection) []
  | query {pool : Pool} {object : ℕ} :
      Act (.query object) pool (pool.query (pool.stateOf object)) []
  | start {pool : Pool} {place : ℕ} {task : Task} : pool.tasks[place]? = some task →
      Act (.start place) pool (pool.startTask place task).1 (pool.startTask place task).2
  | enqueue {pool : Pool} {place : ℕ} {task : Task} : pool.tasks[place]? = some task →
      Act (.enqueue place) pool (pool.enqueueTask place task) []
  | abandon {pool : Pool} {place : ℕ} {task : Task} : pool.tasks[place]? = some task →
      Act (.abandon place) pool (pool.putTask place task task.operation.abandon) []

/-- The runs of the threads of a pool. -/
abbrev Run (allowed : Threads Pool Action → Action → Prop) (connections : List Connection) :
    Threads Pool Action → Prop :=
  Threads.Run Act Action.IsEntry allowed ⟨.new connections, []⟩

/-! ## What an action does -/

namespace Pool

/-- The critical section that ends a transaction does so only if it is active. -/
theorem finish_cases (pool : Pool) (command : Ending) (state : Option ℕ) :
    pool.finish command state = (pool, []) ∨ ∃ id transaction,
    pool.transactions[id]? = some transaction ∧
      transaction.phase = .active ∧
      pool.finish command state =
      (pool.put id { transaction with phase := .finalizing }, [.finalize id command]) := by
  unfold finish
  split
  · exact .inl rfl
  · split
    · exact .inl rfl
    · next heq =>
      split
      · next hactive => exact .inr ⟨_, _, heq, hactive, rfl⟩
      · exact .inl rfl

/-- A query touches the tasks alone, -/
theorem exists_query_eq (pool : Pool) (state : Option ℕ) :
    ∃ tasks, pool.query state = { pool with tasks } := by
  unfold query
  split
  · exact ⟨_, rfl⟩
  · split
    · exact ⟨_, rfl⟩
    · split
      · exact ⟨_, rfl⟩
      · exact ⟨_, rfl⟩

/-- and a task that is awaited its own operation, unless it cannot be enqueued. -/
theorem enqueueTask_cases (pool : Pool) (place : ℕ) (task : Task) :
    (∃ faults, pool.enqueueTask place task = { pool with faults }) ∨
    ∃ connection operation, task.connection = some connection ∧
      pool.enqueueTask place task =
        (pool.putTask place task operation).enqueue ⟨task.transaction, connection, .statement⟩ := by
  unfold enqueueTask
  split
  · exact .inl ⟨_, rfl⟩
  · next connection hconnection =>
    split
    · next operation _ => exact .inr ⟨connection, operation, hconnection, rfl⟩
    · exact .inl ⟨_, rfl⟩

end Pool
end Idhan.Database
