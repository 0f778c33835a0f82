import Idhan.Database.Operation

/-!
# Commits

`DBTransaction::commit` sends `COMMIT` and returns when the answer is no error.  PostgreSQL aborts a
transaction at the first statement that fails: the statements after it fail as well, and `COMMIT` is
answered with a successful result whose command tag is `ROLLBACK`.  The tag is in the result, and
nobody looks at it.

The statements, the data and what a statement does are parameters, and so is the check of deferred
constraints.

`queries_eq` says what the statements of a transaction leave and which of them succeed: those before
the first that fails.  From it, `commit_durable_iff` says when a commit that returned has committed
what succeeded.
-/

namespace Idhan.Database

/-- A server: statements, the error of the statements in an aborted transaction, and the check of
deferred constraints. -/
structure Server (Sql Data Result Error : Type) where
  execute : Sql → Data → Except Error (Result × Data)
  inFailedTransaction : Error
  deferred : Data → Option Error
  /-- The results with the command tags `COMMIT` and `ROLLBACK`. -/
  committed : Result
  rolledBack : Result

/-- A transaction block. -/
inductive Block (Data : Type) where
  | running (data : Data)
  | aborted
  | ended
  deriving DecidableEq, Repr

/-- The session of a connection: what is durable, and the transaction block. -/
structure Session (Data : Type) where
  durable : Data
  block : Block Data
  deriving DecidableEq, Repr

section

variable {Sql Data Result Error : Type} (server : Server Sql Data Result Error)

/-- PostgreSQL answers a statement of a transaction block. -/
def Server.answer (sql : Sql) (session : Session Data) : Answer Result Error × Session Data :=
  match session.block with
  | .running data =>
    match server.execute sql data with
    | .ok (result, data) => (.tuplesOk result, { session with block := .running data })
    | .error error => (.error error, { session with block := .aborted })
  | _ => (.error server.inFailedTransaction, session)

/-- PostgreSQL answers `COMMIT`. -/
def Server.answerCommit (session : Session Data) : Answer Result Error × Session Data :=
  match session.block with
  | .running data =>
    match server.deferred data with
    | none => (.commandOk server.committed, ⟨data, .ended⟩)
    | some error => (.error error, { session with block := .ended })
  | _ => (.commandOk server.rolledBack, { session with block := .ended })

/-- A statement of a transaction, awaited. -/
def query (sql : Sql) (session : Session Data) : Except (Thrown Error) Result × Session Data :=
  ((Operation.outcome (server.answer sql session).1), (server.answer sql session).2)

/-- Statements of a transaction; the caller catches what they throw. -/
def queries : List Sql → Session Data → List (Except (Thrown Error) Result) × Session Data
  | [], session => ([], session)
  | sql :: rest, session =>
    let (outcome, session) := query server sql session
    let (outcomes, session) := queries rest session
    (outcome :: outcomes, session)

/-- `DBTransaction::commit` of an active transaction: what `finalize` throws. -/
def commit (session : Session Data) : Except (Thrown Error) Unit × Session Data :=
  ((Operation.outcome (server.answerCommit session).1).map fun _ => (),
    (server.answerCommit session).2)

/-- The statements that succeeded. -/
def succeeded (statements : List Sql) (outcomes : List (Except (Thrown Error) Result)) : List Sql :=
  ((statements.zip outcomes).filter fun entry => entry.2.isOk).map Prod.fst

/-- The data after the effects of some statements. -/
def effects (statements : List Sql) (data : Data) : Data :=
  statements.foldl (fun data sql => match server.execute sql data with
    | .ok (_, data) => data
    | .error _ => data) data

/-- The statements up to the first one that fails, and whether there is none. -/
def upToFailure : List Sql → Data → List Sql × Bool
  | [], _ => ([], true)
  | sql :: rest, data =>
    match server.execute sql data with
    | .ok (_, data) => (sql :: (upToFailure rest data).1, (upToFailure rest data).2)
    | .error _ => ([], false)

end

section

variable {Sql Data Result Error : Type} (server : Server Sql Data Result Error)

theorem succeeded_cons (sql : Sql) (statements : List Sql) (outcome : Except (Thrown Error) Result)
    (outcomes : List (Except (Thrown Error) Result)) :
    succeeded (sql :: statements) (outcome :: outcomes) =
      if outcome.isOk then sql :: succeeded statements outcomes
        else succeeded statements outcomes := by
  simp only [succeeded, List.zip_cons_cons, List.filter_cons]
  split
  · rfl
  · rfl

/-- In an aborted transaction every statement fails. -/
theorem queries_aborted (statements : List Sql) (durable : Data) :
    succeeded statements (queries server statements ⟨durable, .aborted⟩).1 = [] ∧
      (queries server statements ⟨durable, .aborted⟩).2 = ⟨durable, .aborted⟩ := by
  induction statements with
  | nil => exact ⟨rfl, rfl⟩
  | cons sql rest ih =>
    rw [queries]
    simp only [query, Server.answer, Operation.outcome_eq]
    refine ⟨?_, ih.2⟩
    rw [succeeded_cons, if_neg (by simp [Except.isOk, Except.toBool])]
    exact ih.1

/-- The statements of a transaction succeed up to the first one that fails. -/
theorem queries_eq (statements : List Sql) (durable data : Data) :
    succeeded statements (queries server statements ⟨durable, .running data⟩).1 =
    (upToFailure server statements data).1 ∧
      (queries server statements ⟨durable, .running data⟩).2 = ⟨durable,
        if (upToFailure server statements data).2 then
          .running (effects server (upToFailure server statements data).1 data)
        else .aborted⟩ := by
  induction statements generalizing data with
  | nil => exact ⟨rfl, rfl⟩
  | cons sql rest ih =>
    rw [queries, upToFailure]
    cases hexecute : server.execute sql data with
    | ok effect =>
      obtain ⟨result, next⟩ := effect
      obtain ⟨hsucceeded, hsession⟩ := ih next
      simp only [query, Server.answer, hexecute, Operation.outcome_eq]
      refine ⟨?_, ?_⟩
      · rw [succeeded_cons, if_pos (by simp [Except.isOk, Except.toBool]), hsucceeded]
      · rw [hsession]
        simp [effects, hexecute]
    | error error =>
      obtain ⟨hsucceeded, hsession⟩ := queries_aborted server rest durable
      simp only [query, Server.answer, hexecute, Operation.outcome_eq]
      refine ⟨?_, ?_⟩
      · rw [succeeded_cons, if_neg (by simp [Except.isOk, Except.toBool]), hsucceeded]
      · rw [hsession]
        simp

/-- **When a commit that returned has committed.**  The effects of the statements that succeeded are
durable exactly if none of the statements failed, or those before the failure had no effect. -/
theorem commit_durable_iff (statements : List Sql) (data : Data)
    (hreturned : (commit server (queries server statements ⟨data, .running data⟩).2).1 = .ok ()) :
    (commit server (queries server statements ⟨data, .running data⟩).2).2.durable =
        effects server (succeeded statements (queries server statements ⟨data, .running data⟩).1)
          data ↔
      (upToFailure server statements data).2 = true ∨
      effects server (upToFailure server statements data).1 data = data := by
  obtain ⟨hsucceeded, hsession⟩ := queries_eq server statements data data
  rw [hsession] at hreturned
  rw [hsucceeded, hsession]
  cases hall : (upToFailure server statements data).2 with
  | true =>
    rw [hall, if_pos rfl] at hreturned
    simp only [commit, Server.answerCommit] at hreturned ⊢
    cases hdeferred :
      server.deferred (effects server (upToFailure server statements data).1 data) with
    | none => simp [hdeferred]
    | some error =>
      rw [hdeferred] at hreturned
      simp only [Operation.outcome_eq] at hreturned
      cases hreturned
  | false =>
    simp only [commit, Server.answerCommit, Bool.false_eq_true, if_false, false_or]
    exact eq_comm

end

/-- A server whose statements append numbers to a list, and fail for zero. -/
def appending : Server ℕ (List ℕ) Unit Unit where
  execute sql data := if sql = 0 then .error () else .ok ((), data ++ [sql])
  inFailedTransaction := ()
  deferred _ := none
  committed := ()
  rolledBack := ()

/-- A transaction without a failure. -/
theorem commit_durable_iff_appended :
    (commit appending (queries appending [1, 2] ⟨[], .running []⟩).2).1 = .ok () ∧
      (commit appending (queries appending [1, 2] ⟨[], .running []⟩).2).2.durable =
        effects appending (succeeded [1, 2] (queries appending [1, 2] ⟨[], .running []⟩).1) [] :=
  ⟨rfl, (commit_durable_iff appending [1, 2] [] rfl).2 (.inl rfl)⟩

/-- A statement succeeds, the next one fails, and the commit returns: what the first one did is
lost. -/
theorem failed_transaction_commits :
    (commit appending (queries appending [1, 0] ⟨[], .running []⟩).2).1 = .ok () ∧
      succeeded [1, 0] (queries appending [1, 0] ⟨[], .running []⟩).1 = [1] ∧
      (commit appending (queries appending [1, 0] ⟨[], .running []⟩).2).2.durable = [] ∧
      effects appending [1] [] = [1] :=
  ⟨rfl, rfl, rfl, rfl⟩

end Idhan.Database
