import Idhan.Database.Transactions
import Mathlib.Algebra.Order.Group.Multiset
import Mathlib.Data.Multiset.Bind

/-!
# Leases are conserved

A connection for transactions is in the queue of leases, or a transaction has it, or a thread is
about to put it back for a transaction.  Two balances say so: one for the connections, and one for
the threads that open or finalize a transaction.

## The balances

A thread that has taken a lease out of the queue, or is on its way to put one back, carries it.
`leases_balanced` says that the connections in the queue, those of the transactions and those that
are carried are the connections of the pool, as multisets: a lease that was lost or duplicated by
any action would break it.

The turns of a transaction are kept track of in the same way.  `turns_balanced` says that an opening
transaction has one thread that opens it, and a finalizing one has one that finalizes it; so two
threads never give one lease back.

## The owners

A last command is sent for a transaction only when its object is committed, rolled back, destroyed
or assigned to.  `owned_run` says that an active transaction is the state of one object, so it
cannot be forgotten: when the objects are gone it is finalized, and `leases_conserved` has exactly
one last command for it.
-/

namespace Idhan.Database

open List

open Threads (weigh)

/-- A cell of a list gets a new content. -/
theorem coe_set {α : Type} {list : List α} {position : ℕ} {old : α} (h : list[position]? = some old)
    (new : α) : ((list.set position new : List α) : Multiset α) + {old} = list + {new} := by
  obtain ⟨hlt, rfl⟩ := List.getElem?_eq_some_iff.1 h
  have hold := getElem_cons_eraseIdx_perm hlt
  have hnew : (new :: list.eraseIdx position).Perm (list.set position new) := by
    have hperm := getElem_cons_eraseIdx_perm (l := list.set position new) (n := position)
      (by rwa [length_set])
    rwa [getElem_set_self, eraseIdx_set_eq] at hperm
  rw [← Multiset.coe_eq_coe.2 hnew, ← Multiset.coe_eq_coe.2 hold]
  simp only [← Multiset.cons_coe, ← Multiset.singleton_add]
  abel

namespace Pool

/-- The connections that transactions have. -/
def held (pool : Pool) : Multiset Connection :=
  (pool.transactions : Multiset Transaction).bind fun transaction => transaction.connection.toList

variable {pool : Pool} {id : ℕ} {transaction : Transaction}

theorem held_put (h : pool.transactions[id]? = some transaction) (transaction' : Transaction) :
    (pool.put id transaction').held + transaction.connection.toList =
      pool.held + transaction'.connection.toList := by
  have hset := congrArg (fun s : Multiset Transaction => s.bind fun transaction =>
    (transaction.connection.toList : Multiset Connection))
    (coe_set h transaction')
  simpa only [held, put, Multiset.add_bind, Multiset.singleton_bind] using hset

end Pool

/-- The lease that an action puts back. -/
def Action.returning : Action → Multiset Connection
  | .giveBack _ connection | .release _ connection => {connection}
  | _ => 0

/-- The places of a lease outside of threads. -/
def Pool.placed (pool : Pool) : Multiset Connection :=
  pool.leases + pool.held

variable {pool pool' : Pool} {action : Action} {calls : List Action}
variable {id other : ℕ} {transaction t : Transaction} {others : Multiset Connection}
variable {allowed : Threads Pool Action → Action → Prop} {connections : List Connection}
  {threads : Threads Pool Action}

section

variable (h : pool.transactions[id]? = some transaction) (transaction' : Transaction)
include h

/-- A transaction that keeps its connection. -/
theorem placed_put_of_eq (hsame : transaction'.connection = transaction.connection) :
    (pool.put id transaction').placed = pool.placed := by
  have hheld := Pool.held_put h transaction'
  rw [hsame] at hheld
  rw [Pool.placed, add_right_cancel hheld]
  rfl

/-- A transaction whose connection is moved out. -/
theorem placed_put_none
    (hnone : transaction'.connection = none) :
    (pool.put id transaction').placed + transaction.connection.toList = pool.placed := by
  have hheld := Pool.held_put h transaction'
  rw [hnone, Option.toList_none, Multiset.coe_nil, add_zero] at hheld
  rw [Pool.placed, add_assoc, hheld]
  rfl

end

theorem weigh_returning_map (connections : List Connection) {f : Connection → Action}
    (hf : ∀ connection, (f connection).returning = {connection}) :
    weigh Action.returning (connections.map f) = connections := by
  induction connections with
  | nil => rfl
  | cons connection connections ih =>
    rw [map_cons, Threads.weigh_cons, ih, hf, Multiset.singleton_add, Multiset.cons_coe]

/-- Ending a transaction moves no lease. -/
theorem placed_finish (pool : Pool) (command : Ending) (state : Option ℕ) :
    (pool.finish command state).1.connections = pool.connections ∧
      (pool.finish command state).1.placed + weigh Action.returning (pool.finish command state).2 =
        pool.placed + 0 := by
  rcases pool.finish_cases command state with heq | ⟨id, transaction, hget, _, heq⟩
  · rw [heq]
    exact ⟨rfl, rfl⟩
  · rw [heq]
    exact ⟨rfl, congrArg (· + 0) (placed_put_of_eq hget { transaction with
      phase := .finalizing } rfl)⟩

/-- A lease that is put back finds room. -/
theorem returnLease_of_room (fault : Fault) {connection : Connection}
    (h : (pool.connections : Multiset Connection) = pool.placed + (others + {connection})) :
    pool.returnLease fault connection = { pool with leases := pool.leases ++ [connection] } := by
  refine if_pos ?_
  have hcard := congrArg Multiset.card h
  simp only [Pool.placed, Multiset.card_add, Multiset.coe_card, Multiset.card_singleton] at hcard
  omega

theorem placed_returnLease (pool : Pool) (connection : Connection) :
    ({ pool with leases := pool.leases ++ [connection] } : Pool).placed =
      pool.placed + {connection} := by
  simp only [Pool.placed, Pool.held, ← Multiset.coe_add, Multiset.coe_singleton]
  abel

theorem returning_balanced
    (hbalance : (pool.connections : Multiset Connection) =
      pool.placed + (others + action.returning)) (h : Act action pool pool' calls) :
    pool'.connections = pool.connections ∧ pool'.placed + weigh Action.returning calls =
      pool.placed + action.returning := by
  cases h with
  | @transaction _ connection leases hleases =>
    refine ⟨rfl, ?_⟩
    simp only [Pool.placed, Pool.held, Pool.opened, hleases, Threads.weigh_cons, Threads.weigh_nil,
      Action.returning]
    rw [← Multiset.coe_add, Multiset.add_bind, Multiset.coe_singleton, Multiset.singleton_bind,
      ← Multiset.cons_coe, ← Multiset.singleton_add]
    simp only [Option.toList_some, Multiset.coe_singleton]
    abel
  | begin => exact ⟨rfl, rfl⟩
  | begun hget => exact ⟨rfl, congrArg (· + 0) (placed_put_of_eq hget _ rfl)⟩
  | refused hget =>
    rw [weigh_returning_map _ fun _ => rfl]
    exact ⟨rfl, (placed_put_none hget _ rfl).trans (add_zero _).symm⟩
  | giveBack =>
    rw [returnLease_of_room .notReturned hbalance]
    exact ⟨rfl, (add_zero _).trans (placed_returnLease pool _)⟩
  | release =>
    rw [returnLease_of_room .returnedTwice hbalance]
    exact ⟨rfl, (add_zero _).trans (placed_returnLease pool _)⟩
  | commit | rollback | destroy | assign => exact placed_finish pool _ _
  | assignSelf | move => exact ⟨rfl, rfl⟩
  | finalize =>
    unfold Pool.sendLast
    split
    · exact ⟨rfl, rfl⟩
    · exact ⟨rfl, rfl⟩
  | releaseLease hget =>
    unfold Pool.releaseLease
    split
    · exact ⟨rfl, rfl⟩
    · rw [weigh_returning_map _ fun _ => rfl]
      exact ⟨rfl, (placed_put_none hget _ rfl).trans (add_zero _).symm⟩
  | @query _ object =>
    obtain ⟨tasks, heq⟩ := pool.exists_query_eq (pool.stateOf object)
    rw [heq]
    exact ⟨rfl, rfl⟩
  | start =>
    unfold Pool.startTask
    split
    · exact ⟨rfl, rfl⟩
    · exact ⟨rfl, rfl⟩
  | @enqueue _ place task =>
    rcases pool.enqueueTask_cases place task with ⟨_, heq⟩ | ⟨_, _, _, heq⟩
    · rw [heq]
      exact ⟨rfl, rfl⟩
    · rw [heq]
      exact ⟨rfl, rfl⟩
  | abandon => exact ⟨rfl, rfl⟩

/-- **The connections in all places are the connections of the pool.** -/
theorem leases_balanced (hrun : Run allowed connections threads) :
    threads.shared.connections = connections ∧
      (threads.shared.connections : Multiset Connection) =
        threads.shared.placed + threads.load Action.returning := by
  refine hrun.balanced_with (fun pool => pool.connections = connections)
    (fun pool => pool.connections) Pool.placed
    (fun action pool pool' calls others hsame hbalance hact => ?_) (fun action hentry => ?_) rfl ?_
  · obtain ⟨hconnections, hplaced⟩ := returning_balanced hbalance hact
    exact ⟨hconnections.trans hsame, 0, by rw [hconnections, add_zero], by rw [hplaced, add_zero]⟩
  · cases action <;> first | rfl | exact hentry.elim
  · simp [Pool.placed, Pool.held, Pool.new, Threads.load, Threads.actions]

/-! ## Turns -/

/-- The phase of a transaction, if there is one. -/
def Pool.phaseOf (pool : Pool) (id : ℕ) : Option TransactionPhase :=
  pool.transactions[id]?.map Transaction.phase

/-- The last commands of a transaction. -/
def lastCommands (id : ℕ) (log : List Entry) : ℕ :=
  log.countP fun entry => entry.transaction = id && entry.command.ends

/-- The turns a transaction gives to threads: to open it, to finalize it, and to send the last
command. -/
def turnsGiven : Option TransactionPhase → ℕ × ℕ × ℕ
  | none => (0, 0, 0)
  | some .opening | some .refused | some .active => (1, 0, 0)
  | some .finalizing | some .completed => (1, 1, 1)

/-- The turns that are over, apart from the last command. -/
def turnsOver : Option TransactionPhase → ℕ × ℕ
  | none | some .opening => (0, 0)
  | some .refused | some .active | some .finalizing => (1, 0)
  | some .completed => (1, 1)

/-- The turns that are over. -/
def Pool.turnsTaken (id : ℕ) (pool : Pool) : ℕ × ℕ × ℕ :=
  ((turnsOver (pool.phaseOf id)).1, (turnsOver (pool.phaseOf id)).2, lastCommands id pool.log)

/-- The turn that an action has. -/
def Action.turn (id : ℕ) : Action → ℕ × ℕ × ℕ
  | .begin other | .begun other => if other = id then (1, 0, 0) else 0
  | .finalize other _ => if other = id then (0, 1, 1) else 0
  | .releaseLease other => if other = id then (0, 1, 0) else 0
  | _ => 0

/-- A transaction has its connection until it is over. -/
def Transaction.Kept (transaction : Transaction) : Prop :=
  transaction.connection = if transaction.phase.holds then some transaction.lease else none

theorem Transaction.Kept.connection_eq (h : transaction.Kept)
    (hphase : transaction.phase.holds = true) :
    transaction.connection = some transaction.lease := by
  rwa [Transaction.Kept, if_pos hphase] at h

/-- One transaction of a pool, if there is one, has its connection until it is over. -/
def Pool.KeptAt (id : ℕ) (pool : Pool) : Prop :=
  ∀ transaction, pool.transactions[id]? = some transaction → transaction.Kept

theorem keptAt_put_self (h : t.Kept) : (pool.put id t).KeptAt id := by
  intro other hget
  have hmem : (some other : Option Transaction) = some t := by
    rw [Pool.put, getElem?_set] at hget
    simp only [if_true] at hget
    split at hget
    · exact hget.symm
    · cases hget
  rw [Option.some.inj hmem]
  exact h

theorem keptAt_put_of_ne (hne : other ≠ id) (h : pool.KeptAt id) (transaction' : Transaction) :
    (pool.put other transaction').KeptAt id := by
  intro transaction hget
  rw [Pool.put, getElem?_set_ne hne] at hget
  exact h transaction hget

theorem phaseOf_eq (h : pool.transactions[id]? = some transaction) :
    pool.phaseOf id = some transaction.phase := by
  rw [Pool.phaseOf, h, Option.map_some]

theorem phaseOf_put_self (h : pool.transactions[id]? = some transaction)
    (transaction' : Transaction) :
    (pool.put id transaction').phaseOf id = some transaction'.phase := by
  obtain ⟨hlt, _⟩ := List.getElem?_eq_some_iff.1 h
  rw [Pool.phaseOf, Pool.put, List.getElem?_set_self hlt, Option.map_some]

theorem phaseOf_put_of_ne (h : other ≠ id) (transaction' : Transaction) :
    (pool.put other transaction').phaseOf id = pool.phaseOf id := by
  rw [Pool.phaseOf, Pool.put, getElem?_set_ne h, Pool.phaseOf]

/-- The last cell of a list, and the others. -/
theorem getElem?_concat {α : Type} (list : List α) (last : α) (place : ℕ) :
    (list ++ [last])[place]? = if place = list.length then some last else list[place]? := by
  split
  · next heq => rw [heq, getElem?_concat_length]
  · next hne =>
    rw [getElem?_append]
    split
    · rfl
    · next hge => rw [getElem?_eq_none (by simp; omega), getElem?_eq_none (by omega)]

theorem phaseOf_opened (connection : Connection) (leases : List Connection) (id : ℕ) :
    (pool.opened connection leases).phaseOf id =
      if id = pool.transactions.length then some .opening else pool.phaseOf id := by
  rw [Pool.phaseOf, Pool.opened, getElem?_concat]
  split
  · rfl
  · rfl

theorem phaseOf_of_eq_length (h : id = pool.transactions.length) : pool.phaseOf id = none := by
  rw [Pool.phaseOf, h, getElem?_length, Option.map_none]

theorem lastCommands_append (id : ℕ) (log : List Entry) (entry : Entry) :
    lastCommands id (log ++ [entry]) =
      lastCommands id log + if entry.transaction = id ∧ entry.command.ends = true then 1
        else 0 := by
  simp [lastCommands, countP_append, countP_singleton]

/-- What a step has to do with the turns of one transaction. -/
def Turned (id : ℕ) (pool : Pool) (action : Action) (pool' : Pool) (calls : List Action) : Prop :=
  ∃ added, turnsGiven (pool'.phaseOf id) = turnsGiven (pool.phaseOf id) + added ∧
    pool'.turnsTaken id + weigh (Action.turn id) calls = pool.turnsTaken id + action.turn id + added

/-- A step that has nothing to do with the transaction. -/
theorem Turned.of_eq (hphase : pool'.phaseOf id = pool.phaseOf id)
    (hlog : lastCommands id pool'.log = lastCommands id pool.log)
    (hcalls : weigh (Action.turn id) calls = action.turn id) :
    Turned id pool action pool' calls := by
  refine ⟨0, by rw [hphase, add_zero], ?_⟩
  rw [Pool.turnsTaken, Pool.turnsTaken, hphase, hlog, hcalls, add_zero]

/-- A step of another transaction. -/
theorem turned_put_of_ne (hne : other ≠ id) (transaction' : Transaction)
    (hcalls : weigh (Action.turn id) calls = action.turn id) :
    Turned id pool action (pool.put other transaction') calls :=
  .of_eq (phaseOf_put_of_ne hne transaction') rfl hcalls

/-- Among the turns that are given and not over are these. -/
def Pool.Owes (id : ℕ) (pool : Pool) (turns : ℕ × ℕ × ℕ) : Prop :=
  ∃ others, turnsGiven (pool.phaseOf id) = pool.turnsTaken id + (others + turns)

section

variable (hget : pool.transactions[id]? = some transaction)
include hget

/-- The thread that opens a transaction finds it so. -/
theorem opening_of_turn (howes : pool.Owes id (action.turn id)) (hturn : (action.turn id).1 = 1) :
    transaction.phase = .opening := by
  obtain ⟨others, hbalance⟩ := howes
  rw [Pool.turnsTaken, phaseOf_eq hget] at hbalance
  have hfirst := congrArg Prod.fst hbalance
  simp only [Prod.fst_add, hturn] at hfirst
  cases hold : transaction.phase with
  | opening => rfl
  | _ => simp [hold, turnsGiven, turnsOver] at hfirst

/-- A turn to open the transaction is over. -/
theorem turned_opened (howes : pool.Owes id ((Action.begun id).turn id))
    (hphase : t.phase = .active ∨ t.phase = .refused) (hcalls : weigh (Action.turn id) calls = 0) :
    transaction.phase = .opening ∧ Turned id pool (.begun id) (pool.put id t) calls := by
  have hopening := opening_of_turn hget howes (by simp [Action.turn])
  refine ⟨hopening, 0, ?_, ?_⟩
  · rw [phaseOf_put_self hget, phaseOf_eq hget, hopening]
    rcases hphase with hphase | hphase <;> rw [hphase] <;> rfl
  · rw [hcalls, Pool.turnsTaken, Pool.turnsTaken, phaseOf_put_self hget, phaseOf_eq hget, hopening]
    rcases hphase with hphase | hphase <;> rw [hphase] <;> simp [turnsOver, Action.turn, Pool.put]

/-- The thread that finalizes a transaction finds it so. -/
theorem finalizing_of_turn (howes : pool.Owes id (action.turn id))
    (hturn : (action.turn id).2.1 = 1) : transaction.phase = .finalizing := by
  obtain ⟨others, hbalance⟩ := howes
  rw [Pool.turnsTaken, phaseOf_eq hget] at hbalance
  have hsecond := congrArg (fun turns => turns.2.1) hbalance
  simp only [Prod.snd_add, Prod.fst_add, hturn] at hsecond
  cases hold : transaction.phase with
  | finalizing => rfl
  | _ => simp [hold, turnsGiven, turnsOver] at hsecond

end

section

variable (hkept : pool.KeptAt id)
include hkept

theorem turned_finish (command : Ending) (state : Option ℕ) (action : Action)
    (haction : action.turn id = 0) : (pool.finish command state).1.KeptAt id ∧
    Turned id pool action (pool.finish command state).1 (pool.finish command state).2 := by
  rcases pool.finish_cases command state with heq | ⟨other, transaction, hget, hactive, heq⟩
  · rw [heq]
    exact ⟨hkept, .of_eq rfl rfl haction.symm⟩
  · rw [heq]
    by_cases hne : other = id
    · subst hne
      have hhas := (hkept transaction hget).connection_eq (by rw [hactive]; rfl)
      refine ⟨keptAt_put_self hhas, (0, 1, 1), ?_, ?_⟩
      · rw [phaseOf_put_self hget, phaseOf_eq hget, hactive]
        rfl
      · rw [Pool.turnsTaken, Pool.turnsTaken, phaseOf_put_self hget, phaseOf_eq hget, hactive,
          haction]
        simp [turnsOver, Action.turn, Pool.put]
    · exact ⟨keptAt_put_of_ne hne hkept _,
        turned_put_of_ne hne _ (by rw [haction]; simp [Action.turn, hne])⟩

theorem turned_finalize {command : Ending} (hget : pool.transactions[other]? = some transaction)
    (howes : pool.Owes id ((Action.finalize other command).turn id)) :
    (pool.sendLast other command transaction).1.KeptAt id ∧
      Turned id pool (.finalize other command) (pool.sendLast other command transaction).1
        (pool.sendLast other command transaction).2 := by
  by_cases hne : other = id
  · subst hne
    have hfinalizing := finalizing_of_turn hget howes (by simp [Action.turn])
    have hhas := (hkept transaction hget).connection_eq (by rw [hfinalizing]; rfl)
    simp only [Pool.sendLast, hhas]
    refine ⟨hkept, 0, (add_zero _).symm, ?_⟩
    simp only [Pool.turnsTaken, Pool.enqueue, lastCommands_append, Command.ends, Action.turn,
      Threads.weigh_cons, Threads.weigh_nil, Pool.phaseOf]
    simp [add_comm]
  · unfold Pool.sendLast
    split
    · refine ⟨hkept, .of_eq rfl ?_ (by simp [Action.turn, hne])⟩
      simp [Pool.enqueue, lastCommands_append, hne]
    · exact ⟨hkept, .of_eq rfl rfl (by simp [Action.turn, hne])⟩

theorem turned_releaseLease (hget : pool.transactions[other]? = some transaction)
    (howes : pool.Owes id ((Action.releaseLease other).turn id)) :
    (pool.releaseLease other transaction).1.KeptAt id ∧
      Turned id pool (.releaseLease other) (pool.releaseLease other transaction).1
        (pool.releaseLease other transaction).2 := by
  have hcalls := Threads.weigh_map_eq_zero (Action.turn id) (f := Action.release other)
    transaction.connection.toList fun _ => rfl
  by_cases hne : other = id
  · subst hne
    have hfinalizing := finalizing_of_turn hget howes (by simp [Action.turn])
    rw [Pool.releaseLease, if_neg (by rw [hfinalizing]; decide)]
    refine ⟨keptAt_put_self rfl, 0, ?_, ?_⟩
    · rw [phaseOf_put_self hget, phaseOf_eq hget, hfinalizing]
      rfl
    · rw [hcalls, Pool.turnsTaken, Pool.turnsTaken, phaseOf_put_self hget, phaseOf_eq hget,
        hfinalizing]
      simp [turnsOver, Action.turn, Pool.put]
  · unfold Pool.releaseLease
    split
    · exact ⟨hkept, .of_eq rfl rfl (by simp [Action.turn, hne])⟩
    · refine ⟨keptAt_put_of_ne hne hkept _, turned_put_of_ne hne _ ?_⟩
      rw [hcalls]
      simp [Action.turn, hne]

/-- A new transaction is to be opened. -/
theorem turned_transaction (connection : Connection) (leases : List Connection) :
    (pool.opened connection leases).KeptAt id ∧
      Turned id pool .transaction (pool.opened connection leases)
        [.begin pool.transactions.length] := by
  constructor
  · intro transaction hget
    rw [Pool.opened, getElem?_concat] at hget
    split at hget
    · cases hget
      rfl
    · exact hkept transaction hget
  · by_cases heq : id = pool.transactions.length
    · refine ⟨(1, 0, 0), ?_, ?_⟩
      · rw [phaseOf_of_eq_length heq, phaseOf_opened, if_pos heq]
        rfl
      · rw [Pool.turnsTaken, Pool.turnsTaken, phaseOf_of_eq_length heq, phaseOf_opened, if_pos heq]
        simp [turnsOver, Action.turn, heq, Pool.opened]
    · refine .of_eq ?_ rfl ?_
      · rw [phaseOf_opened, if_neg heq]
      · simp [Action.turn, Ne.symm heq]

theorem turned_act (howes : pool.Owes id (action.turn id)) (h : Act action pool pool' calls) :
    pool'.KeptAt id ∧ Turned id pool action pool' calls := by
  cases h with
  | transaction hleases => exact turned_transaction hkept _ _
  | @begin _ other transaction hget =>
    refine ⟨hkept, .of_eq rfl ?_ ?_⟩
    · simp [Pool.enqueue, lastCommands_append, Command.ends]
    · simp [Action.turn]
  | @begun _ other transaction hget =>
    by_cases hne : other = id
    · subst hne
      obtain ⟨hopening, hturned⟩ := turned_opened (t := { transaction with phase := .active }) hget
        howes (.inl rfl) (Threads.weigh_nil _)
      have hhas := (hkept transaction hget).connection_eq (by rw [hopening]; rfl)
      exact ⟨keptAt_put_self (t := { transaction with phase := .active }) hhas, hturned⟩
    · exact ⟨keptAt_put_of_ne hne hkept _, turned_put_of_ne hne _ (by simp [Action.turn, hne])⟩
  | @refused _ other transaction hget =>
    have hcalls := Threads.weigh_map_eq_zero (Action.turn id) (f := Action.giveBack other)
      transaction.connection.toList fun _ => rfl
    by_cases hne : other = id
    · subst hne
      exact ⟨keptAt_put_self rfl, (turned_opened hget howes (.inr rfl) hcalls).2⟩
    · refine ⟨keptAt_put_of_ne hne hkept _, turned_put_of_ne hne _ ?_⟩
      rw [hcalls]
      simp [Action.turn, hne]
  | giveBack | release =>
    unfold Pool.returnLease
    split
    · exact ⟨hkept, .of_eq rfl rfl rfl⟩
    · exact ⟨hkept, .of_eq rfl rfl rfl⟩
  | commit | rollback | destroy | assign => exact turned_finish hkept _ _ _ rfl
  | assignSelf | move | abandon => exact ⟨hkept, .of_eq rfl rfl rfl⟩
  | finalize hget => exact turned_finalize hkept hget howes
  | releaseLease hget => exact turned_releaseLease hkept hget howes
  | @query _ object =>
    obtain ⟨_, heq⟩ := pool.exists_query_eq (pool.stateOf object)
    rw [heq]
    exact ⟨hkept, .of_eq rfl rfl rfl⟩
  | start =>
    unfold Pool.startTask
    split
    · exact ⟨hkept, .of_eq rfl rfl rfl⟩
    · exact ⟨hkept, .of_eq rfl rfl rfl⟩
  | @enqueue _ place task =>
    rcases pool.enqueueTask_cases place task with ⟨_, heq⟩ | ⟨_, _, _, heq⟩
    · rw [heq]
      exact ⟨hkept, .of_eq rfl rfl rfl⟩
    · rw [heq]
      refine ⟨hkept, .of_eq rfl ?_ rfl⟩
      simp [Pool.putTask, Pool.enqueue, lastCommands_append, Command.ends]

end

/-- **The turns of a transaction**: whoever opens or finalizes it is the only one. -/
theorem turns_balanced (hrun : Run allowed connections threads) (id : ℕ) :
    threads.shared.KeptAt id ∧
      turnsGiven (threads.shared.phaseOf id) =
        threads.shared.turnsTaken id + threads.load (Action.turn id) := by
  refine hrun.balanced_with (Pool.KeptAt id) (fun pool => turnsGiven (pool.phaseOf id))
    (Pool.turnsTaken id)
    (fun action pool pool' calls others hkept hbalance hact => turned_act hkept ⟨others, hbalance⟩
      hact) (fun action hentry => ?_) ?_ ?_
  · cases action <;> first | rfl | exact hentry.elim
  · intro transaction hget
    simp [Pool.new] at hget
  · rfl

/-! ## No fault -/

/-- The tasks remember the connections of their transactions, and nothing went wrong with a
lease. -/
structure Pool.Orderly (pool : Pool) : Prop where
  tasks : ∀ task ∈ pool.tasks, ∃ transaction, pool.transactions[task.transaction]? =
    some transaction ∧
    task.connection = some transaction.lease
  faults : pool.faults = []

section

variable (h : pool.Orderly)
include h

theorem Pool.Orderly.put (hget : pool.transactions[id]? = some transaction)
    (hlease : t.lease = transaction.lease) : (pool.put id t).Orderly := by
  refine ⟨fun task hmem => ?_, h.faults⟩
  obtain ⟨other, hother, hconnection⟩ := h.tasks task hmem
  by_cases heq : task.transaction = id
  · obtain ⟨hlt, _⟩ := List.getElem?_eq_some_iff.1 hget
    rw [heq, hget] at hother
    cases hother
    refine ⟨t, ?_, by rw [hlease]; exact hconnection⟩
    rw [Pool.put, heq, List.getElem?_set_self hlt]
  · refine ⟨other, ?_, hconnection⟩
    rw [Pool.put, getElem?_set_ne (Ne.symm heq)]
    exact hother

theorem Pool.Orderly.finish (command : Ending) (state : Option ℕ) :
    (pool.finish command state).1.Orderly := by
  rcases pool.finish_cases command state with heq | ⟨id, transaction, hget, _, heq⟩
  · rw [heq]
    exact h
  · rw [heq]
    exact h.put hget rfl

theorem Pool.Orderly.query (hkept : ∀ id, pool.KeptAt id) (state : Option ℕ) :
    (pool.query state).Orderly := by
  unfold Pool.query
  split
  · exact h
  · split
    · exact h
    · next transaction hget =>
      split
      · next hactive =>
        refine ⟨fun task hmem => ?_, h.faults⟩
        rcases mem_append.1 hmem with hmem | hmem
        · exact h.tasks task hmem
        · obtain rfl := mem_singleton.1 hmem
          exact ⟨transaction, hget, (hkept _ transaction hget).connection_eq (by rw [hactive]; rfl)⟩
      · exact h

/-- The operation of a task has nothing to do with its connection. -/
theorem Pool.Orderly.putTask {place : ℕ} {task : Task} (hget : pool.tasks[place]? = some task)
    (operation : Operation Unit Unit) : (pool.putTask place task operation).Orderly := by
  refine ⟨fun other hmem => ?_, h.faults⟩
  rcases mem_or_eq_of_mem_set hmem with hmem | rfl
  · exact h.tasks other hmem
  · exact h.tasks task (mem_of_getElem? hget)

theorem orderly_act (hkept : ∀ id, pool.KeptAt id)
    (hleases : (pool.connections : Multiset Connection) = pool.placed + (others + action.returning))
    (howes : ∀ id, pool.Owes id (action.turn id)) (hact : Act action pool pool' calls) :
    pool'.Orderly := by
  cases hact with
  | transaction =>
    refine ⟨fun task hmem => ?_, h.faults⟩
    obtain ⟨transaction, hget, hconnection⟩ := h.tasks task hmem
    obtain ⟨hlt, _⟩ := List.getElem?_eq_some_iff.1 hget
    exact ⟨transaction, by rw [Pool.opened, List.getElem?_append_left hlt]; exact hget, hconnection⟩
  | begin | assignSelf | move => exact ⟨h.tasks, h.faults⟩
  | @begun _ id transaction hget =>
    have hput := h.put hget (t := { transaction with phase := .active }) rfl
    exact ⟨hput.tasks, hput.faults⟩
  | refused hget => exact h.put hget rfl
  | giveBack | release =>
    rw [returnLease_of_room _ hleases]
    exact ⟨h.tasks, h.faults⟩
  | commit | rollback => exact h.finish _ _
  | destroy | assign => exact ⟨(h.finish .rollback _).tasks, (h.finish .rollback _).faults⟩
  | @finalize _ id command transaction hget =>
    have hfinalizing := finalizing_of_turn hget (howes id) (by simp [Action.turn])
    have hhas := (hkept id transaction hget).connection_eq (by rw [hfinalizing]; rfl)
    simp only [Pool.sendLast, hhas]
    exact ⟨h.tasks, h.faults⟩
  | releaseLease hget =>
    unfold Pool.releaseLease
    split
    · exact h
    · exact h.put hget rfl
  | query => exact h.query hkept _
  | start hget | abandon hget => exact h.putTask hget _
  | @enqueue _ place task hget =>
    obtain ⟨transaction, _, hconnection⟩ := h.tasks task (mem_of_getElem? hget)
    simp only [Pool.enqueueTask, hconnection]
    split
    · next operation _ => exact ⟨(h.putTask hget operation).tasks, h.faults⟩
    · exact h

end

/-- What a thread is about to do is owed. -/
theorem owes_of_run {before after : List (List Action)} {rest : List Action}
    (hrun : Run allowed connections ⟨pool, before ++ (action :: rest) :: after⟩) (id : ℕ) :
    pool.Owes id (action.turn id) := by
  obtain ⟨others, hload, _⟩ :=
    Threads.load_run (Action.turn id) pool pool before after action rest []
  exact ⟨others, hload ▸ (turns_balanced hrun id).2⟩

theorem orderly_run (hrun : Run allowed connections threads) : threads.shared.Orderly := by
  refine hrun.shared_of_run (fun before after action rest pool pool' calls hrun _ hact h => ?_)
    ⟨?_, rfl⟩
  · obtain ⟨others, hload, _⟩ :=
      Threads.load_run Action.returning pool pool' before after action rest calls
    have hleases := (leases_balanced hrun).2
    rw [hload] at hleases
    exact orderly_act h (fun id => (turns_balanced hrun id).1) hleases (owes_of_run hrun) hact
  · intro task hmem
    cases hmem

/-! ## Owners -/

/-- How many objects may have a transaction as their state: none before it is active, then one until
its last command is due. -/
def Owners (count : ℕ) : Option TransactionPhase → Prop
  | none | some .opening | some .refused => count = 0
  | some .active => count = 1
  | some .finalizing | some .completed => count ≤ 1

/-- The objects that have the transaction. -/
def Pool.owners (id : ℕ) (pool : Pool) : ℕ :=
  pool.objects.countP fun state => state = some id

theorem Owners.le_one {count : ℕ} {phase : Option TransactionPhase} (h : Owners count phase) :
    count ≤ 1 := by
  unfold Owners at h
  split at h <;> omega

/-- An object may lose the transaction, if the transaction is not active afterwards. -/
theorem Owners.lose {count count' : ℕ} {phase : Option TransactionPhase} (h : Owners count phase)
    (hcount : count' + 1 = count) :
    Owners count' (if phase = some .active then some .finalizing else phase) := by
  split
  · next hactive =>
    subst hactive
    have hone : count = 1 := h
    exact Nat.le_of_lt_succ (by omega)
  · unfold Owners at h ⊢
    split at h <;> simp_all <;> omega

theorem phaseOf_finish (command : Ending) (state : Option ℕ) (id : ℕ) :
    (pool.finish command state).1.phaseOf id =
      if state = some id ∧ pool.phaseOf id = some .active then some .finalizing
        else pool.phaseOf id := by
  unfold Pool.finish
  split
  · simp
  · next place =>
    split
    · next hget =>
      rw [if_neg]
      rintro ⟨hplace, hactive⟩
      cases hplace
      simp [Pool.phaseOf, hget] at hactive
    · next transaction hget =>
      by_cases heq : place = id
      · subst heq
        rw [phaseOf_eq hget]
        by_cases hactive : transaction.phase = .active
        · rw [if_pos hactive, if_pos ⟨rfl, congrArg some hactive⟩, phaseOf_put_self hget]
        · rw [if_neg hactive, if_neg fun hand => hactive (Option.some.inj hand.2), phaseOf_eq hget]
      · have hother : ¬(some place = some id ∧ pool.phaseOf id = some .active) :=
          fun hand => heq (Option.some.inj hand.1)
        rw [if_neg hother]
        split
        · exact phaseOf_put_of_ne heq _
        · rfl

theorem objects_finish (command : Ending) (state : Option ℕ) :
    (pool.finish command state).1.objects = pool.objects := by
  rcases pool.finish_cases command state with heq | ⟨_, _, _, _, heq⟩
  · rw [heq]
  · rw [heq]
    rfl

/-- An object gets a new state, and the others keep theirs. -/
theorem stateOf_set_of_ne {object other : ℕ} (h : object ≠ other) (state : Option ℕ) :
    ({ pool with objects := pool.objects.set object state } : Pool).stateOf other =
      pool.stateOf other := by
  rw [Pool.stateOf, List.getElem?_set_ne h, Pool.stateOf]

theorem owners_set (pool : Pool) (object : ℕ) (state : Option ℕ)
    (h : object < pool.objects.length ∨ state = none) (id : ℕ) :
    (pool.objects.set object state).countP (fun state => state = some id) +
    (if pool.stateOf object = some id then 1 else 0) =
      pool.owners id + if state = some id then 1 else 0 := by
  by_cases hlt : object < pool.objects.length
  · have hset := congrArg (Multiset.countP (· = some id))
      (coe_set (List.getElem?_eq_getElem hlt) state)
    simpa [Pool.owners, Pool.stateOf, hlt, ← Multiset.coe_singleton, countP_singleton,
      -Multiset.coe_add] using hset
  · obtain rfl := h.resolve_left hlt
    rw [List.set_eq_of_length_le (by omega)]
    simp [Pool.owners, Pool.stateOf, getElem?_eq_none (Nat.le_of_not_lt hlt)]

/-- The state of an object is moved into another one, -/
theorem owners_assign {object other : ℕ} (hne : object ≠ other) (hlt : object < pool.objects.length)
    (id : ℕ) :
    ((pool.objects.set object (pool.stateOf other)).set other none).countP
        (fun state => state = some id) + (if pool.stateOf object = some id then 1 else 0) =
      pool.owners id := by
  have hfirst := owners_set pool object (pool.stateOf other) (.inl hlt) id
  have hsecond := owners_set { pool with objects := pool.objects.set object (pool.stateOf other) }
    other none (.inr rfl) id
  rw [stateOf_set_of_ne hne] at hsecond
  simp only [Pool.owners, reduceCtorEq, if_false] at hfirst hsecond ⊢
  omega

/-- or into a new one. -/
theorem owners_move (object id : ℕ) :
    (pool.objects.set object none ++ [pool.stateOf object]).countP (fun state => state = some id) =
      pool.owners id := by
  have hset := owners_set pool object none (.inr rfl) id
  simp only [countP_append, countP_singleton, decide_eq_true_eq]
  simpa using hset

/-- What becomes of the owners when an object gives its state up and the transaction is rolled
back. -/
theorem owned_of_lost {object count : ℕ} (h : Owners (pool.owners id) (pool.phaseOf id))
    (hcount : count + (if pool.stateOf object = some id then 1 else 0) = pool.owners id) :
    Owners count ((pool.finish .rollback (pool.stateOf object)).1.phaseOf id) := by
  rw [phaseOf_finish]
  by_cases hstate : pool.stateOf object = some id
  · rw [if_pos hstate] at hcount
    simpa only [hstate, true_and] using h.lose hcount
  · rw [if_neg hstate, add_zero] at hcount
    rwa [if_neg (fun hand => hstate hand.1), hcount]

/-- A transaction keeps its owners until it is finalized. -/
theorem owned_of_finish {command : Ending} {state : Option ℕ}
    (h : Owners (pool.owners id) (pool.phaseOf id)) :
    Owners (pool.owners id) ((pool.finish command state).1.phaseOf id) := by
  rw [phaseOf_finish]
  split
  · exact h.le_one
  · exact h

/-- A transaction gets a new phase, for which it has the owners. -/
theorem owned_put (hget : pool.transactions[other]? = some transaction)
    (h : Owners (pool.owners id) (pool.phaseOf id))
    (hself : other = id → Owners (pool.owners id) (some t.phase)) :
    Owners (pool.owners id) ((pool.put other t).phaseOf id) := by
  by_cases heq : other = id
  · subst heq
    rw [phaseOf_put_self hget]
    exact hself rfl
  · rw [phaseOf_put_of_ne heq]
    exact h

/-- A transaction that is being opened has no owner. -/
theorem owners_of_turn (hget : pool.transactions[id]? = some transaction)
    (howes : pool.Owes id (action.turn id)) (hturn : (action.turn id).1 = 1)
    (h : Owners (pool.owners id) (pool.phaseOf id)) : pool.owners id = 0 := by
  rw [phaseOf_eq hget, opening_of_turn hget howes hturn] at h
  exact h

/-- `BEGIN` is answered, and the transaction becomes the state of a new object. -/
theorem owned_begun (hget : pool.transactions[other]? = some transaction)
    (howes : pool.Owes id ((Action.begun other).turn id))
    (h : Owners (pool.owners id) (pool.phaseOf id)) :
    Owners ((pool.objects ++ [some other]).countP fun state => state = some id)
      ((pool.put other { transaction with phase := .active }).phaseOf id) := by
  have hcount : (pool.objects ++ [some other]).countP (fun state => state = some id) =
      pool.owners id + if other = id then 1 else 0 := by
    simp [Pool.owners, countP_singleton]
  rw [hcount]
  by_cases heq : other = id
  · subst heq
    rw [owners_of_turn hget howes (by simp [Action.turn]) h, phaseOf_put_self hget, if_pos rfl]
    rfl
  · rw [if_neg heq, phaseOf_put_of_ne heq]
    exact h

theorem owned_act (howes : pool.Owes id (action.turn id))
    (h : Owners (pool.owners id) (pool.phaseOf id)) (hact : Act action pool pool' calls) :
    Owners (pool'.owners id) (pool'.phaseOf id) := by
  cases hact with
  | transaction =>
    rw [phaseOf_opened]
    split
    · next heq =>
      rw [phaseOf_of_eq_length heq] at h
      exact h
    · exact h
  | begun hget => exact owned_begun hget howes h
  | refused hget =>
    refine owned_put hget h ?_
    rintro rfl
    exact owners_of_turn hget howes (by simp [Action.turn]) h
  | giveBack | release =>
    unfold Pool.returnLease
    split
    · exact h
    · exact h
  | commit | rollback =>
    rw [Pool.owners, objects_finish]
    exact owned_of_finish h
  | destroy =>
    exact owned_of_lost h (owners_set pool _ none (.inr rfl) id)
  | assign hne hlt => exact owned_of_lost h (owners_assign hne hlt id)
  | assignSelf => exact h
  | @move _ object =>
    rw [Pool.owners, owners_move]
    exact h
  | begin => exact h
  | finalize =>
    unfold Pool.sendLast
    split
    · exact h
    · exact h
  | releaseLease hget =>
    unfold Pool.releaseLease
    split
    · exact h
    · exact owned_put hget h fun _ => h.le_one
  | @query _ object =>
    obtain ⟨_, heq⟩ := pool.exists_query_eq (pool.stateOf object)
    rw [heq]
    exact h
  | start | abandon => exact h
  | @enqueue _ place task =>
    rcases pool.enqueueTask_cases place task with ⟨_, heq⟩ | ⟨_, _, _, heq⟩
    · rw [heq]
      exact h
    · rw [heq]
      exact h

/-- **An active transaction is the state of one object.** -/
theorem owned_run (hrun : Run allowed connections threads) (id : ℕ) :
    Owners (threads.shared.owners id) (threads.shared.phaseOf id) := by
  refine hrun.shared_of_run (P := fun pool => Owners (pool.owners id) (pool.phaseOf id))
    (fun before after action rest pool pool' calls hrun _ hact h => ?_) ?_
  · exact owned_act (owes_of_run hrun id) h hact
  · exact rfl

/-! ## Conservation -/

/-- How many transactions have a connection, or are about to put it back. -/
def holders (threads : Threads Pool Action) (connection : Connection) : ℕ :=
  threads.shared.transactions.countP (fun transaction => transaction.connection = some connection) +
    threads.actions.countP fun action => action.returning = {connection}

theorem count_held (pool : Pool) (connection : Connection) :
    pool.held.count connection = pool.transactions.countP fun transaction =>
      transaction.connection = some connection := by
  rw [Pool.held, Multiset.count_bind, Multiset.map_coe, Multiset.sum_coe]
  induction pool.transactions with
  | nil => rfl
  | cons transaction transactions ih =>
    rw [map_cons, sum_cons, ih, countP_cons, add_comm]
    congr 1
    cases hconnection : transaction.connection with
    | none => simp
    | some other => simp [Multiset.count_singleton, eq_comm]

theorem count_returning (threads : Threads Pool Action) (connection : Connection) :
    (threads.load Action.returning).count connection =
      threads.actions.countP fun action => action.returning = {connection} := by
  rw [Threads.load, Threads.weigh]
  induction threads.actions with
  | nil => rfl
  | cons action actions ih =>
    rw [map_cons, sum_cons, Multiset.count_add, ih, countP_cons, add_comm]
    congr 1
    have hcases : action.returning = 0 ∨ ∃ other, action.returning = {other} := by
      cases action <;> first | exact .inl rfl | exact .inr ⟨_, rfl⟩
    rcases hcases with hnone | ⟨other, hsome⟩
    · simp [hnone]
    · simp [hsome, Multiset.count_singleton, eq_comm]

/-- Some thread has a last command to send. -/
theorem exists_finalize_of_weigh {id : ℕ} {actions : List Action}
    (h : (weigh (Action.turn id) actions).2.2 ≠ 0) :
    ∃ command, Action.finalize id command ∈ actions := by
  induction actions with
  | nil => exact absurd rfl h
  | cons action actions ih =>
    by_cases hrest : (weigh (Action.turn id) actions).2.2 = 0
    · rw [Threads.weigh_cons, Prod.snd_add, Prod.snd_add, hrest, add_zero] at h
      have hfinalize : ∃ command, action = .finalize id command := by
        cases action with
        | finalize other command =>
          by_cases heq : other = id
          · exact ⟨command, by rw [heq]⟩
          · simp [Action.turn, heq] at h
        | begin other | begun other | releaseLease other =>
          simp only [Action.turn] at h
          split at h <;> exact absurd rfl h
        | _ => exact absurd rfl h
      obtain ⟨command, rfl⟩ := hfinalize
      exact ⟨command, mem_cons_self⟩
    · obtain ⟨command, hmem⟩ := ih hrest
      exact ⟨command, mem_cons_of_mem _ hmem⟩

/-- Who has a last command to send has the turn to finalize as well. -/
theorem weigh_turn_le (id : ℕ) (actions : List Action) :
    (weigh (Action.turn id) actions).2.2 ≤ (weigh (Action.turn id) actions).2.1 := by
  induction actions with
  | nil => exact le_refl 0
  | cons action actions ih =>
    have hone : (action.turn id).2.2 ≤ (action.turn id).2.1 := by
      cases action with
      | begin other | begun other | finalize other | releaseLease other =>
        simp only [Action.turn]
        split <;> simp
      | _ => exact le_refl 0
    rw [Threads.weigh_cons, Prod.snd_add, Prod.snd_add, Prod.fst_add]
    omega

/-- For a transaction that is not to be finalized no last command is sent. -/
theorem lastCommands_of_before (hrun : Run allowed connections threads) {phase : TransactionPhase}
    (hphase : threads.shared.phaseOf id = some phase)
    (hbefore : phase = .opening ∨ phase = .refused ∨ phase = .active) :
    lastCommands id threads.shared.log = 0 := by
  have hturns := congrArg (fun turns => turns.2.2) (turns_balanced hrun id).2
  rw [hphase] at hturns
  rcases hbefore with rfl | rfl | rfl
  all_goals
    simp only [turnsGiven, Pool.turnsTaken, Prod.snd_add] at hturns
    omega

/-- No thread has anything to do and no object has a state: every transaction is over. -/
theorem phase_of_settled (hrun : Run allowed connections threads) (hactions : threads.actions = [])
    (hobjects : ∀ state ∈ threads.shared.objects, state = none) {phase : TransactionPhase}
    (hphase : threads.shared.phaseOf id = some phase) : phase = .refused ∨ phase = .completed := by
  have hturns := (turns_balanced hrun id).2
  have howners := owned_run hrun id
  have hnone : threads.shared.owners id = 0 := by
    refine countP_eq_zero.2 fun state hmem => ?_
    simp [hobjects state hmem]
  rw [Threads.load, hactions, Threads.weigh_nil, add_zero, Pool.turnsTaken, hphase] at hturns
  rw [hnone, hphase] at howners
  cases phase with
  | refused => exact .inl rfl
  | completed => exact .inr rfl
  | opening => simp [turnsGiven, turnsOver] at hturns
  | active => simp [Owners] at howners
  | finalizing => simp [turnsGiven, turnsOver] at hturns

/-- The leases of a pool are conserved, and every transaction that began is ended once. -/
structure Conserved (connections : List Connection) (threads : Threads Pool Action) : Prop where
  /-- A connection is in the queue or has one holder, but not both, -/
  leases : ∀ connection ∈ connections,
    threads.shared.leases.count connection + holders threads connection = 1
  /-- and a transaction has one while it is opening, active or finalizing. -/
  holding : ∀ id, threads.shared.KeptAt id
  /-- An active transaction is the state of one object, -/
  owner : ∀ id, threads.shared.phaseOf id = some .active → threads.shared.owners id = 1
  /-- and before it is finalized no last command is sent for it; -/
  before : ∀ id phase, threads.shared.phaseOf id = some phase →
    phase = .opening ∨ phase = .refused ∨ phase = .active → lastCommands id threads.shared.log = 0
  /-- then one, -/
  finalizing : ∀ id, threads.shared.phaseOf id = some .finalizing →
    lastCommands id threads.shared.log = 1 ∨
    lastCommands id threads.shared.log = 0 ∧ ∃ command, Action.finalize id command ∈ threads.actions
  completed : ∀ id, threads.shared.phaseOf id = some .completed →
    lastCommands id threads.shared.log = 1
  /-- and it comes to that: when the objects are gone and the threads are done, nothing is left
  open. -/
  settled : (∀ state ∈ threads.shared.objects, state = none) → threads.actions = [] →
    ∀ id phase, threads.shared.phaseOf id = some phase → phase = .refused ∨ phase = .completed
  /-- No lease is returned in vain. -/
  faults : threads.shared.faults = []

/-- **Leases are conserved**, whatever the threads do. -/
theorem leases_conserved (hnodup : connections.Nodup) (hrun : Run allowed connections threads) :
    Conserved connections threads where
  leases connection hmem := by
    obtain ⟨hconnections, hbalance⟩ := leases_balanced hrun
    have hcount := congrArg (Multiset.count connection) hbalance
    rw [hconnections, Multiset.coe_count, count_eq_one_of_mem hnodup hmem, Pool.placed,
      Multiset.count_add, Multiset.count_add, Multiset.coe_count, count_held, count_returning,
      add_assoc] at hcount
    exact hcount.symm
  holding id := (turns_balanced hrun id).1
  owner id hphase := by
    have howners := owned_run hrun id
    rwa [hphase] at howners
  before id phase := lastCommands_of_before hrun
  finalizing id hphase := by
    have hturns := congrArg (fun turns => turns.2.2) (turns_balanced hrun id).2
    simp only [hphase, turnsGiven, Pool.turnsTaken, Prod.snd_add] at hturns
    by_cases hsent : (threads.load (Action.turn id)).2.2 = 0
    · left
      omega
    · right
      exact ⟨by omega, exists_finalize_of_weigh hsent⟩
  completed id hphase := by
    have hturns := (turns_balanced hrun id).2
    simp only [hphase, turnsGiven, Pool.turnsTaken] at hturns
    have hsecond := congrArg (fun turns => turns.2.1) hturns
    have hthird := congrArg (fun turns => turns.2.2) hturns
    simp only [turnsOver, Prod.snd_add, Prod.fst_add] at hsecond hthird
    have hle : (threads.load (Action.turn id)).2.2 ≤ (threads.load (Action.turn id)).2.1 :=
      weigh_turn_le id threads.actions
    omega
  settled hobjects hactions id phase := phase_of_settled hrun hactions hobjects
  faults := (orderly_run hrun).faults

/-- An active transaction whose object is assigned to is rolled back, while the other one goes
on. -/
theorem leases_conserved_assigned :
    ∃ threads, Run (fun _ _ => True) [7, 8] threads ∧ threads.actions = [] ∧
    threads.shared.leases = [7] ∧ threads.shared.leases.count 8 + holders threads 8 = 1 ∧
    threads.shared.owners 1 = 1 ∧ lastCommands 0 threads.shared.log = 1 := by
  have hstart : Run (fun _ _ => True) [7, 8] ⟨.new [7, 8], []⟩ := .start
  have hopening := (hstart.enter .transaction trivial).take [] [] (.transaction rfl) trivial
  have hactive := (hopening.take [] [] (.begin rfl) trivial).take [] [] (.begun rfl) trivial
  have hsecond := (hactive.enter .transaction trivial).take [[]] [] (.transaction rfl) trivial
  have hboth := (hsecond.take [[]] [] (.begin rfl) trivial).take [[]] [] (.begun rfl) trivial
  have hassigned := (hboth.enter (.assign 0 1) trivial).take [[], []] []
    (.assign (by decide) (by decide)) trivial
  have hfinalizing := hassigned.take [[], []] [] (.finalize rfl) trivial
  have hrun := (hfinalizing.take [[], []] [] (.releaseLease rfl) trivial).take [[], []] [] .release
    trivial
  have hconserved := leases_conserved (by decide) hrun
  exact ⟨_, hrun, rfl, rfl, hconserved.leases 8 (by decide), hconserved.owner 1 rfl,
    hconserved.completed 0 rfl⟩

end Idhan.Database
