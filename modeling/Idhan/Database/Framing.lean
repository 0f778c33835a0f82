import Idhan.Database.Leases
import Mathlib.Tactic.SplitIfs

/-!
# Statements run inside of their transactions

A task remembers the connection of its transaction and is enqueued there when it is awaited,
whatever has become of the transaction since.  If every task is enqueued while its transaction is
active, a statement stands between the `BEGIN` and the last command of its own transaction, and no
other transaction begins or ends on the connection in between.

## The invariant

`holder` is the transaction that is open on a connection, computed from the log alone.  `Framed`
says of every statement in the log that its own transaction was open on its connection when it was
enqueued, and of every transaction that is open that it is the one that the log has for its
connection.  The second part is what a new statement needs; it is kept since a connection is not
leased twice, which is the balance of `Idhan.Database.Leases`.

An action is brought into one of seven forms first (`Effect`), so that `framed_run` has one case for
each thing that can happen to the log and to the phases.  `statements_framed` reads the result off
the log.
-/

namespace Idhan.Database

open List

open Threads (weigh)

/-! ## The open transaction of a connection -/

/-- The transaction that is open on a connection after one more entry. -/
def holderAfter (connection : Connection) (open_ : Option ℕ) (entry : Entry) : Option ℕ :=
  if entry.connection = connection then
    match entry.command with
    | .start => some entry.transaction
    | .statement => open_
    | .last _ => none
  else open_

/-- The transaction that is open on a connection. -/
def holder (connection : Connection) (log : List Entry) : Option ℕ :=
  log.foldl (holderAfter connection) none

theorem holder_append (connection : Connection) (log : List Entry) (entry : Entry) :
    holder connection (log ++ [entry]) = holderAfter connection (holder connection log) entry := by
  rw [holder, foldl_append, foldl_cons, foldl_nil, holder]

variable {entry : Entry} {connection : Connection} {log : List Entry}

theorem holder_append_of_ne (h : entry.connection ≠ connection) (log : List Entry) :
    holder connection (log ++ [entry]) = holder connection log := by
  rw [holder_append, holderAfter, if_neg h]

theorem holder_append_statement (connection : Connection) (log : List Entry)
    (h : entry.command = .statement) :
    holder connection (log ++ [entry]) = holder connection log := by
  rw [holder_append, holderAfter, h]
  split
  · rfl
  · rfl

/-- What is open was begun, and on the connection there have only been statements since. -/
theorem exists_start_of_holder {id : ℕ} (h : holder connection log = some id) :
    ∃ front rest, log = front ++ ⟨id, connection, .start⟩ :: rest ∧
      ∀ entry ∈ rest, entry.connection = connection → entry.command = .statement := by
  induction log using List.reverseRecOn with
  | nil => cases h
  | append_singleton log entry ih =>
    have hkeep : holder connection log = some id →
        (entry.connection = connection → entry.command = .statement) →
        ∃ front rest, log ++ [entry] = front ++ ⟨id, connection, .start⟩ :: rest ∧
          ∀ entry ∈ rest, entry.connection = connection → entry.command = .statement := by
      intro hopen hentry
      obtain ⟨front, rest, rfl, hrest⟩ := ih hopen
      refine ⟨front, rest ++ [entry], by simp, fun other hother => ?_⟩
      rcases mem_append.1 hother with hother | hother
      · exact hrest other hother
      · rw [mem_singleton.1 hother]
        exact hentry
    rw [holder_append, holderAfter] at h
    split at h
    · next hconnection =>
      split at h
      · next hstart =>
        obtain ⟨transaction, other, command⟩ := entry
        simp only at hconnection hstart h
        cases h
        subst hconnection hstart
        exact ⟨log, [], rfl, forall_mem_nil _⟩
      · next hstatement => exact hkeep h fun _ => hstatement
      · cases h
    · next hne => exact hkeep h fun heq => absurd heq hne

/-! ## Beginnings -/

/-- How often a transaction was begun. -/
def starts (id : ℕ) (log : List Entry) : ℕ :=
  log.countP fun entry => entry.transaction = id && entry.command = .start

theorem starts_append (id : ℕ) (log : List Entry) (entry : Entry) :
    starts id (log ++ [entry]) =
      starts id log + if entry.transaction = id ∧ entry.command = .start then 1 else 0 := by
  simp [starts, countP_append, countP_singleton]

/-- The action begins a transaction. -/
def Action.beginning (id : ℕ) : Action → ℕ
  | .begin other => if other = id then 1 else 0
  | _ => 0

variable {pool pool' : Pool} {action : Action} {calls : List Action} {id : ℕ}

/-- What an action does to the log and to the transactions. -/
inductive Effect (pool : Pool) : Action → Pool → List Action → Prop
  | opens {pool' : Pool} {connection : Connection} : pool'.log = pool.log →
      pool'.transactions = pool.transactions ++ [⟨connection, some connection, .opening⟩] →
      Effect pool .transaction pool' [.begin pool.transactions.length]
  | begins {id : ℕ} {transaction : Transaction} : pool.transactions[id]? = some transaction →
      Effect pool (.begin id) (pool.enqueue ⟨id, transaction.lease, .start⟩) [.begun id]
  | begun {pool' : Pool} {id : ℕ} {transaction : Transaction} :
      pool.transactions[id]? = some transaction → pool'.log = pool.log →
      pool'.transactions = pool.transactions.set id { transaction with phase := .active } →
      Effect pool (.begun id) pool' []
  | closes {action : Action} {pool' : Pool} {calls : List Action} {id : ℕ}
      {transaction t : Transaction} : pool.transactions[id]? = some transaction →
      pool'.log = pool.log → pool'.transactions = pool.transactions.set id t →
      t.lease = transaction.lease → t.phase ≠ .active → t.phase ≠ .opening →
      (∀ id, action.beginning id = 0 ∧ weigh (Action.beginning id) calls = 0) →
      Effect pool action pool' calls
  | ends {id : ℕ} {command : Ending} {transaction : Transaction} {connection : Connection} :
      pool.transactions[id]? = some transaction → transaction.connection = some connection →
      Effect pool (.finalize id command) (pool.enqueue ⟨id, connection, .last command⟩)
        [.releaseLease id]
  | states {place : ℕ} {task : Task} {operation : Operation Unit Unit} {connection : Connection} :
      pool.tasks[place]? = some task → task.connection = some connection →
      Effect pool (.enqueue place)
        ((pool.putTask place task operation).enqueue ⟨task.transaction, connection, .statement⟩) []
  | nothing {action : Action} {pool' : Pool} {calls : List Action} :
      pool'.log = pool.log → pool'.transactions = pool.transactions →
      (∀ id, action.beginning id = 0 ∧ weigh (Action.beginning id) calls = 0) →
      Effect pool action pool' calls

theorem effect_finish (command : Ending) (state : Option ℕ) (action : Action)
    (haction : ∀ id, action.beginning id = 0) {pool' : Pool}
    (hlog : pool'.log = (pool.finish command state).1.log)
    (htransactions : pool'.transactions = (pool.finish command state).1.transactions) :
    Effect pool action pool' (pool.finish command state).2 := by
  rcases pool.finish_cases command state with heq | ⟨id, transaction, hget, _, heq⟩
  · rw [heq] at hlog htransactions ⊢
    exact .nothing hlog htransactions fun id => ⟨haction id, rfl⟩
  · rw [heq] at hlog htransactions ⊢
    exact .closes (t := { transaction with phase := .finalizing }) hget hlog htransactions rfl
      (by simp) (by simp)
      fun id => ⟨haction id, rfl⟩

theorem effect_of_act (h : Act action pool pool' calls) : Effect pool action pool' calls := by
  cases h with
  | transaction => exact .opens rfl rfl
  | begin hget => exact .begins hget
  | begun hget => exact .begun hget rfl rfl
  | refused hget =>
    exact .closes hget rfl rfl rfl (by simp) (by simp) fun id =>
      ⟨rfl, Threads.weigh_map_eq_zero _ _ fun _ => rfl⟩
  | giveBack | release =>
    unfold Pool.returnLease
    split
    · exact .nothing rfl rfl fun id => ⟨rfl, rfl⟩
    · exact .nothing rfl rfl fun id => ⟨rfl, rfl⟩
  | commit | rollback | destroy | assign => exact effect_finish _ _ _ (fun _ => rfl) rfl rfl
  | assignSelf | move | abandon => exact .nothing rfl rfl fun id => ⟨rfl, rfl⟩
  | finalize hget =>
    unfold Pool.sendLast
    split
    · next hconnection => exact .ends hget hconnection
    · exact .nothing rfl rfl fun id => ⟨rfl, rfl⟩
  | releaseLease hget =>
    unfold Pool.releaseLease
    split
    · exact .nothing rfl rfl fun id => ⟨rfl, rfl⟩
    · exact .closes hget rfl rfl rfl (by simp) (by simp) fun id =>
        ⟨rfl, Threads.weigh_map_eq_zero _ _ fun _ => rfl⟩
  | @query _ object =>
    obtain ⟨_, heq⟩ := pool.exists_query_eq (pool.stateOf object)
    rw [heq]
    exact .nothing rfl rfl fun id => ⟨rfl, rfl⟩
  | start =>
    unfold Pool.startTask
    split
    · exact .nothing rfl rfl fun id => ⟨rfl, rfl⟩
    · exact .nothing rfl rfl fun id => ⟨rfl, rfl⟩
  | @enqueue _ place task hget =>
    rcases pool.enqueueTask_cases place task with ⟨_, heq⟩ | ⟨_, _, hconnection, heq⟩
    · rw [heq]
      exact .nothing rfl rfl fun id => ⟨rfl, rfl⟩
    · rw [heq]
      exact .states hget hconnection

/-- The beginnings that are due. -/
def Pool.due (id : ℕ) (pool : Pool) : ℕ :=
  if id < pool.transactions.length then 1 else 0

theorem beginning_balanced (id : ℕ) (h : Effect pool action pool' calls) :
    ∃ added, pool'.due id = pool.due id + added ∧ starts id pool'.log + weigh (Action.beginning id)
    calls = starts id pool.log + action.beginning id + added := by
  have hset : ∀ {place : ℕ} {t : Transaction}, pool'.transactions = pool.transactions.set place t →
      pool'.due id = pool.due id + 0 := by
    intro place t heq
    rw [Pool.due, heq, length_set, Pool.due, add_zero]
  cases h with
  | opens hlog htransactions =>
    refine ⟨if pool.transactions.length = id then 1 else 0, ?_, ?_⟩
    · rw [Pool.due, htransactions, Pool.due, length_append, length_singleton]
      split_ifs <;> omega
    · rw [hlog, Threads.weigh_cons, Threads.weigh_nil]
      simp [Action.beginning]
  | begins | ends | states =>
    refine ⟨0, rfl, ?_⟩
    rw [Pool.enqueue, starts_append]
    simp [Action.beginning, Pool.putTask]
  | begun _ hlog htransactions => exact ⟨0, hset htransactions, by rw [hlog]; rfl⟩
  | closes _ hlog htransactions _ _ _ hweights =>
    exact ⟨0, hset htransactions, by rw [hlog, (hweights id).1, (hweights id).2]⟩
  | nothing hlog htransactions hweights =>
    exact ⟨0, by rw [Pool.due, htransactions, Pool.due, add_zero],
      by rw [hlog, (hweights id).1, (hweights id).2]⟩

variable {allowed : Threads Pool Action → Action → Prop} {connections : List Connection}
  {threads : Threads Pool Action}
variable {other : ℕ} {t u transaction : Transaction}

theorem starts_balanced (hrun : Run allowed connections threads) (id : ℕ) :
    threads.shared.due id = starts id threads.shared.log + threads.load (Action.beginning id) := by
  refine hrun.balanced (Pool.due id) (fun pool => starts id pool.log)
    (fun action pool pool' calls others _ hact => beginning_balanced id (effect_of_act hact))
    (fun action hentry => ?_) rfl
  cases action <;> first | rfl | exact hentry.elim

/-! ## Leases are exclusive -/

/-- At most one cell of a list satisfies the condition. -/
theorem eq_of_countP_le_one {α : Type} {list : List α} {p : α → Bool} (h : list.countP p ≤ 1)
    {i j : ℕ} {a b : α} (ha : list[i]? = some a) (hb : list[j]? = some b) (hpa : p a = true)
    (hpb : p b = true) : i = j := by
  by_contra hne
  wlog hlt : i < j generalizing i j a b
  · exact this hb ha hpb hpa (Ne.symm hne) (by omega)
  -- the list is cut between the two cells
  have hcut : list.countP p = (list.take j).countP p + (list.drop j).countP p := by
    rw [← countP_append, take_append_drop]
  have hfirst : a ∈ list.take j := mem_of_getElem? ((getElem?_take_of_lt hlt).trans ha)
  have hlast : b ∈ list.drop j := mem_of_getElem? (i := 0) (by simpa using hb)
  have hfirst := countP_pos_iff.2 ⟨a, hfirst, hpa⟩
  have hlast := countP_pos_iff.2 ⟨b, hlast, hpb⟩
  omega

/-- Two transactions do not have the same connection. -/
theorem lease_exclusive (hnodup : connections.Nodup) (hrun : Run allowed connections threads)
    {id : ℕ} (ht : threads.shared.transactions[id]? = some t)
    (hu : threads.shared.transactions[other]? = some u)
    (htconnection : t.connection = some connection)
    (huconnection : u.connection = some connection) : id = other := by
  refine eq_of_countP_le_one ?_ ht hu (p := fun transaction => transaction.connection =
    some connection) (by simpa using htconnection)
    (by simpa using huconnection)
  obtain ⟨hconnections, hbalance⟩ := leases_balanced hrun
  have hcount := congrArg (Multiset.count connection) hbalance
  rw [hconnections, Multiset.coe_count, Pool.placed, Multiset.count_add, Multiset.count_add,
    count_held] at hcount
  have hone := nodup_iff_count_le_one.1 hnodup connection
  omega

/-! ## The invariant -/

/-- A task is enqueued while its transaction is active. -/
def InTime (threads : Threads Pool Action) : Action → Prop
  | .enqueue place =>
    ∀ task, threads.shared.tasks[place]? = some task →
      threads.shared.phaseOf task.transaction = some .active
  | _ => True

/-- The transaction has begun, and has not been told to end. -/
def Transaction.Open (id : ℕ) (log : List Entry) (transaction : Transaction) : Prop :=
  transaction.phase = .active ∨ transaction.phase = .opening ∧ starts id log ≠ 0

/-- Statements are inside of their transactions, and an open transaction is the one that is open on
its connection. -/
structure Framed (pool : Pool) : Prop where
  statements : ∀ before entry after, pool.log = before ++ entry :: after →
    entry.command = .statement →
    holder entry.connection before = some entry.transaction ∧
    lastCommands entry.transaction before = 0
  leases : ∀ entry ∈ pool.log, entry.command = .statement →
    ∃ transaction, pool.transactions[entry.transaction]? = some transaction ∧
    entry.connection = transaction.lease
  opened : ∀ id transaction, pool.transactions[id]? = some transaction →
    transaction.Open id pool.log →
    holder transaction.lease pool.log = some id

theorem Transaction.Kept.connection_of_open (h : transaction.Kept)
    (hopen : transaction.Open id log) : transaction.connection = some transaction.lease := by
  rcases hopen with hphase | ⟨hphase, _⟩
  · exact h.connection_eq (by rw [hphase]; rfl)
  · exact h.connection_eq (by rw [hphase]; rfl)

theorem concat_eq_append_cons {α : Type} {list before after : List α} {a last : α}
    (h : list ++ [last] = before ++ a :: after) :
    (before = list ∧ a = last) ∨ ∃ rest, list = before ++ a :: rest := by
  rcases eq_nil_or_concat after with rfl | ⟨rest, b, rfl⟩
  · obtain ⟨rfl, hlast⟩ := append_inj' h rfl
    exact .inl ⟨rfl, (List.cons.inj hlast).1.symm⟩
  · rw [concat_eq_append, ← cons_append, ← append_assoc] at h
    exact .inr ⟨rest, (append_inj' h rfl).1⟩

/-- An entry that is not a statement keeps the statements inside of their transactions. -/
theorem Framed.statements_append {pool : Pool} (h : Framed pool) {last : Entry}
    (hlast : last.command ≠ .statement) {before after : List Entry}
    (hlog : pool.log ++ [last] = before ++ entry :: after)
    (hstatement : entry.command = .statement) :
    holder entry.connection before = some entry.transaction ∧
    lastCommands entry.transaction before = 0 := by
  rcases concat_eq_append_cons hlog with ⟨_, rfl⟩ | ⟨rest, hold⟩
  · exact absurd hstatement hlast
  · exact h.statements before entry rest hold hstatement

theorem Framed.leases_append {pool : Pool} (h : Framed pool) {last : Entry}
    (hlast : last.command ≠ .statement) (hmem : entry ∈ pool.log ++ [last])
    (hstatement : entry.command = .statement) :
    ∃ transaction, pool.transactions[entry.transaction]? = some transaction ∧
    entry.connection = transaction.lease := by
  rcases mem_append.1 hmem with hmem | hmem
  · exact h.leases entry hmem hstatement
  · rw [mem_singleton.1 hmem] at hstatement
    exact absurd hstatement hlast

/-- A transaction changes its phase. -/
theorem Framed.leases_set {pool : Pool} (h : Framed pool) {place : ℕ}
    (hget : pool.transactions[place]? = some t) (hlease : u.lease = t.lease)
    (hmem : entry ∈ pool.log) (hstatement : entry.command = .statement) :
    ∃ transaction, (pool.transactions.set place u)[entry.transaction]? = some transaction ∧
    entry.connection = transaction.lease := by
  obtain ⟨transaction, hold, hconnection⟩ := h.leases entry hmem hstatement
  by_cases heq : place = entry.transaction
  · obtain ⟨hlt, _⟩ := List.getElem?_eq_some_iff.1 hget
    rw [← heq, hget] at hold
    cases hold
    exact ⟨u, by rw [← heq, List.getElem?_set_self hlt], hconnection.trans hlease.symm⟩
  · exact ⟨transaction, by rw [getElem?_set_ne heq]; exact hold, hconnection⟩

/-- Who waits for the answer to `BEGIN` has sent it. -/
theorem weigh_beginning_lt {actions : List Action} (h : Action.begun id ∈ actions) :
    weigh (Action.beginning id) actions < (weigh (Action.turn id) actions).1 := by
  have hle : ∀ action : Action, action.beginning id ≤ (action.turn id).1 := by
    intro action
    cases action with
    | begin other =>
      simp only [Action.beginning, Action.turn]
      split <;> simp
    | _ => exact Nat.zero_le _
  have hsum : ∀ actions : List Action, weigh (Action.beginning id) actions ≤
      (weigh (Action.turn id) actions).1 := by
    intro actions
    induction actions with
    | nil => exact Nat.zero_le _
    | cons action actions ih =>
      rw [Threads.weigh_cons, Threads.weigh_cons, Prod.fst_add]
      have hfirst := hle action
      omega
  obtain ⟨before, after, rfl⟩ := append_of_mem h
  rw [Threads.weigh_append, Threads.weigh_append, Threads.weigh_cons, Threads.weigh_cons,
    Prod.fst_add, Prod.fst_add]
  have hbefore := hsum before
  have hafter := hsum after
  simp only [Action.beginning, Action.turn, if_true]
  omega

theorem starts_of_begun (hrun : Run allowed connections threads)
    (hget : threads.shared.transactions[id]? = some transaction)
    (hmem : Action.begun id ∈ threads.actions) : starts id threads.shared.log ≠ 0 := by
  have hgiven := congrArg Prod.fst (turns_balanced hrun id).2
  have hstarts := starts_balanced hrun id
  have hsent : threads.load (Action.beginning id) < (threads.load (Action.turn id)).1 :=
    weigh_beginning_lt hmem
  obtain ⟨hlt, _⟩ := List.getElem?_eq_some_iff.1 hget
  have hone : (turnsGiven (threads.shared.phaseOf id)).1 ≤ 1 := by
    rw [phaseOf_eq hget]
    cases transaction.phase <;> exact le_refl 1
  rw [Pool.due, if_pos hlt] at hstarts
  rw [Prod.fst_add] at hgiven
  omega

/-- What is known of a pool in a run where an action is about to be taken. -/
structure Known (pool : Pool) (action : Action) : Prop where
  kept : ∀ id, pool.KeptAt id
  turns : ∀ id, pool.Owes id (action.turn id)
  exclusive : ∀ {id other : ℕ} {t u : Transaction} {connection : Connection},
    pool.transactions[id]? = some t →
    pool.transactions[other]? = some u → t.connection = some connection →
    u.connection = some connection → id = other

theorem known_run (hnodup : connections.Nodup) {before after : List (List Action)}
    {rest : List Action} (hrun : Run allowed connections
      ⟨pool, before ++ (action :: rest) :: after⟩) : Known pool action := by
  exact ⟨fun id => (turns_balanced hrun id).1, owes_of_run hrun,
    fun ht hu htc huc => lease_exclusive hnodup hrun ht hu htc huc⟩

/-- Another transaction that has its connection is not on the connection of an open one. -/
theorem Known.lease_ne (hknown : Known pool action) (ht : pool.transactions[id]? = some t)
    (hu : pool.transactions[other]? = some u) (hopen : t.Open id log)
    (hconnection : u.connection = some connection) (hne : other ≠ id) : connection ≠ t.lease := by
  rintro rfl
  exact hne (hknown.exclusive ht hu ((hknown.kept id t ht).connection_of_open hopen)
    hconnection).symm

theorem Transaction.Open.of_append (hopen : t.Open id (log ++ [entry]))
    (hother : entry.transaction ≠ id ∨ entry.command ≠ .start) : t.Open id log := by
  rw [Transaction.Open, starts_append, if_neg (by tauto), add_zero] at hopen
  exact hopen

theorem Framed.begins (h : Framed pool) (hknown : Known pool (.begin id))
    (hget : pool.transactions[id]? = some u) :
    Framed (pool.enqueue ⟨id, u.lease, .start⟩) := by
  have hopening := opening_of_turn hget (hknown.turns id) (by simp [Action.turn])
  have hhas := (hknown.kept id u hget).connection_eq (by rw [hopening]; decide)
  refine ⟨fun _ _ _ => h.statements_append (by simp), fun _ => h.leases_append (by simp),
    fun other t ht hopen => ?_⟩
  simp only [Pool.enqueue] at ht hopen ⊢
  by_cases hne : id = other
  · subst hne
    rw [hget] at ht
    cases ht
    simp [holder_append, holderAfter]
  · have hopen' := hopen.of_append (.inl hne)
    rw [holder_append_of_ne (hknown.lease_ne ht hget hopen' hhas hne)]
    exact h.opened other t ht hopen'

theorem Framed.ends (h : Framed pool) {command : Ending}
    (hknown : Known pool (.finalize id command)) (hget : pool.transactions[id]? = some u)
    (hconnection : u.connection = some connection) :
    Framed (pool.enqueue ⟨id, connection, .last command⟩) := by
  have hfinalizing := finalizing_of_turn hget (hknown.turns id) (by simp [Action.turn])
  refine ⟨fun _ _ _ => h.statements_append (by simp), fun _ => h.leases_append (by simp),
    fun other t ht hopen => ?_⟩
  simp only [Pool.enqueue] at ht hopen ⊢
  have hopen' := hopen.of_append (.inr (by simp))
  have hne : id ≠ other := by
    rintro rfl
    rw [hget] at ht
    cases ht
    rcases hopen' with hphase | ⟨hphase, _⟩
    · cases hfinalizing.symm.trans hphase
    · cases hfinalizing.symm.trans hphase
  rw [holder_append_of_ne (hknown.lease_ne ht hget hopen' hconnection hne)]
  exact h.opened other t ht hopen'

theorem Framed.states (h : Framed pool) (hget : pool.transactions[id]? = some u)
    (hactive : u.phase = .active) (hlast : lastCommands id pool.log = 0) :
    Framed (pool.enqueue ⟨id, u.lease, .statement⟩) := by
  refine ⟨fun before entry after hlog hstatement => ?_, fun entry hmem hstatement => ?_,
    fun other t ht hopen => ?_⟩
  · rcases concat_eq_append_cons hlog with ⟨rfl, rfl⟩ | ⟨rest, hold⟩
    · exact ⟨h.opened id u hget (.inl hactive), hlast⟩
    · exact h.statements before entry rest hold hstatement
  · rcases mem_append.1 hmem with hmem | hmem
    · exact h.leases entry hmem hstatement
    · rw [mem_singleton.1 hmem]
      exact ⟨u, hget, rfl⟩
  · simp only [Pool.enqueue] at ht hopen ⊢
    rw [holder_append_statement _ _ rfl]
    exact h.opened other t ht (hopen.of_append (.inr (by simp)))

/-- A transaction changes its phase; if it is open then, it is the one that is open on its
connection. -/
theorem Framed.set (h : Framed pool) (hget : pool.transactions[id]? = some u)
    (hlog : pool'.log = pool.log) (htransactions : pool'.transactions = pool.transactions.set id t)
    (hlease : t.lease = u.lease)
    (hopened : t.Open id pool.log → holder t.lease pool.log = some id) : Framed pool' := by
  refine ⟨?_, fun entry hmem hstatement => ?_, fun other v hv hopen => ?_⟩
  · rw [hlog]
    exact h.statements
  · rw [htransactions]
    rw [hlog] at hmem
    exact h.leases_set hget hlease hmem hstatement
  · rw [htransactions] at hv
    rw [hlog] at hopen ⊢
    by_cases hne : id = other
    · subst hne
      obtain ⟨hlt, _⟩ := List.getElem?_eq_some_iff.1 hget
      rw [List.getElem?_set_self hlt] at hv
      cases hv
      exact hopened hopen
    · rw [getElem?_set_ne hne] at hv
      exact h.opened other v hv hopen

/-- A new transaction has not begun. -/
theorem Framed.opens (h : Framed pool) (hlog : pool'.log = pool.log)
    (htransactions : pool'.transactions =
      pool.transactions ++ [⟨connection, some connection, .opening⟩])
    (hstarts : starts pool.transactions.length pool.log = 0) : Framed pool' := by
  refine ⟨?_, fun entry hmem hstatement => ?_, fun other t ht hopen => ?_⟩
  · rw [hlog]
    exact h.statements
  · rw [hlog] at hmem
    obtain ⟨transaction, hget, hconnection⟩ := h.leases entry hmem hstatement
    obtain ⟨hlt, _⟩ := List.getElem?_eq_some_iff.1 hget
    exact ⟨transaction, by rw [htransactions, List.getElem?_append_left hlt]; exact hget,
      hconnection⟩
  · rw [htransactions] at ht
    rw [hlog] at hopen ⊢
    rcases lt_or_ge other pool.transactions.length with hlt | hge
    · rw [List.getElem?_append_left hlt] at ht
      exact h.opened other t ht hopen
    · have hlast : other = pool.transactions.length := by
        obtain ⟨hbound, _⟩ := List.getElem?_eq_some_iff.1 ht
        rw [length_append, length_singleton] at hbound
        omega
      subst hlast
      rw [getElem?_concat_length] at ht
      cases ht
      rcases hopen with hphase | ⟨_, hne⟩
      · cases hphase
      · exact absurd hstarts hne

/-- **The invariant of runs in which tasks are in time.** -/
theorem framed_run (hnodup : connections.Nodup) (hrun : Run InTime connections threads) :
    Framed threads.shared := by
  refine hrun.shared_of_run (fun before after action rest pool pool' calls hrun htime hact h => ?_)
    ⟨?_, ?_, ?_⟩
  · have hknown := known_run hnodup hrun
    cases effect_of_act hact with
    | opens hlog htransactions =>
      have hstarts := starts_balanced hrun pool.transactions.length
      refine h.opens hlog htransactions ?_
      simp only [Pool.due, lt_irrefl, if_false] at hstarts
      omega
    | begins hget => exact h.begins hknown hget
    | @begun _ place u hget hlog htransactions =>
      refine h.set hget hlog htransactions rfl fun _ => ?_
      have hopening := opening_of_turn hget (hknown.turns place) (by simp [Action.turn])
      exact h.opened place u hget
        (.inr ⟨hopening, starts_of_begun hrun hget Threads.action_mem_actions⟩)
    | closes hget hlog htransactions hlease hactive hopening =>
      refine h.set hget hlog htransactions hlease fun hopen => ?_
      rcases hopen with hphase | ⟨hphase, _⟩
      · exact absurd hphase hactive
      · exact absurd hphase hopening
    | ends hget hconnection => exact h.ends hknown hget hconnection
    | @states place task operation connection hget hconnection =>
      have hactive := htime task hget
      obtain ⟨u, hu, hlease⟩ := (orderly_run hrun).tasks task (mem_of_getElem? hget)
      obtain rfl : u.lease = connection := Option.some.inj (hlease.symm.trans hconnection)
      have hphase : u.phase = .active := Option.some.inj ((phaseOf_eq hu).symm.trans hactive)
      have htask : Framed (pool.putTask place task operation) := ⟨h.statements, h.leases, h.opened⟩
      exact htask.states hu hphase (lastCommands_of_before hrun hactive (.inr (.inr rfl)))
    | nothing hlog htransactions =>
      exact ⟨by rw [hlog]; exact h.statements, by rw [hlog, htransactions]; exact h.leases,
        by rw [hlog, htransactions]; exact h.opened⟩
  · intro before entry after hlog
    cases before <;> cases hlog
  · intro entry hmem
    cases hmem
  · intro id transaction hget
    simp [Pool.new] at hget

/-- **Every statement runs inside of its own transaction**, if every task is enqueued while its
transaction is active: on the connection of its transaction, after its `BEGIN`, with nothing but
statements on the connection since, and not after its last command. -/
theorem statements_framed (hnodup : connections.Nodup) (hrun : Run InTime connections threads)
    {before after : List Entry} {entry : Entry}
    (hlog : threads.shared.log = before ++ entry :: after)
    (hstatement : entry.command = .statement) :
    (∃ transaction, threads.shared.transactions[entry.transaction]? = some transaction ∧
      entry.connection = transaction.lease) ∧
    (∃ front rest, before = front ++ ⟨entry.transaction, entry.connection, .start⟩ :: rest ∧
      ∀ other ∈ rest, other.connection = entry.connection → other.command = .statement) ∧
    ∀ other ∈ before, other.transaction = entry.transaction → other.command.ends = false := by
  have hframed := framed_run hnodup hrun
  obtain ⟨hholder, hlast⟩ := hframed.statements before entry after hlog hstatement
  refine ⟨hframed.leases entry (hlog ▸ mem_append_right _ mem_cons_self) hstatement,
    exists_start_of_holder hholder, ?_⟩
  intro other hmem heq
  by_contra hends
  refine absurd hlast (Nat.pos_iff_ne_zero.1 (countP_pos_iff.2 ⟨other, hmem, ?_⟩))
  simp [heq, Bool.eq_true_of_not_eq_false hends]

/-- A task that is awaited while its transaction is active. -/
theorem statements_framed_once : ∃ threads, Run InTime [7] threads ∧
    threads.shared.log = [⟨0, 7, .start⟩] ++ ⟨0, 7, .statement⟩ :: [⟨0, 7, .last .commit⟩] ∧
    ∃ front rest, [⟨0, 7, .start⟩] = front ++ (⟨0, 7, .start⟩ : Entry) :: rest ∧
      ∀ other ∈ rest, other.connection = 7 → other.command = .statement := by
  have hstart : Run InTime [7] ⟨.new [7], []⟩ := .start
  have hopening := (hstart.enter .transaction trivial).take [] [] (.transaction rfl) (by trivial)
  have hactive := (hopening.take [] [] (.begin rfl) (by trivial)).take [] [] (.begun rfl)
    (by trivial)
  have hasked := (hactive.enter (.query 0) trivial).take [[]] [] .query (by trivial)
  have hstarted := (hasked.enter (.start 0) trivial).take [[], []] [] (.start rfl) (by trivial)
  have hstated := hstarted.take [[], []] [] (.enqueue rfl) (by rintro _ ⟨⟩; rfl)
  have hrun := ((hstated.enter (.commit 0) trivial).take [[], [], []] [] .commit (by trivial)).take
    [[], [], []] [] (.finalize rfl) (by trivial)
  exact ⟨_, hrun, rfl,
    (statements_framed (by decide) hrun (show _ = [⟨0, 7, .start⟩] ++ _ :: _ from rfl) rfl).2.1⟩

/-- A task that is awaited after the commit: its statement is enqueued inside of the next
transaction on the connection. -/
theorem late_statement_in_next_transaction : ∃ threads, Run (fun _ _ => True) [7] threads ∧
    threads.shared.log = [⟨0, 7, .start⟩, ⟨0, 7, .last .commit⟩, ⟨1, 7, .start⟩,
      ⟨0, 7, .statement⟩] := by
  have hstart : Run (fun _ _ => True) [7] ⟨.new [7], []⟩ := .start
  have hopening := (hstart.enter .transaction trivial).take [] [] (.transaction rfl) trivial
  have hactive := (hopening.take [] [] (.begin rfl) trivial).take [] [] (.begun rfl) trivial
  have hasked := (hactive.enter (.query 0) trivial).take [[]] [] .query trivial
  have hcommitted := ((hasked.enter (.commit 0) trivial).take [[], []] [] .commit trivial).take
    [[], []] [] (.finalize rfl) trivial
  have hreleased := (hcommitted.take [[], []] [] (.releaseLease rfl) trivial).take [[], []] []
    .release trivial
  have hnext := (hreleased.enter .transaction trivial).take [[], [], []] [] (.transaction rfl)
    trivial
  have hbegun := hnext.take [[], [], []] [] (.begin rfl) trivial
  have hstarted := (hbegun.enter (.start 0) trivial).take [[], [], [], [Action.begun 1]] []
    (.start rfl) trivial
  exact ⟨_, hstarted.take [[], [], [], [Action.begun 1]] [] (.enqueue rfl) trivial, rfl⟩

end Idhan.Database
