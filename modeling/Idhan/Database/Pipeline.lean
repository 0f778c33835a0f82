import Idhan.Database.Connection
import Mathlib.Data.List.Nodup

/-!
# Every query gets its own answer

On a pipelined connection the operations in flight and what libpq has still to return are in step:
of the first operation some of its items are left, and of every other one all of them.
`DBOperation::send` gives the statement to libpq before it looks at the phase of the operation, so
this is lost if an operation is abandoned between the moment at which the pump finds it queued and
the end of its `send`.

## The invariant

`Libpq.unread` is what libpq has still to return: its buffer, and the items of the replies on the
socket and with the server.  `Aligned` says that these are the items of the operations in flight and
of the one that was given to libpq and is not in flight yet, in their order, and in which state each
operation is, by the place where it is.

## What it gives

`aligned_run` keeps it in all runs in which no operation is abandoned while it is being sent;
`abandoned_while_sent_throws` is one that does not.  A result goes to the first operation in flight
and is of its own answer, so that `own_answers` is read off `Aligned` for the operations, and off
`Operation.Consumers` for those who wait for them.
-/

namespace Idhan.Database

open List

variable {ρ ε : Type}

/-! ## What libpq has still to return -/

namespace Libpq

/-- What libpq has still to return. -/
def unread (libpq : Libpq) : List Item :=
  libpq.buffer ++ (libpq.socket ++ libpq.server).flatMap (items true)

theorem unread_send (statement : ℕ) (libpq : Libpq) :
    (libpq.send statement).unread = libpq.unread ++ items true statement := by
  simp [unread, send]

theorem unread_arrive (libpq : Libpq) : libpq.arrive.unread = libpq.unread := by
  rw [unread, unread, arrive, append_assoc, take_append_drop]

theorem unread_consumeInput (libpq : Libpq) : (libpq.consumeInput true).unread = libpq.unread := by
  simp [unread, consumeInput]

/-- `PQgetResult` returns what is first, and a null if there is nothing. -/
theorem getResult_eq {libpq libpq' : Libpq} {item : Item}
    (h : libpq.getResult true = some (item, libpq')) :
    libpq.unread = item :: libpq'.unread ∨ libpq.unread = [] ∧ item = .null ∧ libpq' = libpq := by
  obtain ⟨server, socket, buffer⟩ := libpq
  unfold getResult at h
  cases buffer with
  | cons first rest =>
    cases h
    exact .inl rfl
  | nil =>
    cases socket with
    | cons statement others =>
      cases h
      left
      simp [unread, items, List.flatMap]
    | nil =>
      simp only [flatMap_nil] at h
      split at h
      · next hserver =>
        cases h
        right
        rw [List.isEmpty_iff] at hserver
        simp [unread, hserver]
      · cases h

end Libpq

/-! ## Operations by their places -/

namespace Operation

/-- The operation has been told the answer to its own statement, and nothing else. -/
def Told (answer : Answer ρ ε) (operation : Operation ρ ε) : Prop :=
  match answer with
  | .tuplesOk result | .commandOk result => operation.result = some result ∧ operation.error = none
  | .error error => operation.result = none ∧ operation.error = some (.server error)

/-- The operation has been told nothing. -/
def Fresh (operation : Operation ρ ε) : Prop :=
  operation.result = none ∧ operation.error = none

/-- The operation was abandoned before it was sent. -/
def Dropped (operation : Operation ρ ε) : Prop :=
  operation.phase = .completed ∧ operation.result = none ∧ operation.error = some .cancelled

/-- An operation that has not been started. -/
def Unstarted (operation : Operation ρ ε) : Prop :=
  operation.phase = .cold ∧ operation.Fresh ∨ operation.Dropped

/-- An operation that is to be sent. -/
def Ready (operation : Operation ρ ε) : Prop :=
  operation.phase = .queued ∧ operation.Fresh

/-- An operation that waits to be sent. -/
def Waiting (operation : Operation ρ ε) : Prop :=
  operation.Ready ∨ operation.Dropped

/-- An operation that was sent. -/
def Flying (operation : Operation ρ ε) : Prop :=
  operation.phase = .sent ∧ operation.Fresh

/-- An operation that was answered. -/
def Done (answer : Answer ρ ε) (operation : Operation ρ ε) : Prop :=
  operation.phase = .completed ∧ operation.Told answer

/-- What the consumer is told is not changed by the consumer. -/
structure SameCore (operation operation' : Operation ρ ε) : Prop where
  phase : operation'.phase = operation.phase
  result : operation'.result = operation.result
  error : operation'.error = operation.error

namespace SameCore

variable {a b : Operation ρ ε} {answer : Answer ρ ε}

section

variable (h : a.SameCore b)
include h

theorem told (hP : a.Told answer) : b.Told answer := by
  cases answer <;> simpa only [Told, h.result, h.error] using hP

theorem fresh (hP : a.Fresh) : b.Fresh := by
  rw [Fresh, h.result, h.error]
  exact hP

theorem dropped (hP : a.Dropped) : b.Dropped := by
  rw [Dropped, h.phase, h.result, h.error]
  exact hP

theorem ready (hP : a.Ready) : b.Ready :=
  ⟨h.phase.trans hP.1, h.fresh hP.2⟩

theorem waiting (hP : a.Waiting) : b.Waiting :=
  hP.imp h.ready h.dropped

theorem unstarted (hP : a.Unstarted) : b.Unstarted :=
  hP.imp (fun hcold => ⟨h.phase.trans hcold.1, h.fresh hcold.2⟩) h.dropped

theorem flying (hP : a.Flying) : b.Flying :=
  ⟨h.phase.trans hP.1, h.fresh hP.2⟩

theorem done (hP : a.Done answer) : b.Done answer :=
  ⟨h.phase.trans hP.1, h.told hP.2⟩

end

end SameCore

variable {operation : Operation ρ ε}

theorem not_of_cold (h : operation.phase = .cold) :
    ¬operation.Waiting ∧ ¬operation.Ready ∧ ¬operation.Flying ∧ ∀ answer,
    ¬operation.Done answer := by
  simp [Waiting, Ready, Dropped, Flying, Done, h]

theorem Flying.accept (h : operation.Flying) (answer : Answer ρ ε) :
    ∃ operation', operation.accept answer = .ok operation' ∧ operation'.phase = .synchronizing ∧
    operation'.Told answer := by
  obtain ⟨hphase, hresult, herror⟩ := h
  have hsent : operation.isSent = true := by simp [isSent, hphase]
  cases answer with
  | tuplesOk result | commandOk result =>
    refine ⟨{ operation with result := some result, phase := .synchronizing }, ?_, rfl, rfl, herror⟩
    simp [Operation.accept, acceptResult, hsent, hresult]
  | error error =>
    refine ⟨{ operation with error := some (.server error), phase := .synchronizing }, ?_, rfl,
      hresult, rfl⟩
    simp [Operation.accept, acceptFailure, hsent]

theorem complete_of_synchronizing {answer : Answer ρ ε} (hphase : operation.phase = .synchronizing)
    (htold : operation.Told answer) :
    ∃ operation', operation.complete = .ok operation' ∧ operation'.Done answer := by
  refine ⟨{ operation.resume with phase := .completed }, ?_, rfl, ?_⟩
  · simp [complete, isSent, hphase]
  · cases answer <;> exact htold

theorem sameCore_registerContinuation {operation' : Operation ρ ε} {consumer : ℕ}
    (h : operation.registerContinuation consumer = .ok operation') :
    operation.SameCore operation' := by
  unfold registerContinuation at h
  split at h
  · cases h
  · simp only at h
    split at h
    · cases h
      exact ⟨rfl, rfl, rfl⟩
    · cases h
      exact ⟨rfl, rfl, rfl⟩

theorem markSent_of_ready (h : operation.Ready) :
    ∃ operation', operation.markSent = .ok operation' ∧ operation'.Flying :=
  ⟨{ operation with phase := .sent }, by simp [markSent, h.1], rfl, h.2⟩

end Operation

/-! ## Places -/

namespace Pump

/-- The operation that was taken from the queue. -/
def popped : Pump → List ℕ
  | .checking _ id | .sending _ id | .marking _ id | .pushing _ id => [id]
  | _ => []

/-- The operation whose phase has not been looked at. -/
def unchecked : Pump → List ℕ
  | .checking _ id => [id]
  | _ => []

/-- The operation that is being sent, and may not be abandoned. -/
def between : Pump → List ℕ
  | .sending _ id | .marking _ id => [id]
  | _ => []

/-- The operation that was sent and is not among those in flight. -/
def pushed : Pump → List ℕ
  | .pushing _ id => [id]
  | _ => []

/-- The operation whose statement was given to libpq and that is not among those in flight. -/
def transit : Pump → List ℕ
  | .marking _ id | .pushing _ id => [id]
  | _ => []

theorem popped_eq (pump : Pump) :
    pump.popped = pump.unchecked ++ (pump.between ++ pump.pushed) := by
  cases pump <;> rfl

theorem transit_subset (pump : Pump) : pump.transit ⊆ pump.between ++ pump.pushed := by
  cases pump <;> simp [transit, between, pushed]

/-- The null behind a result was just read. -/
def advanced : Pump → Bool
  | .reading _ advanced_delimiter => advanced_delimiter
  | _ => false

end Pump

namespace DbConnection

variable (answers : ℕ → Answer ρ ε) {c c' : DbConnection ρ ε} {id : ℕ}

/-- There is such an operation. -/
def At (operations : List (Operation ρ ε)) (id : ℕ) (P : Operation ρ ε → Prop) : Prop :=
  ∃ operation, operations[id]? = some operation ∧ P operation

/-- All the operations that are on their way. -/
def line (c : DbConnection ρ ε) : List ℕ :=
  c.starting ++ (c.queued ++ (c.pump.popped ++ (c.inflight ++ c.retired)))

/-- What is left of the items of the first operation in flight. -/
def Left (c : DbConnection ρ ε) (left : List Item) : Prop :=
  match c.inflight with
  | [] => left = []
  | id :: _ => At c.operations id fun operation =>
    operation.Flying ∧ left = items true id ∧ c.pump.advanced = false ∨
      operation.phase = .synchronizing ∧ operation.Told (answers id) ∧
      (left = [.null, .sync] ∧ c.pump.advanced = false ∨ left = [.sync])

/-- The operations in flight and what libpq has still to return are in step. -/
structure Aligned (c : DbConnection ρ ε) : Prop where
  pipeline : c.pipeline = true
  nodup : c.line.Nodup
  sent : c.sent = c.retired ++ (c.inflight ++ c.pump.transit)
  waiting : ∀ id ∈ c.starting ++ (c.queued ++ c.pump.unchecked),
    At c.operations id Operation.Waiting
  ready : ∀ id ∈ c.pump.between, At c.operations id Operation.Ready
  flying : ∀ id ∈ c.inflight.drop 1 ++ c.pump.pushed, At c.operations id Operation.Flying
  done : ∀ id ∈ c.retired, At c.operations id (Operation.Done (answers id))
  other : ∀ id operation, c.operations[id]? = some operation → id ∉ c.line → operation.Unstarted
  stream : ∃ left, c.Left answers left ∧
    c.libpq.unread = left ++ (c.inflight.drop 1 ++ c.pump.transit).flatMap (items true)
  fine : ∀ error, c.pump ≠ .threw error

variable {answers} {old operation : Operation ρ ε} {count : ℕ} {rest : List ℕ} {libpq : Libpq}
  {advanced_delimiter : Bool} {left : List Item} {next : DbConnection ρ ε → DbConnection ρ ε}
  {move : Move} {f : Operation ρ ε → Except LogicError (Operation ρ ε)}

section At

variable {operations : List (Operation ρ ε)} {P Q : Operation ρ ε → Prop} {other : ℕ}
  {old operation : Operation ρ ε}

theorem At.imp (h : At operations id P) (himp : ∀ operation, P operation → Q operation) :
    At operations id Q :=
  ⟨h.choose, h.choose_spec.1, himp _ h.choose_spec.2⟩

/-- Another operation changes. -/
theorem At.set (h : At operations id P) (hne : other ≠ id) (operation : Operation ρ ε) :
    At (operations.set other operation) id P := by
  obtain ⟨old, hold, hP⟩ := h
  exact ⟨old, by rw [getElem?_set_ne hne]; exact hold, hP⟩

/-- The operation itself changes. -/
theorem at_set_self (hget : operations[id]? = some old) (hP : P operation) :
    At (operations.set id operation) id P := by
  obtain ⟨hlt, _⟩ := List.getElem?_eq_some_iff.1 hget
  exact ⟨operation, List.getElem?_set_self hlt, hP⟩

theorem At.holds (h : At operations id P) (hget : operations[id]? = some operation) :
    P operation := by
  obtain ⟨other, hother, hP⟩ := h
  rwa [Option.some.inj (hget.symm.trans hother)]

/-- An operation changes, and what held of it before holds afterwards. -/
theorem At.set_of_imp (h : At operations id P) (hget : operations[other]? = some old)
    (hP : P old → P operation) :
    At (operations.set other operation) id P := by
  by_cases hne : other = id
  · subst hne
    exact at_set_self hget (hP (h.holds hget))
  · exact h.set hne operation

theorem At.append (h : At operations id P) (added : List (Operation ρ ε)) :
    At (operations ++ added) id P := by
  obtain ⟨operation, hget, hP⟩ := h
  exact ⟨operation, List.getElem?_append_left (List.getElem?_eq_some_iff.1 hget).1 ▸ hget, hP⟩

end At

/-! ## Steps that change no operation -/

theorem Left.of_eq (h : c.Left answers left) (hinflight : c'.inflight = c.inflight)
    (hops : c'.operations = c.operations)
    (hadvanced : c'.pump.advanced = true → c.pump.advanced = true) : c'.Left answers left := by
  have hfalse : c.pump.advanced = false → c'.pump.advanced = false := by
    intro hold
    by_contra hnew
    rw [hadvanced (by simpa using hnew)] at hold
    cases hold
  unfold Left at h ⊢
  rw [hinflight, hops]
  split at h
  · exact h
  · refine h.imp fun operation hcases =>
      hcases.imp (fun hflying => ⟨hflying.1, hflying.2.1, hfalse hflying.2.2⟩) fun hsync => ?_
    exact ⟨hsync.1, hsync.2.1, hsync.2.2.imp (fun hnull => ⟨hnull.1, hfalse hnull.2⟩) fun hlast =>
      hlast⟩

section

variable (h : c.Aligned answers)
include h

/-- An operation in flight waits for its answer or has it. -/
theorem Aligned.at_of_mem_inflight (hmem : id ∈ c.inflight) : At c.operations id fun operation =>
    operation.Flying ∨ operation.phase = .synchronizing ∧ operation.Told (answers id) := by
  obtain ⟨left, hleft, _⟩ := h.stream
  unfold Left at hleft
  split at hleft
  · next hinflight =>
    rw [hinflight] at hmem
    cases hmem
  · next hinflight =>
    rw [hinflight] at hmem
    rcases mem_cons.1 hmem with rfl | hmem
    · exact hleft.imp fun _ hcases => hcases.imp And.left fun hsync => ⟨hsync.1, hsync.2.1⟩
    · exact (h.flying id (mem_append_left _ (by rw [hinflight]; exact hmem))).imp fun _ => .inl

/-- The operations that are on their way, by how far they have come. -/
theorem Aligned.at_of_mem_line (hmem : id ∈ c.line) : At c.operations id fun operation =>
    operation.Waiting ∨ operation.Flying ∨ operation.phase = .synchronizing ∧
    operation.Told (answers id) ∨
      operation.Done (answers id) := by
  simp only [line, Pump.popped_eq, mem_append] at hmem
  rcases hmem with hmem | hmem | (hmem | hmem | hmem) | hmem | hmem
  · exact (h.waiting id (by simp [hmem])).imp fun _ hwaiting => .inl hwaiting
  · exact (h.waiting id (by simp [hmem])).imp fun _ hwaiting => .inl hwaiting
  · exact (h.waiting id (by simp [hmem])).imp fun _ hwaiting => .inl hwaiting
  · exact (h.ready id hmem).imp fun _ hready => .inl (.inl hready)
  · exact (h.flying id (mem_append_right _ hmem)).imp fun _ hflying => .inr (.inl hflying)
  · exact (h.at_of_mem_inflight hmem).imp fun _ hcases => .inr (hcases.imp_right .inl)
  · exact (h.done id hmem).imp fun _ hdone => .inr (.inr (.inr hdone))

/-- The operations, by how far they have come. -/
theorem Aligned.state (hget : c.operations[id]? = some operation) :
    operation.Unstarted ∨ operation.Waiting ∨ operation.Flying ∨ operation.phase = .synchronizing ∧
    operation.Told (answers id) ∨ operation.Done (answers id) := by
  by_cases hmem : id ∈ c.line
  · exact .inr ((h.at_of_mem_line hmem).holds hget)
  · exact .inl (h.other id operation hget hmem)

/-- An operation that has not been sent has been told nothing. -/
theorem Aligned.fresh (hget : c.operations[id]? = some operation)
    (hphase : operation.phase = .cold ∨ operation.phase = .queued) : operation.Fresh := by
  rcases h.state hget with (hcold | hdropped) | (hready | hdropped) | hflying | hsync | hdone
  · exact hcold.2
  · rcases hphase with hphase | hphase <;> cases hphase.symm.trans hdropped.1
  · exact hready.2
  · rcases hphase with hphase | hphase <;> cases hphase.symm.trans hdropped.1
  · exact hflying.2
  · rcases hphase with hphase | hphase <;> cases hphase.symm.trans hsync.1
  · rcases hphase with hphase | hphase <;> cases hphase.symm.trans hdone.1

/-- An operation that has not been started is not on its way. -/
theorem Aligned.not_mem_line (hget : c.operations[id]? = some operation)
    (hphase : operation.phase = .cold) : id ∉ c.line := by
  intro hmem
  obtain ⟨hnotWaiting, -, hnotFlying, hnotDone⟩ := Operation.not_of_cold hphase
  rcases (h.at_of_mem_line hmem).holds hget with hwaiting | hflying | hsync | hdone
  · exact hnotWaiting hwaiting
  · exact hnotFlying hflying
  · cases hphase.symm.trans hsync.1
  · exact hnotDone _ hdone

/-- A new pump, or a step from one call of libpq to another. -/
theorem Aligned.advance {pump : Pump} (hfine : ∀ error, pump ≠ .threw error)
    (hpopped : pump.popped = []) (hold : c.pump.popped = []) (hadvanced : pump.advanced = true →
      c.pump.advanced = true) (hunread : libpq.unread = c.libpq.unread) :
    Aligned answers { c with pump, libpq } := by
  have hparts : ∀ {p : Pump}, p.popped = [] → p.unchecked = [] ∧ p.between = [] ∧ p.pushed = [] ∧
      p.transit = [] := by
    intro p hp
    cases p <;> first | exact ⟨rfl, rfl, rfl, rfl⟩ | cases hp
  obtain ⟨hunchecked, hbetween, hpushed, htransit⟩ := hparts hpopped
  obtain ⟨hunchecked', -, hpushed', htransit'⟩ := hparts hold
  refine ⟨h.pipeline, ?_, ?_, ?_, ?_, ?_, h.done, ?_, ?_, hfine⟩
  · simpa only [line, hpopped, hold] using h.nodup
  · simpa only [htransit, htransit'] using h.sent
  · simpa only [hunchecked, hunchecked'] using h.waiting
  · simp [hbetween]
  · simpa only [hpushed, hpushed'] using h.flying
  · simpa only [line, hpopped, hold] using h.other
  · obtain ⟨left, hleft, hstream⟩ := h.stream
    exact ⟨left, hleft.of_eq rfl rfl hadvanced,
      by simpa only [htransit, htransit', hunread] using hstream⟩

end

/-! ## Dispatching -/

section

variable (h : c.Aligned answers)
include h

theorem Aligned.pop (hpump : c.pump = .dispatching count)
    (hqueued : c.queued = id :: rest) :
    Aligned answers { c with queued := rest, pump := .checking count id } := by
  have hline : (line { c with queued := rest, pump := .checking count id }).Perm c.line := by
    rw [line, line, hqueued, hpump]
    exact perm_middle.append_left _
  cases c
  cases hpump
  cases hqueued
  refine ⟨h.pipeline, hline.nodup_iff.2 h.nodup, h.sent, fun other hmem => h.waiting other ?_,
    forall_mem_nil _, h.flying, h.done, fun other operation hget hmem => h.other other operation
    hget fun hin => hmem (hline.mem_iff.2 hin), h.stream,
    fun _ => by simp⟩
  simp only [Pump.unchecked, mem_append, mem_cons, not_mem_nil] at hmem ⊢
  tauto

/-- An operation that was abandoned is passed over. -/
theorem Aligned.skip (hpump : c.pump = .checking count id)
    (hdropped : At c.operations id Operation.Dropped) :
    Aligned answers { c with pump := .dispatching (count + 1) } := by
  cases c
  cases hpump
  refine ⟨h.pipeline, h.nodup.sublist (((sublist_append_right _ _).append_left _).append_left _),
    h.sent, fun other hmem => h.waiting other ?_, forall_mem_nil _, h.flying, h.done,
    fun other operation hget hmem => ?_, h.stream, fun _ => by simp⟩
  · simp only [Pump.unchecked, mem_append, not_mem_nil] at hmem ⊢
    tauto
  · by_cases heq : other = id
    · exact .inr (hdropped.holds (heq ▸ hget))
    · refine h.other other operation hget ?_
      simp only [line, Pump.popped, mem_append, mem_singleton, not_mem_nil] at hmem ⊢
      tauto

/-- An operation that was found queued is to be sent. -/
theorem Aligned.check (hpump : c.pump = .checking count id)
    (hready : At c.operations id Operation.Ready) :
    Aligned answers { c with pump := .sending count id } := by
  cases c
  cases hpump
  refine { h with
    waiting := fun other hmem => h.waiting other ?_
    ready := forall_mem_singleton.2 hready
    fine := fun _ => by simp }
  simp only [Pump.unchecked, mem_append, not_mem_nil] at hmem ⊢
  tauto

/-- The statement is given to libpq. -/
theorem Aligned.send (hpump : c.pump = .sending count id) :
    Aligned answers { c with
      libpq := c.libpq.send id, sent := c.sent ++ [id], pump := .marking count id } := by
  have hsent : c.sent ++ [id] = c.retired ++ (c.inflight ++ [id]) := by
    simp only [h.sent, hpump, Pump.transit, append_nil, append_assoc]
  cases c
  cases hpump
  refine { h with sent := hsent, stream := ?_, fine := fun _ => by simp }
  obtain ⟨left, hleft, hstream⟩ := h.stream
  refine ⟨left, hleft, ?_⟩
  simp only [Libpq.unread_send, hstream, Pump.transit]
  simp

/-- Who was taken from the queue is nowhere else. -/
theorem Aligned.ne_of_popped (other : ℕ) (hpopped : c.pump.popped = [id])
    (hmem : other ∈ c.starting ++ (c.queued ++ (c.inflight ++ c.retired))) : id ≠ other := by
  have hperm : c.line.Perm (id :: (c.starting ++ (c.queued ++ (c.inflight ++ c.retired)))) := by
    have hmiddle : (c.starting ++ c.queued ++ id :: (c.inflight ++ c.retired)).Perm _ := perm_middle
    simpa only [line, hpopped, append_assoc, singleton_append] using hmiddle
  rintro rfl
  exact (nodup_cons.1 (hperm.nodup_iff.1 h.nodup)).1 hmem

end

theorem Left.set (h : c.Left answers left) (hne : ∀ other ∈ c.inflight, id ≠ other)
    (hinflight : c'.inflight = c.inflight) (hops : c'.operations = c.operations.set id operation)
    (hadvanced : c'.pump.advanced = c.pump.advanced) : c'.Left answers left := by
  unfold Left at h ⊢
  rw [hinflight, hadvanced]
  cases hfirst : c.inflight with
  | nil =>
    rw [hfirst] at h
    exact h
  | cons first rest =>
    rw [hfirst] at h
    rw [hops]
    exact h.set (hne first (by rw [hfirst]; exact mem_cons_self)) operation

/-- The operation is marked as sent. -/
theorem Aligned.mark (h : c.Aligned answers) (hpump : c.pump = .marking count id)
    (hget : c.operations[id]? = some old) (hflying : operation.Flying) :
    Aligned answers { c.put id operation with pump := .pushing count id } := by
  cases c
  cases hpump
  have hne := fun {other : ℕ} => h.ne_of_popped other rfl
  refine ⟨h.pipeline, h.nodup, h.sent, fun other hmem => (h.waiting other hmem).set (hne ?_) _,
    forall_mem_nil _, fun other hmem => ?_, fun other hmem => (h.done other hmem).set (hne ?_) _,
    fun other new hother hmem => h.other other new ?_ hmem, ?_,
    fun _ => by simp⟩
  · simp only [put, Pump.unchecked, mem_append, not_mem_nil] at hmem ⊢
    tauto
  · rcases mem_append.1 hmem with hmem | hmem
    · have hmem' := mem_of_mem_drop hmem
      refine (h.flying other (mem_append_left _ hmem)).set (hne ?_) _
      simp only [put, mem_append] at hmem' ⊢
      tauto
    · rw [mem_singleton.1 hmem]
      exact at_set_self hget hflying
  · simp only [put, mem_append] at hmem ⊢
    tauto
  · rw [put, getElem?_set_ne (by rintro rfl; exact hmem (by simp [line, Pump.popped]))] at hother
    exact hother
  · obtain ⟨left, hleft, hstream⟩ := h.stream
    refine ⟨left, hleft.set (fun other hmem => hne ?_) rfl rfl rfl, hstream⟩
    simp only [mem_append]
    tauto

/-- The operation is put in flight. -/
theorem Aligned.push (h : c.Aligned answers) (hpump : c.pump = .pushing count id) :
    Aligned answers { c with
      inflight := c.inflight ++ [id], pump := .dispatching (count + 1) } := by
  have hline :
      (line { c with inflight := c.inflight ++ [id], pump := .dispatching (count + 1) }).Perm
    c.line := by
    rw [line, line, hpump, append_assoc]
    exact (perm_middle.append_left _).append_left _
  have hsent : c.sent = c.retired ++ (c.inflight ++ [id] ++ []) := by
    rw [h.sent, hpump, append_nil]
    rfl
  cases c
  cases hpump
  have hpushed := h.flying id (mem_append_right _ (mem_singleton_self _))
  refine ⟨h.pipeline, hline.nodup_iff.2 h.nodup, hsent, h.waiting, forall_mem_nil _,
    fun other hmem => ?_, h.done, fun other operation hget hmem => h.other other operation hget
    fun hin => hmem (hline.mem_iff.2 hin), ?_, fun _ => by simp⟩
  · simp only [Pump.pushed, append_nil] at hmem
    rcases mem_append.1 (drop_append ▸ hmem) with hmem | hmem
    · exact h.flying other (mem_append_left _ hmem)
    · rw [mem_singleton.1 (mem_of_mem_drop hmem)]
      exact hpushed
  · obtain ⟨left, hleft, hstream⟩ := h.stream
    rename_i inflight _ _ _
    cases inflight with
    | nil =>
      -- nothing was in flight, so all the items of the operation are left
      refine ⟨items true id, hpushed.imp fun operation hflying => .inl ⟨hflying, rfl, rfl⟩, ?_⟩
      rw [hstream, show left = [] from hleft]
      rfl
    | cons first rest =>
      refine ⟨left, hleft, ?_⟩
      rw [hstream]
      simp [Pump.transit]

/-! ## Reading -/

/-- The first operation in flight is nowhere else. -/
theorem Aligned.ne_of_first (h : c.Aligned answers) (hinflight : c.inflight = id :: rest)
    (other : ℕ)
    (hmem : other ∈ c.starting ++ (c.queued ++ (c.pump.popped ++ (rest ++ c.retired)))) :
    id ≠ other := by
  have hperm :
      c.line.Perm (id :: (c.starting ++ (c.queued ++ (c.pump.popped ++ (rest ++ c.retired))))) := by
    have hmiddle : (c.starting ++ c.queued ++ c.pump.popped ++ id :: (rest ++ c.retired)).Perm _ :=
      perm_middle
    simpa only [line, hinflight, append_assoc, cons_append] using hmiddle
  rintro rfl
  exact (nodup_cons.1 (hperm.nodup_iff.1 h.nodup)).1 hmem

section

variable (h : c.Aligned answers) (hpump : c.pump = .reading count advanced_delimiter)
  (hinflight : c.inflight = id :: rest) (hget : c.operations[id]? = some old)
include h hpump hinflight hget

/-- The first operation gets its answer. -/
theorem Aligned.hear (hphase : operation.phase = .synchronizing)
    (htold : operation.Told (answers id))
    (hunread : libpq.unread = [.null, .sync] ++ rest.flatMap (items true)) :
    Aligned answers { c with
      operations := c.operations.set id operation, libpq, pump := .reading (count + 1) false } := by
  cases c
  cases hpump
  cases hinflight
  have hne := fun {other : ℕ} => h.ne_of_first rfl other
  refine ⟨h.pipeline, h.nodup, h.sent, fun other hmem => (h.waiting other hmem).set (hne ?_) _,
    forall_mem_nil _, fun other hmem => (h.flying other hmem).set (hne ?_) _,
    fun other hmem => (h.done other hmem).set (hne ?_) _,
    fun other new hother hmem => h.other other new ?_ hmem,
    ⟨[.null, .sync], at_set_self hget (.inr ⟨hphase, htold, .inl ⟨rfl, rfl⟩⟩), ?_⟩, fun _ => by
      simp⟩
  · simp only [Pump.unchecked, mem_append, not_mem_nil] at hmem ⊢
    tauto
  · simp only [drop_one, tail_cons, Pump.pushed, mem_append, not_mem_nil] at hmem ⊢
    tauto
  · simp only [mem_append]
    tauto
  · rw [getElem?_set_ne (by rintro rfl; exact hmem (by simp [line]))] at hother
    exact hother
  · simp only [hunread, Pump.transit, drop_one, tail_cons, append_nil]

/-- The null behind the result of the first operation is read. -/
theorem Aligned.delimit (hphase : old.phase = .synchronizing) (htold : old.Told (answers id))
    (hunread : libpq.unread = [.sync] ++ rest.flatMap (items true)) :
    Aligned answers { c with libpq, pump := .reading (count + 1) true } := by
  cases c
  cases hpump
  cases hinflight
  refine { h with
    ready := forall_mem_nil _
    stream := ⟨[.sync], ⟨old, hget, .inr ⟨hphase, htold, .inr rfl⟩⟩, ?_⟩
    fine := fun _ => by simp }
  simp only [hunread, Pump.transit, drop_one, tail_cons, append_nil]

/-- The first operation is completed and retired. -/
theorem Aligned.retire (hdone : operation.Done (answers id))
    (hunread : libpq.unread = rest.flatMap (items true)) : Aligned answers { c with
      operations := c.operations.set id operation, libpq, inflight := rest,
      retired := c.retired ++ [id], pump := .reading (count + 1) false } := by
  have hline :
      (line { c with
        inflight := rest, retired := c.retired ++ [id], pump := .reading (count + 1) false }).Perm
          c.line := by
    rw [line, line, hpump, hinflight, ← append_assoc rest]
    exact ((perm_append_singleton id (rest ++ c.retired)).append_left _).append_left _
  have hsent : c.sent = c.retired ++ [id] ++ (rest ++ []) := by
    rw [h.sent, hpump, hinflight, append_assoc]
    rfl
  have hne := fun {other : ℕ} => h.ne_of_first hinflight other
  have hflying : ∀ other ∈ rest, At (c.operations.set id operation) other Operation.Flying := by
    intro other hmem
    refine (h.flying other (mem_append_left _ (by rw [hinflight]; exact hmem))).set (hne ?_)
      operation
    simp only [mem_append]
    tauto
  cases c
  cases hpump
  cases hinflight
  refine ⟨h.pipeline, hline.nodup_iff.2 h.nodup, hsent,
    fun other hmem => (h.waiting other hmem).set (hne ?_) _, forall_mem_nil _,
    fun other hmem => hflying other ?_, fun other hmem => ?_,
    fun other new hother hmem => ?_, ?_, fun _ => by simp⟩
  · simp only [Pump.unchecked, mem_append, not_mem_nil] at hmem ⊢
    tauto
  · simp only [Pump.pushed, append_nil] at hmem
    exact mem_of_mem_drop hmem
  · rcases mem_append.1 hmem with hmem | hmem
    · refine (h.done other hmem).set (hne ?_) _
      simp only [mem_append]
      tauto
    · rw [mem_singleton.1 hmem]
      exact at_set_self hget hdone
  · refine h.other other new ?_ fun hin => hmem (hline.mem_iff.2 hin)
    rw [getElem?_set_ne (by rintro rfl; exact hmem (by simp [line]))] at hother
    exact hother
  · cases hrest : rest with
    | nil => exact ⟨[], rfl, by rw [hunread, hrest]; rfl⟩
    | cons second others =>
      refine ⟨items true second, ?_, by rw [hunread, hrest]; simp [Pump.transit]⟩
      exact (hflying second (by rw [hrest]; exact mem_cons_self)).imp fun operation hfly =>
        .inl ⟨hfly, rfl, rfl⟩

end

theorem update_eq (hget : c.operations[id]? = some old) (hf : f old = .ok operation) :
    c.update id f next = next (c.put id operation) := by
  rw [update, hget]
  simp only [hf]

section Handle

variable {count : ℕ} {advanced_delimiter : Bool} {rest : List ℕ} {old operation : Operation ρ ε}

theorem handle_null_of_nil (hinflight : c.inflight = []) :
    c.handle answers count advanced_delimiter .null = { c with pump := .watching } := by
  unfold handle
  rw [hinflight]

theorem handle_null (hpipeline : c.pipeline = true) (hinflight : c.inflight = id :: rest)
    (hget : c.operations[id]? = some old) (hphase : old.phase = .synchronizing) :
    c.handle answers count false .null = { c with pump := .reading (count + 1) true } := by
  unfold handle
  rw [hinflight]
  simp [hpipeline, hget, Operation.needsSynchronization, hphase]

theorem handle_result (statement : ℕ) (hinflight : c.inflight = id :: rest)
    (hget : c.operations[id]? = some old)
    (haccept : old.accept (answers statement) = .ok operation) :
    c.handle answers count advanced_delimiter (.result statement) =
    { c.put id operation with pump := .reading (count + 1) false } := by
  unfold handle
  rw [hinflight]
  exact update_eq hget haccept

theorem handle_sync (hinflight : c.inflight = id :: rest) (hget : c.operations[id]? = some old)
    (hcomplete : old.complete = .ok operation) :
    c.handle answers count advanced_delimiter .sync =
      { c.put id operation with
        inflight := rest, retired := c.retired ++ [id], pump := .reading (count + 1) false } := by
  unfold handle
  rw [hinflight]
  refine (update_eq hget hcomplete).trans ?_
  simp [retireHead, put, hinflight]

end Handle

/-- A turn of the loop that reads, after which the loop goes on unless there was nothing left. -/
theorem Aligned.handle (h : c.Aligned answers) (hpump : c.pump = .reading count advanced_delimiter)
    {item : Item} (hresult : c.libpq.getResult true = some (item, libpq))
    (hhandle :
      ({ c with libpq } : DbConnection ρ ε).handle answers count advanced_delimiter item = c') :
    c'.Aligned answers ∧ c'.libpq = libpq ∧ (c'.pump = .watching ∧ libpq.unread = [] ∨
      (∃ advanced_delimiter, c'.pump = .reading (count + 1) advanced_delimiter) ∧
      c.libpq.unread.length = libpq.unread.length + 1) := by
  subst hhandle
  obtain ⟨left, hleft, hstream⟩ := h.stream
  have hadvanced : c.pump.advanced = advanced_delimiter := by rw [hpump]; rfl
  rw [hpump, show (Pump.reading count advanced_delimiter).transit = [] from rfl,
    append_nil] at hstream
  by_cases hempty : c.inflight = []
  · -- nothing is due, and a null ends the loop
    unfold Left at hleft
    rw [hempty] at hleft
    rw [hleft, hempty] at hstream
    rcases Libpq.getResult_eq hresult with hsome | ⟨_, rfl, rfl⟩
    · rw [hstream] at hsome
      cases hsome
    · have hnull : c.handle answers count advanced_delimiter .null = { c with pump := .watching } :=
        handle_null_of_nil hempty
      rw [hnull]
      exact ⟨h.advance (by simp) rfl (hpump ▸ rfl) Bool.noConfusion rfl, rfl, .inl ⟨rfl, hstream⟩⟩
  · obtain ⟨id, rest, hinflight⟩ := exists_cons_of_ne_nil hempty
    unfold Left at hleft
    rw [hinflight, hadvanced] at hleft
    obtain ⟨old, hget, hcases⟩ := hleft
    rw [hinflight, drop_one, tail_cons] at hstream
    have hsome : c.libpq.unread = item :: libpq.unread := by
      rcases Libpq.getResult_eq hresult with hsome | ⟨hnone, _⟩
      · exact hsome
      · rw [hstream] at hnone
        rcases hcases with ⟨_, rfl, _⟩ | ⟨_, _, ⟨rfl, _⟩ | rfl⟩ <;> cases hnone
    have hlength : c.libpq.unread.length = libpq.unread.length + 1 := by rw [hsome, length_cons]
    rw [hstream] at hsome
    rcases hcases with ⟨hflying, rfl, _⟩ | ⟨hphase, htold, ⟨rfl, rfl⟩ | rfl⟩
    · obtain ⟨rfl, hunread⟩ := List.cons.inj hsome
      obtain ⟨operation, haccept, hphase, htold⟩ := hflying.accept (answers id)
      have hresult : ({ c with libpq } : DbConnection ρ ε).handle answers count advanced_delimiter
          (.result id) = _ :=
        handle_result id hinflight hget haccept
      rw [hresult]
      exact ⟨h.hear hpump hinflight hget hphase htold hunread.symm, rfl,
        .inr ⟨⟨false, rfl⟩, hlength⟩⟩
    · obtain ⟨rfl, hunread⟩ := List.cons.inj hsome
      have hnull : ({ c with libpq } : DbConnection ρ ε).handle answers count false .null = _ :=
        handle_null h.pipeline hinflight hget hphase
      rw [hnull]
      exact ⟨h.delimit hpump hinflight hget hphase htold hunread.symm, rfl,
        .inr ⟨⟨true, rfl⟩, hlength⟩⟩
    · obtain ⟨rfl, hunread⟩ := List.cons.inj hsome
      obtain ⟨operation, hcomplete, hdone⟩ := Operation.complete_of_synchronizing hphase htold
      have hsync : ({ c with libpq } : DbConnection ρ ε).handle answers count advanced_delimiter
          .sync = _ :=
        handle_sync hinflight hget hcomplete
      rw [hsync]
      exact ⟨h.retire hpump hinflight hget hdone hunread.symm, rfl, .inr ⟨⟨false, rfl⟩, hlength⟩⟩

theorem queued_of_popDispatchable (h : c.popDispatchable = some (id, rest)) :
    c.queued = id :: rest := by
  unfold popDispatchable at h
  split at h
  · cases h
  · split at h
    · cases h
    · next heq =>
      cases h
      exact heq

/-- **A step of the pump** that is not told of an error by libpq. -/
theorem Aligned.pump (h : c.Aligned answers) (hstep : c.pumpStep answers false = some c') :
    c'.Aligned answers := by
  unfold pumpStep at hstep
  cases hpump : c.pump with
  | idle => simp [hpump] at hstep
  | threw error => exact absurd hpump (h.fine error)
  | dispatching count =>
    simp only [hpump] at hstep
    split at hstep
    · split at hstep
      · next id rest hpop =>
        cases hstep
        exact h.pop hpump (queued_of_popDispatchable hpop)
      · cases hstep
        exact h.advance (by simp) rfl (hpump ▸ rfl) Bool.noConfusion rfl
    · cases hstep
      exact h.advance (by simp) rfl (hpump ▸ rfl) Bool.noConfusion rfl
  | checking count id =>
    obtain ⟨operation, hget, hwaiting⟩ := h.waiting id (by simp [hpump, Pump.unchecked])
    simp only [hpump, hget] at hstep
    rcases hwaiting with hready | hdropped
    · rw [if_neg (by simp [hready.1])] at hstep
      cases hstep
      exact h.check hpump ⟨operation, hget, hready⟩
    · rw [if_pos (by simp [hdropped.1])] at hstep
      cases hstep
      exact h.skip hpump ⟨operation, hget, hdropped⟩
  | sending count id =>
    simp only [hpump] at hstep
    cases hstep
    exact h.send hpump
  | marking count id =>
    obtain ⟨old, hget, hready⟩ := h.ready id (by simp [hpump, Pump.between])
    obtain ⟨operation, hmark, hflying⟩ := Operation.markSent_of_ready hready
    simp only [hpump] at hstep
    rw [update_eq hget hmark] at hstep
    cases hstep
    exact h.mark hpump hget hflying
  | pushing count id =>
    simp only [hpump] at hstep
    cases hstep
    exact h.push hpump
  | flushing | watching =>
    simp only [hpump] at hstep
    cases hstep
    exact h.advance (by simp) rfl (hpump ▸ rfl) Bool.noConfusion rfl
  | consuming =>
    simp only [hpump] at hstep
    cases hstep
    exact h.advance (by simp) rfl (hpump ▸ rfl) Bool.noConfusion
      (by rw [h.pipeline, Libpq.unread_consumeInput])
  | testing =>
    simp only [hpump] at hstep
    cases hstep
    split
    · exact h.advance (by simp) rfl (hpump ▸ rfl) Bool.noConfusion rfl
    · exact h.advance (by simp) rfl (hpump ▸ rfl) Bool.noConfusion rfl
  | reading count advanced_delimiter =>
    simp only [hpump] at hstep
    split at hstep
    · obtain ⟨⟨item, libpq⟩, hresult, rfl⟩ := Option.map_eq_some_iff.1 hstep
      rw [h.pipeline] at hresult
      exact (h.handle hpump hresult (by simp only [hpump])).1
    · cases hstep
      exact h.advance (by simp) rfl (hpump ▸ rfl) Bool.noConfusion rfl

/-! ## What other threads do -/

section

variable (h : c.Aligned answers) (hget : c.operations[id]? = some old)
include h hget

/-- An operation changes and stays what it has to be at its place. -/
theorem Aligned.change (hwaiting : old.Waiting → operation.Waiting)
    (hready : id ∈ c.pump.between → old.Ready → operation.Ready) (hflying : old.Flying →
      operation.Flying) (hdone : ∀ answer, old.Done answer → operation.Done answer)
    (hunstarted : old.Unstarted → operation.Unstarted)
    (hsync : ∀ answer, old.phase = .synchronizing ∧ old.Told answer →
      operation.phase = .synchronizing ∧ operation.Told answer) :
    (c.put id operation).Aligned answers := by
  refine ⟨h.pipeline, h.nodup, h.sent,
    fun other hmem => (h.waiting other hmem).set_of_imp hget hwaiting, fun other hmem => ?_,
    fun other hmem => (h.flying other hmem).set_of_imp hget hflying,
    fun other hmem => (h.done other hmem).set_of_imp hget (hdone _),
    fun other new hother hmem => ?_, ?_, h.fine⟩
  · by_cases heq : id = other
    · subst heq
      exact (h.ready id hmem).set_of_imp hget (hready hmem)
    · exact (h.ready other hmem).set heq operation
  · by_cases heq : id = other
    · subst heq
      obtain ⟨hlt, _⟩ := List.getElem?_eq_some_iff.1 hget
      rw [put, List.getElem?_set_self hlt] at hother
      cases hother
      exact hunstarted (h.other id old hget hmem)
    · rw [put, getElem?_set_ne heq] at hother
      exact h.other other new hother hmem
  · obtain ⟨left, hleft, hstream⟩ := h.stream
    refine ⟨left, ?_, hstream⟩
    unfold Left at hleft ⊢
    simp only [put]
    split at hleft
    · exact hleft
    · refine hleft.set_of_imp hget fun hcases =>
        hcases.imp (fun hfirst => ⟨hflying hfirst.1, hfirst.2⟩) fun hfirst => ?_
      obtain ⟨hphase, htold⟩ := hsync _ ⟨hfirst.1, hfirst.2.1⟩
      exact ⟨hphase, htold, hfirst.2.2⟩

/-- A consumer comes or goes. -/
theorem Aligned.sameCore (hsame : old.SameCore operation) : (c.put id operation).Aligned answers :=
  h.change hget hsame.waiting (fun _ => hsame.ready) hsame.flying (fun _ => hsame.done)
    hsame.unstarted
    fun _ hsync => ⟨hsame.phase.trans hsync.1, hsame.told hsync.2⟩

/-- An operation is dropped before it is sent. -/
theorem Aligned.drop (hphase : old.phase = .cold ∨ old.phase = .queued)
    (hbetween : id ∉ c.pump.between) (hdropped : operation.Dropped) :
    (c.put id operation).Aligned answers := by
  refine h.change hget (fun _ => .inr hdropped) (fun hmem => absurd hmem hbetween)
    (fun hflying => ?_) (fun _ hdone => ?_)
    (fun _ => .inr hdropped) fun _ hsync => ?_
  · rcases hphase with hphase | hphase <;> cases hphase.symm.trans hflying.1
  · rcases hphase with hphase | hphase <;> cases hphase.symm.trans hdone.1
  · rcases hphase with hphase | hphase <;> cases hphase.symm.trans hsync.1

theorem Aligned.abandon (hbetween : id ∉ c.pump.between) :
    (c.put id old.abandon).Aligned answers := by
  unfold Operation.abandon
  split
  · exact h.sameCore hget ⟨rfl, rfl, rfl⟩
  · split
    · next hphase => exact h.drop hget hphase hbetween ⟨rfl, (h.fresh hget hphase).1, rfl⟩
    · exact h.sameCore hget ⟨rfl, rfl, rfl⟩

end

section

variable (h : c.Aligned answers)
include h

theorem Aligned.arrive : Aligned answers { c with libpq := c.libpq.arrive } := by
  refine { h with stream := ?_ }
  obtain ⟨left, hleft, hstream⟩ := h.stream
  exact ⟨left, hleft, by rw [Libpq.unread_arrive]; exact hstream⟩

theorem Aligned.create : Aligned answers { c with operations := c.operations ++ [.new] } := by
  refine ⟨h.pipeline, h.nodup, h.sent, fun id hmem => (h.waiting id hmem).append _,
    fun id hmem => (h.ready id hmem).append _, fun id hmem => (h.flying id hmem).append _,
    fun id hmem => (h.done id hmem).append _, fun id operation hget hmem => ?_, ?_, h.fine⟩
  · rcases Nat.lt_or_ge id c.operations.length with hlt | hge
    · rw [List.getElem?_append_left hlt] at hget
      exact h.other id operation hget hmem
    · rw [getElem?_append_right hge, getElem?_singleton] at hget
      split at hget
      · cases hget
        exact .inl ⟨rfl, rfl, rfl⟩
      · cases hget
  · obtain ⟨left, hleft, hstream⟩ := h.stream
    refine ⟨left, ?_, hstream⟩
    unfold Left at hleft ⊢
    simp only
    split at hleft
    · exact hleft
    · exact hleft.append _

theorem Aligned.start (hget : c.operations[id]? = some old) (hcold : old.phase = .cold) :
    Aligned answers { c.put id old.start with starting := c.starting ++ [id] } := by
  have hout := h.not_mem_line hget hcold
  have hfresh := h.fresh hget (.inl hcold)
  have hready : old.start.Ready := by
    rw [Operation.start, if_pos hcold]
    exact ⟨rfl, hfresh⟩
  have hline :
      (line { c.put id old.start with starting := c.starting ++ [id] }).Perm (id :: c.line) := by
    simp only [line, put, append_assoc, singleton_append]
    exact perm_middle
  -- what is asked of the operations on their way does not hold of one that has not been started
  have hset : ∀ {other : ℕ} {P : Operation ρ ε → Prop}, ¬P old → At c.operations other P →
      At (c.operations.set id old.start) other P :=
    fun hold hat => hat.set_of_imp hget fun hP => absurd hP hold
  obtain ⟨-, hnotReady, hnotFlying, hnotDone⟩ := Operation.not_of_cold hcold
  refine ⟨h.pipeline, hline.nodup_iff.2 (nodup_cons.2 ⟨hout, h.nodup⟩), h.sent,
    fun other hmem => ?_, fun other hmem => hset hnotReady (h.ready other hmem),
    fun other hmem => hset hnotFlying (h.flying other hmem),
    fun other hmem => hset (hnotDone _) (h.done other hmem), fun other new hother hmem => ?_, ?_,
    h.fine⟩
  · by_cases heq : id = other
    · subst heq
      exact at_set_self hget (.inl hready)
    · refine (h.waiting other ?_).set heq _
      simp only [put, mem_append, mem_singleton] at hmem ⊢
      tauto
  · rw [hline.mem_iff, mem_cons, not_or] at hmem
    rw [put, getElem?_set_ne (Ne.symm hmem.1)] at hother
    exact h.other other new hother hmem.2
  · obtain ⟨left, hleft, hstream⟩ := h.stream
    refine ⟨left, hleft.set ?_ rfl rfl rfl, hstream⟩
    rintro other hmem rfl
    exact hout (by simp [line, hmem])

/-- An operation leaves the line that was dropped. -/
theorem Aligned.leave (hdropped : At c.operations id Operation.Dropped) :
    Aligned answers { c with starting := c.starting.erase id } := by
  refine { h with
    nodup := ?_, waiting := fun other hmem => ?_, other := fun other new hother hmem => ?_ }
  · exact h.nodup.sublist (erase_sublist.append (Sublist.refl _))
  · refine h.waiting other ?_
    rcases mem_append.1 hmem with hmem | hmem
    · exact mem_append_left _ (mem_of_mem_erase hmem)
    · exact mem_append_right _ hmem
  · by_cases heq : other = id
    · exact .inr (hdropped.holds (heq ▸ hother))
    · refine h.other other new hother fun hin => hmem ?_
      simp only [line, mem_append] at hin ⊢
      exact hin.imp_left (mem_erase_of_ne heq).2

/-- An operation is queued. -/
theorem Aligned.queue (hmem : id ∈ c.starting) :
    Aligned answers { c with starting := c.starting.erase id, queued := c.queued ++ [id] } := by
  have hperm : (line { c with starting := c.starting.erase id, queued := c.queued ++ [id] }).Perm
    c.line := by
    have hstarting := perm_cons_erase hmem
    calc c.starting.erase id ++ (c.queued ++ [id] ++ (c.pump.popped ++ (c.inflight ++ c.retired)))
        = c.starting.erase id ++ c.queued ++ id ::
        (c.pump.popped ++ (c.inflight ++ c.retired)) := by simp
      _ |>.Perm (id :: (c.starting.erase id ++ c.queued ++
          (c.pump.popped ++ (c.inflight ++ c.retired)))) := perm_middle
      _ |>.Perm (c.starting ++ (c.queued ++ (c.pump.popped ++ (c.inflight ++ c.retired)))) := by
        rw [append_assoc, ← cons_append]
        exact hstarting.symm.append_right _
  refine { h with
    nodup := hperm.nodup_iff.2 h.nodup
    waiting := fun other hother => ?_
    other := fun other new hother hout =>
      h.other other new hother fun hin => hout (hperm.mem_iff.2 hin) }
  refine h.waiting other ?_
  simp only [mem_append, mem_singleton] at hother ⊢
  rcases hother with hother | (hother | rfl) | hother
  · exact .inl (mem_of_mem_erase hother)
  · exact .inr (.inl hother)
  · exact .inl hmem
  · exact .inr (.inr hother)

theorem Aligned.enqueue (hget : c.operations[id]? = some old) (hmem : id ∈ c.starting) :
    (c.enqueue id old).Aligned answers := by
  rcases (h.waiting id (mem_append_left _ hmem)).holds hget with hready | hdropped
  · have hmark : old.markQueued = .ok old := by simp [Operation.markQueued, hready.1]
    have hsame := h.sameCore hget (show old.SameCore old from ⟨rfl, rfl, rfl⟩)
    simp only [DbConnection.enqueue, hmark]
    exact hsame.queue hmem
  · have hmark : old.markQueued = .error .queuedTwice := by simp [Operation.markQueued, hdropped.1]
    simp only [DbConnection.enqueue, hmark]
    exact h.leave ⟨old, hget, hdropped⟩

end

/-! ## Runs -/

/-- No operation is abandoned while it is being sent, and libpq reports no error. -/
def untouched (c : DbConnection ρ ε) : Move → Bool
  | .abandon id => id ∉ c.pump.between
  | .pump error => !error
  | _ => true

theorem aligned_new : (new true : DbConnection ρ ε).Aligned answers := by
  refine ⟨rfl, nodup_nil, rfl, ?_, ?_, ?_, ?_, fun id operation hget _ => ?_, ⟨[], rfl, rfl⟩,
    fun _ => by simp [new]⟩
  · exact forall_mem_nil _
  · exact forall_mem_nil _
  · exact forall_mem_nil _
  · exact forall_mem_nil _
  · simp [new] at hget

theorem Aligned.step (h : c.Aligned answers) (hallowed : c.untouched move = true)
    (hstep : Step answers move c c') : c'.Aligned answers := by
  cases hstep with
  | create => exact h.create
  | start hget hcold => exact h.start hget hcold
  | enqueue hget hmem => exact h.enqueue hget hmem
  | register hget hregister =>
    exact h.sameCore hget (Operation.sameCore_registerContinuation hregister)
  | abandon hget => exact h.abandon hget (of_decide_eq_true hallowed)
  | arrive => exact h.arrive
  | wake hpump => exact h.advance (by simp) rfl (hpump ▸ rfl) Bool.noConfusion rfl
  | pump hstep =>
    rw [(Bool.not_eq_true' _).mp hallowed] at hstep
    exact h.pump hstep

/-- **The operations in flight and what libpq has still to return stay in step.** -/
theorem aligned_run (hrun : Run answers (fun c move => c.untouched move = true) true c) :
    c.Aligned answers := by
  induction hrun with
  | new => exact aligned_new
  | step _ hallowed hstep ih => exact ih.step hallowed hstep

/-! ## Consumers -/

/-- The consumers of all the operations are looked after. -/
def Attended (c : DbConnection ρ ε) : Prop :=
  ∀ operation ∈ c.operations, operation.Consumers

section

variable (h : c.Attended)
include h

theorem Attended.put (hoperation : operation.Consumers) : (c.put id operation).Attended := by
  intro other hmem
  rcases mem_or_eq_of_mem_set hmem with hmem | rfl
  · exact h other hmem
  · exact hoperation

theorem Attended.of_eq (hops : c'.operations = c.operations) : c'.Attended := by
  rw [Attended, hops]
  exact h

theorem Attended.update (hnext : ∀ c, (next c).operations = c.operations)
    (hf : ∀ {operation operation' : Operation ρ ε}, operation.Consumers →
      f operation = .ok operation' → operation'.Consumers) :
    (c.update id f next).Attended := by
  unfold DbConnection.update
  split
  · exact h.of_eq rfl
  · next old hget =>
    split
    · next operation heq =>
      exact (h.put (hf (h old (mem_of_getElem? hget)) heq)).of_eq (hnext _)
    · exact h.of_eq rfl

theorem Attended.handle (count : ℕ) (advanced_delimiter : Bool) (item : Item) :
    (c.handle answers count advanced_delimiter item).Attended := by
  unfold DbConnection.handle
  split
  · exact h.of_eq rfl
  · split
    · split
      · exact h.of_eq rfl
      · exact h.of_eq rfl
    · exact h.update (fun _ => rfl) Operation.Consumers.complete
  · exact h.of_eq rfl
  · exact h.update (fun _ => rfl) Operation.Consumers.complete
  · exact h.update (fun _ => rfl) fun hold => hold.accept

theorem Attended.pump {error : Bool} (hstep : c.pumpStep answers error = some c') :
    c'.Attended := by
  unfold pumpStep at hstep
  split at hstep
  case h_5 =>
    cases hstep
    exact h.update (fun _ => rfl) Operation.Consumers.markSent
  case h_12 =>
    split at hstep
    · obtain ⟨⟨item, libpq⟩, _, rfl⟩ := Option.map_eq_some_iff.1 hstep
      exact Attended.handle (c := { c with libpq }) (h.of_eq rfl) _ _ _
    · cases hstep
      exact h.of_eq rfl
  all_goals
    -- no other step changes an operation
    repeat' split at hstep
    all_goals first
      | cases hstep
        exact h.of_eq rfl
      | cases hstep

theorem Attended.step (hstep : Step answers move c c') : c'.Attended := by
  cases hstep with
  | create =>
    intro operation hmem
    rcases mem_append.1 hmem with hmem | hmem
    · exact h operation hmem
    · rw [mem_singleton.1 hmem]
      exact .new
  | start hget => exact (h.put (h _ (mem_of_getElem? hget)).start).of_eq rfl
  | enqueue hget =>
    unfold DbConnection.enqueue
    split
    · next heq => exact (h.put ((h _ (mem_of_getElem? hget)).markQueued heq)).of_eq rfl
    · exact h.of_eq rfl
  | register hget heq => exact h.put ((h _ (mem_of_getElem? hget)).registerContinuation heq)
  | abandon hget => exact h.put (h _ (mem_of_getElem? hget)).abandon
  | arrive | wake => exact h.of_eq rfl
  | pump hstep => exact h.pump hstep

end

theorem attended_run {allowed : DbConnection ρ ε → Move → Prop} {pipeline : Bool}
    (hrun : Run answers allowed pipeline c) : c.Attended := by
  induction hrun with
  | new => exact forall_mem_nil _
  | step _ _ hstep ih => exact ih.step hstep

/-! ## Answers -/

section

variable (h : c.Aligned answers)
include h

/-- Who was sent is in flight or was answered. -/
theorem Aligned.of_mem_sent (hmem : id ∈ c.sent) :
    id ∈ c.inflight ++ c.pump.transit ∨ At c.operations id (Operation.Done (answers id)) := by
  rw [h.sent] at hmem
  rcases mem_append.1 hmem with hmem | hmem
  · exact .inr (h.done id hmem)
  · exact .inl hmem

/-- The operations that were sent, by how far they have come. -/
theorem Aligned.at_of_mem_sent (hmem : id ∈ c.sent) : At c.operations id fun operation =>
    operation.Ready ∨ operation.Flying ∨ operation.phase = .synchronizing ∨
    operation.Told (answers id) := by
  rw [h.sent, mem_append, mem_append] at hmem
  rcases hmem with hmem | hmem | hmem
  · exact (h.done id hmem).imp fun _ hdone => .inr (.inr (.inr hdone.2))
  · exact (h.at_of_mem_inflight hmem).imp fun _ hcases =>
      .inr (hcases.imp_right fun hsync => .inl hsync.1)
  · rcases mem_append.1 (c.pump.transit_subset hmem) with hmem | hmem
    · exact (h.ready id hmem).imp fun _ hready => .inl hready
    · exact (h.flying id (mem_append_right _ hmem)).imp fun _ hflying => .inr (.inl hflying)

/-- An operation that was sent was not dropped. -/
theorem Aligned.not_dropped (hget : c.operations[id]? = some operation) (hmem : id ∈ c.sent) :
    ¬operation.Dropped := by
  rintro ⟨hphase, _, herror⟩
  rcases (h.at_of_mem_sent hmem).holds hget with hready | hflying | hsync | htold
  · cases hphase.symm.trans hready.1
  · cases hphase.symm.trans hflying.1
  · cases hphase.symm.trans hsync
  · unfold Operation.Told at htold
    split at htold
    · cases herror.symm.trans htold.2
    · cases herror.symm.trans htold.2
    · cases herror.symm.trans htold.2

/-- Who has been told something was told the answer to its own statement, or it was dropped before
it was sent. -/
theorem Aligned.told_or_dropped (hget : c.operations[id]? = some operation) :
    operation.Fresh ∨ operation.Told (answers id) ∨ operation.Dropped := by
  rcases h.state hget with (hcold | hdropped) | (hready | hdropped) | hflying | hsync | hdone
  · exact .inl hcold.2
  · exact .inr (.inr hdropped)
  · exact .inl hready.2
  · exact .inr (.inr hdropped)
  · exact .inl hflying.2
  · exact .inr (.inl hsync.2)
  · exact .inr (.inl hdone.2)

/-- Where libpq has nothing to return, nothing is in flight. -/
theorem Aligned.eq_nil_of_unread (hunread : c.libpq.unread = []) :
    c.inflight ++ c.pump.transit = [] := by
  obtain ⟨left, hleft, hstream⟩ := h.stream
  rw [hunread] at hstream
  obtain ⟨hnone, hrest⟩ := append_eq_nil_iff.1 hstream.symm
  have hempty : c.inflight.drop 1 ++ c.pump.transit = [] := by
    rw [flatMap_eq_nil_iff] at hrest
    refine eq_nil_iff_forall_not_mem.2 fun id hmem => ?_
    cases hrest id hmem
  obtain ⟨hdrop, htransit⟩ := append_eq_nil_iff.1 hempty
  unfold Left at hleft
  split at hleft
  · next hinflight => rw [hinflight, htransit, append_nil]
  · obtain ⟨operation, _, hcases⟩ := hleft
    subst hnone
    rcases hcases with ⟨_, hitems, _⟩ | ⟨_, _, ⟨hitems, _⟩ | hitems⟩ <;> cases hitems

end

/-- **Every query gets its own answer**, if no operation is abandoned while it is being sent and
libpq reports no error: what was sent is in flight, or is completed with the answer to its own
statement, and nobody has been told anything else; once libpq has returned everything, all that was
sent is answered; a consumer that was registered is resumed once, and at the latest when the
operation is over; and the pump does not throw. -/
theorem own_answers (hrun : Run answers (fun c move => c.untouched move = true) true c) :
    (∀ id ∈ c.sent, id ∈ c.inflight ++ c.pump.transit ∨
      At c.operations id (Operation.Done (answers id))) ∧
    (∀ id operation, c.operations[id]? = some operation →
      operation.Fresh ∨ operation.Told (answers id) ∨ operation.Dropped ∧ id ∉ c.sent) ∧
    (c.libpq.unread = [] → ∀ id ∈ c.sent, At c.operations id (Operation.Done (answers id))) ∧
    (∀ operation ∈ c.operations,
      operation.registered.Perm (operation.resumed ++ operation.continuation.toList) ∧
      (operation.phase = .completed ∨ operation.cancelled = true → operation.continuation = none)) ∧
    ∀ error, c.pump ≠ .threw error := by
  have h := aligned_run hrun
  refine ⟨fun id hmem => h.of_mem_sent hmem, fun id operation hget => ?_, fun hunread id hmem => ?_,
    ?_, h.fine⟩
  · rcases h.told_or_dropped hget with hfresh | htold | hdropped
    · exact .inl hfresh
    · exact .inr (.inl htold)
    · exact .inr (.inr ⟨hdropped, fun hmem => h.not_dropped hget hmem hdropped⟩)
  · refine (h.of_mem_sent hmem).resolve_left ?_
    rw [h.eq_nil_of_unread hunread]
    exact not_mem_nil
  · exact fun operation hmem => ⟨(attended_run hrun operation hmem).perm,
      (attended_run hrun operation hmem).released⟩

/-- An answer for each statement: its own number. -/
def numbered (statement : ℕ) : Answer ℕ Unit :=
  .tuplesOk statement

/-- An operation is made, started, enqueued and waited for. -/
def submit (id : ℕ) : List Move :=
  [.create, .start id, .enqueue id, .register id id]

/-- Two operations on a pipelined connection, of which the first is abandoned before it is sent. -/
theorem own_answers_second :
    ∃ c : DbConnection ℕ Unit, Run numbered (fun c move => c.untouched move = true) true c ∧
    c.libpq.unread = [] ∧ c.sent = [1] ∧ At c.operations 1 (Operation.Done (numbered 1)) := by
  obtain ⟨c, hrun, h⟩ := exists_run numbered untouched true
    (submit 0 ++ submit 1 ++ [.abandon 0, .wake] ++ List.replicate 9 (.pump false) ++ [.arrive] ++
    List.replicate 7 (.pump false))
    (fun c => c.libpq.unread = [] ∧ c.sent = [1]) (by decide +kernel)
  obtain ⟨hunread, hsent⟩ := of_decide_eq_true h
  exact ⟨c, hrun, hunread, hsent, (own_answers hrun).2.2.1 hunread 1 (by simp [hsent])⟩

/-- libpq reports no error. -/
def faultless (_ : DbConnection ρ ε) : Move → Bool
  | .pump error => !error
  | _ => true

/-- An operation is abandoned after the pump has found it queued and sent its statement.  The pump
is left by an exception; the statement is with the server, and the operation is not in flight. -/
theorem abandoned_while_sent_throws :
    ∃ c : DbConnection ℕ Unit, Run numbered (fun c move => c.faultless move = true) true c ∧
    c.pump = .threw (.logic .notQueued) ∧ c.sent = [0] ∧ c.libpq.server = [0] ∧
    c.inflight = [] := by
  obtain ⟨c, hrun, h⟩ := exists_run numbered faultless true
    (submit 0 ++ [.wake] ++ List.replicate 3 (.pump false) ++ [.abandon 0, .pump false]) (fun c =>
    c.pump = .threw (.logic .notQueued) ∧ c.sent = [0] ∧ c.libpq.server = [0] ∧ c.inflight = [])
    (by decide +kernel)
  exact ⟨c, hrun, of_decide_eq_true h⟩

end DbConnection
end Idhan.Database
