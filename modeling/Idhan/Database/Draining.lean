import Idhan.Database.Pipeline

/-!
# Replies that stay in the buffer

After `pumpConnected` only the socket is watched, so what it leaves in libpq's buffer waits until
something else arrives.  The loop that reads is bounded by `pump_operation_budget`, counted in
results, nulls and syncs, of which each operation has three.  With at most 21 operations in flight
the budget is not reached, and the loop ends when there is nothing left to return; with more of them
the pump may end with complete replies in the buffer.

An operation that is abandoned while it is being sent, or an error of libpq, makes the pump throw
before it has read anything.

## The invariant

`Drained` bounds what the pump can still read by what is left of its budget, while it reads; outside
of that the buffer is empty.  A pump that has thrown, or that will since the operation it has sent
is abandoned, is `Doomed`, and nothing is said about it.  With `Aligned`, which counts the items
that are to come, `replies_drained` follows: whenever a pump has ended the buffer is empty, and the
operations in flight are those whose replies are on the socket or have not arrived.
-/

namespace Idhan.Database

open List

variable {ρ ε : Type}

theorem length_flatMap_items (statements : List ℕ) :
    (statements.flatMap (items true)).length = 3 * statements.length := by
  induction statements with
  | nil => rfl
  | cons statement statements ih =>
    rw [flatMap_cons, length_append, ih, length_cons, show (items true statement).length =
      3 from rfl]
    omega

theorem flatMap_items_injective {first second : List ℕ}
    (h : first.flatMap (items true) = second.flatMap (items true)) : first = second := by
  induction first generalizing second with
  | nil =>
    cases second with
    | nil => rfl
    | cons => cases h
  | cons statement first ih =>
    cases second with
    | nil => cases h
    | cons other second =>
      obtain ⟨hhead, htail⟩ := append_inj h rfl
      obtain ⟨hstatement, _⟩ := List.cons.inj hhead
      rw [Item.result.inj hstatement, ih htail]

namespace DbConnection

variable {answers : ℕ → Answer ρ ε} {c c' : DbConnection ρ ε} {move : Move} {id : ℕ}

/-! ## What is in flight and what is unread -/

theorem Aligned.length_unread_le (h : c.Aligned answers) (htransit : c.pump.transit = []) :
    c.libpq.unread.length ≤ 3 * c.inflight.length := by
  obtain ⟨left, hleft, hstream⟩ := h.stream
  rw [hstream, htransit, append_nil, length_append, length_flatMap_items, length_drop]
  unfold Left at hleft
  split at hleft
  · next hinflight => simp [hleft, hinflight]
  · next id rest hinflight =>
    obtain ⟨operation, _, hcases⟩ := hleft
    rw [hinflight, length_cons]
    have hle : left.length ≤ 3 := by
      rcases hcases with ⟨_, rfl, _⟩ | ⟨_, _, ⟨rfl, _⟩ | rfl⟩ <;> simp [items]
    omega

/-- With an empty buffer, no reply of an operation in flight has been read in part. -/
theorem Aligned.inflight_eq (h : c.Aligned answers) (htransit : c.pump.transit = [])
    (hbuffer : c.libpq.buffer = []) : c.inflight = c.libpq.socket ++ c.libpq.server := by
  obtain ⟨left, hleft, hstream⟩ := h.stream
  rw [htransit, append_nil, Libpq.unread, hbuffer, nil_append] at hstream
  unfold Left at hleft
  split at hleft
  · next hinflight =>
    rw [hleft, hinflight] at hstream
    exact hinflight.trans (flatMap_items_injective hstream).symm
  · next id rest hinflight =>
    obtain ⟨operation, _, hcases⟩ := hleft
    rw [hinflight, drop_one, tail_cons] at hstream
    rcases hcases with ⟨_, rfl, _⟩ | ⟨_, _, hpart⟩
    · have hreplies : (id :: rest).flatMap (items true) =
          (c.libpq.socket ++ c.libpq.server).flatMap (items true) := hstream.symm
      exact hinflight.trans (flatMap_items_injective hreplies)
    · -- a reply that is only on the socket begins with its result
      exfalso
      cases hreplies : c.libpq.socket ++ c.libpq.server with
      | nil =>
        rw [hreplies] at hstream
        rcases hpart with ⟨rfl, _⟩ | rfl <;> cases hstream
      | cons statement statements =>
        rw [hreplies] at hstream
        rcases hpart with ⟨rfl, _⟩ | rfl <;> cases hstream

/-! ## Pumps that throw -/

/-- The pump has thrown, or has just sent an operation that is no longer queued. -/
def Doomed (c : DbConnection ρ ε) : Prop :=
  (∃ error, c.pump = .threw error) ∨ ∃ id ∈ c.pump.between,
    At c.operations id fun operation => operation.phase = .completed

/-- An operation that is completed stays so, whatever other threads do. -/
theorem at_completed_of_step (h : At c.operations id fun operation => operation.phase = .completed)
    (hmove : ∀ error, move ≠ .pump error) (hstep : Step answers move c c') :
    At c'.operations id fun operation => operation.phase = .completed := by
  cases hstep with
  | create => exact h.append _
  | start hget hcold => exact h.set_of_imp hget fun hcompleted => by simp [hcold] at hcompleted
  | enqueue hget hmem =>
    unfold enqueue
    split
    · next hqueued =>
      refine h.set_of_imp hget fun hcompleted => ?_
      simp [Operation.markQueued, hcompleted] at hqueued
    · exact h
  | register hget hregister =>
    exact h.set_of_imp hget fun hcompleted =>
      (Operation.sameCore_registerContinuation hregister).phase ▸ hcompleted
  | abandon hget =>
    exact h.set_of_imp hget fun hcompleted => by simp [Operation.abandon, hcompleted]
  | arrive => exact h
  | wake => exact h
  | pump => exact absurd rfl (hmove _)

/-- Other threads leave the pump and the buffer alone, unless they begin a pump. -/
theorem pump_eq_of_step (hmove : ∀ error, move ≠ .pump error) (hstep : Step answers move c c') :
    c'.libpq.buffer = c.libpq.buffer ∧ c'.libpq.unread = c.libpq.unread ∧
      (c'.pump = c.pump ∨ c.pump = .idle ∧ c'.pump = .dispatching 0) := by
  cases hstep with
  | enqueue =>
    unfold enqueue
    split
    · exact ⟨rfl, rfl, .inl rfl⟩
    · exact ⟨rfl, rfl, .inl rfl⟩
  | arrive => exact ⟨rfl, Libpq.unread_arrive _, .inl rfl⟩
  | wake hidle => exact ⟨rfl, rfl, .inr ⟨hidle, rfl⟩⟩
  | pump => exact absurd rfl (hmove _)
  | _ => exact ⟨rfl, rfl, .inl rfl⟩

theorem Doomed.pump (h : c.Doomed) {error : Bool} (hstep : c.pumpStep answers error = some c') :
    c'.Doomed ∧ c'.libpq.buffer = c.libpq.buffer := by
  unfold pumpStep at hstep
  rcases h with ⟨error, hpump⟩ | ⟨id, hmem, hcompleted⟩
  · simp [hpump] at hstep
  · cases hpump : c.pump with
    | sending count other =>
      rw [hpump] at hmem
      cases error with
      | false =>
        simp only [hpump] at hstep
        cases hstep
        exact ⟨.inr ⟨id, hmem, hcompleted⟩, rfl⟩
      | true =>
        simp only [hpump] at hstep
        cases hstep
        exact ⟨.inl ⟨_, rfl⟩, rfl⟩
    | marking count other =>
      rw [hpump] at hmem
      obtain rfl := mem_singleton.1 hmem
      obtain ⟨operation, hget, hcompleted⟩ := hcompleted
      cases error with
      | false =>
        simp only [hpump, update, hget, Operation.markSent, hcompleted] at hstep
        cases hstep
        exact ⟨.inl ⟨_, rfl⟩, rfl⟩
      | true => simp [hpump] at hstep
    | _ =>
      rw [hpump] at hmem
      cases hmem

theorem Doomed.step (h : c.Doomed) (hstep : Step answers move c c') :
    c'.Doomed ∧ c'.libpq.buffer = c.libpq.buffer := by
  by_cases hmove : ∃ error, move = .pump error
  · obtain ⟨error, rfl⟩ := hmove
    cases hstep with
    | pump hstep => exact h.pump hstep
  · rw [not_exists] at hmove
    obtain ⟨hbuffer, _, hpump | ⟨hidle, _⟩⟩ := pump_eq_of_step hmove hstep
    · refine ⟨?_, hbuffer⟩
      unfold Doomed
      rw [hpump]
      exact h.imp_right fun ⟨id, hmem, hcompleted⟩ =>
        ⟨id, hmem, at_completed_of_step hcompleted hmove hstep⟩
    · rcases h with ⟨error, hpump⟩ | ⟨id, hmem, _⟩
      · rw [hpump] at hidle
        cases hidle
      · rw [hidle] at hmem
        cases hmem

/-! ## The budget -/

/-- The buffer is empty but for what the pump has still to read, and that is within the budget. -/
def Drained (c : DbConnection ρ ε) : Prop :=
  match c.pump with
  | .testing => True
  | .reading count _ => count + c.libpq.unread.length < pumpOperationBudget
  | _ => c.libpq.buffer = []

theorem Drained.of_eq (h : c.Drained) (hbuffer : c'.libpq.buffer = c.libpq.buffer)
    (hunread : c'.libpq.unread = c.libpq.unread) (hpump : c'.pump = c.pump) : c'.Drained := by
  unfold Drained
  rw [hbuffer, hunread, hpump]
  exact h

theorem Libpq.buffer_eq_nil_of_unread {libpq : Libpq} (h : libpq.unread = []) : libpq.buffer = [] :=
  (append_eq_nil_iff.1 h).1

/-- A pump that begins to read with at most 21 operations in flight reads all there is. -/
theorem Aligned.drained_pump (h : c.Aligned answers) (hdrained : c.Drained)
    (hspare : c.pump = .testing → c.inflight.length ≤ 21)
    (hstep : c.pumpStep answers false = some c') : c'.Drained := by
  unfold pumpStep at hstep
  unfold Drained at hdrained
  cases hpump : c.pump with
  | idle => simp [hpump] at hstep
  | threw error => exact absurd hpump (h.fine error)
  | dispatching count =>
    simp only [hpump] at hstep hdrained
    split at hstep
    · split at hstep <;>
      · cases hstep
        exact hdrained
    · cases hstep
      exact hdrained
  | checking count id =>
    simp only [hpump] at hstep hdrained
    split at hstep <;>
    · cases hstep
      exact hdrained
  | marking count id =>
    obtain ⟨old, hget, hready⟩ := h.ready id (by simp [hpump, Pump.between])
    obtain ⟨operation, hmark, _⟩ := Operation.markSent_of_ready hready
    simp only [hpump] at hstep hdrained
    rw [update_eq hget hmark] at hstep
    cases hstep
    exact hdrained
  | consuming =>
    simp only [hpump] at hstep
    cases hstep
    exact trivial
  | testing =>
    simp only [hpump] at hstep
    cases hstep
    cases hbusy : c.libpq.isBusy with
    | true =>
      -- libpq is busy only with an empty buffer
      exact isEmpty_iff.1 (Bool.and_eq_true_iff.1 hbusy).1
    | false =>
      have hle := h.length_unread_le (by rw [hpump]; rfl)
      have hfew := hspare hpump
      change 0 + c.libpq.unread.length < 64
      omega
  | reading count advanced_delimiter =>
    simp only [hpump] at hstep hdrained
    rw [if_pos (by omega)] at hstep
    obtain ⟨⟨item, libpq⟩, hresult, hhandle⟩ := Option.map_eq_some_iff.1 hstep
    rw [h.pipeline] at hresult
    obtain ⟨_, rfl, ⟨hwatching, hunread⟩ | ⟨⟨advanced_delimiter, hreading⟩, hlength⟩⟩ :=
      h.handle hpump hresult (by simpa only [hpump] using hhandle)
    · unfold Drained
      rw [hwatching]
      exact Libpq.buffer_eq_nil_of_unread hunread
    · unfold Drained
      rw [hreading]
      simp only
      omega
  | _ =>
    simp only [hpump] at hstep hdrained
    cases hstep
    exact hdrained

/-- Where libpq reports an error there is nothing to read. -/
theorem Drained.threw (h : c.Drained) (hstep : c.pumpStep answers true = some c') :
    (∃ error, c'.pump = .threw error) ∧ c'.libpq.buffer = [] := by
  obtain ⟨⟨error, rfl⟩, htesting, hreading⟩ := threw_of_error hstep
  refine ⟨⟨error, rfl⟩, ?_⟩
  unfold Drained at h
  split at h
  · next hpump => exact absurd hpump htesting
  · next hpump => exact absurd hpump (hreading _ _)
  · exact h

/-! ## Runs -/

/-- At most 21 operations are in flight when the pump begins to read. -/
def spare (c : DbConnection ρ ε) : Move → Bool
  | .pump _ => c.pump ≠ .testing ∨ c.inflight.length ≤ 21
  | _ => true

/-- What holds in all runs: the pump is in step with libpq or will throw, and leaves nothing in the
buffer. -/
structure Emptied (answers : ℕ → Answer ρ ε) (c : DbConnection ρ ε) : Prop where
  aligned : c.Aligned answers ∨ c.Doomed
  drained : c.Drained

theorem Doomed.drained_iff (h : c.Doomed) : c.Drained ↔ c.libpq.buffer = [] := by
  unfold Drained
  rcases h with ⟨error, hpump⟩ | ⟨id, hmem, _⟩
  · rw [hpump]
  · cases hpump : c.pump <;> rw [hpump] at hmem <;> first | rfl | cases hmem

/-- Abandoning the operation that is being sent makes the pump throw. -/
theorem Aligned.doomed_of_abandon (h : c.Aligned answers) {operation : Operation ρ ε}
    (hget : c.operations[id]? = some operation) (hmem : id ∈ c.pump.between) :
    (c.put id operation.abandon).Doomed := by
  exact .inr ⟨id, hmem, at_set_self hget
    (by simp [Operation.abandon, ((h.ready id hmem).holds hget).1])⟩

theorem Drained.step (h : c.Drained) (hmove : ∀ error, move ≠ .pump error)
    (hstep : Step answers move c c') : c'.Drained := by
  obtain ⟨hbuffer, hunread, hpump | ⟨hidle, hpump⟩⟩ := pump_eq_of_step hmove hstep
  · exact h.of_eq hbuffer hunread hpump
  · unfold Drained at h ⊢
    rw [hidle] at h
    rw [hpump]
    exact hbuffer.trans h

theorem emptied_new : (new true : DbConnection ρ ε).Emptied answers :=
  ⟨.inl aligned_new, rfl⟩

theorem Emptied.step (h : c.Emptied answers) (hallowed : c.spare move = true)
    (hstep : Step answers move c c') : c'.Emptied answers := by
  rcases h.aligned with haligned | hdoomed
  · by_cases hmove : ∃ error, move = .pump error
    · obtain ⟨error, rfl⟩ := hmove
      cases hstep with
      | pump hstep =>
        cases error with
        | false =>
          have hspare : c.pump = .testing → c.inflight.length ≤ 21 := fun hpump =>
            (of_decide_eq_true hallowed).resolve_left fun hne => hne hpump
          exact ⟨.inl (haligned.pump hstep), haligned.drained_pump h.drained hspare hstep⟩
        | true =>
          obtain ⟨hthrew, hbuffer⟩ := h.drained.threw hstep
          have hdoomed : c'.Doomed := .inl hthrew
          exact ⟨.inr hdoomed, hdoomed.drained_iff.2 hbuffer⟩
    · rw [not_exists] at hmove
      refine ⟨?_, h.drained.step hmove hstep⟩
      by_cases huntouched : c.untouched move = true
      · exact .inl (haligned.step huntouched hstep)
      · cases hstep with
        | abandon hget =>
          exact .inr (haligned.doomed_of_abandon hget (by simpa [untouched] using huntouched))
        | pump => exact absurd rfl (hmove _)
        | _ => exact absurd rfl huntouched
  · obtain ⟨hdoomed', hbuffer⟩ := hdoomed.step hstep
    exact ⟨.inr hdoomed', hdoomed'.drained_iff.2 (hbuffer.trans (hdoomed.drained_iff.1 h.drained))⟩

theorem emptied_run (hrun : Run answers (fun c move => c.spare move = true) true c) :
    c.Emptied answers := by
  induction hrun with
  | new => exact emptied_new
  | step _ hallowed hstep ih => exact ih.step hallowed hstep

/-- **No reply is left unread**, if at most 21 operations are in flight whenever a pump begins to
read: when a pump has ended, however it ended, the buffer is empty; and unless it has thrown, the
operations in flight are those whose replies are on the socket, which is watched, or have not
arrived. -/
theorem replies_drained (hrun : Run answers (fun c move => c.spare move = true) true c) :
    (c.pump = .idle ∨ (∃ error, c.pump = .threw error) → c.libpq.buffer = []) ∧
      (c.pump = .idle → c.inflight = c.libpq.socket ++ c.libpq.server) := by
  have h := emptied_run hrun
  have hidle : c.pump = .idle → c.libpq.buffer = [] := fun hpump => by
    have hdrained := h.drained
    unfold Drained at hdrained
    rw [hpump] at hdrained
    exact hdrained
  refine ⟨fun hended => ?_, fun hpump => ?_⟩
  · rcases hended with hpump | hthrew
    · exact hidle hpump
    · have hdoomed : c.Doomed := .inl hthrew
      exact hdoomed.drained_iff.1 h.drained
  · rcases h.aligned with haligned | ⟨error, hthrew⟩ | ⟨id, hmem, _⟩
    · exact haligned.inflight_eq (by rw [hpump]; rfl) (hidle hpump)
    · rw [hpump] at hthrew
      cases hthrew
    · rw [hpump] at hmem
      cases hmem

/-- Operations with the given numbers are sent by a pump. -/
def dispatch (count : ℕ) : List Move :=
  (List.range count).flatMap submit ++ [.wake] ++ List.replicate (5 * count + 2) (.pump false)

/-- The replies to 21 operations arrive together, and one pump reads all of them. -/
theorem replies_drained_together :
    ∃ c : DbConnection ℕ Unit, Run numbered (fun c move => c.spare move = true) true c ∧
    c.sent.length = 21 ∧ c.pump = .idle ∧ c.inflight = [] ∧ c.libpq.buffer = [] := by
  obtain ⟨c, hrun, h⟩ := exists_run numbered spare true
    (dispatch 21 ++ List.replicate 21 .arrive ++ List.replicate 67 (.pump false))
    (fun c => c.sent.length = 21 ∧ c.pump = .idle ∧ c.inflight = []) (by decide +kernel)
  obtain ⟨hsent, hpump, hinflight⟩ := of_decide_eq_true h
  exact ⟨c, hrun, hsent, hpump, hinflight, (replies_drained hrun).1 (.inl hpump)⟩

/-- The replies to 23 operations arrive together.  The pump stops at its budget, with a part of one
reply and all of another one in the buffer, and there is nothing on the socket and nothing to
come. -/
theorem replies_left_in_buffer :
    ∃ c : DbConnection ℕ Unit, Run numbered (fun c move => c.faultless move = true) true c ∧
    c.pump = .idle ∧ c.libpq = ⟨[], [], [.null, .sync, .result 22, .null, .sync]⟩ ∧
    c.inflight = [21, 22] := by
  obtain ⟨c, hrun, h⟩ := exists_run numbered faultless true
    (dispatch 23 ++ List.replicate 23 .arrive ++ List.replicate 68 (.pump false))
    (fun c => c.pump = .idle ∧ c.libpq = ⟨[], [], [.null, .sync, .result 22, .null, .sync]⟩ ∧
    c.inflight = [21, 22]) (by decide +kernel)
  exact ⟨c, hrun, of_decide_eq_true h⟩

end DbConnection
end Idhan.Database
