import Mathlib.Data.List.Induction
import Mathlib.Data.List.Perm.Basic
import Idhan.Lib.Grouping
import Idhan.Lib.Total
import Idhan.Workers.Runner

/-!
# Which calls a worker answers

A call that a worker takes is in the queue, or being run, or has a result in the outbound queue, or
is lost.  A call is lost if its result is refused by `enqueue`: then the error is written to the log
and nothing is sent, so that the host waits for it for ever.

Where a call is depends on what the actions before have refused, so the invariant (`step_kept`,
`run_kept`) keeps the lost calls as a list of their own: the calls that were taken are those in the
four places, as multisets.  `send_results` says what becomes of a result, and `calls_answered_iff`
that every call is answered just if no result is refused.
-/

namespace Idhan.Workers

open Ipc List

variable {φ : Type} {r : Runner φ} {module : ModuleInfo} {callId : ℕ} {lost : List ℕ}
variable {members body : JsonObject} {payload : Option φ} {fds : List φ}

/-! ## Bodies -/

theorem lookup_cons_ite (key key' : String) (value : JsonValue) (members : JsonObject) :
    ((key, value) :: members).lookup key' = if key' = key then some value
      else members.lookup key' := by
  rw [lookup_cons]
  split_ifs with h
  · rw [beq_iff_eq.2 h]
  · rw [beq_eq_false_iff_ne.2 h]

theorem lookup_setMember (key key' : String) (value : JsonValue) (members : JsonObject) :
    (setMember key value members).lookup key' = if key' = key then some value
      else members.lookup key' := by
  induction members with
  | nil => exact lookup_cons_ite key key' value []
  | cons member members ih =>
    obtain ⟨name, value'⟩ := member
    unfold setMember
    by_cases hlt : key < name
    · rw [if_pos hlt, lookup_cons_ite]
    · rw [if_neg hlt]
      by_cases heq : key = name
      · rw [if_pos heq, lookup_cons_ite, lookup_cons_ite, heq]
        split_ifs <;> rfl
      · rw [if_neg heq, lookup_cons_ite, lookup_cons_ite, ih]
        split_ifs with h h'
        · exact absurd (h'.symm.trans h) heq
        all_goals rfl

/-- The id of the call that a frame answers, if it is a result. -/
def resultId (frame : Frame JsonObject φ) : Option ℕ :=
  match frame.body.lookup "type", frame.body.lookup "call_id" with
  | some (.uint type), some (.uint callId) => if type = messageTypeResult then some callId else none
  | _, _ => none

/-- A body is a result for a call if it has the two members. -/
theorem resultId_eq (fds : List φ)
    (htype : body.lookup "type" = some (.uint messageTypeResult))
    (hid : body.lookup "call_id" = some (.uint callId)) : resultId ⟨body, fds⟩ = some callId := by
  simp [resultId, htype, hid]

theorem resultId_rejection (callId : ℕ) (reason : String) (fds : List φ) :
    resultId ⟨rejection callId reason, fds⟩ = some callId := by
  refine resultId_eq fds ?_ ?_
  · simp [rejection, resultBody, lookup_setMember]
  · simp [rejection, resultBody, lookup_setMember]

/-- The name of a member is not one of those that make a result a result. -/
def Harmless (members : JsonObject) : Prop :=
  ∀ member ∈ members, member.1 ≠ "type" ∧ member.1 ≠ "call_id"

theorem Thrown.of_bind {α β : Type} {t : Thrown (Except String α)} {f : α → Except String β} {b : β}
    (h : t.bind f = .returns (.ok b)) : ∃ a, f a = .ok b := by
  unfold Thrown.bind at h
  split at h
  case h_1 value =>
    refine ⟨value, ?_⟩
    injection h
  case h_2 error =>
    injection h with h
    cases h
  case h_3 => cases h
  case h_4 => cases h

theorem harmless_embeddingResult {values : List JsonText}
    (h : embeddingResult module values = .ok (members, payload)) : Harmless members := by
  unfold embeddingResult at h
  split_ifs at h
  cases h
  simp [Harmless]

/-- No operation sets the members that make a result a result. -/
theorem harmless_invoke {op : CallOp} {run : ModuleRun φ}
    (h : invoke op module run = .returns (.ok (members, payload))) : Harmless members := by
  cases op with
  | metadata =>
    obtain ⟨_, hok⟩ := Thrown.of_bind h
    cases hok
    simp [Harmless]
  | thumbRgba | thumbFile =>
    obtain ⟨_, hok⟩ := Thrown.of_bind h
    obtain ⟨_, _, hok⟩ := bind_eq_ok_iff.1 hok
    obtain ⟨_, _, hok⟩ := bind_eq_ok_iff.1 hok
    obtain ⟨_, _, hok⟩ := bind_eq_ok_iff.1 hok
    cases hok
    simp [Harmless]
  | generate =>
    simp only [invoke] at h
    split at h
    · injection h with h
      cases h
    · obtain ⟨_, hok⟩ := Thrown.of_bind h
      obtain ⟨_, _, hok⟩ := bind_eq_ok_iff.1 hok
      cases hok
      simp [Harmless]
  | embed =>
    obtain ⟨_, hok⟩ := Thrown.of_bind h
    exact harmless_embeddingResult hok
  | embedText =>
    simp only [invoke] at h
    split_ifs at h
    · injection h with h
      cases h
    · obtain ⟨_, hok⟩ := Thrown.of_bind h
      exact harmless_embeddingResult hok
  | mimeParse =>
    obtain ⟨_, hok⟩ := Thrown.of_bind h
    cases hok
    simp [Harmless]

theorem harmless_runModule (library : List ModuleInfo) (call : QueuedCall) (run : ModuleRun φ) :
    Harmless (runModule library call run).2.1 := by
  unfold runModule
  split
  · simp [Harmless]
  · split_ifs
    · simp [Harmless]
    · split
      case h_1 hinvoke => exact harmless_invoke hinvoke
      all_goals simp [Harmless]

theorem lookup_foldl_setMember {key : String}
    (h : ∀ member ∈ members, member.1 ≠ key) (body : JsonObject) :
    (members.foldl (fun body member => setMember member.1 member.2 body) body).lookup key =
      body.lookup key := by
  induction members generalizing body with
  | nil => rfl
  | cons member members ih =>
    obtain ⟨hmember, hmembers⟩ := forall_mem_cons.1 h
    rw [foldl_cons, ih hmembers, lookup_setMember, if_neg (Ne.symm hmember)]

/-- The result of a call is a result for it. -/
theorem resultId_answer (h : Harmless members) (callId : ℕ) (failure : String)
    (fds : List φ) : resultId ⟨answer callId failure members, fds⟩ = some callId := by
  have hlookup : ∀ key, key = "type" ∨ key = "call_id" →
      (answer callId failure members).lookup key = (resultBody callId).lookup key := by
    intro key hkey
    have hmembers : ∀ member ∈ members, member.1 ≠ key := by
      intro member hmember
      rcases hkey with rfl | rfl
      · exact (h member hmember).1
      · exact (h member hmember).2
    have hok : key ≠ "ok" := by rcases hkey with rfl | rfl <;> decide
    have herror : key ≠ "error" := by rcases hkey with rfl | rfl <;> decide
    unfold answer
    split_ifs
    · rw [lookup_setMember, if_neg hok, lookup_foldl_setMember hmembers]
    · rw [lookup_setMember, if_neg herror, lookup_setMember, if_neg hok,
        lookup_foldl_setMember hmembers]
  refine resultId_eq fds ?_ ?_
  · simp [hlookup, resultBody, lookup_setMember]
  · simp [hlookup, resultBody, lookup_setMember]

/-! ## Sending -/

/-- The calls for which results have been placed on the outbound queue. -/
def Runner.results (r : Runner φ) : List ℕ :=
  r.outbound.filterMap resultId

/-- `enqueue` takes a frame: it is not too large, and its descriptors can be duplicated. -/
def Takes (dupError : Option String) (body : JsonObject) (fds : List φ) : Prop :=
  (writeObject body).length ≤ maxFrameBody ∧ (fds = [] ∨ dupError = none)

/-- **What becomes of a result**: it is placed on the queue if `enqueue` takes it, and otherwise
nothing happens. -/
theorem send_results (r : Runner φ) (dupError : Option String)
    (hid : resultId ⟨body, fds⟩ = some callId) (hfds : fds.length ≤ 1) :
    (Takes dupError body fds → ∃ writer, r.send dupError body fds =
        { r with writer := writer, outbound := r.outbound ++ [⟨body, fds⟩] } ∧
      (r.send dupError body fds).results = r.results ++ [callId]) ∧
    (¬ Takes dupError body fds → r.send dupError body fds = r) := by
  have hmax : ¬ maxFrameFds < fds.length := by
    rw [maxFrameFds]
    omega
  constructor
  · rintro ⟨hlen, hdup⟩
    obtain ⟨writer, hwriter⟩ :
        ∃ writer, r.writer.enqueue writeObject dupError body fds = .ok writer := by
      simp only [FrameWriter.enqueue, if_neg hmax, if_neg (Nat.not_lt.2 hlen)]
      rcases hdup with rfl | rfl
      · exact ⟨_, rfl⟩
      · cases fds <;> exact ⟨_, rfl⟩
    have hsend : r.send dupError body fds =
        { r with writer := writer, outbound := r.outbound ++ [⟨body, fds⟩] } := by
      simp only [Runner.send, hwriter]
    refine ⟨writer, hsend, ?_⟩
    simp only [hsend, Runner.results, filterMap_append, filterMap_cons_some hid, filterMap_nil]
  · intro hnot
    unfold Runner.send
    split
    · rfl
    case h_2 writer hwriter =>
      exfalso
      simp only [FrameWriter.enqueue, if_neg hmax] at hwriter
      split_ifs at hwriter with hlen
      refine hnot ⟨Nat.not_lt.1 hlen, ?_⟩
      cases fds with
      | nil => exact Or.inl rfl
      | cons fd fds =>
        cases dupError with
        | none => exact Or.inr rfl
        | some error => cases hwriter

/-! ## Where the calls are -/

/-- The queue, the pool, the results and what is lost hold the calls that have been received. -/
structure Kept (r : Runner φ) (lost : List ℕ) : Prop where
  places : (r.queue.map (·.callId) ++ (r.running.map (·.callId) ++ (r.results ++ lost))).Perm
    r.received
  crashed : r.crashed = true → lost ≠ []

/-- The result to which an action leads, if it leads to one, is taken; and no field makes the
conversion throw. -/
def Answers (library : List ModuleInfo) (r : Runner φ) : RunnerAction φ → Prop
  | .receive frame => frame.fields = .ok () ∧
    ∀ reason, acceptCall frame = .error reason →
    Takes none (rejection frame.callId reason) ([] : List φ)
  | .take => True
  | .finish place run dupError => ∀ call, r.running[place]? = some call →
    Takes dupError
      (answer call.callId (runModule library call run).1 (runModule library call run).2.1)
      (answerFds (runModule library call run).1 (runModule library call run).2.2)

theorem callId_acceptCall {frame : CallFrame φ} {call : QueuedCall}
    (h : acceptCall frame = .ok call) : call.callId = frame.callId := by
  unfold acceptCall at h
  repeat' split at h
  all_goals first | cases h; rfl | cases h

/-- Sending the result of a call that was held: it gets to the results, or is lost. -/
theorem Kept.send (r : Runner φ)
    (dupError : Option String)
    (hplaces : (callId :: (r.queue.map (·.callId) ++ (r.running.map (·.callId) ++
      (r.results ++ lost)))).Perm r.received) (hcrashed : r.crashed = true → lost ≠ [])
    (hid : resultId ⟨body, fds⟩ = some callId) (hfds : fds.length ≤ 1) :
    ∃ lost', Kept (r.send dupError body fds) lost' ∧
    (lost' = [] ↔ lost = [] ∧ Takes dupError body fds) := by
  obtain ⟨htakes, hrefuses⟩ := send_results r dupError hid hfds
  by_cases h : Takes dupError body fds
  · obtain ⟨writer, hsend, hresults⟩ := htakes h
    refine ⟨lost, ⟨?_, by rw [hsend]; exact hcrashed⟩, by simp [h]⟩
    rw [hresults, hsend]
    refine Perm.trans (perm_iff_count.2 fun id => ?_) hplaces
    simp only [count_append, count_cons, count_nil]
    omega
  · rw [hrefuses h]
    refine ⟨lost ++ [callId], ⟨?_, fun _ => by simp⟩, by simp [h]⟩
    refine Perm.trans (perm_iff_count.2 fun id => ?_) hplaces
    simp only [count_append, count_cons, count_nil]
    omega

theorem Kept.handleCall (library : List ModuleInfo) (h : Kept r lost)
    (frame : CallFrame φ) : ∃ lost', Kept (r.handleCall frame) lost' ∧
      (lost' = [] ↔ lost = [] ∧ Answers library r (.receive frame)) := by
  -- the call stands for itself until it is placed somewhere
  have hreceived : (frame.callId :: (r.queue.map (·.callId) ++ (r.running.map (·.callId) ++
      (r.results ++ lost)))).Perm (r.received ++ [frame.callId]) :=
    (h.places.cons _).trans (perm_append_singleton ..).symm
  simp only [Runner.handleCall, Answers]
  cases hfields : frame.fields with
  | error error =>
    refine ⟨lost ++ [frame.callId], ⟨?_, fun _ => by simp⟩, by simp⟩
    refine Perm.trans (perm_iff_count.2 fun id => ?_) hreceived
    simp only [Runner.results, count_append, count_cons, count_nil]
    omega
  | ok _ =>
    cases haccept : acceptCall frame with
    | error reason =>
      obtain ⟨lost', hkept, hiff⟩ :=
        Kept.send { r with received := r.received ++ [frame.callId] } none
        hreceived h.crashed (resultId_rejection frame.callId reason []) (Nat.zero_le _)
      exact ⟨lost', hkept, by simpa using hiff⟩
    | ok call =>
      refine ⟨lost, ⟨?_, h.crashed⟩, by simp⟩
      refine Perm.trans (perm_iff_count.2 fun id => ?_) hreceived
      simp only [Runner.results, map_append, map_cons, map_nil, callId_acceptCall haccept,
        count_append, count_cons, count_nil]
      omega

theorem length_answerFds (failure : String) (payload : Option φ) :
    (answerFds failure payload).length ≤ 1 := by
  unfold answerFds
  split_ifs
  · cases payload <;> simp
  · exact Nat.zero_le _

/-- **Each action** keeps the calls, and loses one just if it does not answer. -/
theorem step_kept (library : List ModuleInfo) (h : Kept r lost)
    (action : RunnerAction φ) : ∃ lost', Kept (r.step library action) lost' ∧
      (lost' = [] ↔ lost = [] ∧ Answers library r action) := by
  unfold Runner.step
  split_ifs with hcrashed
  · exact ⟨lost, h, by simp [h.crashed hcrashed]⟩
  · cases action with
    | receive frame => exact h.handleCall library frame
    | take =>
      simp only [Answers, and_true]
      split
      · exact ⟨lost, h, Iff.rfl⟩
      case h_2 call queue hqueue =>
        refine ⟨lost, ⟨?_, h.crashed⟩, Iff.rfl⟩
        refine Perm.trans (perm_iff_count.2 fun id => ?_) h.places
        simp only [Runner.results, hqueue, map_append, map_cons, map_nil, count_append,
          count_cons, count_nil]
        omega
    | finish place run dupError =>
      simp only [Answers]
      split
      case h_1 hget =>
        refine ⟨lost, h, (and_iff_left_of_imp fun _ call hcall => ?_).symm⟩
        rw [hget] at hcall
        cases hcall
      case h_2 call hget =>
        have hplaces :
            (call.callId :: (r.queue.map (·.callId) ++ ((r.running.eraseIdx place).map (·.callId) ++
            (r.results ++ lost)))).Perm r.received := by
          refine Perm.trans (perm_iff_count.2 fun id => ?_) h.places
          have hcount := ((perm_cons_eraseIdx hget).map (·.callId)).count_eq id
          simp only [map_cons, count_append, count_cons] at hcount ⊢
          omega
        obtain ⟨lost', hkept, hiff⟩ :=
          Kept.send { r with running := r.running.eraseIdx place } dupError
          hplaces h.crashed (resultId_answer (harmless_runModule library call run) call.callId
            (runModule library call run).1 (answerFds (runModule library call run).1
              (runModule library call run).2.2)) (length_answerFds _ _)
        refine ⟨lost', hkept, hiff.trans (and_congr_right fun _ => ?_)⟩
        rw [hget]
        simp only [Option.some.injEq, forall_eq']

/-- Every action of a run answers. -/
def AllAnswer (library : List ModuleInfo) : Runner φ → List (RunnerAction φ) → Prop
  | _, [] => True
  | r, action :: actions =>
    Answers library r action ∧ AllAnswer library (r.step library action) actions

theorem run_kept (library : List ModuleInfo) (h : Kept r lost)
    (actions : List (RunnerAction φ)) :
    ∃ lost', Kept (actions.foldl (Runner.step library) r) lost' ∧
      (lost' = [] ↔ lost = [] ∧ AllAnswer library r actions) := by
  induction actions generalizing r lost with
  | nil => exact ⟨lost, h, by simp [AllAnswer]⟩
  | cons action actions ih =>
    obtain ⟨lost', h', hiff⟩ := step_kept library h action
    obtain ⟨lost'', h'', hiff'⟩ := ih h'
    refine ⟨lost'', h'', ?_⟩
    rw [hiff', hiff, AllAnswer, and_assoc]

/-- **Which runs answer every call.**  When all calls that were queued have been run, there is one
result in the outbound queue for each call that was received, just if `enqueue` has taken the result
of each of them and no field of a frame has made its conversion throw. -/
theorem calls_answered_iff (library : List ModuleInfo) (actions : List (RunnerAction φ))
    (hqueue : (Runner.run library actions).queue = [])
    (hrunning : (Runner.run library actions).running = []) :
    (∀ callId, (Runner.run library actions).results.count callId =
      (Runner.run library actions).received.count callId) ↔
      AllAnswer library Runner.start actions := by
  obtain ⟨lost, h, hiff⟩ :=
    run_kept library (r := (Runner.start : Runner φ)) ⟨.rfl, fun h => nomatch h⟩ actions
  rw [and_iff_right rfl] at hiff
  have hplaces := h.places
  rw [← Runner.run, hqueue, hrunning, map_nil, nil_append, nil_append] at hplaces
  rw [← hiff, eq_nil_iff_forall_not_mem]
  refine forall_congr' fun callId => ?_
  rw [← hplaces.count_eq, count_append, ← count_eq_zero]
  omega

/-- A call with an unknown operation, and one that returns metadata. -/
def twoCalls : List (RunnerAction ℕ) :=
  [.receive ⟨1, .ok (), .error "absent", .ok 0, none, []⟩,
    .receive ⟨2, .ok (), .ok .metadata, .ok 0, none, [.ok 5]⟩, .take,
    .finish 0 ⟨.returns (.ok (ascii "null")), .throwsOther, .throwsOther, .throwsOther, .ok (),
    .ok (), .ok 6⟩ none]

/-- Both calls are answered once. -/
theorem calls_answered_iff_small :
    (Runner.run [⟨"images", 1, false, "", 0⟩] twoCalls).results.count 1 = 1 ∧
      (Runner.run [⟨"images", 1, false, "", 0⟩] twoCalls).results.count 2 = 1 := by
  have h := (calls_answered_iff [⟨"images", 1, false, "", 0⟩] twoCalls rfl rfl).2
    ⟨⟨rfl, ?_⟩, ⟨rfl, ?_⟩, trivial, ?_, trivial⟩
  · exact ⟨h 1, h 2⟩
  · rintro reason ⟨⟩
    exact ⟨by decide +kernel, Or.inl rfl⟩
  · rintro reason ⟨⟩
  · rintro call ⟨⟩
    exact ⟨by decide +kernel, Or.inr rfl⟩

/-- The text of a result is longer than the metadata in it. -/
theorem lt_length_metadata (text : JsonText) :
    text.length < (writeObject (answer 7 "" [("metadata", .raw text)])).length := by
  have hanswer : answer 7 "" [("metadata", .raw text)] =
      [("call_id", .uint 7), ("metadata", .raw text), ("ok", .bool true), ("type", .uint 6)] := by
    have h : ("call_id" < "type" ∧ ¬ "metadata" < "call_id" ∧ "metadata" < "type") ∧
        ¬ "ok" < "call_id" ∧ ¬ "ok" < "metadata" ∧ "ok" < "type" := by decide +kernel
    have hne : "metadata" ≠ "call_id" ∧ "ok" ≠ "call_id" ∧ "ok" ≠ "metadata" := by decide
    simp only [answer, resultBody, foldl_cons, foldl_nil, decide_true, if_true]
    simp only [setMember, messageTypeResult, h, hne, if_true, if_false]
  rw [hanswer]
  simp only [writeObject, map_cons, map_nil, commaSeparated, JsonValue.toText, length_append]
  have hbrace : (ascii "\x7b").length = 1 := rfl
  omega

/-- **A large result is lost.**  A call for metadata whose text has 64 MiB is taken and run, and
then there is neither a result for it nor anything else left to do. -/
theorem large_result_lost : ∃ (library : List ModuleInfo) (actions : List (RunnerAction ℕ)),
    (Runner.run library actions).received = [7] ∧ (Runner.run library actions).queue = [] ∧
      (Runner.run library actions).running = [] ∧ (Runner.run library actions).crashed = false ∧
      (Runner.run library actions).results = [] := by
  obtain ⟨text, htext⟩ : ∃ text : JsonText, text.length = maxFrameBody :=
    ⟨List.replicate maxFrameBody 48, by simp⟩
  obtain ⟨library, hlibrary⟩ : ∃ library : List ModuleInfo,
    library = [⟨"images", 1, false, "", 0⟩] := ⟨_, rfl⟩
  obtain ⟨r, hr⟩ : ∃ r : Runner ℕ, r = ⟨⟨[]⟩, [], [7], [], [], false⟩ := ⟨_, rfl⟩
  have hrefused : ¬ Takes none (answer 7 "" [("metadata", .raw text)]) ([] : List ℕ) := by
    intro htakes
    have hlt := lt_length_metadata text
    have hle := htakes.1
    omega
  have hsend := (send_results r none (resultId_answer (by simp [Harmless]) 7 "" [])
    (Nat.zero_le _)).2 hrefused
  obtain ⟨actions, hrun⟩ : ∃ actions,
    Runner.run library actions = r.send none (answer 7 "" [("metadata", .raw text)]) [] := by
    refine ⟨[.receive ⟨7, .ok (), .ok .metadata, .ok 0, none, [.ok 5]⟩, .take,
      .finish 0 ⟨.returns (.ok text), .throwsOther, .throwsOther, .throwsOther, .ok (), .ok (),
      .ok 6⟩ none], ?_⟩
    rw [hr, hlibrary]
    rfl
  refine ⟨library, actions, ?_⟩
  rw [hrun, hsend, hr]
  exact ⟨rfl, rfl, rfl, rfl, rfl⟩

end Idhan.Workers
