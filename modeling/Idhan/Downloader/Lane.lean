import Idhan.Downloader.Completion
import Idhan.Downloader.LaneRate

/-!
# The queue of a lane

`Lane` of `IDHANDownloader/src/http/Lane.cpp`, one critical section of its mutex at a time.  What
the lane has set off elsewhere is part of the state: the timers that are on their way, the calls of
`pump` that follow a critical section, and the requests that a shard has, from the task that starts
them to the report that they have finished.

What a call answers to its requests is returned with the lane.  The shards are only counted: which
one gets a request depends on loads that other threads change.  The requests themselves can be
anything.

`Lane.Sound` is what holds between two critical sections: the counters are those of the transfers,
and if the lane runs, has a request and has room for it, a pump follows or a timer is armed.  A pump
that takes a request calls for another one, one that is told to wait arms the timer, and the end of
a transfer calls for a pump; so it is kept by every one of them (`Lane.sound_of_reachable`), and
`Lane.strands_nothing` says that a queued request waits for a pump, for a transfer or for a timer.
-/

namespace Idhan.Downloader

open List

structure LaneConfig where
  maxShards : ℕ
  shardGrowthThreshold : ℕ
  unthrottledConcurrency : ℕ
  throttledConcurrency : ℕ
  deriving DecidableEq, Repr

/-- `Lane::Gate`. -/
structure Gate where
  armed : Bool
  deadline : ℤ
  generation : ℕ
  deriving DecidableEq, Repr

/-- Where a request is that was taken from the queue. -/
inductive Stage where
  /-- a task to start it is posted -/
  | posted
  /-- the transfer library works on it -/
  | active
  /-- its callback has been called, and the lane is to be told -/
  | answered
  /-- it was ended with its shard, and the lane will not be told -/
  | abandoned
  deriving DecidableEq, Repr

/-- A request that was taken from the queue and is not reported yet. -/
structure Transfer (ρ : Type) where
  request : ρ
  stage : Stage
  deriving DecidableEq, Repr

structure Lane (ρ : Type) where
  policy : LanePolicy
  queue : List ρ
  shards : ℕ
  inFlight : ℕ
  lastEnqueued : ℤ
  gate : Gate
  stopped : Bool
  /-- the deadlines of the timers that have not fired -/
  timers : List ℤ
  /-- the calls of `pump` that a step in progress has still to make -/
  pumps : ℕ
  transfers : List (Transfer ρ)
  deriving DecidableEq, Repr

namespace Lane

variable {ρ : Type}

/-- The constructor. -/
def new (policy : LanePolicy) (now : ℤ) : Lane ρ :=
  ⟨policy, [], 0, 0, now, ⟨false, 0, 0⟩, false, [], 0, []⟩

/-- The number of transfers that a lane may have at a time. -/
def ceiling (config : LaneConfig) (lane : Lane ρ) : ℕ :=
  lane.policy.concurrency config.unthrottledConcurrency config.throttledConcurrency

/-- The requests that get an error, and which one. -/
abbrev Answers (ρ : Type) := List (ρ × TransferErrorCode)

/-! ## The functions of the lane -/

/-- `Lane::submit`. -/
def submit (request : ρ) (now : ℤ) (lane : Lane ρ) : Lane ρ × Answers ρ :=
  if lane.stopped then (lane, [(request, .shutdown)])
  else ({ lane with
    lastEnqueued := now, queue := lane.queue ++ [request], pumps := lane.pumps + 1 }, [])

/-- `Lane::cancel`, for the requests that have this cancellation. -/
def cancel (cancelled : ρ → Bool) (lane : Lane ρ) : Lane ρ × Answers ρ :=
  ({ lane with queue := lane.queue.filter fun request => !cancelled request },
    (lane.queue.filter cancelled).map fun request => (request, .cancelled))

/-- `Lane::wake`. -/
def wake (lane : Lane ρ) : Lane ρ :=
  { lane with pumps := lane.pumps + 1 }

/-- `Lane::onTransferFinished`, for the transfer at a position. -/
def onTransferFinished (position : ℕ) (lane : Lane ρ) : Lane ρ :=
  { lane with
    inFlight := if 0 < lane.inFlight then lane.inFlight - 1 else lane.inFlight
    transfers := lane.transfers.eraseIdx position
    pumps := lane.pumps + 1 }

/-- `Lane::growIfNeeded`. -/
def growIfNeeded (config : LaneConfig) (lane : Lane ρ) : Lane ρ :=
  if lane.shards = 0 then { lane with shards := 1 }
  else if lane.policy.throttled ∨ config.maxShards ≤ lane.shards then lane
  else if lane.inFlight + lane.queue.length ≤ lane.shards * config.shardGrowthThreshold then lane
  else { lane with shards := lane.shards + 1 }

/-- `Lane::arm`. -/
def arm (now wait : ℤ) (lane : Lane ρ) : Except Fault (Lane ρ) := do
  let deadline ← ticks (now + wait)
  let generation := lane.policy.generation
  let covered := lane.gate.armed && lane.gate.generation = generation && lane.gate.deadline ≤
    deadline
  return if covered then lane
    else { lane with gate := ⟨true, deadline, generation⟩, timers := lane.timers ++ [deadline] }

/-- The task of a timer. -/
def timerFired (deadline : ℤ) (lane : Lane ρ) : Lane ρ :=
  let lane := { lane with timers := lane.timers.erase deadline }
  -- a nearer wakeup has replaced this one
  if !lane.gate.armed || lane.gate.deadline ≠ deadline then lane
  else { lane with gate := { lane.gate with armed := false }, pumps := lane.pumps + 1 }

/-- The loop of `Lane::pump`, over the queue; `clock` gives the two readings of a round. -/
def pumpLoop (config : LaneConfig) (ceiling : ℕ) :
    List ρ → (ℕ → ℤ × ℤ) → Lane ρ → Except Fault (Lane ρ)
  | [], _, lane => .ok lane
  | request :: rest, clock, lane =>
    if lane.stopped ∨ ceiling ≤ lane.inFlight then .ok lane
    else do
      let (wait, policy) ← lane.policy.claim (clock 0).1
      let lane := { lane with policy := policy }
      match wait with
      | some wait => lane.arm (clock 0).2 wait
      | none =>
        let lane := lane.growIfNeeded config
        if lane.shards = 0 then return lane
        else
          pumpLoop config ceiling rest (fun round => clock (round + 1)) { lane with
            queue := rest
            inFlight := lane.inFlight + 1
            transfers := lane.transfers ++ [⟨request, .posted⟩] }

/-- `Lane::pump`, as the end of a step that has to make the call. -/
def pump (config : LaneConfig) (clock : ℕ → ℤ × ℤ) (lane : Lane ρ) : Except Fault (Lane ρ) :=
  pumpLoop config (lane.ceiling config) lane.queue clock { lane with pumps := lane.pumps - 1 }

/-- `Lane::retirable`. -/
def retirable (keepAlive now : ℤ) (lane : Lane ρ) : Bool :=
  lane.queue.isEmpty && lane.inFlight = 0 && keepAlive ≤ now - lane.lastEnqueued

/-- `Lane::shutdown`. -/
def shutdown (lane : Lane ρ) : Lane ρ × Answers ρ :=
  if lane.stopped then (lane, [])
  else ({ lane with stopped := true, queue := [], shards := 0 },
    lane.queue.map fun request => (request, .shutdown))

/-- A shard moves a transfer on. -/
def move (position : ℕ) (request : ρ) (stage : Stage) (lane : Lane ρ) : Lane ρ :=
  { lane with transfers := lane.transfers.set position ⟨request, stage⟩ }

/-! ## Steps -/

/-- What a shard does with a transfer, and the error that its callback gets: `LaneShard::start`
begins it or refuses it, `finish` and `cancel` answer it, and `LaneShard::shutdown`, which runs once
the lane has stopped, ends it. -/
inductive Moves (stopped : Bool) : Stage → Stage → Option TransferErrorCode → Prop
  | start : Moves stopped .posted .active none
  | refuse {code : TransferErrorCode} : code = .cancelled ∨ code = .transport →
      Moves stopped .posted .answered (some code)
  | finish : Moves stopped .active .answered none
  | fail {code : TransferErrorCode} :
      code = .sink ∨ code = .tooLarge ∨ code = .cancelled ∨ code = .transport →
      Moves stopped .active .answered (some code)
  | abandon : stopped → Moves stopped .active .abandoned (some .shutdown)

/-- One critical section of the lane's mutex, or a step of something that works for the lane, and
the requests that get an error. -/
inductive Inner (config : LaneConfig) (date : Text → Option ℤ) : Lane ρ → Lane ρ → Answers ρ → Prop
  | cancel {lane : Lane ρ} (cancelled : ρ → Bool) :
      Inner config date lane (lane.cancel cancelled).1 (lane.cancel cancelled).2
  | wake {lane : Lane ρ} : Inner config date lane lane.wake []
  | pump {lane lane' : Lane ρ} (clock : ℕ → ℤ × ℤ) :
      0 < lane.pumps → lane.pump config clock = .ok lane' → Inner config date lane lane' []
  | timer {lane : Lane ρ} {deadline : ℤ} :
      deadline ∈ lane.timers → Inner config date lane (lane.timerFired deadline) []
  | move {lane : Lane ρ} {position : ℕ} {request : ρ} {before after : Stage}
      {code : Option TransferErrorCode} : lane.transfers[position]? = some ⟨request, before⟩ →
      Moves lane.stopped before after code →
      Inner config date lane (lane.move position request after)
        (code.toList.map fun code => (request, code))
  | report {lane : Lane ρ} {position : ℕ} {request : ρ} :
      lane.transfers[position]? = some ⟨request, .answered⟩ →
      Inner config date lane (lane.onTransferFinished position) []
  | policy {lane : Lane ρ} {granted : Option ℤ} {policy : LanePolicy} (c : PolicyCall) :
      lane.policy.call date c = .ok (granted, policy) →
      Inner config date lane { lane with policy := policy } []
  | reset {lane : Lane ρ} : Inner config date lane { lane with policy := lane.policy.reset } []

/-- A step of the lane, or one that the pool asks for. -/
inductive Step (config : LaneConfig) (date : Text → Option ℤ) : Lane ρ → Lane ρ → Prop
  | inner {lane lane' : Lane ρ} {answers : Answers ρ} : Inner config date lane lane' answers →
      Step config date lane lane'
  | submit {lane : Lane ρ} (request : ρ) (now : ℤ) :
      Step config date lane (lane.submit request now).1
  | shutdown {lane : Lane ρ} : Step config date lane lane.shutdown.1

/-- The states that a lane with these settings can reach. -/
inductive Reachable (config : LaneConfig) (date : Text → Option ℤ) (settings : LaneSettings) :
    Lane ρ → Prop
  | new {policy : LanePolicy} (now : ℤ) :
      policy.settings = settings → Reachable config date settings (new policy now)
  | step {lane lane' : Lane ρ} : Reachable config date settings lane → Step config date lane lane' →
      Reachable config date settings lane'

/-! ## What holds between the critical sections -/

/-- The counts agree, and the gate has its timer. -/
structure Counted (config : LaneConfig) (settings : LaneSettings) (lane : Lane ρ) : Prop where
  settings : lane.policy.settings = settings
  inFlight : lane.inFlight = lane.transfers.length
  le_ceiling : lane.inFlight ≤ lane.ceiling config
  timer : lane.gate.armed → lane.gate.deadline ∈ lane.timers

/-- A lane that could take a request from its queue is about to do so, or has a timer. -/
structure Sound (config : LaneConfig) (settings : LaneSettings) (lane : Lane ρ) : Prop
    extends Counted config settings lane where
  progress : lane.stopped = false → lane.queue ≠ [] → lane.inFlight < lane.ceiling config →
    0 < lane.pumps ∨ lane.gate.armed

variable {config : LaneConfig} {date : Text → Option ℤ} {settings : LaneSettings}
  {lane lane' : Lane ρ} {policy policy' : LanePolicy}

/-- The ceiling is a matter of the settings. -/
theorem ceiling_congr (h : lane'.policy.settings = lane.policy.settings) :
    lane'.ceiling config = lane.ceiling config := by
  unfold ceiling LanePolicy.concurrency
  rw [h]

theorem settings_of_claim {now : ℤ} {wait : Option ℤ}
    (h : policy.claim now = .ok (wait, policy')) : policy'.settings = policy.settings := by
  rcases LanePolicy.returns_claim now policy _ h with ⟨-, heq⟩ | ⟨-, next, heq, -⟩ <;> cases heq <;>
    rfl

theorem settings_of_call {c : PolicyCall} {granted : Option ℤ}
    (h : policy.call date c = .ok (granted, policy')) : policy'.settings = policy.settings := by
  rcases LanePolicy.returns_call date policy c _ h with ⟨-, hlater⟩ | ⟨now, next, heq, -⟩
  · exact hlater.settings
  · cases heq
    rfl

/-- Another policy with the same settings. -/
theorem Counted.setPolicy (h : Counted config settings lane)
    (hsettings : policy.settings = lane.policy.settings) :
    Counted config settings { lane with policy := policy } where
  settings := hsettings.trans h.settings
  inFlight := h.inFlight
  le_ceiling := h.le_ceiling.trans_eq (ceiling_congr hsettings).symm
  timer := h.timer

/-- Arming leaves the gate armed: it was, or it is now and the timer is posted. -/
theorem returns_arm (h : Counted config settings lane) (now wait : ℤ) :
    Returns (lane.arm now wait) fun lane' => Counted config settings lane' ∧ lane'.gate.armed := by
  intro lane' harm
  obtain ⟨deadline, -, harm⟩ := bind_eq_ok_iff.1 harm
  cases harm
  split
  · rename_i hcovered
    simp only [Bool.and_eq_true] at hcovered
    exact ⟨h, hcovered.1.1⟩
  · exact ⟨⟨h.settings, h.inFlight, h.le_ceiling, fun _ => by simp⟩, rfl⟩

/-- Growing changes the number of shards only, and there is one in the end. -/
theorem growIfNeeded_eq (config : LaneConfig) (lane : Lane ρ) :
    ∃ shards, lane.growIfNeeded config = { lane with shards := shards } ∧ 0 < shards := by
  unfold growIfNeeded
  split
  · exact ⟨1, rfl, Nat.one_pos⟩
  have hpos : 0 < lane.shards := by omega
  split
  · exact ⟨lane.shards, rfl, hpos⟩
  split
  · exact ⟨lane.shards, rfl, hpos⟩
  · exact ⟨lane.shards + 1, rfl, Nat.succ_pos _⟩

/-- A pump leaves no request behind that could be taken, unless the gate is armed. -/
theorem returns_pumpLoop {ceiling : ℕ} (queue : List ρ) (clock : ℕ → ℤ × ℤ) (lane : Lane ρ)
    (hqueue : lane.queue = queue) (hceiling : lane.ceiling config = ceiling)
    (h : Counted config settings lane) :
    Returns (pumpLoop config ceiling queue clock lane) fun lane' =>
      Counted config settings lane' ∧
        (lane'.stopped = false → lane'.queue ≠ [] → lane'.inFlight < lane'.ceiling config →
          lane'.gate.armed) := by
  induction queue generalizing clock lane with
  | nil => exact .ok ⟨h, fun _ hne => absurd hqueue hne⟩
  | cons request rest ih =>
    unfold pumpLoop
    split
    · rename_i hleave
      refine .ok ⟨h, fun hrunning _ hlt => ?_⟩
      rcases hleave with hstopped | hfull
      · simp [hstopped] at hrunning
      · omega
    rename_i hgo
    intro lane' hrun
    obtain ⟨⟨wait, policy⟩, hclaim, hrun⟩ := bind_eq_ok_iff.1 hrun
    have hsettings := settings_of_claim hclaim
    have hclaimed := h.setPolicy hsettings
    cases wait with
    | some wait =>
      obtain ⟨hcounted, harmed⟩ := returns_arm hclaimed _ _ lane' hrun
      exact ⟨hcounted, fun _ _ _ => harmed⟩
    | none =>
      obtain ⟨shards, hgrown, hpos⟩ := growIfNeeded_eq config { lane with policy := policy }
      simp only [hgrown, Nat.ne_of_gt hpos, if_false] at hrun
      refine ih _ _ rfl ((ceiling_congr hsettings).trans hceiling) ?_ lane' hrun
      refine ⟨hclaimed.settings, ?_, ?_, hclaimed.timer⟩
      · simp [h.inFlight]
      · have hbelow : lane.inFlight < ceiling := by
          simp only [not_or, Nat.not_le] at hgo
          exact hgo.2
        exact hbelow.trans_eq ((ceiling_congr hsettings).trans hceiling).symm

/-- A lane whose requests, counts and gate are as before, or with less in the queue. -/
theorem Sound.of_le (h : Sound config settings lane) (hcounted : Counted config settings lane')
    (hinFlight : lane'.inFlight = lane.inFlight)
    (hstopped : lane'.stopped = false → lane.stopped = false)
    (hqueue : lane'.queue ≠ [] → lane.queue ≠ []) (hpumps : lane.pumps ≤ lane'.pumps)
    (hgate : lane.gate.armed → lane'.gate.armed) : Sound config settings lane' where
  toCounted := hcounted
  progress hrunning hne hlt := by
    have hceiling : lane'.ceiling config = lane.ceiling config :=
      ceiling_congr (hcounted.settings.trans h.settings.symm)
    rw [hinFlight, hceiling] at hlt
    rcases h.progress (hstopped hrunning) (hqueue hne) hlt with hpump | harmed
    · exact Or.inl (by omega)
    · exact Or.inr (hgate harmed)

/-- A lane that is going to be pumped. -/
theorem Counted.sound (h : Counted config settings lane) (hpumps : 0 < lane.pumps) :
    Sound config settings lane :=
  ⟨h, fun _ _ _ => Or.inl hpumps⟩

section

variable (h : Sound config settings lane)
include h

/-- A timer that fires is the gate's, and then the lane is pumped; or it is not, and the gate keeps
its own. -/
theorem Sound.timerFired (deadline : ℤ) : Sound config settings (lane.timerFired deadline) := by
  unfold Lane.timerFired
  simp only
  split
  · rename_i hother
    refine h.of_le ⟨h.settings, h.inFlight, h.le_ceiling, fun harmed => ?_⟩ rfl id id le_rfl id
    have hne : lane.gate.deadline ≠ deadline := by
      simpa [show lane.gate.armed = true from harmed] using hother
    exact (mem_erase_of_ne hne).2 (h.timer harmed)
  · refine Counted.sound ⟨h.settings, h.inFlight, h.le_ceiling, fun harmed => ?_⟩ (Nat.succ_pos _)
    exact absurd harmed Bool.false_ne_true

theorem Sound.onTransferFinished {position : ℕ} (hlt : position < lane.transfers.length) :
    Sound config settings (lane.onTransferFinished position) := by
  have hpos : 0 < lane.inFlight := by
    rw [h.inFlight]
    omega
  have hfewer : (lane.onTransferFinished position).inFlight = lane.inFlight - 1 := if_pos hpos
  refine Counted.sound ⟨h.settings, ?_, ?_, h.timer⟩ (Nat.succ_pos _)
  · rw [hfewer, h.inFlight]
    exact (length_eraseIdx_of_lt hlt).symm
  · rw [hfewer]
    exact (Nat.sub_le _ _).trans h.le_ceiling

theorem Sound.inner {answers : Answers ρ} (hinner : Inner config date lane lane' answers) :
    Sound config settings lane' := by
  cases hinner with
  | cancel cancelled =>
    refine h.of_le { h with } rfl id (fun hne hnil => hne ?_) le_rfl id
    show lane.queue.filter _ = []
    rw [hnil]
    rfl
  | wake => exact Counted.sound { h with } (Nat.succ_pos _)
  | pump clock hpumps hpump =>
    have hcounted : Counted config settings { lane with pumps := lane.pumps - 1 } :=
      { h with }
    obtain ⟨hcounted', hprogress⟩ :=
      returns_pumpLoop lane.queue clock { lane with pumps := lane.pumps - 1 } rfl rfl hcounted lane'
        hpump
    exact ⟨hcounted', fun hrunning hne hlt => Or.inr (hprogress hrunning hne hlt)⟩
  | timer hmem => exact h.timerFired _
  | move hget hmoves =>
    refine h.of_le ⟨h.settings, ?_, h.le_ceiling, h.timer⟩ rfl id id le_rfl id
    exact h.inFlight.trans length_set.symm
  | report hget => exact h.onTransferFinished (List.getElem?_eq_some_iff.1 hget).1
  | policy c hcall => exact h.of_le (h.setPolicy (settings_of_call hcall)) rfl id id le_rfl id
  | reset => exact h.of_le (h.setPolicy rfl) rfl id id le_rfl id

theorem Sound.submit (request : ρ) (now : ℤ) :
    Sound config settings (lane.submit request now).1 := by
  unfold Lane.submit
  split
  · exact h
  · exact Counted.sound { h with } (Nat.succ_pos _)

theorem Sound.shutdown : Sound config settings lane.shutdown.1 := by
  unfold Lane.shutdown
  split
  · exact h
  · exact ⟨{ h with }, fun hrunning => by cases hrunning⟩

end

theorem sound_new (now : ℤ) (h : policy.settings = settings) :
    Sound config settings (new policy now : Lane ρ) :=
  ⟨⟨h, rfl, Nat.zero_le _, fun h => by cases h⟩, fun _ hne => absurd rfl hne⟩

/-- Every step keeps it. -/
theorem sound_of_reachable (h : Reachable config date settings lane) :
    Sound config settings lane := by
  induction h with
  | new now hsettings => exact sound_new now hsettings
  | step _ hstep ih =>
    cases hstep with
    | inner hinner => exact ih.inner hinner
    | submit request now => exact ih.submit request now
    | shutdown => exact ih.shutdown

/-- **A live lane strands no request.**  In every state that a lane can reach, its count of
transfers is the number of requests that were taken from the queue and not reported, and at most the
ceiling; and if it has not stopped, has a request in its queue and could take it, then it is about
to be pumped, or its gate is armed and a timer with the deadline of the gate has not fired. -/
theorem strands_nothing (h : Reachable config date settings lane) :
    lane.inFlight = lane.transfers.length ∧ lane.inFlight ≤ lane.ceiling config ∧
      (lane.stopped = false → lane.queue ≠ [] → lane.inFlight < lane.ceiling config →
        0 < lane.pumps ∨ (lane.gate.armed ∧ lane.gate.deadline ∈ lane.timers)) := by
  have hsound := sound_of_reachable h
  refine ⟨hsound.inFlight, hsound.le_ceiling, fun hrunning hne hlt => ?_⟩
  exact (hsound.progress hrunning hne hlt).imp_right fun harmed => ⟨harmed, hsound.timer harmed⟩

/-- A policy with one request in a second, and the time of the next one. -/
def eachSecond (nextRequest : ℤ) : LanePolicy :=
  ⟨⟨some ⟨1, 1⟩, 0, 0⟩, second, second, 3600 * second, 0, nextRequest, 0, 0, 1⟩

/-- The first of two requests has been taken, and the other one is too early. -/
def oneTooEarly : Lane ℕ :=
  ⟨eachSecond second, [8], 1, 1, 0, ⟨true, second, 1⟩, false, [second], 0, [⟨7, .posted⟩]⟩

/-- The second request waits for a timer, after both pumps. -/
theorem strands_nothing_oneTooEarly : oneTooEarly.inFlight = oneTooEarly.transfers.length ∧
    oneTooEarly.pumps = 0 ∧ oneTooEarly.gate.deadline ∈ oneTooEarly.timers := by
  have hnew : Reachable ⟨4, 8, 32, 4⟩ (fun _ => none) _ (new (eachSecond 0) 0 : Lane ℕ) :=
    .new 0 rfl
  have hqueued := (hnew.step (.submit 7 0)).step (.submit 8 0)
  have htaken := hqueued.step (.inner (.pump (fun _ => (0, 0)) (by decide) rfl))
  have hwaits : Reachable ⟨4, 8, 32, 4⟩ (fun _ => none) _ oneTooEarly :=
    htaken.step (.inner (.pump (fun _ => (0, 0)) (by decide) rfl))
  obtain ⟨hcount, _, hprogress⟩ := strands_nothing hwaits
  rcases hprogress rfl (by decide) (by decide) with hpump | ⟨_, htimer⟩
  · exact absurd hpump (by decide)
  · exact ⟨hcount, rfl, htimer⟩

end Lane

end Idhan.Downloader
