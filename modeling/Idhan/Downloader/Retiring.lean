import Idhan.Downloader.Lane

/-!
# Retiring idle lanes

`LanePool` as far as it makes and retires lanes: `dispatch` looks a lane up under the mutex of the
pool and submits to it under the mutex of the lane, and in between `sweep` may take the lane out of
the pool and shut it down.  `LanePool::shutdown` is no step here: the question is what happens
before it.

A lane is known by its place in the list of all the lanes that were ever made.  A sweep is one step
for each lane that it retires, and one more for the shutdown of the lane, which is not under the
mutex of the pool.

`LanePool.Orderly` is what holds in a pool that retires no lane which a dispatch holds: the lanes of
the table run, a dispatch holds one of them, and a lane that is in the table no more has no request.
Such a pool answers no request with `SHUTDOWN` (`LanePool.no_shutdown_error`), and one that does
retire a lane under a dispatch fails the request (`LanePool.retired_under_dispatch`).
-/

namespace Idhan.Downloader

open List

structure LanePool (ρ : Type) where
  /-- every lane that was made -/
  lanes : List (Lane ρ)
  /-- `m_lanes`: for each key its lane -/
  table : List (Text × ℕ)
  /-- the requests for which a lane has been looked up, and that are not submitted yet -/
  dispatching : List (ρ × ℕ)
  /-- the lanes that a sweep has taken out and will shut down -/
  retired : List ℕ
  /-- the requests that got an error so far -/
  answers : Lane.Answers ρ
  deriving DecidableEq, Repr

namespace LanePool

variable {ρ : Type}

/-- The constructor. -/
def new : LanePool ρ :=
  ⟨[], [], [], [], []⟩

/-- The first half of `LanePool::dispatch`: `laneFor` finds the lane of the key, or makes one with
the policy of the key. -/
def lookup (request : ρ) (key : Text) (policy : LanePolicy) (now : ℤ) (pool : LanePool ρ) :
    LanePool ρ :=
  match pool.table.find? fun entry => entry.1 = key with
  | some entry => { pool with dispatching := pool.dispatching ++ [(request, entry.2)] }
  | none =>
    { pool with
      lanes := pool.lanes ++ [Lane.new policy now]
      table := pool.table ++ [(key, pool.lanes.length)]
      dispatching := pool.dispatching ++ [(request, pool.lanes.length)] }

/-- The second half of `LanePool::dispatch`: the request is submitted to the lane. -/
def submit (position : ℕ) (request : ρ) (place : ℕ) (lane : Lane ρ) (now : ℤ) (pool : LanePool ρ) :
    LanePool ρ :=
  { pool with
    lanes := pool.lanes.set place (lane.submit request now).1
    dispatching := pool.dispatching.eraseIdx position
    answers := pool.answers ++ (lane.submit request now).2 }

/-- `LanePool::sweep` takes a lane out of the pool. -/
def retire (entry : Text × ℕ) (pool : LanePool ρ) : LanePool ρ :=
  { pool with table := pool.table.erase entry, retired := pool.retired ++ [entry.2] }

/-- `LanePool::sweep` shuts a lane down that it has taken out. -/
def shutdownLane (place : ℕ) (lane : Lane ρ) (pool : LanePool ρ) : LanePool ρ :=
  { pool with
    lanes := pool.lanes.set place lane.shutdown.1
    retired := pool.retired.erase place
    answers := pool.answers ++ lane.shutdown.2 }

/-! ## Steps -/

/-- What happens to a pool. -/
inductive PoolEvent where
  | lookup
  | submit
  | retire (place : ℕ)
  | shutdownLane
  | inner
  deriving DecidableEq, Repr

/-- One critical section of the pool's mutex or of a lane's. -/
inductive Step (config : LaneConfig) (date : Text → Option ℤ) (keepAlive : ℤ) :
    LanePool ρ → PoolEvent → LanePool ρ → Prop
  | lookup {pool : LanePool ρ} (request : ρ) (key : Text) (policy : LanePolicy) (now : ℤ) :
      Step config date keepAlive pool .lookup (pool.lookup request key policy now)
  | submit {pool : LanePool ρ} {position place : ℕ} {request : ρ} {lane : Lane ρ} (now : ℤ) :
      pool.dispatching[position]? = some (request, place) → pool.lanes[place]? = some lane →
      Step config date keepAlive pool .submit (pool.submit position request place lane now)
  | retire {pool : LanePool ρ} {entry : Text × ℕ} {lane : Lane ρ} (now : ℤ) : entry ∈ pool.table →
      pool.lanes[entry.2]? = some lane → lane.retirable keepAlive now →
      Step config date keepAlive pool (.retire entry.2) (pool.retire entry)
  | shutdownLane {pool : LanePool ρ} {place : ℕ} {lane : Lane ρ} : place ∈ pool.retired →
      pool.lanes[place]? = some lane →
      Step config date keepAlive pool .shutdownLane (pool.shutdownLane place lane)
  | inner {pool : LanePool ρ} {place : ℕ} {lane lane' : Lane ρ} {answers : Lane.Answers ρ} :
      pool.lanes[place]? = some lane → Lane.Inner config date lane lane' answers →
      Step config date keepAlive pool .inner
        { pool with lanes := pool.lanes.set place lane', answers := pool.answers ++ answers }

/-- The pools that are reached by steps which are all allowed. -/
inductive Run (config : LaneConfig) (date : Text → Option ℤ) (keepAlive : ℤ)
    (allowed : LanePool ρ → PoolEvent → Prop) : LanePool ρ → Prop
  | new : Run config date keepAlive allowed new
  | step {pool pool' : LanePool ρ} {event : PoolEvent} : Run config date keepAlive allowed pool →
      allowed pool event → Step config date keepAlive pool event pool' →
      Run config date keepAlive allowed pool'

/-- A sweep retires no lane that a dispatch has looked up and not submitted to yet. -/
def KeepsHeld (pool : LanePool ρ) : PoolEvent → Prop
  | .retire place => ∀ held ∈ pool.dispatching, held.2 ≠ place
  | _ => True

/-- What holds in a pool whose sweeps keep the lanes that are held: the lanes of the table run, a
dispatch holds one of them, and all the others have nothing to do. -/
structure Orderly (config : LaneConfig) (pool : LanePool ρ) : Prop where
  live : ∀ entry ∈ pool.table, ∃ lane, pool.lanes[entry.2]? = some lane ∧ lane.stopped = false
  nodup : (pool.table.map Prod.snd).Nodup
  dispatching : ∀ held ∈ pool.dispatching, held.2 ∈ pool.table.map Prod.snd
  retired : ∀ place ∈ pool.retired, place ∉ pool.table.map Prod.snd ∧ place < pool.lanes.length
  idle : ∀ place lane, pool.lanes[place]? = some lane →
    place ∈ pool.table.map Prod.snd ∨ lane.queue = [] ∧ lane.transfers = []
  sound : ∀ lane ∈ pool.lanes, ∃ settings, Lane.Sound config settings lane
  answers : ∀ answer ∈ pool.answers, answer.2 ≠ .shutdown

/-! ## The steps of one lane -/

section Lanes

variable {config : LaneConfig} {date : Text → Option ℤ} {lane lane' : Lane ρ}
  {answers : Lane.Answers ρ}

theorem stopped_of_pumpLoop {ceiling : ℕ} {stopped : Bool} (queue : List ρ) (clock : ℕ → ℤ × ℤ)
    (lane : Lane ρ) (h : lane.stopped = stopped) :
    Returns (Lane.pumpLoop config ceiling queue clock lane) fun lane' => lane'.stopped =
      stopped := by
  induction queue generalizing clock lane with
  | nil => exact .ok h
  | cons request rest ih =>
    unfold Lane.pumpLoop
    split
    · exact .ok h
    intro lane' hrun
    obtain ⟨⟨wait, policy⟩, -, hrun⟩ := bind_eq_ok_iff.1 hrun
    cases wait with
    | some wait =>
      obtain ⟨deadline, -, hrun⟩ := bind_eq_ok_iff.1 hrun
      cases hrun
      split <;> exact h
    | none =>
      obtain ⟨shards, hgrown, hpos⟩ := Lane.growIfNeeded_eq config { lane with policy := policy }
      simp only [hgrown, Nat.ne_of_gt hpos, if_false] at hrun
      refine ih _ _ ?_ lane' hrun
      exact h

section

variable (h : Lane.Inner config date lane lane' answers)
include h

/-- No inner step stops a lane. -/
theorem stopped_of_inner : lane'.stopped = lane.stopped := by
  cases h with
  | pump clock _ hpump =>
    exact stopped_of_pumpLoop lane.queue clock { lane with pumps := lane.pumps - 1 } rfl lane' hpump
  | timer =>
    unfold Lane.timerFired
    simp only
    split <;> rfl
  | cancel | wake | move | report | policy | reset => rfl

/-- A lane that runs answers no request with `SHUTDOWN`. -/
theorem answers_of_inner (hrunning : lane.stopped = false) :
    ∀ answer ∈ answers, answer.2 ≠ .shutdown := by
  cases h with
  | cancel cancelled =>
    intro answer hanswer
    obtain ⟨request, -, rfl⟩ := mem_map.1 hanswer
    exact fun h => by cases h
  | move hget hmoves =>
    intro answer hanswer
    obtain ⟨code, hcode, rfl⟩ := mem_map.1 hanswer
    cases hmoves with
    | start | finish => simp at hcode
    | refuse hcodes | fail hcodes =>
      simp only [Option.toList_some, mem_singleton] at hcode
      subst hcode
      rcases hcodes with rfl | rfl | rfl | rfl <;> simp
    | abandon hstopped => simp [hrunning] at hstopped
  | wake | pump | timer | report | policy | reset => simp

/-- A lane with nothing to do has nothing to do after an inner step, and answers nothing. -/
theorem idle_of_inner (hqueue : lane.queue = [])
    (htransfers : lane.transfers = []) :
    lane'.queue = [] ∧ lane'.transfers = [] ∧ answers = [] := by
  cases h with
  | cancel cancelled => simp [Lane.cancel, hqueue, htransfers]
  | wake | policy | reset => exact ⟨hqueue, htransfers, rfl⟩
  | pump clock _ hpump =>
    have hnothing : lane.pump config clock = .ok { lane with pumps := lane.pumps - 1 } := by
      unfold Lane.pump
      rw [hqueue]
      rfl
    rw [hnothing] at hpump
    cases hpump
    exact ⟨hqueue, htransfers, rfl⟩
  | timer =>
    refine ⟨?_, ?_, rfl⟩ <;> unfold Lane.timerFired <;> simp only <;> split <;> assumption
  | move hget => simp [htransfers] at hget
  | report hget => simp [htransfers] at hget

end

end Lanes

/-! ## Every step keeps the pool orderly -/

section Orderly

variable {config : LaneConfig} {date : Text → Option ℤ} {keepAlive : ℤ} {pool pool' : LanePool ρ}
  {lane lane' : Lane ρ} {answers : Lane.Answers ρ} {place : ℕ}

section

variable (h : Orderly config pool)
include h

/-- A lane is replaced: it runs if it is in the table, and has nothing to do if it is not. -/
theorem Orderly.set (hlive : place ∈ pool.table.map Prod.snd → lane'.stopped = false)
    (hidle : place ∉ pool.table.map Prod.snd → lane'.queue = [] ∧ lane'.transfers = [])
    (hsound : ∃ settings, Lane.Sound config settings lane')
    (hanswers : ∀ answer ∈ answers, answer.2 ≠ .shutdown) :
    Orderly config { pool with
      lanes := pool.lanes.set place lane', answers := pool.answers ++ answers } where
  live entry hentry := by
    obtain ⟨lane, hlane, hrunning⟩ := h.live entry hentry
    by_cases heq : place = entry.2
    · have hlt : place < pool.lanes.length := heq ▸ (List.getElem?_eq_some_iff.1 hlane).1
      refine ⟨lane', ?_, hlive (heq ▸ mem_map_of_mem hentry)⟩
      rw [← heq]
      exact List.getElem?_set_self hlt
    · exact ⟨lane, (getElem?_set_ne heq).trans hlane, hrunning⟩
  nodup := h.nodup
  dispatching := h.dispatching
  retired other hother := by
    rw [length_set]
    exact h.retired other hother
  idle other lane hlane := by
    by_cases heq : place = other
    · subst heq
      rw [List.getElem?_set_self (by simpa using (List.getElem?_eq_some_iff.1 hlane).1)] at hlane
      cases hlane
      exact or_iff_not_imp_left.2 hidle
    · rw [getElem?_set_ne heq] at hlane
      exact h.idle other lane hlane
  sound lane hlane := by
    rcases mem_or_eq_of_mem_set hlane with hlane | rfl
    · exact h.sound lane hlane
    · exact hsound
  answers := forall_mem_append.2 ⟨h.answers, hanswers⟩

/-- The lanes of the table are found at their places. -/
theorem Orderly.running (hplace : place ∈ pool.table.map Prod.snd)
    (hlane : pool.lanes[place]? = some lane) : lane.stopped = false := by
  obtain ⟨entry, hentry, rfl⟩ := mem_map.1 hplace
  obtain ⟨other, hother, hrunning⟩ := h.live entry hentry
  rw [hlane] at hother
  cases hother
  exact hrunning

theorem Orderly.lookup (request : ρ) (key : Text) (policy : LanePolicy) (now : ℤ) :
    Orderly config (pool.lookup request key policy now) := by
  unfold LanePool.lookup
  split
  · rename_i entry hfind
    refine { h with dispatching := forall_mem_append.2 ⟨h.dispatching, forall_mem_singleton.2 ?_⟩ }
    exact mem_map_of_mem (mem_of_find?_eq_some hfind)
  · -- the new lane has a place of its own
    have hlt : ∀ place ∈ pool.table.map Prod.snd, place < pool.lanes.length := by
      intro place hplace
      obtain ⟨entry, hentry, rfl⟩ := mem_map.1 hplace
      obtain ⟨lane, hlane, -⟩ := h.live entry hentry
      exact (List.getElem?_eq_some_iff.1 hlane).1
    have hfresh : pool.lanes.length ∉ pool.table.map Prod.snd :=
      fun hmem => lt_irrefl _ (hlt _ hmem)
    constructor
    · refine forall_mem_append.2 ⟨fun entry hentry => ?_, ?_⟩
      · obtain ⟨lane, hlane, hrunning⟩ := h.live entry hentry
        refine ⟨lane, ?_, hrunning⟩
        rw [List.getElem?_append_left (List.getElem?_eq_some_iff.1 hlane).1]
        exact hlane
      · exact forall_mem_singleton.2 ⟨Lane.new policy now, by simp, rfl⟩
    · rw [map_append, nodup_append]
      refine ⟨h.nodup, nodup_singleton _, ?_⟩
      rintro place hplace other hother rfl
      have heq : place = pool.lanes.length := mem_singleton.1 hother
      exact hfresh (heq ▸ hplace)
    · refine forall_mem_append.2 ⟨fun held hheld => ?_, ?_⟩
      · rw [map_append]
        exact mem_append_left _ (h.dispatching held hheld)
      · simp
    · intro place hplace
      obtain ⟨hout, hplace⟩ := h.retired place hplace
      rw [map_append, mem_append, length_append]
      refine ⟨?_, by simp; omega⟩
      rintro (hmem | hmem)
      · exact hout hmem
      · rw [map_singleton, mem_singleton] at hmem
        omega
    · intro place lane hlane
      rw [map_append, mem_append]
      rcases Nat.lt_trichotomy place pool.lanes.length with hlt | rfl | hgt
      · rw [List.getElem?_append_left hlt] at hlane
        exact (h.idle place lane hlane).imp_left Or.inl
      · exact Or.inl (Or.inr (by simp))
      · have := (List.getElem?_eq_some_iff.1 hlane).1
        simp at this
        omega
    · exact forall_mem_append.2 ⟨h.sound, forall_mem_singleton.2 ⟨_, Lane.sound_new now rfl⟩⟩
    · exact h.answers

theorem Orderly.submit {position : ℕ} {request : ρ} (now : ℤ)
    (hheld : pool.dispatching[position]? = some (request, place))
    (hlane : pool.lanes[place]? = some lane) :
    Orderly config (pool.submit position request place lane now) := by
  have hplace : place ∈ pool.table.map Prod.snd := h.dispatching _ (mem_of_getElem? hheld)
  have hrunning := h.running hplace hlane
  obtain ⟨settings, hsound⟩ := h.sound lane (mem_of_getElem? hlane)
  have hset : Orderly config { pool with
      lanes := pool.lanes.set place (lane.submit request now).1
      answers := pool.answers ++ (lane.submit request now).2 } := by
    refine h.set (fun _ => ?_) (fun hout => absurd hplace hout) ⟨settings,
      hsound.submit request now⟩ ?_
    · unfold Lane.submit
      split <;> exact hrunning
    · simp [Lane.submit, hrunning]
  exact { hset with
    dispatching := fun held hmem => hset.dispatching held (mem_of_mem_eraseIdx hmem) }

/-- The lane that is retired has nothing to do, and no dispatch holds it. -/
theorem Orderly.retire {entry : Text × ℕ} {now : ℤ} (hentry : entry ∈ pool.table)
    (hlane : pool.lanes[entry.2]? = some lane) (hretirable : lane.retirable keepAlive now)
    (hheld : ∀ held ∈ pool.dispatching, held.2 ≠ entry.2) : Orderly config (pool.retire entry) := by
  obtain ⟨settings, hsound⟩ := h.sound lane (mem_of_getElem? hlane)
  have hmem : ∀ place, place ∈ (pool.table.erase entry).map Prod.snd ↔
      place ∈ pool.table.map Prod.snd ∧ place ≠ entry.2 := by
    intro place
    simp only [mem_map, h.nodup.of_map.mem_erase_iff]
    constructor
    · rintro ⟨other, ⟨hne, hother⟩, rfl⟩
      exact ⟨⟨other, hother, rfl⟩, fun heq => hne (inj_on_of_nodup_map h.nodup hother hentry heq)⟩
    · rintro ⟨⟨other, hother, rfl⟩, hne⟩
      exact ⟨other, ⟨fun heq => hne (congrArg Prod.snd heq), hother⟩, rfl⟩
  constructor
  · exact fun other hother => h.live other (mem_of_mem_erase hother)
  · exact h.nodup.sublist ((erase_sublist).map _)
  · exact fun held hmem' => (hmem _).2 ⟨h.dispatching held hmem', hheld held hmem'⟩
  · refine forall_mem_append.2 ⟨fun place hplace => ?_, ?_⟩
    · exact ⟨fun hin => (h.retired place hplace).1 ((hmem place).1 hin).1,
        (h.retired place hplace).2⟩
    · exact forall_mem_singleton.2 ⟨fun hin => ((hmem _).1 hin).2 rfl,
        (List.getElem?_eq_some_iff.1 hlane).1⟩
  · intro place other hother
    replace hother : pool.lanes[place]? = some other := hother
    by_cases heq : place = entry.2
    · subst heq
      rw [hlane] at hother
      cases hother
      -- no transfer is in flight, and so no shard has one
      simp only [Lane.retirable, Bool.and_eq_true, List.isEmpty_iff,
        decide_eq_true_eq] at hretirable
      obtain ⟨⟨hqueue, hinFlight⟩, -⟩ := hretirable
      exact Or.inr ⟨hqueue, List.length_eq_zero_iff.1 (hsound.inFlight.symm.trans hinFlight)⟩
    · exact (h.idle place other hother).imp_left fun hin => (hmem place).2 ⟨hin, heq⟩
  · exact h.sound
  · exact h.answers

theorem Orderly.shutdownLane (hplace : place ∈ pool.retired)
    (hlane : pool.lanes[place]? = some lane) : Orderly config (pool.shutdownLane place lane) := by
  obtain ⟨settings, hsound⟩ := h.sound lane (mem_of_getElem? hlane)
  have hout := (h.retired place hplace).1
  obtain ⟨hqueue, htransfers⟩ := (h.idle place lane hlane).resolve_left hout
  have hset : Orderly config { pool with
      lanes := pool.lanes.set place lane.shutdown.1,
      answers := pool.answers ++ lane.shutdown.2 } := by
    refine h.set (fun hin => absurd hin hout) (fun _ => ?_) ⟨settings, hsound.shutdown⟩ ?_
    · unfold Lane.shutdown
      split <;> exact ⟨by simp [hqueue], htransfers⟩
    · unfold Lane.shutdown
      split <;> simp [hqueue]
  exact { hset with retired := fun other hother => hset.retired other (mem_of_mem_erase hother) }

/-- **A step that retires no lane which is held keeps the pool orderly.** -/
theorem Orderly.step {event : PoolEvent} (hkeeps : KeepsHeld pool event)
    (hstep : Step config date keepAlive pool event pool') : Orderly config pool' := by
  cases hstep with
  | lookup request key policy now => exact h.lookup request key policy now
  | submit now hheld hlane => exact h.submit now hheld hlane
  | retire now hentry hlane hretirable => exact h.retire hentry hlane hretirable hkeeps
  | shutdownLane hplace hlane => exact h.shutdownLane hplace hlane
  | @inner place lane lane' answers hlane hinner =>
    obtain ⟨settings, hsound⟩ := h.sound lane (mem_of_getElem? hlane)
    by_cases hin : place ∈ pool.table.map Prod.snd
    · have hrunning := h.running hin hlane
      exact h.set (fun _ => (stopped_of_inner hinner).trans hrunning) (fun hout => absurd hin hout)
        ⟨settings, hsound.inner hinner⟩ (answers_of_inner hinner hrunning)
    · obtain ⟨hqueue, htransfers⟩ := (h.idle place lane hlane).resolve_left hin
      obtain ⟨hqueue, htransfers, rfl⟩ := idle_of_inner hinner hqueue htransfers
      exact h.set (fun hin' => absurd hin' hin) (fun _ => ⟨hqueue, htransfers⟩) ⟨settings,
        hsound.inner hinner⟩ (by simp)

end

theorem orderly_of_run (h : Run config date keepAlive KeepsHeld pool) : Orderly config pool := by
  induction h with
  | new => constructor <;> simp [LanePool.new]
  | step _ hkeeps hstep ih => exact ih.step hkeeps hstep

/-- **Retiring idle lanes fails no request**, in every run whose sweeps retire no lane that a
dispatch has looked up and not submitted to yet. -/
theorem no_shutdown_error (h : Run config date keepAlive KeepsHeld pool) :
    ∀ answer ∈ pool.answers, answer.2 ≠ .shutdown :=
  (orderly_of_run h).answers

end Orderly

/-! ## A lane that is retired while a dispatch holds it -/

/-- A policy without a rate. -/
def anyRate : LanePolicy :=
  ⟨⟨none, 0, 0⟩, 0, 0, 3600 * second, 0, 0, 0, 0, 1⟩

/-- The lane of a host whose only request was cancelled in its queue. -/
def idleLane : Lane ℕ :=
  { Lane.new anyRate 0 with pumps := 1 }

/-- A pool with that lane. -/
def idlePool : LanePool ℕ :=
  ⟨[idleLane], [("example.com".toList, 0)], [], [], [(7, .cancelled)]⟩

/-- Runs with the default settings of lanes, and ten seconds to keep one. -/
abbrev DefaultRun (allowed : LanePool ℕ → PoolEvent → Prop) : LanePool ℕ → Prop :=
  Run ⟨4, 8, 32, 4⟩ (fun _ => none) (10 * second) allowed

theorem run_idlePool {allowed : LanePool ℕ → PoolEvent → Prop}
    (hlookup : ∀ pool, allowed pool .lookup) (hsubmit : ∀ pool, allowed pool .submit)
    (hinner : ∀ pool, allowed pool .inner) : DefaultRun allowed idlePool := by
  let held : LanePool ℕ := ⟨[Lane.new anyRate 0], [("example.com".toList, 0)], [(7, 0)], [], []⟩
  let queued : LanePool ℕ :=
    ⟨[{ idleLane with queue := [7] }], [("example.com".toList, 0)], [], [], []⟩
  have hheld : DefaultRun allowed held :=
    .step .new (hlookup _) (.lookup 7 "example.com".toList anyRate 0)
  have hfound : held.dispatching[0]? = some (7, 0) := rfl
  have hqueued : DefaultRun allowed queued := hheld.step (hsubmit _) (.submit 0 hfound rfl)
  have hlane : queued.lanes[0]? = some { idleLane with queue := [7] } := rfl
  exact hqueued.step (hinner _) (.inner hlane (.cancel fun _ => true))

/-- The lane is retired and shut down, and the request that was cancelled stays the only one with an
error. -/
theorem no_shutdown_error_retired :
    DefaultRun KeepsHeld ((idlePool.retire ("example.com".toList, 0)).shutdownLane 0 idleLane) ∧
      ∀ answer ∈ ((idlePool.retire ("example.com".toList, 0)).shutdownLane 0 idleLane).answers,
      answer.2 ≠ .shutdown :=
  have hidle : DefaultRun KeepsHeld idlePool :=
    run_idlePool (fun _ => trivial) (fun _ => trivial) fun _ => trivial
  have hentry : ("example.com".toList, 0) ∈ idlePool.table := mem_singleton_self _
  have hlane : idlePool.lanes[0]? = some idleLane := rfl
  have hfree : KeepsHeld idlePool (.retire 0) := forall_mem_nil _
  have hretire := hidle.step hfree (.retire (20 * second) hentry hlane (by decide))
  have hany : KeepsHeld (idlePool.retire ("example.com".toList, 0)) .shutdownLane := trivial
  have hrun := hretire.step hany (.shutdownLane (mem_singleton_self _) rfl)
  ⟨hrun, no_shutdown_error hrun⟩

/-- A second request looks the idle lane up; the sweep retires the lane and shuts it down, and the
submission fails. -/
theorem retired_under_dispatch :
    ∃ pool, DefaultRun (fun _ _ => True) pool ∧ (8, .shutdown) ∈ pool.answers := by
  have hidle : DefaultRun (fun _ _ => True) idlePool :=
    run_idlePool (fun _ => trivial) (fun _ => trivial) fun _ => trivial
  let held : LanePool ℕ := { idlePool with dispatching := [(8, 0)] }
  have hheld : DefaultRun (fun _ _ => True) held :=
    hidle.step trivial (.lookup 8 "example.com".toList anyRate (20 * second))
  have hentry : ("example.com".toList, 0) ∈ held.table := mem_singleton_self _
  have hlane : held.lanes[0]? = some idleLane := rfl
  have hretire := hheld.step trivial (.retire (20 * second) hentry hlane (by decide))
  have hretired : 0 ∈ (held.retire ("example.com".toList, 0)).retired := mem_singleton_self _
  have hshutdown := hretire.step trivial (.shutdownLane hretired rfl)
  have hfound : ((held.retire ("example.com".toList, 0)).shutdownLane 0 idleLane).dispatching[0]? =
      some (8, 0) := rfl
  have hsubmit := hshutdown.step trivial (.submit (20 * second) hfound rfl)
  exact ⟨_, hsubmit, by decide⟩

end LanePool

end Idhan.Downloader
