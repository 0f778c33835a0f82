import Idhan.Downloader.LanePolicy

/-!
# The rate of a lane

Calls on the policy of a lane, one after the other and at any times.  Each request that is let
through has a slot: the slots are an interval apart, a request is not made before its slot, and the
next slot is after the request.

Two requests may be closer together than an interval, when the first is made late in its slot.
What is counted is therefore the slots: `LanePolicy.spaced_run` gives them to the requests of a run,
and `LanePolicy.requests_respect_rate` concludes that a window of `k` intervals has at most `k + 1`
requests, and that none is made in a pause.  `LanePolicy.backoff_keeps_rate` says that backing off
does not make a lane faster, for the settings that fit the hour at which widening ends and the
clock.
-/

namespace Idhan.Downloader

open List

/-! ## Runs -/

/-- The calls that a lane makes on its policy. -/
inductive PolicyCall where
  | claim (now : ℤ)
  | limited (retryAfter : Option Text) (now wallTime : ℤ)
  | failed (now : ℤ)
  deriving DecidableEq, Repr

/-- The call opens a pause, or lengthens one. -/
def PolicyCall.pauses : PolicyCall → Bool
  | .claim _ => false
  | .limited _ _ _ => true
  | .failed _ => true

namespace LanePolicy

/-- A call, with the time of the request that it lets through. -/
def call (date : Text → Option ℤ) (policy : LanePolicy) :
    PolicyCall → Except Fault (Option ℤ × LanePolicy)
  | .claim now => do
    let (wait, policy) ← policy.claim now
    return (if wait = none then some now else none, policy)
  | .limited retryAfter now wallTime => do
    let (_, policy) ← policy.limited date retryAfter now wallTime
    return (none, policy)
  | .failed now => do
    let policy ← policy.failed now
    return (none, policy)

/-- Calls one after the other, with the times of the requests that they let through. -/
def run (date : Text → Option ℤ) : List PolicyCall → LanePolicy → Except Fault (List ℤ × LanePolicy)
  | [], policy => .ok ([], policy)
  | c :: calls, policy => do
    let (granted, policy) ← policy.call date c
    let (rest, policy) ← run date calls policy
    return (granted.toList ++ rest, policy)

variable {date : Text → Option ℤ} {policy policy' : LanePolicy}

/-- **What one call can do.**  It takes nothing back, or it lets a request through at or after the
next slot and moves the slot on. -/
theorem returns_call (date : Text → Option ℤ) (policy : LanePolicy) (c : PolicyCall) :
    Returns (policy.call date c) fun result => (result.1 = none ∧ Later policy result.2) ∨
      (∃ now next, result = (some now, { policy with nextRequest := next }) ∧
        policy.nextRequest ≤ now ∧ policy.nextRequest + policy.interval ≤ next ∧
        (0 < policy.interval → now < next)) := by
  intro result h
  cases c with
  | claim now =>
    obtain ⟨⟨wait, policy'⟩, hclaim, h⟩ := bind_eq_ok_iff.1 h
    cases h
    rcases returns_claim now policy _ hclaim with ⟨-, hwait⟩ | ⟨hle, next, hnext, hfar, hlater⟩
    · cases hwait
      exact Or.inl ⟨rfl, .refl policy⟩
    · cases hnext
      exact Or.inr ⟨now, next, rfl, hle, hfar, hlater⟩
  | limited retryAfter now wallTime =>
    obtain ⟨⟨left, policy'⟩, hlimited, h⟩ := bind_eq_ok_iff.1 h
    cases h
    exact Or.inl ⟨rfl, (returns_limited date retryAfter now wallTime policy _ hlimited).1⟩
  | failed now =>
    obtain ⟨policy', hfailed, h⟩ := bind_eq_ok_iff.1 h
    cases h
    exact Or.inl ⟨rfl, (returns_failed now policy _ hfailed).1⟩

/-- The policies that a lane can have. -/
inductive Reachable (date : Text → Option ℤ) : LanePolicy → Prop where
  | new {settings : LaneSettings} {maximumInterval : ℤ} {policy : LanePolicy} :
      new settings maximumInterval = .ok policy → Reachable date policy
  | configure {settings : LaneSettings} {policy policy' : LanePolicy} : Reachable date policy →
      policy.configure settings = .ok policy' → Reachable date policy'
  | reset {policy : LanePolicy} : Reachable date policy → Reachable date policy.reset
  | call {policy policy' : LanePolicy} (c : PolicyCall) {granted : Option ℤ} :
      Reachable date policy →
      policy.call date c = .ok (granted, policy') → Reachable date policy'

/-- The interval is between the base interval and the maximum. -/
structure Paced (policy : LanePolicy) : Prop where
  pos : 0 < policy.baseInterval
  le_interval : policy.baseInterval ≤ policy.interval
  interval_le : policy.interval ≤ policy.maximumInterval

theorem interval_of_configure {settings : LaneSettings}
    (h : policy.configure settings = .ok policy') : policy'.interval = policy'.baseInterval := by
  unfold configure at h
  obtain ⟨interval, -, h⟩ := bind_eq_ok_iff.1 h
  obtain ⟨errorBackoff, -, h⟩ := bind_eq_ok_iff.1 h
  cases h
  rfl

/-- Widening stays between the base and the maximum, if these are in order. -/
theorem Reachable.interval_mem (h : Reachable date policy)
    (hmax : policy.baseInterval ≤ policy.maximumInterval) :
    policy.baseInterval ≤ policy.interval ∧ policy.interval ≤ policy.maximumInterval := by
  induction h with
  | @new settings maximumInterval policy hnew =>
    unfold LanePolicy.new at hnew
    split at hnew
    · exact nomatch hnew
    · rw [interval_of_configure hnew]
      exact ⟨le_rfl, hmax⟩
  | configure _ hconfigure =>
    rw [interval_of_configure hconfigure]
    exact ⟨le_rfl, hmax⟩
  | reset => exact ⟨le_rfl, hmax⟩
  | call c _ hcall ih =>
    rcases returns_call date _ c _ hcall with ⟨-, hlater⟩ | ⟨now, next, hnext, -⟩
    · rw [hlater.baseInterval, hlater.maximumInterval] at hmax
      exact hlater.interval_mem (ih hmax).1 (ih hmax).2
    · cases hnext
      exact ih hmax

theorem Paced.of_later (h : Paced policy) (hlater : Later policy policy') : Paced policy' := by
  obtain ⟨hlow, hhigh⟩ := hlater.interval_mem h.le_interval h.interval_le
  exact ⟨hlater.baseInterval ▸ h.pos, hlow, hhigh⟩

end LanePolicy

/-! ## A schedule with slots -/

/-- Times that are each at or after their slot, where the slots are `interval` apart at least and
each is after the time before it. -/
def Spaced (interval : ℤ) : ℤ → List ℤ → Prop
  | _, [] => True
  | slot, time :: times =>
    slot ≤ time ∧ ∃ next, time < next ∧ slot + interval ≤ next ∧ Spaced interval next times

namespace Spaced

variable {interval slot : ℤ} {times : List ℤ}

/-- Slots that are earlier do as well. -/
theorem anti {slot' : ℤ} (h : Spaced interval slot times) (hle : slot' ≤ slot) :
    Spaced interval slot' times := by
  cases times with
  | nil => trivial
  | cons time times =>
    obtain ⟨hslot, next, hlt, hfar, hrest⟩ := h
    exact ⟨hle.trans hslot, next, hlt, by omega, hrest⟩

theorem le_of_mem (hpos : 0 ≤ interval) (h : Spaced interval slot times) {time : ℤ}
    (htime : time ∈ times) : slot ≤ time := by
  induction times generalizing slot with
  | nil => exact absurd htime not_mem_nil
  | cons t times ih =>
    obtain ⟨hslot, next, -, hfar, hrest⟩ := h
    rcases mem_cons.1 htime with rfl | hmem
    · exact hslot
    · have := ih hrest hmem
      omega

/-- Behind a time before the first slot, `k` intervals have room for `k` times. -/
theorem countP_le (h : Spaced interval slot times) {start : ℤ} (hstart : start < slot) (k : ℕ) :
    times.countP (fun time => time ≤ start + k * interval) ≤ k := by
  induction times generalizing slot start k with
  | nil => simp
  | cons time times ih =>
    obtain ⟨hslot, next, hlt, hfar, hrest⟩ := h
    by_cases hin : time ≤ start + k * interval
    · rw [countP_cons_of_pos (by simpa using hin)]
      cases k with
      | zero =>
        push_cast at hin
        omega
      | succ k =>
        -- the slot after this one is an interval later, and so is what is left of the window
        have hbefore : start + interval < next := by omega
        have hrest := ih hrest hbefore k
        have hsame : start + interval + k * interval = start + ((k + 1 : ℕ) : ℤ) * interval := by
          push_cast
          ring
        rw [hsame] at hrest
        omega
    · rw [countP_cons_of_neg (by simpa using hin)]
      exact ih hrest (by omega) k

/-- **A window of `k` intervals holds at most `k + 1` times.** -/
theorem window (h : Spaced interval slot times) (start : ℤ) (k : ℕ) :
    times.countP (fun time => start ≤ time ∧ time ≤ start + k * interval) ≤ k + 1 := by
  induction times generalizing slot with
  | nil => simp
  | cons time times ih =>
    obtain ⟨-, next, hlt, -, hrest⟩ := h
    by_cases hin : start ≤ time ∧ time ≤ start + k * interval
    · rw [countP_cons_of_pos (by simpa using hin)]
      have hbefore : start < next := by omega
      have hothers := hrest.countP_le hbefore k
      have hfewer : times.countP (fun time => start ≤ time ∧ time ≤ start + k * interval) ≤
          times.countP fun time => time ≤ start + k * interval :=
        countP_mono_left fun t _ ht => by simp_all
      omega
    · rw [countP_cons_of_neg (by simpa using hin)]
      exact ih hrest

end Spaced

/-! ## The rate is respected -/

namespace LanePolicy

variable {date : Text → Option ℤ} {policy policy' : LanePolicy} {calls : List PolicyCall}
  {granted : List ℤ} {time : Option ℤ} {c : PolicyCall}

/-- A run begins with its first call. -/
theorem run_cons_eq_ok : run date (c :: calls) policy = .ok (granted, policy') ↔
    ∃ time opened rest, policy.call date c = .ok (time, opened) ∧
    run date calls opened = .ok (rest, policy') ∧
      granted = time.toList ++ rest := by
  constructor
  · intro h
    obtain ⟨⟨time, opened⟩, hcall, h⟩ := bind_eq_ok_iff.1 h
    obtain ⟨⟨rest, last⟩, hrest, h⟩ := bind_eq_ok_iff.1 h
    cases h
    exact ⟨time, opened, rest, hcall, hrest, rfl⟩
  · rintro ⟨time, opened, rest, hcall, hrest, rfl⟩
    exact bind_eq_ok_iff.2 ⟨_, hcall, bind_eq_ok_iff.2 ⟨_, hrest, rfl⟩⟩

/-- A run in two parts. -/
theorem run_append_eq_ok {before after : List PolicyCall}
    (hrun : run date (before ++ after) policy = .ok (granted, policy')) :
    ∃ early between late, run date before policy = .ok (early, between) ∧
    run date after between = .ok (late, policy') ∧
      granted = early ++ late := by
  induction before generalizing policy granted with
  | nil => exact ⟨[], policy, granted, rfl, hrun, rfl⟩
  | cons c before ih =>
    obtain ⟨time, opened, rest, hcall, hrest, rfl⟩ := run_cons_eq_ok.1 hrun
    obtain ⟨early, between, late, hbefore, hafter, rfl⟩ := ih hrest
    exact ⟨_, between, late, run_cons_eq_ok.2 ⟨time, opened, early, hcall, hbefore, rfl⟩, hafter,
      (append_assoc ..).symm⟩

/-- A policy that is paced only goes on. -/
theorem Paced.later_of_call (h : Paced policy) (hcall : policy.call date c = .ok (time, policy')) :
    Later policy policy' := by
  rcases returns_call date policy c _ hcall with ⟨-, hlater⟩ | ⟨now, next, hnext, -, hfar, -⟩
  · exact hlater
  · have hpos := h.pos
    have hinterval := h.le_interval
    have hnextRequest : policy.nextRequest ≤ next := by omega
    cases hnext
    exact ⟨rfl, rfl, rfl, rfl, rfl, hnextRequest, le_rfl, Or.inl rfl⟩

/-- **What a run lets through is spaced by the base interval**, and the policy goes on. -/
theorem spaced_run (h : Paced policy) (hrun : run date calls policy = .ok (granted, policy')) :
    Spaced policy.baseInterval policy.nextRequest granted ∧ Later policy policy' := by
  induction calls generalizing policy granted with
  | nil =>
    cases hrun
    exact ⟨trivial, .refl _⟩
  | cons c calls ih =>
    obtain ⟨time, opened, rest, hcall, hrest, rfl⟩ := run_cons_eq_ok.1 hrun
    have hlater := h.later_of_call hcall
    obtain ⟨hspaced, hlast⟩ := ih (h.of_later hlater) hrest
    rw [hlater.baseInterval] at hspaced
    refine ⟨?_, hlater.trans hlast⟩
    rcases returns_call date policy c _ hcall with ⟨htime, -⟩ | ⟨now, next, hnext, hslot, hfar,
      hafter⟩
    · obtain rfl : time = none := htime
      exact hspaced.anti hlater.nextRequest
    · cases hnext
      have hinterval := h.le_interval
      have hpos := h.pos
      exact ⟨hslot, next, hafter (by omega), by omega, hspaced⟩

/-- After a call that pauses, the next slot is not before the end of the pause. -/
theorem backoffUntil_le_of_call (hc : c.pauses)
    (h : policy.call date c = .ok (time, policy')) :
    time = none ∧ Later policy policy' ∧ policy'.backoffUntil ≤ policy'.nextRequest := by
  cases c with
  | claim now => exact nomatch hc
  | limited retryAfter now wallTime =>
    obtain ⟨⟨left, opened⟩, hlimited, h⟩ := bind_eq_ok_iff.1 h
    cases h
    obtain ⟨hlater, hle, -⟩ := returns_limited date retryAfter now wallTime policy _ hlimited
    exact ⟨rfl, hlater, hle⟩
  | failed now =>
    obtain ⟨opened, hfailed, h⟩ := bind_eq_ok_iff.1 h
    cases h
    obtain ⟨hlater, hle, -⟩ := returns_failed now policy _ hfailed
    exact ⟨rfl, hlater, hle⟩

/-- The end of a pause is not before what the response asked for, unless the clock ends before. -/
theorem retryAfter_le_of_call {text : Text} {now wallTime seconds : ℤ}
    (h : policy.call date (.limited (some text) now wallTime) = .ok (time, policy'))
    (hparse : parseRetryAfter date text wallTime = .ok (some seconds)) :
    min (now + min seconds (maxTicks / second) * second) maxTicks ≤ policy'.backoffUntil := by
  obtain ⟨⟨left, opened⟩, hlimited, h⟩ := bind_eq_ok_iff.1 h
  cases h
  have hend := (returns_limited date _ now wallTime policy _ hlimited).2.2 text rfl seconds hparse
  rw [← min_add_add_left, add_sub_cancel] at hend
  exact hend

/-- **The rate is respected.**  Whatever is called, a closed window of `k` base intervals has at
most `k + 1` requests, and none is made before the end of a pause that an earlier call opened; where
a response asked for the pause, the end is not before what it asked for. -/
theorem requests_respect_rate (date : Text → Option ℤ) {policy final : LanePolicy}
    (hreach : Reachable date policy) (hpos : 0 < policy.baseInterval)
    (hmax : policy.baseInterval ≤ policy.maximumInterval) (calls : List PolicyCall)
    (granted : List ℤ)
    (hrun : run date calls policy = .ok (granted, final)) :
    (∀ (start : ℤ) (k : ℕ),
      granted.countP (fun time => start ≤ time ∧ time ≤ start + k * policy.baseInterval) ≤ k + 1) ∧
    ∀ before c after, calls = before ++ c :: after → c.pauses →
      ∃ early opening paused late, run date before policy = .ok (early, opening) ∧
        opening.call date c = .ok (none, paused) ∧ run date after paused = .ok (late, final) ∧
        granted = early ++ late ∧ (∀ time ∈ late, paused.backoffUntil ≤ time) ∧
        ∀ text now wallTime seconds, c = .limited (some text) now wallTime →
          parseRetryAfter date text wallTime = .ok (some seconds) →
            min (now + min seconds (maxTicks / second) * second) maxTicks ≤
              paused.backoffUntil := by
  obtain ⟨hlow, hhigh⟩ := hreach.interval_mem hmax
  have hpaced : Paced policy := ⟨hpos, hlow, hhigh⟩
  refine ⟨fun start k => (spaced_run hpaced hrun).1.window start k, ?_⟩
  rintro before c after rfl hc
  obtain ⟨early, opening, rest, hbefore, hafter, rfl⟩ := run_append_eq_ok hrun
  obtain ⟨time, paused, late, hcall, hlate, rfl⟩ := run_cons_eq_ok.1 hafter
  obtain ⟨rfl, hlater, hend⟩ := backoffUntil_le_of_call hc hcall
  have hopening := (hpaced.of_later (spaced_run hpaced hbefore).2).of_later hlater
  refine ⟨early, opening, paused, late, hbefore, hcall, hlate, rfl, fun time htime => ?_, ?_⟩
  · exact hend.trans ((spaced_run hopening hlate).1.le_of_mem hopening.pos.le htime)
  · rintro text now wallTime seconds rfl hparse
    exact retryAfter_le_of_call hcall hparse

/-- A whole number of seconds is converted exactly. -/
theorem intervalFor_one {seconds : ℕ} (hpos : 0 < seconds) (hfit : seconds * 1000000000 < 2 ^ 63) :
    intervalFor ⟨1, seconds⟩ = .ok (seconds * second) := by
  have hquotient : ((seconds : ℕ) : ℚ) / ((1 : ℕ) : ℚ) = (seconds : ℕ) := by
    rw [Nat.cast_one, div_one]
  have hproduct : ((seconds : ℕ) : ℚ) * ((second : ℤ) : ℚ) = ((seconds * 1000000000 : ℕ) : ℚ) := by
    push_cast [second]
    rfl
  have hseconds : seconds < 2 ^ 64 := by omega
  have hticks : seconds * 1000000000 < 2 ^ 64 := by omega
  have hpositive : ¬ ((1 : ℕ) = 0 ∨ seconds = 0) := by omega
  unfold intervalFor
  rw [if_neg hpositive]
  simp only [hquotient, roundTo_natCast hseconds hpos, hproduct, roundTo_natCast hticks (by omega),
    Int.floor_natCast]
  rw [ticks_eq_ok (by omega) (by unfold maxTicks; omega)]
  refine congrArg Except.ok ?_
  rw [second]
  omega

/-- A policy of one request in two seconds, as the constructor makes it. -/
def everyTwoSeconds : LanePolicy :=
  ⟨⟨some ⟨1, 2⟩, 0, 0⟩, 2 * second, 2 * second, 3600 * second, 0, 0, 0, 0, 1⟩

theorem new_everyTwoSeconds : new ⟨some ⟨1, 2⟩, 0, 0⟩ (3600 * second) = .ok everyTwoSeconds := by
  unfold new configure
  simp only [intervalFor_one (show 0 < 2 by decide) (by decide)]
  rfl

/-- A claim that comes late, one that keeps to the cadence, and one that the pause of a failure
holds up. -/
theorem requests_respect_rate_late :
    run (fun _ => none) [.claim (3 * second), .claim (4 * second), .claim (5 * second),
        .failed (5 * second), .claim (7 * second), .claim (9 * second)] everyTwoSeconds =
      .ok ([3 * second, 5 * second, 9 * second], { everyTwoSeconds with
        interval := 4 * second, nextRequest := 13 * second, backoffUntil := 9 * second,
        consecutiveFailures := 1 }) ∧
    [3 * second, 5 * second, 9 * second].countP
      (fun time => 3 * second ≤ time ∧ time ≤ 3 * second + (1 : ℕ) * (2 * second)) ≤ 1 + 1 := by
  refine (and_iff_left_of_imp fun hrun => ?_).2 (by decide +kernel)
  exact (requests_respect_rate (fun _ => none) (.new new_everyTwoSeconds) (by decide) (by decide) _
    _ hrun).1 (3 * second) 1

end LanePolicy

/-! ## The settings that are accepted -/

/-- What `requestRate` and `laneOverrides` accept of a URL class: a rate of positive numbers, and a
backoff. -/
structure AcceptedLane where
  requests : ℕ
  seconds : ℕ
  errorBackoff : ℕ
  requests_pos : 0 < requests
  requests_lt : requests < 2 ^ 64
  seconds_pos : 0 < seconds
  seconds_lt : seconds < 2 ^ 64
  errorBackoff_lt : errorBackoff < 2 ^ 64

/-- The settings.  `std::chrono::seconds` has a sign, so that the upper half of the backoffs becomes
negative. -/
def AcceptedLane.settings (accepted : AcceptedLane) (concurrency : ℕ) : LaneSettings :=
  ⟨some ⟨accepted.requests, accepted.seconds⟩, wrap accepted.errorBackoff, concurrency⟩

/-- The longest interval that a lane backs off to: an hour. -/
def longestInterval : ℤ :=
  3600 * second

namespace LanePolicy

/-- The product that is cast to ticks is near the exact one, for quotients of at most an hour. -/
theorem abs_rounded_sub_lt {q : ℚ} (hpos : 0 < q) (hle : q ≤ 3600) :
    |roundTo 64 (roundTo 64 q * second) - q * second| < 1 := by
  have hunit : (2 : ℚ) ^ (-(64 : ℕ) : ℤ) = 1 / 18446744073709551616 := by norm_num
  have hsecond : ((second : ℤ) : ℚ) = 1000000000 := by norm_num [second]
  have hquotient := abs_le.1 (abs_roundTo_sub_le hpos 64)
  rw [hunit] at hquotient
  set x := roundTo 64 q
  have hx : 0 < x := by linarith [hquotient.1]
  have hx' : x ≤ 3601 := by linarith [hquotient.2]
  have hproduct := abs_le.1
    (abs_roundTo_sub_le (mul_pos hx (hsecond ▸ by norm_num : (0 : ℚ) < second)) 64)
  rw [hunit, hsecond] at hproduct
  rw [hsecond, abs_lt]
  constructor <;> linarith [hproduct.1, hproduct.2, hquotient.1, hquotient.2]

/-- **The conversion is exact up to the resolution of the clock**, for intervals of at most an
hour. -/
theorem succeeds_intervalFor {requests seconds : ℕ} (hrequests : 0 < requests)
    (hseconds : 0 < seconds) (hslow : seconds ≤ 3600 * requests) :
    Succeeds (intervalFor ⟨requests, seconds⟩) fun interval =>
      0 < interval ∧ interval ≤ longestInterval ∧ (seconds / requests * second : ℚ) <
        interval + 2 := by
  have hpositive : ¬ (requests = 0 ∨ seconds = 0) := by omega
  have hcast : (0 : ℚ) < requests := by exact_mod_cast hrequests
  have hquotient : (0 : ℚ) < seconds / requests := div_pos (by exact_mod_cast hseconds) hcast
  have hhour : (seconds / requests : ℚ) ≤ 3600 := by
    rw [div_le_iff₀ hcast]
    exact_mod_cast hslow
  have hsecond : ((second : ℤ) : ℚ) = 1000000000 := by norm_num [second]
  obtain ⟨hlow, hhigh⟩ := abs_lt.1 (abs_rounded_sub_lt hquotient hhour)
  unfold intervalFor
  rw [if_neg hpositive]
  simp only
  set y := roundTo 64 (roundTo 64 (seconds / requests) * second)
  have hfloor : ⌊y⌋ ≤ longestInterval := by
    rw [longestInterval, second, ← Int.lt_add_one_iff, Int.floor_lt]
    push_cast
    rw [hsecond] at hhigh
    linarith
  have hfloor' : -1 ≤ ⌊y⌋ := by
    rw [Int.le_floor, Int.cast_neg, Int.cast_one]
    rw [hsecond] at hlow
    linarith
  have hfit : ⌊y⌋ ≤ maxTicks := hfloor.trans (by decide)
  rw [ticks_eq_ok (by omega) hfit]
  refine .ok ⟨lt_of_lt_of_le one_pos (le_max_right _ _), max_le hfloor (by decide), ?_⟩
  have hnear : y < ⌊y⌋ + 1 := Int.lt_floor_add_one y
  have hmax : ((⌊y⌋ : ℤ) : ℚ) ≤ ((max ⌊y⌋ 1 : ℤ) : ℚ) := by exact_mod_cast le_max_left _ _
  linarith

variable {now : ℤ}

theorem exists_pause {cooldown : ℤ} (hcooldown : 0 ≤ cooldown) (hnow : 0 ≤ now)
    (hend : now ≤ maxTicks) (policy : LanePolicy) :
    ∃ policy', policy.pause cooldown now = .ok policy' := by
  have hmax : maxTicks = 2 ^ 63 - 1 := rfl
  unfold pause
  rw [ticks_eq_ok (by omega) (by omega)]
  change ∃ policy', (ticks (now + min cooldown (maxTicks - now)) >>= _) = .ok policy'
  rw [ticks_eq_ok (by omega) (by omega)]
  exact ⟨_, rfl⟩

/-- What the constructor makes of a rate and a backoff that fit. -/
theorem succeeds_new {rate : RequestRate} {errorBackoff : ℤ} {concurrency : ℕ}
    {maximumInterval interval backoff : ℤ} (hmax : 0 < maximumInterval)
    (hinterval : intervalFor rate = .ok interval)
    (hbackoff : ticks (errorBackoff * second) = .ok backoff) :
    Succeeds (new ⟨some rate, errorBackoff, concurrency⟩ maximumInterval) fun policy =>
      policy.baseInterval = interval ∧ policy.interval = interval ∧
      policy.maximumInterval = maximumInterval ∧
        policy.errorBackoff = backoff := by
  unfold new configure
  rw [if_neg (not_le.2 hmax)]
  simp only [hinterval, hbackoff]
  exact ⟨_, rfl, rfl, rfl, rfl, rfl⟩

/-- A failure is recorded, as long as the times fit. -/
theorem exists_failed {policy : LanePolicy} (h : Paced policy)
    (hmax : policy.maximumInterval = longestInterval) (hnow : 0 ≤ now) (hend : now ≤ maxTicks) :
    ∃ policy', policy.failed now = .ok policy' := by
  have hpos := h.pos
  have hlow := h.le_interval
  have hhigh := h.interval_le
  have hhour : longestInterval = 3600000000000 := rfl
  have hticks : maxTicks = 2 ^ 63 - 1 := rfl
  unfold failed openPause
  split
  · exact exists_pause le_rfl hnow hend policy
  · unfold widen
    rw [if_neg (by omega), ticks_eq_ok (by omega) (by omega)]
    refine exists_pause (le_max_of_le_left (le_min ?_ (le_max_of_le_left hpos.le))) hnow hend _
    omega

/-- **Backing off does not make a lane faster**, as long as its rate allows a request in an hour and
its backoff fits the clock. -/
theorem backoff_keeps_rate (date : Text → Option ℤ) (accepted : AcceptedLane) (concurrency : ℕ)
    (hslow : accepted.seconds ≤ 3600 * accepted.requests)
    (hfit : accepted.errorBackoff ≤ 9223372036) :
    Succeeds (new (accepted.settings concurrency) longestInterval) fun policy =>
      ∀ calls granted policy', run date calls policy = .ok (granted, policy') →
        policy.baseInterval ≤ policy'.interval ∧
        (accepted.seconds / accepted.requests * second : ℚ) < policy'.interval + 2 ∧
        ∀ now, policy'.backoffUntil ≤ now → 0 ≤ now →
        now + accepted.errorBackoff * second ≤ maxTicks →
          Succeeds (policy'.failed now) fun paused => now + accepted.errorBackoff * second ≤
            paused.backoffUntil := by
  obtain ⟨interval, hinterval, hpos, hhour, hnear⟩ :=
    succeeds_intervalFor accepted.requests_pos accepted.seconds_pos hslow
  have hbackoff : wrap accepted.errorBackoff = accepted.errorBackoff := by
    unfold wrap
    rw [Int.bmod_eq_of_le] <;> omega
  have hticks : ticks (accepted.errorBackoff * second) = .ok (accepted.errorBackoff * second) := by
    unfold second
    exact ticks_eq_ok (by omega) (by unfold maxTicks; omega)
  have hnew : Succeeds (new (accepted.settings concurrency) longestInterval) fun policy =>
      policy.baseInterval = interval ∧ policy.interval = interval ∧
        policy.maximumInterval = longestInterval ∧
        policy.errorBackoff = accepted.errorBackoff * second := by
    unfold AcceptedLane.settings
    rw [hbackoff]
    exact succeeds_new (by decide) hinterval hticks
  refine hnew.mono ?_
  rintro policy ⟨hbase, hsame, hmax, herror⟩ calls granted policy' hrun
  have hpaced : Paced policy :=
    ⟨hbase ▸ hpos, (hbase.trans hsame.symm).le, hsame.trans_le (hmax ▸ hhour)⟩
  have hlater := (spaced_run hpaced hrun).2
  have hpaced' := hpaced.of_later hlater
  have hkept : policy.baseInterval ≤ policy'.interval :=
    hlater.baseInterval.ge.trans hpaced'.le_interval
  refine ⟨hkept, ?_, fun now hclosed hnow hroom => ?_⟩
  · have hcast : ((interval : ℤ) : ℚ) ≤ ((policy'.interval : ℤ) : ℚ) := by
      exact_mod_cast hbase ▸ hkept
    linarith
  · have hend : now ≤ maxTicks := by
      unfold second at hroom
      omega
    obtain ⟨paused, hpaused⟩ := exists_failed hpaced' (hlater.maximumInterval.trans hmax) hnow hend
    refine ⟨paused, hpaused, ?_⟩
    have hlong := (returns_failed now policy' _ hpaused).2.2 hclosed
    rw [hlater.errorBackoff, herror] at hlong
    omega

/-- A request in two seconds, and a backoff of half a minute. -/
def oneInTwoSeconds : AcceptedLane :=
  ⟨1, 2, 30, by decide, by decide, by decide, by decide, by decide⟩

theorem backoff_keeps_rate_oneInTwoSeconds :
    Succeeds (new (oneInTwoSeconds.settings 0) longestInterval) fun policy =>
      ∀ policy', run (fun _ => none) [.failed 0] policy = .ok ([], policy') →
      policy.baseInterval ≤ policy'.interval :=
  (backoff_keeps_rate (fun _ => none) oneInTwoSeconds 0 (by decide) (by decide)).mono
    fun _ h policy' hrun => (h [.failed 0] [] policy' hrun).1

/-- A request in two hours. -/
def oneInTwoHours : AcceptedLane :=
  ⟨1, 7200, 30, by decide, by decide, by decide, by decide, by decide⟩

/-- After a failure a lane that may ask every two hours asks every hour. -/
theorem slow_lane_speeds_up :
    ∃ policy policy', new (oneInTwoHours.settings 0) longestInterval = .ok policy ∧
      run (fun _ => none) [.failed 0] policy = .ok ([], policy') ∧
      policy.baseInterval = 7200 * second ∧ policy'.interval = 3600 * second := by
  have hnew : new (oneInTwoHours.settings 0) longestInterval = .ok
      ⟨oneInTwoHours.settings 0, 7200 * second, 7200 * second, longestInterval, 30 * second, 0, 0,
      0, 1⟩ := by
    have hinterval : intervalFor ⟨1, 7200⟩ = .ok (7200 * second) :=
      intervalFor_one (by decide) (by decide)
    unfold new configure AcceptedLane.settings oneInTwoHours
    simp only [hinterval]
    rfl
  refine ⟨_, ⟨oneInTwoHours.settings 0, 7200 * second, 3600 * second, longestInterval, 30 * second,
    3600 * second, 3600 * second, 1, 1⟩, hnew, ?_, rfl, rfl⟩
  decide +kernel

end LanePolicy

end Idhan.Downloader
