import Idhan.Downloader.Http
import Idhan.Lib.Rounding
import Idhan.Lib.Total

/-!
# The schedule of a lane

`LanePolicy` of `IDHANDownloader/src/http/LanePolicy.cpp`, and the settings that
`ScriptRegistry.cpp` accepts for it.

Durations and times are numbers of nanoseconds in 64 bits with a sign.  C++ does not define what
happens when a computation leaves this range, so that a call which does has no result here
(`Fault.overflow`): the results below are about calls that return, and say when they do.  The times
of cookies wrap around instead (`wrap` in `Downloader.Http`), since there the compiled code goes on
with whatever the sum is, and the results about cookies name the headers for which it is right.

The key, the advertised limits and what is only shown in a snapshot are left out, and so is the
mutex, since every call holds it from beginning to end.

* `returns_claim`, `returns_failed`, `returns_limited`: what a call does, if it returns.
* `LanePolicy.Later`: what no call takes back.
-/

namespace Idhan.Downloader

/-- What ends a call without a result: an exception, or a number of ticks that does not fit. -/
inductive Fault where
  | thrown (what : String)
  | overflow
  deriving DecidableEq, Repr

/-- The largest number of ticks. -/
def maxTicks : ℤ :=
  2 ^ 63 - 1

/-- A computed number of ticks. -/
def ticks (n : ℤ) : Except Fault ℤ :=
  if -(2 ^ 63) ≤ n ∧ n ≤ maxTicks then .ok n else .error .overflow

/-- The ticks of a second. -/
def second : ℤ :=
  1000000000

/-! ## Settings -/

/-- `RequestRate`, with numbers of 64 bits. -/
structure RequestRate where
  requests : ℕ
  seconds : ℕ
  deriving DecidableEq, Repr

/-- `LaneSettings`, as far as the policy reads them; the backoff is in seconds. -/
structure LaneSettings where
  rate : Option RequestRate
  errorBackoff : ℤ
  concurrency : ℕ
  deriving DecidableEq, Repr

/-- `intervalFor`.  The quotient is a `long double`, which has a significand of 64 bits, and so is
its product with the ticks of a second; the cast cuts off the fraction. -/
def intervalFor (rate : RequestRate) : Except Fault ℤ :=
  if rate.requests = 0 ∨ rate.seconds = 0 then
    .error (.thrown "Downloader request rates require positive requests and seconds")
  else do
    let quotient := roundTo 64 (rate.seconds / rate.requests)
    let interval ← ticks ⌊roundTo 64 (quotient * second)⌋
    return max interval 1

/-! ## The policy -/

structure LanePolicy where
  settings : LaneSettings
  baseInterval : ℤ
  interval : ℤ
  maximumInterval : ℤ
  errorBackoff : ℤ
  nextRequest : ℤ
  backoffUntil : ℤ
  consecutiveFailures : ℕ
  generation : ℕ
  deriving DecidableEq, Repr

namespace LanePolicy

/-- `LanePolicy::configure`. -/
def configure (settings : LaneSettings) (policy : LanePolicy) : Except Fault LanePolicy := do
  let interval ← (match settings.rate with
    | some rate => intervalFor rate
    | none => .ok 0)
  let errorBackoff ← ticks (settings.errorBackoff * second)
  return { policy with
    settings := settings
    baseInterval := interval
    interval := interval
    errorBackoff := errorBackoff
    nextRequest := 0
    backoffUntil := 0
    consecutiveFailures := 0
    generation := (policy.generation + 1) % 2 ^ 64 }

/-- The constructor. -/
def new (settings : LaneSettings) (maximumInterval : ℤ) : Except Fault LanePolicy :=
  if maximumInterval ≤ 0 then .error (.thrown "Downloader maximum request backoff must be positive")
  else configure settings ⟨settings, 0, 0, maximumInterval, 0, 0, 0, 0, 0⟩

/-- `LanePolicy::throttled`. -/
def throttled (policy : LanePolicy) : Bool :=
  policy.settings.rate.isSome

/-- `LanePolicy::concurrency`. -/
def concurrency (unthrottledDefault throttledDefault : ℕ) (policy : LanePolicy) : ℕ :=
  if policy.settings.concurrency ≠ 0 then policy.settings.concurrency
  else if policy.settings.rate.isSome then throttledDefault else unthrottledDefault

/-- `LanePolicy::claim`: how long to wait for a slot; nothing if it has been claimed. -/
def claim (now : ℤ) (policy : LanePolicy) : Except Fault (Option ℤ × LanePolicy) :=
  if now < policy.nextRequest then do
    let wait ← ticks (policy.nextRequest - now)
    return (some wait, policy)
  else do
    let following ← ticks (policy.nextRequest + policy.interval)
    let next ← (if now < following then .ok following else ticks (now + policy.interval))
    return (none, { policy with nextRequest := next })

/-- `LanePolicy::widen`. -/
def widen (policy : LanePolicy) : Except Fault LanePolicy := do
  let widened ← (if policy.interval = 0 then .ok second else ticks (policy.interval * 2))
  return { policy with
    interval := min policy.maximumInterval (max policy.baseInterval widened)
    consecutiveFailures :=
      if policy.consecutiveFailures ≠ 2 ^ 32 - 1 then policy.consecutiveFailures + 1
      else policy.consecutiveFailures }

/-- `LanePolicy::openPause`. -/
def openPause (now : ℤ) (policy : LanePolicy) : Except Fault (ℤ × LanePolicy) :=
  if now < policy.backoffUntil then .ok (0, policy)
  else do
    let policy ← policy.widen
    return (max policy.interval policy.errorBackoff, policy)

/-- `LanePolicy::pause`. -/
def pause (cooldown now : ℤ) (policy : LanePolicy) : Except Fault LanePolicy := do
  let left ← ticks (maxTicks - now)
  let ending ← ticks (now + min cooldown left)
  let backoffUntil := max policy.backoffUntil ending
  return { policy with
    backoffUntil := backoffUntil, nextRequest := max policy.nextRequest backoffUntil }

/-- The digits of a number, as far as 64 bits go. -/
def unsignedValue (text : Text) : Option ℕ :=
  let value := text.foldl (fun n c => 10 * n + (c.toNat - 48)) 0
  if text ≠ [] ∧ text.all Char.isDigit ∧ value < 2 ^ 64 then some value else none

def trim (text : Text) : Text :=
  (text.dropWhile fun c => c = ' ' || c = '\t').rdropWhile fun c => c = ' ' || c = '\t'

/-- `LanePolicy::parseRetryAfter`, in seconds.  `date` is what the standard library makes of a date:
the seconds since the epoch, or nothing. -/
def parseRetryAfter (date : Text → Option ℤ) (value : Text) (now : ℤ) : Except Fault (Option ℤ) :=
  match unsignedValue (trim value) with
  | some seconds => .ok (some (min (seconds : ℤ) maxTicks))
  | none =>
    match date (trim value) with
    | none => .ok none
    | some timestamp => do
      let retryTime ← ticks (timestamp * second)
      if retryTime ≤ now then return some 0
      else
        let left ← ticks (retryTime - now)
        return some ⌈(left / second : ℚ)⌉

/-- `LanePolicy::limited`, which returns what is left of the pause. -/
def limited (date : Text → Option ℤ) (retryAfter : Option Text) (now wallTime : ℤ)
    (policy : LanePolicy) : Except Fault (ℤ × LanePolicy) := do
  let parsed ← (match retryAfter with
    | some text => parseRetryAfter date text wallTime
    | none => .ok none)
  let (opened, policy) ← policy.openPause now
  -- the deadline that the host names takes the place of the widened pause
  let cooldown := match parsed with
    | some seconds => max policy.baseInterval (min seconds (maxTicks / second) * second)
    | none => opened
  let policy ← policy.pause cooldown now
  let left ← ticks (policy.backoffUntil - now)
  return (left, policy)

/-- `LanePolicy::failed`. -/
def failed (now : ℤ) (policy : LanePolicy) : Except Fault LanePolicy := do
  let (cooldown, policy) ← policy.openPause now
  policy.pause cooldown now

/-- `LanePolicy::reset`. -/
def reset (policy : LanePolicy) : LanePolicy :=
  { policy with
    interval := policy.baseInterval
    nextRequest := 0
    backoffUntil := 0
    consecutiveFailures := 0
    generation := (policy.generation + 1) % 2 ^ 64 }

/-! ## What a call can do -/

variable {policy policy' : LanePolicy} {now : ℤ}

theorem eq_of_ticks {n m : ℤ} (h : ticks n = .ok m) : m = n := by
  unfold ticks at h
  split at h
  · exact (Except.ok.inj h).symm
  · exact nomatch h

theorem ticks_eq_ok {n : ℤ} (hlow : -(2 ^ 63) ≤ n) (hhigh : n ≤ maxTicks) : ticks n = .ok n :=
  if_pos ⟨hlow, hhigh⟩

/-- A claim waits for the next slot, or takes it and moves it on by an interval at least. -/
theorem returns_claim (now : ℤ) (policy : LanePolicy) :
    Returns (policy.claim now) fun result =>
      (now < policy.nextRequest ∧ result = (some (policy.nextRequest - now), policy)) ∨
        (policy.nextRequest ≤ now ∧ ∃ next, result = (none, { policy with nextRequest := next }) ∧
          policy.nextRequest + policy.interval ≤ next ∧ (0 < policy.interval → now < next)) := by
  intro result h
  unfold claim at h
  split at h
  · rename_i hlt
    obtain ⟨wait, hwait, h⟩ := bind_eq_ok_iff.1 h
    cases h
    exact Or.inl ⟨hlt, by rw [eq_of_ticks hwait]⟩
  · rename_i hle
    obtain ⟨following, hfollowing, h⟩ := bind_eq_ok_iff.1 h
    obtain ⟨next, hnext, h⟩ := bind_eq_ok_iff.1 h
    cases h
    have hfollowing := eq_of_ticks hfollowing
    refine Or.inr ⟨not_lt.1 hle, next, rfl, ?_⟩
    split at hnext
    · rename_i hlater
      cases hnext
      exact ⟨hfollowing.ge, fun _ => hlater⟩
    · have hnext := eq_of_ticks hnext
      exact ⟨by omega, fun _ => by omega⟩

/-- Widening leaves everything but the interval and the number of failures. -/
theorem returns_widen (policy : LanePolicy) :
    Returns policy.widen fun policy' => ∃ widened failures,
      policy' = { policy with
        interval := min policy.maximumInterval (max policy.baseInterval widened)
        consecutiveFailures := failures } := by
  intro policy' h
  unfold widen at h
  obtain ⟨widened, -, h⟩ := bind_eq_ok_iff.1 h
  cases h
  exact ⟨widened, _, rfl⟩

/-- A pause moves the next slot behind its end. -/
theorem returns_pause (cooldown now : ℤ) (policy : LanePolicy) :
    Returns (policy.pause cooldown now) fun policy' =>
      policy' = { policy with
        backoffUntil := max policy.backoffUntil (now + min cooldown (maxTicks - now))
        nextRequest := max policy.nextRequest
          (max policy.backoffUntil (now + min cooldown (maxTicks - now))) } := by
  intro policy' h
  unfold pause at h
  obtain ⟨left, hleft, h⟩ := bind_eq_ok_iff.1 h
  obtain ⟨ending, hending, h⟩ := bind_eq_ok_iff.1 h
  cases h
  obtain rfl := eq_of_ticks hleft
  obtain rfl := eq_of_ticks hending
  rfl

/-- What a call leaves as it is, and what it can only raise. -/
structure Later (policy policy' : LanePolicy) : Prop where
  settings : policy'.settings = policy.settings
  baseInterval : policy'.baseInterval = policy.baseInterval
  maximumInterval : policy'.maximumInterval = policy.maximumInterval
  errorBackoff : policy'.errorBackoff = policy.errorBackoff
  generation : policy'.generation = policy.generation
  nextRequest : policy.nextRequest ≤ policy'.nextRequest
  backoffUntil : policy.backoffUntil ≤ policy'.backoffUntil
  interval : policy'.interval = policy.interval ∨
    (policy'.interval ≤ policy.maximumInterval ∧
      min policy.maximumInterval policy.baseInterval ≤ policy'.interval)

namespace Later

theorem refl (policy : LanePolicy) : Later policy policy :=
  ⟨rfl, rfl, rfl, rfl, rfl, le_rfl, le_rfl, Or.inl rfl⟩

theorem trans {policy'' : LanePolicy} (h : Later policy policy') (h' : Later policy' policy'') :
    Later policy policy'' where
  settings := h'.settings.trans h.settings
  baseInterval := h'.baseInterval.trans h.baseInterval
  maximumInterval := h'.maximumInterval.trans h.maximumInterval
  errorBackoff := h'.errorBackoff.trans h.errorBackoff
  generation := h'.generation.trans h.generation
  nextRequest := h.nextRequest.trans h'.nextRequest
  backoffUntil := h.backoffUntil.trans h'.backoffUntil
  interval := by
    rcases h'.interval with hi | hi
    · rw [hi]
      exact h.interval
    · rw [h.maximumInterval, h.baseInterval] at hi
      exact Or.inr hi

/-- An interval between the base and the maximum stays between them. -/
theorem interval_mem (h : Later policy policy') (hlow : policy.baseInterval ≤ policy.interval)
    (hhigh : policy.interval ≤ policy.maximumInterval) :
    policy'.baseInterval ≤ policy'.interval ∧ policy'.interval ≤ policy'.maximumInterval := by
  have hbase := h.baseInterval
  have hmax := h.maximumInterval
  rcases h.interval with hi | ⟨hi, hi'⟩ <;> omega

end Later

theorem returns_openPause (now : ℤ) (policy : LanePolicy) :
    Returns (policy.openPause now) fun result =>
      Later policy result.2 ∧ result.2.backoffUntil = policy.backoffUntil ∧
        (policy.backoffUntil ≤ now → result.1 = max result.2.interval policy.errorBackoff) := by
  intro result h
  unfold openPause at h
  split at h
  · rename_i hopen
    cases h
    exact ⟨.refl policy, rfl, fun hclosed => absurd hopen (not_lt.2 hclosed)⟩
  · obtain ⟨policy', hwiden, h⟩ := bind_eq_ok_iff.1 h
    cases h
    obtain ⟨widened, failures, rfl⟩ := returns_widen policy _ hwiden
    refine ⟨⟨rfl, rfl, rfl, rfl, rfl, le_rfl, le_rfl, Or.inr ⟨min_le_left _ _, ?_⟩⟩, rfl,
      fun _ => rfl⟩
    exact min_le_min_left _ (le_max_left _ _)

theorem later_of_pause {cooldown : ℤ} (h : policy.pause cooldown now = .ok policy') :
    Later policy policy' := by
  obtain rfl := returns_pause cooldown now policy _ h
  exact ⟨rfl, rfl, rfl, rfl, rfl, le_max_left _ _, le_max_left _ _, Or.inl rfl⟩

/-- After a pause no slot is before its end. -/
theorem backoffUntil_le_of_pause {cooldown : ℤ} (h : policy.pause cooldown now = .ok policy') :
    policy'.backoffUntil ≤ policy'.nextRequest := by
  obtain rfl := returns_pause cooldown now policy _ h
  exact le_max_right _ _

/-- What a pause that a call opens does, and when it ends. -/
theorem returns_failed (now : ℤ) (policy : LanePolicy) :
    Returns (policy.failed now) fun policy' =>
      Later policy policy' ∧ policy'.backoffUntil ≤ policy'.nextRequest ∧
        (policy.backoffUntil ≤ now →
          now + min (max policy'.interval policy.errorBackoff) (maxTicks - now) ≤
            policy'.backoffUntil) := by
  intro policy' h
  unfold failed at h
  obtain ⟨⟨cooldown, opened⟩, hopen, h⟩ := bind_eq_ok_iff.1 h
  obtain ⟨hlater, -, hcooldown⟩ := returns_openPause now policy _ hopen
  refine ⟨hlater.trans (later_of_pause h), backoffUntil_le_of_pause h, fun hclosed => ?_⟩
  obtain rfl := returns_pause cooldown now opened _ h
  simp only at hcooldown ⊢
  rw [hcooldown hclosed]
  exact le_max_right _ _

/-- The pause that a response asks for, in ticks: at least what it asks for, unless the clock ends
before. -/
theorem returns_limited (date : Text → Option ℤ) (retryAfter : Option Text) (now wallTime : ℤ)
    (policy : LanePolicy) :
    Returns (policy.limited date retryAfter now wallTime) fun result =>
      Later policy result.2 ∧ result.2.backoffUntil ≤ result.2.nextRequest ∧
        ∀ text ∈ retryAfter, ∀ seconds, parseRetryAfter date text wallTime = .ok (some seconds) →
          now + min (min seconds (maxTicks / second) * second) (maxTicks - now) ≤
            result.2.backoffUntil := by
  intro result h
  unfold limited at h
  obtain ⟨parsed, hparsed, h⟩ := bind_eq_ok_iff.1 h
  obtain ⟨⟨cooldown, opened⟩, hopen, h⟩ := bind_eq_ok_iff.1 h
  obtain ⟨policy', hpause, h⟩ := bind_eq_ok_iff.1 h
  obtain ⟨left, -, h⟩ := bind_eq_ok_iff.1 h
  cases h
  obtain ⟨hlater, -, -⟩ := returns_openPause now policy _ hopen
  refine ⟨hlater.trans (later_of_pause hpause), backoffUntil_le_of_pause hpause, ?_⟩
  intro text htext seconds hseconds
  obtain rfl := Option.mem_def.1 htext
  rw [show parseRetryAfter date text wallTime = .ok parsed from hparsed] at hseconds
  cases hseconds
  obtain rfl := returns_pause _ now opened _ hpause
  refine le_trans ?_ (le_max_right _ _)
  exact add_le_add_right (min_le_min_right _ (le_max_right _ _)) now

end LanePolicy

end Idhan.Downloader
