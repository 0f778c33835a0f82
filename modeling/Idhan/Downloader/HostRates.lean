import Idhan.Downloader.LaneRate
import Idhan.Downloader.Registry

/-!
# The rates of hosts that share a lane

`ScriptRegistry` gives every host its own settings, and `LanePool` one lane to all hosts of a group.
The policy of a lane is made from the settings of the host that is contacted first, and the others
do not change it.

* `Formed.step`: every policy has the interval of the first host of its lane.
* `hosts_keep_rate`: a host is asked no faster than it is configured if none of its lane is slower
  than the first.
* `first_host_decides`: the order of the first requests decides.
-/

namespace Idhan.Downloader

open List Function

/-! ## The pool -/

/-- What the resolver throws. -/
def resolved (registry : ScriptRegistry) (host : Text) : Except Fault HostSettings :=
  (registry.laneSettings host).mapError Fault.thrown

def keyFor (registry : ScriptRegistry) (host : Text) : Except Fault Text := do
  let settings ← resolved registry host
  return match settings.group with
    | some group => "group:".toList ++ group
    | none => host

/-- `m_policies`. -/
abbrev Policies := Text → Option LanePolicy

/-- What `laneFor` does with the policies. -/
def laneFor (registry : ScriptRegistry) (key host : Text) (policies : Policies) :
    Except Fault Policies :=
  match policies key with
  | some _ => .ok policies
  | none => do
    let settings ← resolved registry host
    let policy ← LanePolicy.new settings.toLaneSettings longestInterval
    return Function.update policies key (some policy)

/-- What happens to the policies: a request is given to its lane, a lane calls its policy, and a
policy is reset. -/
inductive RateEvent where
  | request (host : Text)
  | call (key : Text) (call : PolicyCall)
  | resetBackoff (key : Text)

def RateEvent.step (registry : ScriptRegistry) (date : Text → Option ℤ) (policies : Policies) :
    RateEvent → Except Fault Policies
  | request host => do
    let key ← keyFor registry host
    laneFor registry key host policies
  | call key c =>
    match policies key with
    | none => .ok policies
    | some policy => do
      let result ← policy.call date c
      return Function.update policies key (some result.2)
  | resetBackoff key => .ok (Function.update policies key ((policies key).map LanePolicy.reset))

/-- The hosts that are asked. -/
def RateEvent.host? : RateEvent → Option Text
  | request host => some host
  | call _ _ => none
  | resetBackoff _ => none

/-- The interval that is configured for a host; a host without a rate has none. -/
def configured (registry : ScriptRegistry) (host : Text) : Except Fault ℤ := do
  let settings ← resolved registry host
  match settings.rate with
  | some rate => intervalFor rate
  | none => .ok 0

/-! ## The first host of a lane -/

variable {registry : ScriptRegistry} {date : Text → Option ℤ} {policies policies' : Policies}
  {requested : List Text}

/-- Whether a host has a key. -/
def hasKey (registry : ScriptRegistry) (key host : Text) : Bool :=
  match keyFor registry host with
  | .ok own => own = key
  | .error _ => false

theorem hasKey_iff {key host : Text} :
    hasKey registry key host ↔ keyFor registry host = .ok key := by
  unfold hasKey
  split <;> simp_all

/-- A policy is one that was made for the host, with calls since then. -/
structure MadeFor (registry : ScriptRegistry) (date : Text → Option ℤ) (host : Text)
    (policy : LanePolicy) : Prop where
  reachable : LanePolicy.Reachable date policy
  maximumInterval : policy.maximumInterval = longestInterval
  baseInterval : configured registry host = .ok policy.baseInterval

/-- The lanes with a policy are those of the hosts that have been asked, and the policies are those
of the first hosts. -/
structure Formed (registry : ScriptRegistry) (date : Text → Option ℤ) (requested : List Text)
    (policies : Policies) : Prop where
  keyed : ∀ host ∈ requested, ∃ key, keyFor registry host = .ok key
  lanes : ∀ key, Option.Rel (MadeFor registry date) (requested.find? (hasKey registry key))
    (policies key)

/-- A new policy has the interval of its settings. -/
theorem new_interval {settings : HostSettings} {host : Text} {policy : LanePolicy}
    (hsettings : resolved registry host = .ok settings)
    (h : LanePolicy.new settings.toLaneSettings longestInterval = .ok policy) :
    policy.maximumInterval = longestInterval ∧ configured registry host =
      .ok policy.baseInterval := by
  unfold LanePolicy.new at h
  split at h
  · cases h
  obtain ⟨interval, hinterval, h⟩ := bind_eq_ok_iff.1 h
  obtain ⟨errorBackoff, -, h⟩ := bind_eq_ok_iff.1 h
  cases h
  exact ⟨rfl, by rw [configured, hsettings]; exact hinterval⟩

section

variable (h : Formed registry date requested policies)
include h

/-- A policy is changed by a call or a reset. -/
theorem Formed.change {key : Text} {policy policy' : LanePolicy}
    (hkey : policies key = some policy)
    (hreachable : LanePolicy.Reachable date policy → LanePolicy.Reachable date policy')
    (hmaximum : policy'.maximumInterval = policy.maximumInterval)
    (hbase : policy'.baseInterval = policy.baseInterval) :
    Formed registry date requested (Function.update policies key (some policy')) := by
  refine ⟨h.keyed, fun other => ?_⟩
  have hother := h.lanes other
  by_cases heq : other = key
  · subst heq
    rw [update_self]
    rw [hkey] at hother
    generalize requested.find? (hasKey registry other) = found at hother ⊢
    cases hother with
    | some hmade =>
      exact .some ⟨hreachable hmade.reachable, hmaximum.trans hmade.maximumInterval,
        hbase ▸ hmade.baseInterval⟩
  · rwa [update_of_ne heq]

theorem Formed.request {host : Text}
    (hstep : (RateEvent.request host).step registry date policies = .ok policies') :
    Formed registry date (requested ++ [host]) policies' := by
  obtain ⟨key, hkey, hlane⟩ := bind_eq_ok_iff.1 hstep
  have hkeyed : ∀ other ∈ requested ++ [host], ∃ key, keyFor registry other = .ok key := by
    intro other hother
    rcases mem_append.1 hother with hother | hother
    · exact h.keyed other hother
    · rw [mem_singleton.1 hother]
      exact ⟨key, hkey⟩
  have hfind : ∀ other, (requested ++ [host]).find? (hasKey registry other) =
      (requested.find? (hasKey registry other)).or (if key = other then some host else none) := by
    intro other
    rw [find?_append, find?_singleton]
    simp [hasKey, hkey]
  unfold laneFor at hlane
  split at hlane
  next policy hpolicy =>
    cases hlane
    refine ⟨hkeyed, fun other => ?_⟩
    have hother := h.lanes other
    rw [hfind]
    by_cases heq : key = other
    · subst heq
      rw [hpolicy] at hother ⊢
      generalize requested.find? (hasKey registry key) = found at hother ⊢
      cases hother with
      | some hmade => exact .some hmade
    · rwa [if_neg heq, Option.or_none]
  next hnone =>
    obtain ⟨settings, hsettings, hlane⟩ := bind_eq_ok_iff.1 hlane
    obtain ⟨policy, hnew, hlane⟩ := bind_eq_ok_iff.1 hlane
    cases hlane
    refine ⟨hkeyed, fun other => ?_⟩
    have hother := h.lanes other
    rw [hfind]
    by_cases heq : key = other
    · -- no host of the lane has been asked before
      subst heq
      rw [hnone] at hother
      rw [if_pos rfl, update_self]
      generalize requested.find? (hasKey registry key) = found at hother ⊢
      cases hother
      have hpolicy := new_interval hsettings hnew
      exact .some ⟨.new hnew, hpolicy.1, hpolicy.2⟩
    · rwa [if_neg heq, Option.or_none, update_of_ne (Ne.symm heq)]

/-- Every policy has the interval of the first host of its lane. -/
theorem Formed.step {event : RateEvent}
    (hstep : event.step registry date policies = .ok policies') :
    Formed registry date (requested ++ event.host?.toList) policies' := by
  cases event with
  | request host => exact h.request hstep
  | call key c =>
    rw [RateEvent.host?, Option.toList_none, append_nil]
    simp only [RateEvent.step] at hstep
    split at hstep
    · cases hstep
      exact h
    next policy hpolicy =>
      obtain ⟨result, hcall, hstep⟩ := bind_eq_ok_iff.1 hstep
      cases hstep
      have hreachable := fun hold : LanePolicy.Reachable date policy => hold.call c hcall
      rcases LanePolicy.returns_call date policy c _ hcall with ⟨-, hlater⟩ | ⟨now, next, hnext, -⟩
      · exact h.change hpolicy hreachable hlater.maximumInterval hlater.baseInterval
      · exact h.change hpolicy hreachable (by rw [hnext]) (by rw [hnext])
  | resetBackoff key =>
    rw [RateEvent.host?, Option.toList_none, append_nil]
    cases hstep
    cases hpolicy : policies key with
    | none => rwa [Option.map_none, ← hpolicy, update_eq_self]
    | some policy => exact h.change hpolicy (fun hold => hold.reset) rfl rfl

end

theorem Formed.run (events : List RateEvent) : ∀ {requested : List Text} {policies : Policies},
    Formed registry date requested policies →
    events.foldlM (RateEvent.step registry date) policies = .ok policies' →
    Formed registry date (requested ++ events.filterMap RateEvent.host?) policies' := by
  induction events with
  | nil =>
    rintro requested policies h hrun
    cases hrun
    simpa using h
  | cons event events ih =>
    intro requested policies h hrun
    obtain ⟨next, hstep, hrun⟩ := bind_eq_ok_iff.1 hrun
    have hhosts : requested ++ (event :: events).filterMap RateEvent.host? =
        requested ++ event.host?.toList ++ events.filterMap RateEvent.host? := by
      cases hhost : event.host? <;> simp [hhost]
    rw [hhosts]
    exact ih (h.step hstep) hrun

/-- No host of a lane is to be asked more slowly than the one that was first, and that one not more
slowly than once an hour. -/
def SlowestFirst (registry : ScriptRegistry) (requested : List Text) : Prop :=
  ∀ host ∈ requested, ∀ key, keyFor registry host = .ok key →
    ∀ first, requested.find? (hasKey registry key) = some first →
    ∀ own shared, configured registry host = .ok own → configured registry first = .ok shared →
      own ≤ shared ∧ shared ≤ longestInterval

/-- **A host is asked at the interval that is configured for it, or a longer one, if the slowest
host of its lane was asked first.** -/
theorem hosts_keep_rate {events : List RateEvent}
    (hrun : events.foldlM (RateEvent.step registry date) (fun _ => none) = .ok policies)
    (hslowest : SlowestFirst registry (events.filterMap RateEvent.host?)) :
    ∀ host ∈ events.filterMap RateEvent.host?, ∃ key policy, keyFor registry host = .ok key ∧
    policies key = some policy ∧
      ∀ own, configured registry host = .ok own → own ≤ policy.interval := by
  have hnothing : Formed registry date [] fun _ => none := ⟨by simp, fun _ => .none⟩
  have hformed := hnothing.run events hrun
  rw [nil_append] at hformed
  intro host hhost
  obtain ⟨key, hkey⟩ := hformed.keyed host hhost
  have hlane := hformed.lanes key
  cases hfind : (events.filterMap RateEvent.host?).find? (hasKey registry key) with
  | none => exact absurd (hasKey_iff.2 hkey) (find?_eq_none.1 hfind host hhost)
  | some first =>
    cases hpolicy : policies key with
    | none => simp [hfind, hpolicy] at hlane
    | some policy =>
      rw [hfind, hpolicy] at hlane
      cases hlane with
      | some hmade =>
        refine ⟨key, policy, hkey, hpolicy, fun own hown => ?_⟩
        obtain ⟨hle, hlongest⟩ :=
          hslowest host hhost key hkey first hfind own _ hown hmade.baseInterval
        exact hle.trans (hmade.reachable.interval_mem (hmade.maximumInterval ▸ hlongest)).1

/-! ## Two hosts of one group -/

/-- The hosts `a` and `b` share a lane; `a` may be asked every second, and `b` every ten seconds. -/
def sharedLane : ClassDefinition where
  name := "shared"
  lane := { group := some "g".toList }
  hosts := [⟨"a".toList, ⟨true, some ⟨1, 1⟩, false, false⟩, {}⟩,
    ⟨"b".toList, ⟨true, some ⟨1, 10⟩, false, false⟩, {}⟩]

/-- The settings of a request in some seconds. -/
def oneIn (seconds : ℕ) : HostSettings :=
  ⟨⟨some ⟨1, seconds⟩, 30, 0⟩, some "g".toList⟩

def sharedRegistry : ScriptRegistry :=
  ⟨[[⟨"a".toList, oneIn 1, false⟩, ⟨"b".toList, oneIn 10, false⟩]], ⟨⟨none, 30, 0⟩, none⟩⟩

theorem configured_oneIn {registry : ScriptRegistry} {host : Text} {seconds : ℕ}
    (hsettings : resolved registry host = .ok (oneIn seconds)) (hpos : 0 < seconds)
    (hfit : seconds * 1000000000 < 2 ^ 63) : configured registry host = .ok (seconds * second) := by
  rw [configured, hsettings]
  exact LanePolicy.intervalFor_one hpos hfit

/-- The policy of a request in some seconds. -/
def everySeconds (seconds : ℕ) : LanePolicy :=
  ⟨(oneIn seconds).toLaneSettings, seconds * second, seconds * second, longestInterval, 30 * second,
    0, 0, 0, 1⟩

theorem new_oneIn {seconds : ℕ} (hpos : 0 < seconds) (hfit : seconds * 1000000000 < 2 ^ 63) :
    LanePolicy.new (oneIn seconds).toLaneSettings longestInterval = .ok (everySeconds seconds) := by
  have hinterval := LanePolicy.intervalFor_one hpos hfit
  unfold LanePolicy.new LanePolicy.configure oneIn
  simp only [hinterval]
  rfl

/-- Two hosts of the group are asked, and the lane has the policy of the first. -/
theorem run_shared {first last : Text} {seconds : ℕ}
    (hkey : keyFor sharedRegistry first = .ok "group:g".toList)
    (hlast : keyFor sharedRegistry last = .ok "group:g".toList)
    (hsettings : resolved sharedRegistry first = .ok (oneIn seconds))
    (hpos : 0 < seconds) (hfit : seconds * 1000000000 < 2 ^ 63) :
    [RateEvent.request first, .request last].foldlM (RateEvent.step sharedRegistry fun _ => none)
    (fun _ => none) =
      .ok (Function.update (fun _ => none) "group:g".toList (some (everySeconds seconds))) := by
  have hfirst : (RateEvent.request first).step sharedRegistry (fun _ => none) (fun _ => none) =
      .ok (Function.update (fun _ => none) "group:g".toList (some (everySeconds seconds))) :=
    bind_eq_ok_iff.2 ⟨_, hkey,
      bind_eq_ok_iff.2 ⟨_, hsettings, bind_eq_ok_iff.2 ⟨_, new_oneIn hpos hfit, rfl⟩⟩⟩
  refine bind_eq_ok_iff.2 ⟨_, hfirst, bind_eq_ok_iff.2 ⟨_, bind_eq_ok_iff.2 ⟨_, hlast, ?_⟩, rfl⟩⟩
  rw [laneFor, update_self]

/-- The slow host is asked first, and keeps its interval. -/
theorem hosts_keep_rate_slow_first : ∃ policies policy,
    [RateEvent.request "b".toList, .request "a".toList].foldlM
    (RateEvent.step sharedRegistry fun _ => none) (fun _ => none) =
      .ok policies ∧ policies "group:g".toList = some policy ∧ 10 * second ≤ policy.interval := by
  have hfast : configured sharedRegistry "a".toList = .ok ((1 : ℕ) * second) :=
    configured_oneIn rfl (by decide) (by decide)
  have hslow : configured sharedRegistry "b".toList = .ok ((10 : ℕ) * second) :=
    configured_oneIn rfl (by decide) (by decide)
  have hrun := @run_shared "b".toList "a".toList 10 rfl rfl rfl (by decide) (by decide)
  have hslowest : SlowestFirst sharedRegistry ["b".toList, "a".toList] := by
    intro host hhost key hkey first hfirst own shared hown hshared
    have hboth : key = "group:g".toList ∧ own ≤ 10 * second := by
      rcases mem_cons.1 hhost with rfl | hhost
      · cases hkey
        rw [hslow] at hown
        cases hown
        exact ⟨rfl, le_refl _⟩
      · rw [mem_singleton.1 hhost] at hkey hown
        cases hkey
        rw [hfast] at hown
        cases hown
        exact ⟨rfl, by decide⟩
    rw [hboth.1] at hfirst
    cases hfirst
    rw [hslow] at hshared
    cases hshared
    exact ⟨hboth.2, by decide⟩
  obtain ⟨key, policy, hkey, hpolicy, hle⟩ :=
    hosts_keep_rate hrun hslowest "b".toList (mem_cons_self ..)
  cases hkey
  exact ⟨_, policy, hrun, hpolicy, hle _ hslow⟩

/-- The fast host is asked first, and the slow one is then asked at its interval. -/
theorem first_host_decides :
    ScriptRegistry.create ⟨⟨none, 30, 0⟩, none⟩ [sharedLane] = .ok sharedRegistry ∧
    ∃ policies policy, [RateEvent.request "a".toList, .request "b".toList].foldlM
      (RateEvent.step sharedRegistry fun _ => none) (fun _ => none) =
      .ok policies ∧ keyFor sharedRegistry "b".toList = .ok "group:g".toList ∧
      policies "group:g".toList = some policy ∧ configured sharedRegistry "b".toList =
        .ok ((10 : ℕ) * second) ∧ policy.interval = (1 : ℕ) * second :=
  ⟨by decide +kernel, _, everySeconds 1, run_shared rfl rfl rfl (by decide) (by decide), rfl,
    update_self .., configured_oneIn rfl (by decide) (by decide), rfl⟩

end Idhan.Downloader
