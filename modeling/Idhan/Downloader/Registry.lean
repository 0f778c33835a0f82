import Idhan.Downloader.Cookies
import Idhan.Downloader.LanePolicy

/-!
# The settings of hosts

`ScriptRegistry` keeps the settings of the hosts that the URL classes name, and `LanePool` asks it
for those of every host to which a request goes.

## A host is normalized twice

The pool cuts the host name of a URL with `normalizeHost` and hands the result to `laneSettings`,
which calls `normalizeHost` again.  The first call never throws, since a host name either has no
separator or is an address in brackets; but what is left of an address may have a colon near its
end, and then the second call does.

* `isOk_laneSettings_iff`: for which hosts the registry answers.
-/

namespace Idhan.Downloader

open List

/-! ## Settings -/

/-- `LaneSettings` with the group, as far as a policy and a key read them. -/
structure HostSettings extends LaneSettings where
  group : Option Text
  deriving DecidableEq, Repr

/-- What `requestRate` reads; `rate` is positive if there is one. -/
structure RateDefinition where
  defined : Bool := false
  rate : Option RequestRate := none
  shareSubdomains : Bool := false
  poolSubdomains : Bool := false

/-- What `laneOverrides` reads of an object `lane`. -/
structure LaneOverrides where
  errorBackoff : Option ℕ := none
  concurrency : Option ℕ := none
  group : Option Text := none

/-- A host of a URL class; one that is given by its name has the defaults. -/
structure HostDefinition where
  host : Text
  rate : RateDefinition := {}
  lane : LaneOverrides := {}

structure ClassDefinition where
  name : String
  rate : RateDefinition := {}
  lane : LaneOverrides := {}
  hosts : List HostDefinition

/-- `ScriptRegistry::Host`. -/
structure RegisteredHost where
  host : Text
  settings : HostSettings
  includeSubdomains : Bool
  deriving DecidableEq, Repr

structure ScriptRegistry where
  classes : List (List RegisteredHost)
  defaults : HostSettings
  deriving DecidableEq, Repr

/-- What is not mentioned keeps its inherited value. -/
def laneOverrides (lane : LaneOverrides) (settings : HostSettings) : HostSettings where
  rate := settings.rate
  errorBackoff := (lane.errorBackoff.map fun seconds => wrap seconds).getD settings.errorBackoff
  concurrency := lane.concurrency.getD settings.concurrency
  group := lane.group.or settings.group

/-- The settings of a class or a host, from those it inherits. -/
def overridden (rate : RateDefinition) (lane : LaneOverrides) (settings : HostSettings) :
    HostSettings :=
  laneOverrides lane (if rate.defined then { settings with rate := rate.rate } else settings)

/-- A round of the loop over the hosts of a class. -/
def createHost (definition : ClassDefinition) (classSettings : HostSettings)
    (held : List RegisteredHost) (host : HostDefinition) : Except String (List RegisteredHost) := do
  let owner := "URL Class '" ++ definition.name ++ "'"
  let rate := if host.rate.defined then host.rate else definition.rate
  let settings := overridden host.rate host.lane classSettings
  if host.host = [] then throw (owner ++ " hosts must be non-empty")
  if '/' ∈ host.host ∨ ':' ∈ host.host then
    throw (owner ++ " host '" ++ String.ofList host.host ++ "' must be a bare hostname")
  let hostname ← normalizeHost host.host
  let settings := if rate.poolSubdomains ∧ settings.group = none then { settings with
    group := some hostname } else settings
  if held.any fun other => other.host = hostname then
    throw (owner ++ " lists host '" ++ String.ofList hostname ++ "' twice")
  return held ++ [⟨hostname, settings, rate.shareSubdomains⟩]

/-! ## The registry -/

/-- `ScriptRegistry::create`, as far as it makes the settings of lanes. -/
def ScriptRegistry.create (defaults : HostSettings) (definitions : List ClassDefinition) :
    Except String ScriptRegistry := do
  let classes ← definitions.foldlM
      (fun (held : List String × List (List RegisteredHost)) definition => do
    if definition.name ∈ held.1 then throw ("Duplicate URL Class name: " ++ definition.name)
    let hosts ← definition.hosts.foldlM
        (createHost definition (overridden definition.rate definition.lane defaults)) []
    return (held.1 ++ [definition.name], held.2 ++ [hosts])) ([], [])
  return ⟨classes.2, defaults⟩

/-- The longest configured suffix wins. -/
def longerFamily (host : Text) (family : Option RegisteredHost) (held : RegisteredHost) :
    Option RegisteredHost :=
  if !held.includeSubdomains || !isSubdomainOf host held.host then family
  else
    match family with
    | none => some held
    | some other => if other.host.length < held.host.length then some held else some other

def ScriptRegistry.laneSettings (registry : ScriptRegistry) (host : Text) :
    Except String HostSettings := do
  let normalized ← normalizeHost host
  let hosts := registry.classes.flatten
  match hosts.find? fun held => held.host = normalized with
  | some held => return held.settings
  | none =>
    match hosts.foldl (longerFamily normalized) none with
    | some family => return family.settings
    | none => return registry.defaults

/-- The registry answers for a host that can be normalized. -/
theorem isOk_laneSettings_iff (registry : ScriptRegistry) (host : Text) :
    (registry.laneSettings host).isOk ↔ SafeHost host := by
  rw [ScriptRegistry.laneSettings, isOk_bind_iff_of_forall, isOk_normalizeHost_iff]
  intro normalized
  simp only
  split
  · rfl
  split <;> rfl

end Idhan.Downloader
