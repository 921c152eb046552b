import NotaryPool.Chain.Network
import NotaryPool.Settings.LogLevel
import NotaryPool.Withdrawal.Credit
import NotaryPool.Withdrawal.Policy

/-!
# Settings of a pool

* `Settings`: what an operator can choose, with the usual choices as defaults;
* `SettingsError`: why settings cannot be read;
* `Settings.toPolicy`, `Settings.eligibility`: the rules that follow from the settings.
-/

namespace NotaryPool

/-- Why settings cannot be read. -/
inductive SettingsError where
  /-- A source is missing, malformed, or has a value of the wrong kind. -/
  | source
  /-- No network has this name. -/
  | unknownNetwork (name : String)
deriving DecidableEq, Repr

/-- The name of an error. -/
def SettingsError.name : SettingsError → String
  | .source => "Source"
  | .unknownNetwork _ => "UnknownNetwork"

/-- The text of an error. -/
def SettingsError.message : SettingsError → String
  | .source => "settings cannot be read."
  | .unknownNetwork name => s!"unknown network name `{name}`."

/-- What an operator can choose. -/
structure Settings where
  network : String := "regtest"
  minConfirmations : Nat := 1
  dustThreshold : Nat := 1000
  maxTxSize : Nat := StandardPolicy.standard.maxTxSize
  feeIncrement : Nat := StandardPolicy.standard.feeIncrement
  logLevel : LogLevel := .standard
deriving DecidableEq, Repr

namespace Settings

/-- The network with the chosen name. -/
def parseNetwork (s : Settings) : Except SettingsError Network :=
  match Network.ofName? s.network with
  | some network => .ok network
  | none => .error (.unknownNetwork s.network)

/-- The policy for withdrawal transactions. -/
def toStandardPolicy (s : Settings) : StandardPolicy := ⟨s.feeIncrement, s.maxTxSize⟩

/-- The rules for credits that may be spent. -/
def eligibility (s : Settings) (chainHeight : Nat) (charter : Option Outpoint) : Eligibility :=
  ⟨s.dustThreshold, s.minConfirmations, chainHeight, charter⟩

end Settings

end NotaryPool
