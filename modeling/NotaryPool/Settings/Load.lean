import NotaryPool.Decimal.Shortest
import NotaryPool.Series.Number
import NotaryPool.Settings.Basic
import NotaryPool.Settings.Toml.Document

/-!
# Reading settings

Settings come from a file, and from variables of the environment, which win over the file. A value
may be written as another kind of value that it can be read from, as numbers can from texts.

* `SettingsFile`: the file, if any;
* `Reading.natural?`, `Reading.text?`, `Reading.logLevel?`: what values can be read as;
* `Settings.overrides`: the variables that are meant for the settings;
* `Settings.load`: the settings from all sources.
-/

namespace NotaryPool

/-- The file of the settings. -/
inductive SettingsFile where
  | absent
  | missing
  | toml (text : String)
deriving DecidableEq, Repr

/-! ## Reading values -/

namespace Reading

/-- The words for one and zero. -/
def switch? (text : String) : Option Nat :=
  if ["true", "on", "yes"].contains text then some 1
  else if ["false", "off", "no"].contains text then some 0
  else none

/-- The number that a text is for. -/
def naturalOfText? (text : String) : Option Nat :=
  match switch? (text.map Char.toLower) with
  | some n => some n
  | none => (parseNumber (2 ^ 64) text).toOption

/-- The number below `limit` that a value is for. Fractions are rounded, halves away from zero, and
what is below zero counts as zero. -/
def natural? (limit : Nat) (value : Toml.Value) : Option Nat :=
  let n? : Option Nat :=
    match value with
    | .integer i => if 0 ≤ i then some i.toNat else none
    | .text text | .moment text => naturalOfText? text
    | .boolean b => some (if b then 1 else 0)
    | .float f => some f.round.toUInt64.toNat
    | .array _ | .table _ _ | .elements _ => none
  n?.filter (· < limit)

/-- The text that a value is for. -/
def text? : Toml.Value → Option String
  | .text text | .moment text => some text
  | .integer i => some (toString i)
  | .boolean b => some (toString b)
  | .float f => some (Shortest.toText f)
  | .array _ | .table _ _ | .elements _ => none

/-- The level that a value is for: its name, or a table with the name as its only key. -/
def logLevel? : Toml.Value → Option LogLevel
  | .text text | .moment text => LogLevel.ofName? text
  | .table _ [(key, _)] => LogLevel.ofName? key
  | _ => none

end Reading

/-! ## Sources -/

namespace Settings

/-- What the names of the variables meant for the settings begin with, in lower case. -/
def variableStart : String := "votingpool_"

/-- The variables meant for the settings, by the names of the settings. The case of their names
does not matter. -/
def overrides (environment : List (String × String)) : List (String × String) :=
  environment.filterMap fun (name, value) =>
    let name := (name.map Char.toLower).toList
    let start := variableStart.toList
    if name.take start.length = start then some (String.ofList (name.drop start.length), value)
    else none

/-- The values of a file. -/
def fileValues : SettingsFile → Except SettingsError Toml.Table
  | .absent => .ok []
  | .missing => .error .source
  | .toml text =>
    match Toml.parse? text with
    | some table => .ok table
    | none => .error .source

/-- The value of a setting, variables first. -/
def value? (file : Toml.Table) (environment : List (String × String)) (name : String) :
    Option Toml.Value :=
  match environment.reverse.find? (·.1 == name) with
  | some (_, text) => some (.text text)
  | none => file.find? name

/-- A setting read from its value, or its default if it has none. -/
def field {α : Type} (read? : Toml.Value → Option α) (standard : α) (value? : Option Toml.Value) :
    Except SettingsError α :=
  match value? with
  | none => .ok standard
  | some value =>
    match read? value with
    | some a => .ok a
    | none => .error .source

/-- The settings from all sources. -/
def load (file : SettingsFile) (environment : List (String × String)) :
    Except SettingsError Settings := do
  let table ← fileValues file
  let get := value? table (overrides environment)
  let standard : Settings := {}
  let network ← field Reading.text? standard.network (get "network")
  let minConfirmations ←
    field (Reading.natural? (2 ^ 32)) standard.minConfirmations (get "min_confirmations")
  let dustThreshold ←
    field (Reading.natural? (2 ^ 64)) standard.dustThreshold (get "dust_threshold")
  let maxTxSize ← field (Reading.natural? (2 ^ 64)) standard.maxTxSize (get "max_tx_size")
  let feeIncrement ← field (Reading.natural? (2 ^ 64)) standard.feeIncrement (get "fee_increment")
  let logLevel ← field Reading.logLevel? standard.logLevel (get "log_level")
  let settings : Settings :=
    { network, minConfirmations, dustThreshold, maxTxSize, feeIncrement, logLevel }
  let _ ← settings.parseNetwork
  return settings

end Settings

end NotaryPool
