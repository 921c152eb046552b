/-!
# Levels of the log

* `LogLevel`: how much is reported;
* `LogLevel.parse`: the level that a text names;
* `LogLevel.ofFlagCount`: the level for a number of verbosity flags.
-/

namespace NotaryPool

/-- How much is reported. Each level includes those before it. -/
inductive LogLevel where
  /-- Only errors. -/
  | error
  /-- Warnings too. -/
  | warn
  /-- Rounds and changes of series too. -/
  | info
  /-- Decisions within rounds too. -/
  | debug
  /-- Everything. -/
  | trace
deriving DecidableEq, Repr

namespace LogLevel

/-- All levels, in their order. -/
def all : List LogLevel := [.error, .warn, .info, .debug, .trace]

/-- The name of a level. -/
def name : LogLevel → String
  | .error => "error"
  | .warn => "warn"
  | .info => "info"
  | .debug => "debug"
  | .trace => "trace"

/-- The place of a level in the order. -/
def rank : LogLevel → Nat
  | .error => 1
  | .warn => 2
  | .info => 3
  | .debug => 4
  | .trace => 5

/-- The level used unless another is chosen. -/
def standard : LogLevel := .info

/-- The level with a given name. -/
def ofName? (name : String) : Option LogLevel := all.find? (·.name == name)

/-- The text of the error for a text that names no level. -/
def parseMessage (text : String) : String :=
  s!"unrecognized value `{text}` for log level; allowed values are "
    ++ "`error`, `warn`, `info`, `debug`, `trace`."

/-- The level that a text names, with some other words for them. -/
def parse (text : String) : Except String LogLevel :=
  match text with
  | "error" | "errors" => .ok .error
  | "warn" | "warning" | "warnings" => .ok .warn
  | "info" => .ok .info
  | "debug" => .ok .debug
  | "trace" | "tracing" => .ok .trace
  | other => .error (parseMessage other)

/-- The level for a number of verbosity flags. -/
def ofFlagCount : Nat → LogLevel
  | 0 => .error
  | 1 => .warn
  | 2 => .info
  | 3 => .debug
  | _ => .trace

/-- Every level is found under its name. -/
theorem ofName?_name (l : LogLevel) : ofName? l.name = some l := by cases l <;> decide

end LogLevel

end NotaryPool
