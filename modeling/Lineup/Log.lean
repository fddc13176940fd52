import Lineup.Text.Case

/-!
# Log messages

Diagnostics have a level; a log shows the messages at or above its own level.
-/

namespace Lineup

/-- How important a message is. -/
inductive LogLevel where
  | trace
  | debug
  | info
  | warn
  | error
  deriving DecidableEq, Repr

namespace LogLevel

/-- All levels, from the least important to the most important. -/
def all : List LogLevel :=
  [trace, debug, info, warn, error]

/-- The name of a level. -/
def name : LogLevel → String
  | trace => "trace"
  | debug => "debug"
  | info => "info"
  | warn => "warn"
  | error => "error"

/-- The name of a level in front of a message. -/
def label : LogLevel → String
  | trace => "TRACE"
  | debug => "DEBUG"
  | info => "INFO"
  | warn => "WARN"
  | error => "ERROR"

/-- The importance of a level. -/
def rank : LogLevel → Nat
  | trace => 0
  | debug => 1
  | info => 2
  | warn => 3
  | error => 4

/-- The level with the given name. Case and blanks around the name do not matter. -/
def ofName? (name : Text) : Option LogLevel :=
  let wanted := name.trim.toLower
  all.find? fun level => utf8 level.name == wanted

/-- The level that a name stands for. Other names stand for warnings. -/
def ofName (name : Text) : LogLevel :=
  (ofName? name).getD warn

end LogLevel

/-- The line that a log at level `threshold` shows for a message, empty if it shows
none. -/
def LogLevel.line (threshold level : LogLevel) (message : Text) : Text :=
  if threshold.rank ≤ level.rank then
    utf8 "[" ++ utf8 level.label ++ utf8 "] " ++ message ++ [Byte.lineFeed]
  else []

end Lineup
