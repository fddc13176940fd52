import Lineup.Disk
import Lineup.Log
import Lineup.Order

/-!
# Configurations

The settings of a run, and the rules they must obey.
-/

namespace Lineup

/-- Why there is no valid configuration. -/
inductive ConfigError where
  /-- The settings file could not be read. -/
  | unreadable (cause : FileError)
  /-- The settings file holds a value that does not fit. -/
  | misfit (path : Text)
  /-- The settings file is not well formed. -/
  | malformed (path : Text)
  | negativeConcurrency (value : Int)
  | unknownLogLevel (name : Text)
  | unknownMemberKind (name : Text)
  deriving DecidableEq, Repr

/-- The wording of an error. -/
def ConfigError.message : ConfigError → Text
  | unreadable cause => utf8 "failed to load config: " ++ cause.message
  | misfit path | malformed path => utf8 "failed to load config: " ++ path
  | negativeConcurrency value =>
      utf8 "concurrency must be >= 0, got " ++ Text.ofInt value
  | unknownLogLevel name => utf8 "invalid log level: " ++ name.quoted
  | unknownMemberKind name =>
      utf8 "invalid member_order: " ++ MemberKind.unknownMessage name

/-- The settings of a run. -/
structure Config where
  sortByAlphabet : Bool := true
  caseSensitive : Bool := false
  prefixFirst : Bool := false
  preferredPrefix : Text := utf8 "System"
  exclude : List Text := []
  /-- How many files are worked on at a time; zero leaves it to the machine. -/
  concurrency : Int := 0
  logLevel : Text := utf8 "warn"
  memberOrder : List Text := []
  /-- The file that the settings come from. -/
  path : Option Text := none
  deriving DecidableEq, Repr

namespace Config

/-- The kinds of members that names stand for, up to the first unknown name. -/
def kindsOfNames : List Text → Except ConfigError (List MemberKind)
  | [] => .ok []
  | name :: names =>
      match MemberKind.ofName? name with
      | none => .error (.unknownMemberKind name)
      | some kind => (kindsOfNames names).map (kind :: ·)

/-- The configured order of the kinds of members. -/
def memberKinds (config : Config) : Except ConfigError (List MemberKind) :=
  kindsOfNames config.memberOrder

/-- Checks the settings. -/
def validate (config : Config) : Except ConfigError Unit :=
  if config.concurrency < 0 then .error (.negativeConcurrency config.concurrency)
  else if (LogLevel.ofName? config.logLevel).isNone then
    .error (.unknownLogLevel config.logLevel)
  else config.memberKinds.map fun _ => ()

/-- The orders that the settings ask for. -/
def options (config : Config) : Except ConfigError Options :=
  config.memberKinds.map fun kinds =>
    { members :=
        { alphabet := config.sortByAlphabet
          caseSensitive := config.caseSensitive
          kindOrder := kinds }
      directives :=
        { prefixFirst := config.prefixFirst
          preferredPrefix := config.preferredPrefix } }

end Config

end Lineup
