import Lineup.Command.Flag
import Lineup.Config.File
import Lineup.Version
import Lineup.Watch

/-!
# The command

What the program does for its arguments: show its help or its version, or run a job with
the settings of a file and of the flags.
-/

namespace Lineup

/-- Why the command failed. -/
inductive CommandError where
  | flag (cause : FlagError)
  | config (cause : ConfigError)
  | run (cause : RunError)
  deriving DecidableEq, Repr

/-- The wording of an error. -/
def CommandError.message : CommandError → Text
  | flag cause => cause.message
  | config cause => cause.message
  | run cause => cause.message

namespace Command

/-- What the program is for. -/
def description : String :=
  "sharpalign reorders the using directives and type members of C# source files.

Using directives are ordered global first, then static, then plain before
alias directives, and finally by name. Members are grouped by kind (fields,
constructors, properties, methods, nested types and so on), then by access,
then by modifier, and optionally by name. Comments stay attached to the
declaration they precede.

PATH can be a single .cs file or a directory. A directory is processed
recursively, skipping bin and obj folders. Without PATH the source is read
from standard input and the result written to standard output.

With --dry-run nothing is written: changed files are listed and the exit
code is 1 when any file would change."

/-- What the program says about itself. -/
def help : Text :=
  utf8 description ++ utf8 "\n\nUsage:\n  sharpalign [flags] [PATH]\n\nFlags:\n"
    ++ Flag.listing

/-- A part of the command. -/
abbrev Action := ExceptT CommandError (StateM Session)

/-- The result of a computation, or the error that it becomes. -/
def orFail {ε α : Type} (wrap : ε → CommandError) (result : Except ε α) : Action α :=
  match result with
  | .ok value => return value
  | .error error => throw (wrap error)

/-- A part of a run as a part of the command. -/
def ofRun {α : Type} (part : Run α) : Action α :=
  part.adapt .run

/-- The settings of the file that the arguments name, or of the nearest one above the
input. -/
def fileConfig (disk : Disk) (arguments : Arguments) (input : Text) :
    Except ConfigError Config :=
  if arguments.config.isEmpty then
    let start := if input.isEmpty then Path.here else input
    Config.load disk ((disk.nearest Config.fileName start).getD [])
  else
    match disk.stat arguments.config with
    | .error error => .error (.unreadable error)
    | .ok _ => Config.load disk arguments.config

/-- The settings with what the flags say in place of what the file says. -/
def override (arguments : Arguments) (config : Config) : Config :=
  { config with
    sortByAlphabet := (arguments.noSortByAlphabet.map (!·)).getD config.sortByAlphabet
    caseSensitive := arguments.caseSensitive.getD config.caseSensitive
    prefixFirst := arguments.systemFirst.getD config.prefixFirst
    preferredPrefix := arguments.preferredPrefix.getD config.preferredPrefix
    concurrency := arguments.concurrency.getD config.concurrency
    logLevel := arguments.logLevel.getD config.logLevel
    exclude := config.exclude ++ arguments.exclude }

/-- The settings of a command. -/
def settings (disk : Disk) (arguments : Arguments) (input : Text) :
    Except ConfigError Config :=
  match fileConfig disk arguments input with
  | .error error => .error error
  | .ok config =>
      let config := override arguments config
      config.validate.map fun _ => config

/-- Where the command gets its input from. -/
structure Input where
  /-- The bytes of standard input. -/
  data : Text := []
  /-- Whether standard input is a terminal, so that nothing is redirected to it. -/
  isTerminal : Bool := false

/-- Runs the job that the arguments ask for, and tells what to watch from then on, if
anything. -/
def runJob (input : Input) (arguments : Arguments) : Action (Option (Job × Watch)) := do
  let path := arguments.paths.headD []
  let config ← orFail .config (settings (← get).disk arguments path)
  modify fun session =>
    { session with threshold := some (LogLevel.ofName config.logLevel) }
  match config.path with
  | some file => ofRun (Run.log .debug (utf8 "Using config file: " ++ file))
  | none => pure ()
  if path.isEmpty && (arguments.watches || input.isTerminal) then
    throw (.run .missingInput)
  let options ← orFail .config config.options
  let job : Job :=
    { input := path
      isDryRun := arguments.isDryRun
      showsStats := arguments.showsStats
      exclude := config.exclude
      options
      stdin := input.data }
  if arguments.watches then return some (job, ← ofRun job.watch)
  else
    ofRun job.run
    return none

/-- Does what the command line asks for. -/
def execute (version : Version) (input : Input) (commandLine : List Text) :
    Action (Option (Job × Watch)) := do
  let arguments ← orFail .flag (Arguments.read commandLine)
  if arguments.showsHelp then
    ofRun (Run.emit (.output help))
    return none
  else if arguments.showsVersion then
    ofRun (Run.say version.text)
    return none
  else if 1 < arguments.paths.length then
    throw (.flag (.tooManyArguments arguments.paths.length))
  else runJob input arguments

/-- The exit code of the program. -/
def exitCode {α : Type} : Except CommandError α → UInt8
  | .ok _ => 0
  | .error (.run .changesFound) => 1
  | .error _ => 2

end Command

end Lineup
