import Lineup.Text.Integer
import Lineup.Text.Quoted

/-!
# Flags

The flags of the command line, how they are written, and what they say about themselves.
-/

namespace Lineup

/-- A flag of the command line. -/
inductive Flag where
  | concurrency
  | config
  | dryRun
  | exclude
  | help
  | logLevel
  | noSortByAlphabet
  | preferredPrefix
  | caseSensitive
  | stats
  | systemFirst
  | version
  | watch
  deriving DecidableEq, Repr

/-- What the value of a flag is. -/
inductive FlagKind where
  /-- On or off; the flag alone means on. -/
  | switch
  | integer
  | text
  /-- One of several texts, which the flag may be repeated for. -/
  | texts
  deriving DecidableEq, Repr

namespace Flag

/-- All flags, in the order of their names. -/
def all : List Flag :=
  [concurrency, config, dryRun, exclude, help, logLevel, noSortByAlphabet,
    preferredPrefix, caseSensitive, stats, systemFirst, version, watch]

/-- The name of a flag. -/
def name : Flag → String
  | concurrency => "concurrency"
  | config => "config"
  | dryRun => "dry-run"
  | exclude => "exclude"
  | help => "help"
  | logLevel => "log-level"
  | noSortByAlphabet => "no-sort-members-by-alphabet"
  | preferredPrefix => "preferred-prefix"
  | caseSensitive => "sort-members-by-alphabet-case-sensitive"
  | stats => "stats"
  | systemFirst => "system-using-first"
  | version => "version"
  | watch => "watch"

/-- The letter of a flag, if it has one. -/
def letter? : Flag → Option Char
  | help => some 'h'
  | version => some 'v'
  | _ => none

/-- What the value of a flag is. -/
def kind : Flag → FlagKind
  | concurrency => .integer
  | config | logLevel | preferredPrefix => .text
  | exclude => .texts
  | _ => .switch

/-- What a flag is for. -/
def usage : Flag → String
  | concurrency => "Files processed in parallel in directory mode, 0 for one per CPU"
  | config => "Config file (default: nearest .sharpalign.yaml above PATH)"
  | dryRun => "Report files that would change instead of writing them"
  | exclude =>
      "File or directory to skip (repeatable); a trailing separator marks a directory"
  | help => "help for sharpalign"
  | logLevel =>
      "Diagnostics level: trace, debug, info, warn or error (default \"warn\")"
  | noSortByAlphabet =>
      "Do not sort members of the same kind, access and modifier by name"
  | preferredPrefix => "Prefix used by --system-using-first (default \"System\")"
  | caseSensitive => "Compare member names case-sensitively"
  | stats => "Print a summary table to stderr"
  | systemFirst => "Place using directives with the preferred prefix before the others"
  | version => "Show version information"
  | watch => "Keep running and reprocess files when they change"

/-- The flag of a name. -/
def ofName? (wanted : Text) : Option Flag :=
  all.find? fun flag => utf8 flag.name == wanted

/-- The flag of a letter. -/
def ofLetter? (byte : UInt8) : Option Flag :=
  all.find? fun flag => flag.letter?.any fun letter => letter.toNat == byte.toNat

/-- A flag as it is named in messages. -/
def title (flag : Flag) : Text :=
  match flag.letter? with
  | some letter => utf8 "-" ++ Utf8.write letter ++ utf8 ", --" ++ utf8 flag.name
  | none => utf8 "--" ++ utf8 flag.name

/-- How a flag is written, as the help shows it. -/
def synopsis (flag : Flag) : Text :=
  let start := if flag.letter?.isSome then utf8 "  " else utf8 "      "
  let value :=
    match flag.kind with
    | .switch => ""
    | .integer => " int"
    | .text => " string"
    | .texts => " stringArray"
  start ++ flag.title ++ utf8 value

/-- The lines of the help about all flags, with their uses in one column. -/
def listing : Text :=
  let width := (all.map fun flag => flag.synopsis.length).foldl max 0
  all.flatMap fun flag =>
    let gap := width + 3 - flag.synopsis.length
    flag.synopsis ++ Text.fill Byte.space gap ++ utf8 flag.usage ++ [Byte.lineFeed]

end Flag

/-- Why the arguments of the command line could not be used. -/
inductive FlagError where
  | badForm (argument : Text)
  | unknownName (name : Text)
  | unknownLetter (letter : UInt8) (letters : Text)
  | missingValue (argument : Text)
  | invalidSwitch (flag : Flag) (value : Text)
  | invalidInteger (flag : Flag) (value : Text) (fault : Integer.Fault)
  | tooManyArguments (count : Nat)
  deriving DecidableEq, Repr

namespace FlagError

/-- A byte as a character in single quotes. -/
def quotedByte (byte : UInt8) : Text :=
  let character := Char.ofNat byte.toNat
  let inner :=
    if character == '\x27' then utf8 "\\\x27"
    else if character == '"' then utf8 "\""
    else Quoted.escape character
  utf8 "\x27" ++ inner ++ utf8 "\x27"

/-- What is said of a value that a flag cannot take. -/
def invalid (flag : Flag) (value : Text) (reader : String) (fault : Integer.Fault) :
    Text :=
  utf8 "invalid argument " ++ value.quoted ++ utf8 " for " ++ flag.title.quoted
    ++ utf8 " flag: " ++ utf8 reader ++ utf8 ": parsing " ++ value.quoted ++ utf8 ": "
    ++ utf8 fault.message

/-- The wording of an error. -/
def message : FlagError → Text
  | badForm argument => utf8 "bad flag syntax: " ++ argument
  | unknownName name => utf8 "unknown flag: --" ++ name
  | unknownLetter letter letters =>
      utf8 "unknown shorthand flag: " ++ quotedByte letter ++ utf8 " in -" ++ letters
  | missingValue argument => utf8 "flag needs an argument: " ++ argument
  | invalidSwitch flag value => invalid flag value "strconv.ParseBool" .malformed
  | invalidInteger flag value fault => invalid flag value "strconv.ParseInt" fault
  | tooManyArguments count =>
      utf8 "accepts at most 1 arg(s), received " ++ Text.ofNat count

end FlagError

/-- The arguments of the command line, read. A flag that was not given has no value. -/
structure Arguments where
  concurrency : Option Int := none
  config : Text := []
  isDryRun : Bool := false
  exclude : List Text := []
  showsHelp : Bool := false
  logLevel : Option Text := none
  noSortByAlphabet : Option Bool := none
  preferredPrefix : Option Text := none
  caseSensitive : Option Bool := none
  showsStats : Bool := false
  systemFirst : Option Bool := none
  showsVersion : Bool := false
  watches : Bool := false
  /-- The arguments that are not flags. -/
  paths : List Text := []
  deriving DecidableEq, Repr

namespace Arguments

/-- The position of a switch. -/
def switch? (value : Text) : Option Bool :=
  let isOne (names : List String) : Bool := names.any fun name => utf8 name == value
  if isOne ["1", "t", "T", "TRUE", "true", "True"] then some true
  else if isOne ["0", "f", "F", "FALSE", "false", "False"] then some false
  else none

/-- The arguments with a switch turned on or off. -/
def turn (arguments : Arguments) (isOn : Bool) : Flag → Arguments
  | .dryRun => { arguments with isDryRun := isOn }
  | .help => { arguments with showsHelp := isOn }
  | .noSortByAlphabet => { arguments with noSortByAlphabet := some isOn }
  | .caseSensitive => { arguments with caseSensitive := some isOn }
  | .stats => { arguments with showsStats := isOn }
  | .systemFirst => { arguments with systemFirst := some isOn }
  | .version => { arguments with showsVersion := isOn }
  | .watch => { arguments with watches := isOn }
  | _ => arguments

/-- The arguments with a text given for a flag. -/
def give (arguments : Arguments) (value : Text) : Flag → Arguments
  | .config => { arguments with config := value }
  | .exclude => { arguments with exclude := arguments.exclude ++ [value] }
  | .logLevel => { arguments with logLevel := some value }
  | .preferredPrefix => { arguments with preferredPrefix := some value }
  | _ => arguments

/-- The arguments with a value for a flag. -/
def assign (arguments : Arguments) (flag : Flag) (value : Text) :
    Except FlagError Arguments :=
  match flag.kind with
  | .switch =>
      match switch? value with
      | some isOn => .ok (arguments.turn isOn flag)
      | none => .error (.invalidSwitch flag value)
  | .integer =>
      match Integer.read value with
      | .ok number => .ok { arguments with concurrency := some number }
      | .error fault => .error (.invalidInteger flag value fault)
  | .text | .texts => .ok (arguments.give value flag)

/-- The value of a switch that is given alone. -/
def on : Text := utf8 "true"

/-- The arguments after a cluster of letters, each of which is a switch. The last one
may be given its position behind an equals sign. -/
def readLetters (arguments : Arguments) : Text → Except FlagError Arguments
  | [] => .ok arguments
  | letter :: rest =>
      if Text.startsWith (letter :: rest) (utf8 "test.") then .ok arguments
      else
        match Flag.ofLetter? letter with
        | none => .error (.unknownLetter letter (letter :: rest))
        | some flag =>
            match rest with
            | 0x3d :: first :: value => arguments.assign flag (first :: value)
            | _ =>
                match arguments.assign flag on with
                | .ok arguments => arguments.readLetters rest
                | .error error => .error error

/-- A flag that is given by its name: the flag, and the value behind an equals sign, if
any. -/
def readName (argument : Text) : Except FlagError (Flag × Option Text) :=
  let text := argument.drop 2
  match text with
  | [] => .error (.badForm argument)
  | first :: _ =>
      if first == Byte.dash || first == Byte.equals then .error (.badForm argument)
      else
        let name := text.takeWhile (· != Byte.equals)
        match Flag.ofName? name with
        | none => .error (.unknownName name)
        | some flag =>
            .ok (flag,
              if name.length < text.length then some (text.drop (name.length + 1))
              else none)

/-- Whether an argument is a path rather than a flag. -/
def isPath (argument : Text) : Bool :=
  argument.head? != some Byte.dash || argument.length == 1

/-- Whether an argument gives a flag by its name. -/
def isLong (argument : Text) : Bool :=
  argument.startsWith [Byte.dash, Byte.dash]

/-- The arguments with the rest of the command line read as well. Two dashes end the
flags. -/
def readAll (arguments : Arguments) : List Text → Except FlagError Arguments
  | [] => .ok arguments
  | argument :: rest =>
      if isPath argument then
        { arguments with paths := arguments.paths ++ [argument] }.readAll rest
      else if argument == [Byte.dash, Byte.dash] then
        .ok { arguments with paths := arguments.paths ++ rest }
      else if isLong argument then
        match readName argument with
        | .error error => .error error
        | .ok (flag, some value) =>
            match arguments.assign flag value with
            | .ok arguments => arguments.readAll rest
            | .error error => .error error
        | .ok (flag, none) =>
            if flag.kind == .switch then
              match arguments.assign flag on with
              | .ok arguments => arguments.readAll rest
              | .error error => .error error
            else
              match rest with
              | [] => .error (.missingValue argument)
              | value :: rest =>
                  match arguments.assign flag value with
                  | .ok arguments => arguments.readAll rest
                  | .error error => .error error
      else
        match arguments.readLetters (argument.drop 1) with
        | .ok arguments => arguments.readAll rest
        | .error error => .error error

/-- The arguments of a command line. -/
def read (arguments : List Text) : Except FlagError Arguments :=
  readAll {} arguments

end Arguments

end Lineup
