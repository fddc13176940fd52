import Lineup.Text

/-!
# Version information

What is known about a build of the program. Values set when the program was built win;
what they leave open is filled in from the record of the build.
-/

namespace Lineup

/-- What is known about a build. -/
structure Version where
  version : Text := utf8 "dev"
  commit : Text := utf8 "unknown"
  tag : Text := utf8 "unknown"
  date : Text := utf8 "unknown"
  /-- Whether the sources had been modified since the commit. -/
  isModified : Bool := false
  /-- The compiler the program was built with. -/
  compiler : Text
  platform : Text
  deriving DecidableEq, Repr

/-- The record that a build leaves of itself. -/
structure BuildRecord where
  mainVersion : Text
  compiler : Text
  settings : List (Text × Text)
  deriving DecidableEq, Repr

namespace Version

/-- The number of bytes of a commit that are shown. -/
def commitLength : Nat := 12

/-- The version with one setting of a build record applied. -/
def applySetting (info : Version) (key value : Text) : Version :=
  if key == utf8 "vcs.revision" then
    if info.commit == utf8 "unknown" then
      { info with commit := value.take commitLength }
    else info
  else if key == utf8 "vcs.time" then
    if info.date == utf8 "unknown" then { info with date := value } else info
  else if key == utf8 "vcs.modified" then
    { info with isModified := value == utf8 "true" }
  else info

/-- The version with what it leaves open filled in from a build record. -/
def fillIn (info : Version) (record : BuildRecord) : Version :=
  let isOpen := info.version == utf8 "dev" && !record.mainVersion.isEmpty
    && record.mainVersion != utf8 "(devel)"
  let info := if isOpen then { info with version := record.mainVersion } else info
  let info :=
    if record.compiler.isEmpty then info else { info with compiler := record.compiler }
  record.settings.foldl (fun info setting => info.applySetting setting.1 setting.2) info

/-- The version as it is shown. -/
def text (info : Version) : Text :=
  utf8 "sharpalign version " ++ info.version
    ++ (if info.tag != utf8 "unknown" && info.tag != info.version then
          utf8 " (" ++ info.tag ++ utf8 ")"
        else [])
    ++ utf8 "\nCommit: " ++ info.commit
    ++ (if info.isModified then utf8 " (modified)" else []) ++ utf8 "\nBuilt: "
    ++ info.date ++ utf8 "\n" ++ info.compiler ++ utf8 " " ++ info.platform

end Version

end Lineup
