import Lineup.Config
import Lineup.Yaml.Value

/-!
# Settings files

A settings file is a YAML mapping. Keys it does not know are ignored, and a setting
without a value keeps its default.
-/

namespace Lineup

namespace Config

/-- The name of the settings file that is looked for. -/
def fileName : Text := utf8 ".sharpalign.yaml"

namespace File

/-- A step that takes values out of a document. Its state tells whether some value did
not fit; it has no result when the document refers to what it does not have. -/
abbrev Decode := StateT Bool Option

/-- Notes that a value does not fit. -/
def misfit {α : Type} : Decode (Option α) := do
  set true
  return none

/-- The node itself, or the one that a reference stands for. -/
def target (node : Yaml.Node) : Decode Yaml.Node :=
  match node with
  | .reference _ (some node) => return node
  | .reference _ none => failure
  | node => return node

/-- The value of a scalar, with its text. -/
def decodeScalar (node : Yaml.Node) : Decode (Option (Yaml.Value × Text)) := do
  match ← target node with
  | .scalar tag isPlain text =>
      match Yaml.Value.ofScalar? tag isPlain text with
      | some value => return some (value, text)
      | none => failure
  | _ => misfit

/-- The truth value that a word stands for. -/
def switch? (word : Text) : Option Bool :=
  let isOne (names : List String) : Bool := names.any fun name => utf8 name == word
  if isOne ["y", "Y", "yes", "Yes", "YES", "on", "On", "ON"] then some true
  else if isOne ["n", "N", "no", "No", "NO", "off", "Off", "OFF"] then some false
  else none

/-- A truth value, if one is given. -/
def decodeBool (node : Yaml.Node) : Decode (Option Bool) := do
  match ← decodeScalar node with
  | none => return none
  | some (.null, _) => return none
  | some (.bool value, _) => return some value
  | some (.text, text) =>
      match switch? text with
      | some value => return some value
      | none => misfit
  | some _ => misfit

/-- An integer, if one is given. -/
def decodeInt (node : Yaml.Node) : Decode (Option Int) := do
  match ← decodeScalar node with
  | none => return none
  | some (.null, _) => return none
  | some (value, _) =>
      match value.toInt? with
      | some value => return some value
      | none => misfit

/-- A text, if one is given. Numbers and truth values are taken as they are written. -/
def decodeText (node : Yaml.Node) : Decode (Option Text) := do
  match ← decodeScalar node with
  | none => return none
  | some (.null, _) => return none
  | some (_, text) => return some text

/-- An item of a list of texts; an item without a value is empty. -/
def decodeItem (node : Yaml.Node) : Decode (Option Text) := do
  match ← decodeScalar node with
  | none => return none
  | some (.null, _) => return some []
  | some (_, text) => return some text

/-- A list of texts, if one is given. -/
def decodeTexts (node : Yaml.Node) : Decode (Option (List Text)) := do
  match ← target node with
  | .sequence items => return some ((← items.mapM decodeItem).filterMap id)
  | .scalar tag isPlain text =>
      match ← decodeScalar (.scalar tag isPlain text) with
      | some (.null, _) => return none
      | _ => misfit
  | _ => misfit

/-- The settings with a value for one more key. -/
def decodeSetting (config : Config) (key : Text) (node : Yaml.Node) :
    Decode Config := do
  if key == utf8 "sort_members_by_alphabet" then
    return { config with
        sortByAlphabet := (← decodeBool node).getD config.sortByAlphabet }
  else if key == utf8 "sort_members_by_alphabet_case_sensitive" then
    return { config with
        caseSensitive := (← decodeBool node).getD config.caseSensitive }
  else if key == utf8 "system_using_first" then
    return { config with prefixFirst := (← decodeBool node).getD config.prefixFirst }
  else if key == utf8 "preferred_prefix" then
    let text := (← decodeText node).getD []
    return if text.isEmpty then config else { config with preferredPrefix := text }
  else if key == utf8 "exclude" then
    return { config with exclude := (← decodeTexts node).getD config.exclude }
  else if key == utf8 "concurrency" then
    return { config with concurrency := (← decodeInt node).getD config.concurrency }
  else if key == utf8 "log_level" then
    let text := (← decodeText node).getD []
    return if text.isEmpty then config else { config with logLevel := text }
  else if key == utf8 "member_order" then
    return { config with memberOrder := (← decodeTexts node).getD config.memberOrder }
  else return config

/-- Whether two keys of a mapping are the same as far as their own texts tell. -/
def isSameKey : Yaml.Node → Yaml.Node → Bool
  | .scalar _ _ left, .scalar _ _ right => left == right
  | .sequence _, .sequence _ => true
  | .mapping _, .mapping _ => true
  | .reference left _, .reference right _ => left == right
  | _, _ => false

/-- Whether a key is written twice. -/
def hasRepeatedKey : List (Yaml.Node × Yaml.Node) → Bool
  | [] => false
  | (key, _) :: rest =>
      rest.any (fun pair => isSameKey key pair.1) || hasRepeatedKey rest

/-- Whether a key asks for the pairs of other mappings to be included. -/
def isMergeKey : Yaml.Node → Bool
  | .scalar tag isPlain text =>
      text == utf8 "<<" && (tag == utf8 "!!merge" || (tag.isEmpty && isPlain))
  | _ => false

/-- The mappings that the value of a merge key includes. -/
def merged (node : Yaml.Node) : Decode (List (List (Yaml.Node × Yaml.Node))) := do
  match ← target node with
  | .mapping pairs => return [pairs]
  | .sequence items =>
      items.mapM fun item => do
        match ← target item with
        | .mapping pairs => return pairs
        | _ => failure
  | _ => failure

/-- The settings with those of the given pairs, except for keys that are set already.
Mappings are included at most `depth` deep. -/
def decodePairs : (depth : Nat) → Config × List Text → List (Yaml.Node × Yaml.Node) →
    Decode (Config × List Text)
  | 0, state, _ => return state
  | depth + 1, state, pairs => do
      if hasRepeatedKey pairs then
        set true
        return state
      else
        let own := pairs.filter fun pair => !isMergeKey pair.1
        let state ← own.foldlM (fun (config, done) (key, value) => do
          match ← decodeText key with
          | some name =>
              if done.contains name then return (config, done)
              else return (← decodeSetting config name value, name :: done)
          | none => return (config, done)) state
        match (pairs.filter fun pair => isMergeKey pair.1).getLast? with
        | none => return state
        | some (_, value) => (← merged value).foldlM (decodePairs depth) state

/-- How deep mappings may be included in one another. -/
def maxMergeDepth : Nat := 100

/-- The settings of a document. -/
def decode (node : Yaml.Node) : Decode Config := do
  match ← target node with
  | .mapping pairs => return (← decodePairs maxMergeDepth ({}, []) pairs).1
  | node =>
      match ← decodeScalar node with
      | none | some (.null, _) => return {}
      | some _ =>
          set true
          return {}

/-- An exclusion of a settings file as seen from where the file is; a slash at its end
is kept. -/
def anchorEntry (directory entry : Text) : Text :=
  if Path.isAbsolute entry then entry
  else
    Path.join directory entry
      ++ (if entry.endsWith [Byte.slash] then [Byte.slash] else [])

/-- The settings that the file at `path` holds, with its exclusions as they are
written. -/
def settings (path data : Text) : Except ConfigError Config :=
  match Yaml.Document.ofText data with
  | .none => .ok {}
  | .malformed => .error (.malformed path)
  | .node node =>
      match (decode node).run false with
      | none => .error (.malformed path)
      | some (_, true) => .error (.misfit path)
      | some (config, false) => .ok config

end File

/-- The settings of the file at `path` with the given contents. -/
def ofFile (path data : Text) : Except ConfigError Config :=
  match File.settings path data with
  | .error error => .error error
  | .ok config =>
      let entries := config.exclude.filter (!·.isEmpty)
      let config :=
        { config with
          exclude := entries.map (File.anchorEntry (Path.directory path))
          path := some path }
      config.validate.map fun _ => config

/-- The settings of the file at a path. A file that does not exist leaves the
defaults. -/
def load (disk : Disk) (path : Text) : Except ConfigError Config :=
  if path.isEmpty then .ok {}
  else
    match disk.read path with
    | .ok data => ofFile path data
    | .error error =>
        if error.fault == .missing then .ok {} else .error (.unreadable error)

end Config

end Lineup
