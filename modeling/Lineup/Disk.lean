import Lineup.Path

/-!
# Disks

A tree of directories, files and symbolic links, as a process with a working directory
sees it. Every path is followed name by name, through the links it meets.
-/

namespace Lineup

/-- A regular file. It stays the same file for as long as it keeps its identity. -/
structure File where
  data : Text
  mode : Nat
  id : Nat
  deriving DecidableEq, Repr

/-- What a name in a directory stands for. -/
inductive Entry where
  | file (file : File)
  | directory (children : List (Text × Entry))
  | link (target : Text)

namespace Entry

/-- Whether the entry is a directory. -/
def isDirectory : Entry → Bool
  | directory _ => true
  | _ => false

/-- The entry reached by following names downwards. -/
def get? : Entry → List Text → Option Entry
  | entry, [] => some entry
  | directory children, name :: names =>
      match children.lookup name with
      | some child => child.get? names
      | none => none
  | _, _ :: _ => none

/-- The children with one name given a new entry, or removed. -/
def setChild (name : Text) (child : Option Entry) (children : List (Text × Entry)) :
    List (Text × Entry) :=
  let others := children.filter fun entry => entry.1 != name
  match child with
  | some entry => others ++ [(name, entry)]
  | none => others

/-- The entry with the one below it at the given names replaced, or removed. A place
whose directory does not exist is left alone. -/
def set (new : Option Entry) : List Text → Entry → Entry
  | [], entry => new.getD entry
  | [name], directory children => directory (setChild name new children)
  | name :: names, directory children =>
      match children.lookup name with
      | some child => directory (setChild name (some (child.set new names)) children)
      | none => directory children
  | _ :: _, entry => entry

/-- What can be seen of a single entry. -/
inductive Item where
  | file (data : Text) (mode : Nat)
  | directory
  | link (target : Text)
  deriving DecidableEq, Repr

mutual

/-- Everything at and below an entry that is found at the given names. -/
def items (names : List Text) : Entry → List (List Text × Item)
  | .file found => [(names, .file found.data found.mode)]
  | .link target => [(names, .link target)]
  | .directory children => (names, .directory) :: itemsIn names children

/-- Everything below a directory that is found at the given names. -/
def itemsIn (names : List Text) : List (Text × Entry) → List (List Text × Item)
  | [] => []
  | (name, entry) :: rest => entry.items (names ++ [name]) ++ itemsIn names rest

end

end Entry

/-- Why a path could not be used. -/
inductive Fault where
  | missing
  | notDirectory
  | isDirectory
  | alreadyExists
  | tooManyLinks
  deriving DecidableEq, Repr

/-- The wording of a fault. -/
def Fault.message : Fault → String
  | missing => "no such file or directory"
  | notDirectory => "not a directory"
  | isDirectory => "is a directory"
  | alreadyExists => "file exists"
  | tooManyLinks => "too many levels of symbolic links"

/-- An operation on a path that did not succeed. -/
structure FileError where
  operation : String
  path : Text
  fault : Fault
  deriving DecidableEq, Repr

/-- The wording of an error. -/
def FileError.message (error : FileError) : Text :=
  utf8 error.operation ++ utf8 " " ++ error.path ++ utf8 ": "
    ++ utf8 error.fault.message

/-- A disk, seen from a working directory. -/
structure Disk where
  root : Entry := .directory []
  /-- The names that lead from the root to the working directory. -/
  cwd : List Text := []
  /-- An identity that no file has. -/
  nextId : Nat := 0
  /-- The identities of the files that are locked. -/
  locked : List Nat := []

namespace Disk

/-- Where a path leads. -/
inductive Place where
  /-- An entry that is there, with the names that lead to it from the root. -/
  | present (names : List Text) (entry : Entry)
  /-- A name that is free in an existing directory. -/
  | vacant (directory : List Text) (name : Text)

/-- One leg of the way along a path, which ends where a link has to be followed. -/
inductive Leg where
  | arrived (place : Place)
  | detour (start : List Text) (names : List Text)

/-- The names to follow for a path. A slash at the end asks for a directory. -/
def route (path : Text) : List Text :=
  let names := (Path.pieces path).filter (!·.isEmpty)
  if path.endsWith [Byte.slash] then names ++ [Path.here] else names

/-- Where following a path starts. -/
def start (cwd : List Text) (path : Text) : List Text :=
  if Path.isAbsolute path then [] else cwd

/-- The way along the given names up to its end, or to the first link to follow. A link
at the end is followed only on request. -/
def leg (disk : Disk) (follow : Bool) (position : List Text) :
    List Text → Except Fault Leg
  | [] =>
      match disk.root.get? position with
      | some entry => .ok (.arrived (.present position entry))
      | none => .error .missing
  | name :: names =>
      match disk.root.get? position with
      | some (.directory children) =>
          if name == Path.here then disk.leg follow position names
          else if name == Path.above then disk.leg follow position.dropLast names
          else
            match children.lookup name with
            | none =>
                if names.isEmpty then .ok (.arrived (.vacant position name))
                else .error .missing
            | some (.link target) =>
                if names.isEmpty && !follow then
                  .ok (.arrived (.present (position ++ [name]) (.link target)))
                else .ok (.detour (start position target) (route target ++ names))
            | some _ => disk.leg follow (position ++ [name]) names
      | some _ => .error .notDirectory
      | none => .error .missing

/-- The end of the way along names, through at most `links - 1` links. -/
def walk (disk : Disk) (follow : Bool) : (links : Nat) → (position names : List Text) →
    Except Fault Place
  | 0, _, _ => .error .tooManyLinks
  | links + 1, position, names =>
      match disk.leg follow position names with
      | .ok (.arrived place) => .ok place
      | .ok (.detour position names) => disk.walk follow links position names
      | .error fault => .error fault

/-- The number of links that may be met along one path. -/
def maxLinks : Nat := 40

/-- Where a path leads. The empty path leads nowhere. -/
def locate (disk : Disk) (follow : Bool) (path : Text) : Except Fault Place :=
  if path.isEmpty then .error .missing
  else disk.walk follow (maxLinks + 1) (start disk.cwd path) (route path)

/-- The entry that a path leads to, for the operation of the given name. -/
def entry (disk : Disk) (operation : String) (follow : Bool) (path : Text) :
    Except FileError Entry :=
  match disk.locate follow path with
  | .ok (.present _ entry) => .ok entry
  | .ok (.vacant _ _) => .error ⟨operation, path, .missing⟩
  | .error fault => .error ⟨operation, path, fault⟩

/-- The entry that a path leads to, through links. -/
def stat (disk : Disk) (path : Text) : Except FileError Entry :=
  disk.entry "stat" true path

/-- The entry that a path leads to, which may be a link itself. -/
def linkStat (disk : Disk) (path : Text) : Except FileError Entry :=
  disk.entry "lstat" false path

/-- Whether a path leads to a directory. -/
def isDirectory (disk : Disk) (path : Text) : Except FileError Bool :=
  (disk.stat path).map Entry.isDirectory

/-- The contents of a file. -/
def read (disk : Disk) (path : Text) : Except FileError Text :=
  match disk.entry "open" true path with
  | .ok (.file file) => .ok file.data
  | .ok _ => .error ⟨"read", path, .isDirectory⟩
  | .error error => .error error

/-- The path of the working directory. -/
def workingDirectory (disk : Disk) : Text :=
  Path.ofSegments true disk.cwd

/-- The cleaned path as seen from the root. -/
def absolute (disk : Disk) (path : Text) : Text :=
  Path.absolute disk.workingDirectory path

/-- The disk with an entry put at the given names, or removed there. -/
def set (disk : Disk) (names : List Text) (new : Option Entry) : Disk :=
  { disk with root := disk.root.set new names }

/-- The disk with a new file at the given names. -/
def create (disk : Disk) (names : List Text) (data : Text) (mode : Nat) : Disk :=
  { disk.set names (some (.file ⟨data, mode, disk.nextId⟩)) with
    nextId := disk.nextId + 1 }

/-- The disk without the file or link that a path leads to, if there is one. -/
def unlink (disk : Disk) (path : Text) : Disk :=
  match disk.locate false path with
  | .ok (.present _ (.directory _)) => disk
  | .ok (.present names _) => disk.set names none
  | _ => disk

end Disk

end Lineup
