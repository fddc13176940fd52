import Lineup.Disk

/-!
# Locks and overwriting

Overwriting replaces a file as a whole, under a lock on a second file beside it. A lock
belongs to the file that was at its path when it was opened.
-/

namespace Lineup

/-- Why a file could not be overwritten. -/
inductive WriteError where
  | stat (path : Text) (cause : FileError)
  | acquire (path : Text) (cause : FileError)
  | tryAcquire (path : Text) (cause : FileError)
  | createScratch (cause : FileError)
  | rename (source target : Text) (fault : Fault)
  deriving DecidableEq, Repr

/-- The wording of an error. -/
def WriteError.message : WriteError → Text
  | stat path cause => utf8 "failed to stat " ++ path ++ utf8 ": " ++ cause.message
  | acquire path cause =>
      utf8 "failed to acquire lock on " ++ path ++ utf8 ": " ++ cause.message
  | tryAcquire path cause =>
      utf8 "failed to try lock on " ++ path ++ utf8 ": " ++ cause.message
  | createScratch cause => utf8 "failed to create temp file: " ++ cause.message
  | rename source target fault =>
      utf8 "failed to rename temp file to " ++ target ++ utf8 ": rename " ++ source
        ++ utf8 " " ++ target ++ utf8 ": " ++ utf8 fault.message

/-- A lock on the file at a path. -/
structure Lock where
  path : Text
  /-- The identity of the file that is locked while the lock is held. -/
  holding : Option Nat := none
  deriving DecidableEq, Repr

namespace Lock

/-- Whether the lock is held. -/
def isHeld (lock : Lock) : Bool :=
  lock.holding.isSome

/-- The access rights of a file made for a lock. -/
def mode : Nat := 0o600

/-- The identity of the file of a lock. A missing file is made. -/
def openFile (lock : Lock) (disk : Disk) : Except FileError (Nat × Disk) :=
  match disk.locate true lock.path with
  | .ok (.present _ (.file file)) => .ok (file.id, disk)
  | .ok (.present _ _) => .error ⟨"open", lock.path, .isDirectory⟩
  | .ok (.vacant directory name) =>
      .ok (disk.nextId, disk.create (directory ++ [name]) [] mode)
  | .error fault => .error ⟨"open", lock.path, fault⟩

/-- Takes the lock unless it is held elsewhere; the lock tells whether it is held now. A
lock that is held already stays so. -/
def tryAcquire (lock : Lock) (disk : Disk) : Except FileError (Lock × Disk) :=
  if lock.isHeld then .ok (lock, disk)
  else
    match lock.openFile disk with
    | .error error => .error error
    | .ok (id, disk) =>
        if disk.locked.contains id then .ok (lock, disk)
        else .ok ({ lock with holding := some id }, { disk with
            locked := id :: disk.locked })

/-- Gives the lock back. Its file stays where it is. -/
def release (lock : Lock) (disk : Disk) : Lock × Disk :=
  match lock.holding with
  | some id =>
      ({ lock with holding := none }, { disk with locked := disk.locked.erase id })
  | none => (lock, disk)

end Lock

namespace Disk

/-- A name for a scratch file that none of the given children has: it is longer than
theirs. -/
def scratchName (children : List (Text × Entry)) : Text :=
  let total := (children.map fun child => child.1.length).foldl (· + ·) 0
  utf8 ".sharpalign" ++ Text.fill Byte.dash (total + 1)

/-- Moves the file at the given names to a path, where it takes the place of a file or
link. -/
def rename (disk : Disk) (names : List Text) (path : Text) : Except Fault Disk :=
  let moveTo (target : List Text) : Disk :=
    (disk.set names none).set target (disk.root.get? names)
  match disk.locate false path with
  | .error fault => .error fault
  | .ok (.present _ (.directory _)) => .error .alreadyExists
  | .ok (.present target _) => .ok (moveTo target)
  | .ok (.vacant directory name) => .ok (moveTo (directory ++ [name]))

/-- Puts a file with the given contents and access rights at a path in one step. The
file is made beside it first, and then takes the place of a file or link that is
there. -/
def replaceFile (disk : Disk) (path data : Text) (mode : Nat) :
    Except WriteError Disk :=
  let directory := Path.directory path
  let scratchFailed (fault : Fault) : Except WriteError Disk :=
    .error (.createScratch ⟨"open", Path.join directory (scratchName []), fault⟩)
  match disk.locate true directory with
  | .error fault => scratchFailed fault
  | .ok (.vacant _ _) => scratchFailed .missing
  | .ok (.present names (.directory children)) =>
      let scratch := names ++ [scratchName children]
      match (disk.create scratch data mode).rename scratch path with
      | .ok disk => .ok disk
      | .error fault =>
          .error (.rename (Path.join directory (scratchName children)) path fault)
  | .ok (.present _ _) => scratchFailed .notDirectory

/-- The path of the file that is locked while `path` is overwritten. -/
def lockPath (path : Text) : Text :=
  path ++ utf8 ".lock"

/-- The access rights of an entry. -/
def modeOf : Entry → Nat
  | .file file => file.mode % 0o1000
  | .directory _ | .link _ => 0o755

/-- Overwrites an existing file under its lock, and tells whether that was done: nothing
is written while the lock is held elsewhere. The file keeps its access rights; the file
of the lock is removed afterwards. -/
def lockAndReplace (disk : Disk) (lockFailed : Text → FileError → WriteError)
    (path data : Text) :
    Disk × Except WriteError Bool :=
  match disk.stat path with
  | .error error => (disk, .error (.stat path error))
  | .ok entry =>
      match Lock.tryAcquire ⟨lockPath path, none⟩ disk with
      | .error error => (disk, .error (lockFailed (lockPath path) error))
      | .ok (lock, disk) =>
          if lock.isHeld then
            let (disk, result) :=
              match disk.replaceFile path data (modeOf entry) with
              | .ok disk => (disk, .ok true)
              | .error error => (disk, .error error)
            (((lock.release disk).2).unlink (lockPath path), result)
          else (disk, .ok false)

/-- Overwrites an existing file when its lock can be taken. -/
def overwrite (disk : Disk) (path data : Text) : Disk × Except WriteError Bool :=
  disk.lockAndReplace .acquire path data

/-- Overwrites an existing file if its lock is free. -/
def tryOverwrite (disk : Disk) (path data : Text) : Disk × Except WriteError Bool :=
  disk.lockAndReplace .tryAcquire path data

end Disk

end Lineup
