import RowStore.Disk.File
import RowStore.Path

/-! A disk: directories and files by their places, and the paths that lead to them. -/
namespace RowStore

/-- Why the disk refuses an operation. -/
inductive DiskError where
  | notFound
  | notDirectory
  | isDirectory
  | invalidOffset
  | tooLarge
  | nameTooLong
  | nulInName
  | emptyPath
  deriving DecidableEq, Repr

def DiskError.message : DiskError → String
  | .notFound => "No such file or directory (os error 2)"
  | .notDirectory => "Not a directory (os error 20)"
  | .isDirectory => "Is a directory (os error 21)"
  | .invalidOffset => "Invalid argument (os error 22)"
  | .tooLarge => "File too large (os error 27)"
  | .nameTooLong => "File name too long (os error 36)"
  | .nulInName => "file name contained an unexpected NUL byte"
  | .emptyPath => "cannot make an empty path absolute"

/-- A place on the disk, as the names that lead to it from the top directory. -/
abbrev Location := List String

inductive DiskEntry where
  | file (f : File)
  | directory

/-- The entries below the top directory, one at most for each place, and the directory where
relative paths start. -/
structure Disk where
  entries : List (Location × DiskEntry) := []
  here : Location := []

namespace Disk

def entry? (d : Disk) (l : Location) : Option DiskEntry :=
  if l = [] then some .directory else d.entries.lookup l

def setEntry (d : Disk) (l : Location) (e : DiskEntry) : Disk :=
  { d with entries := (l, e) :: d.entries.filter (·.1 ≠ l) }

/-- The disk with relative paths that start at a directory. -/
def seenFrom (d : Disk) (l : Location) : Disk := { d with here := l }

def file? (d : Disk) (l : Location) : Option File :=
  match d.entry? l with
  | some (.file f) => some f
  | _ => none

/-- The file at a place; where there is none, the empty file. -/
def fileAt (d : Disk) (l : Location) : File := (d.file? l).getD {}

def setFile (d : Disk) (l : Location) (f : File) : Disk := d.setEntry l (.file f)

/-- The place one step on from a place. -/
def child (l : Location) (step : String) : Except DiskError Location :=
  if step = "." then .ok l
  else if step = ".." then .ok l.dropLast
  else if 255 < step.utf8ByteSize then .error .nameTooLong
  else .ok (l ++ [step])

/-- Goes on from directory to directory. -/
def descend (d : Disk) : Location → List String → Except DiskError Location
  | l, [] => .ok l
  | l, step :: steps =>
      match child l step with
      | .error e => .error e
      | .ok next =>
          match d.entry? next with
          | some .directory => descend d next steps
          | some (.file _) => .error .notDirectory
          | none => .error .notFound

/-- The directory that the first step of a path is taken from. -/
def start (d : Disk) (p : Path) : Location := if p.isAbsolute then [] else d.here

/-- The directory that the last step of a path is taken from: all the other steps lead through
directories. -/
def lead (d : Disk) (p : Path) : Except DiskError Location :=
  if p.text.toList.contains '\x00' then .error .nulInName
  else if 4096 ≤ p.text.utf8ByteSize then .error .nameTooLong
  else d.descend (d.start p) p.steps.dropLast

/-- What stands where a path leads, if anything does. -/
def find? (d : Disk) (p : Path) : Option DiskEntry := do
  let dir ← (d.lead p).toOption
  let l ← match p.steps.getLast? with
    | none => some dir
    | some last => (child dir last).toOption
  match ← d.entry? l with
  | .directory => some .directory
  | .file f => if p.endsInSlash then none else some (.file f)

/-- The place of the file that a path names, with its file made if there is none. A last step that
only a directory can take is refused before it is taken. -/
def openFile (d : Disk) (p : Path) : Except DiskError (Location × Disk) := do
  let dir ← d.lead p
  match p.steps.getLast? with
  | none => .error .isDirectory
  | some last =>
      if last = "." ∨ last = ".." ∨ p.endsInSlash then .error .isDirectory
      else
        let l ← child dir last
        match d.entry? l with
        | some .directory => .error .isDirectory
        | some (.file _) => .ok (l, d)
        | none => .ok (l, d.setFile l {})

/-- Writes bytes at an offset of the file at a place. -/
def write (d : Disk) (l : Location) (offset : Nat) (bs : Bytes) : Except DiskError Disk :=
  if File.maxOffset < offset then .error .invalidOffset
  else if bs ≠ [] ∧ File.maxOffset < offset + bs.length then .error .tooLarge
  else .ok (d.setFile l ((d.fileAt l).write offset bs))

/-- Makes the directories that steps from a directory lead through, where there is nothing yet. -/
def makeDirectories (d : Disk) : Location → List String → Except DiskError Disk
  | _, [] => .ok d
  | l, step :: steps =>
      match child l step with
      | .error e => .error e
      | .ok next =>
          match d.entry? next with
          | some .directory => makeDirectories d next steps
          | some (.file _) => .error .notDirectory
          | none => makeDirectories (d.setEntry next .directory) next steps

/-- Makes the directory that a path names, with those on the way to it. -/
def makeDirectory (d : Disk) (p : Path) : Except DiskError Disk :=
  d.makeDirectories (d.start p) p.steps

end Disk
end RowStore
