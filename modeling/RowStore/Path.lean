import RowStore.Hash.SipHash
import RowStore.Text.Blank
import RowStore.Text.Utf8

/-! File paths, and the table number that a path stands for. -/
namespace RowStore

/-- The path of a file, as it was given. -/
structure Path where
  text : String
  deriving DecidableEq, Repr

namespace Path

/-- The steps of a path: what stands between its slashes, where anything does. -/
def steps (p : Path) : List String :=
  ((Text.splitAt '/' p.text.toList).map String.ofList).filter (· ≠ "")

/-- The components of a path: its steps without the `.` ones. -/
def components (p : Path) : List String := p.steps.filter (· ≠ ".")

def isAbsolute (p : Path) : Bool := p.text.toList.head? == some '/'

def endsInSlash (p : Path) : Bool := p.text.toList.getLast? == some '/'

/-- The components of the path from the root; a relative path starts at `base`. -/
def fromRoot (base : List String) (p : Path) : List String :=
  if p.isAbsolute then p.components else base ++ p.components

/-- A word that depends on where one component ends and the next begins. -/
def boundaryWord (components : List Bytes) : UInt64 :=
  components.foldl (fun w c => SipHash.rotateRight (w + UInt64.ofNat c.length) 2) 0

/-- The number of a list of components: both halves of its hash in one. -/
def locationId (components : List String) : UInt32 :=
  let parts := components.map Text.toUtf8
  let h := SipHash.hash (parts.flatten ++ Bytes.ofWord 8 (boundaryWord parts).toNat)
  (h ^^^ h >>> 32).toUInt32

/-- The table number that a path stands for, if it names a place at all. -/
def tableId? (base : List String) (p : Path) : Option UInt32 :=
  if p.text = "" then none else some (locationId (p.fromRoot base))

example : (Path.mk "/a/./b/").tableId? [] = (Path.mk "b").tableId? ["a"] := by decide +kernel

end Path
end RowStore
