import RowStore.Bytes

/-! Files: bytes at offsets, with zeros wherever nothing has been written. -/
namespace RowStore

/-- Bytes that were written at an offset. -/
structure Extent where
  offset : Nat
  bytes : Bytes
  deriving DecidableEq

/-- A file has a length and the extents written to it, the newest first. A newer extent hides
older ones, and bytes up to the length that no extent covers are zero. -/
structure File where
  length : Nat := 0
  extents : List Extent := []

namespace Extent

def stop (e : Extent) : Nat := e.offset + e.bytes.length

/-- The byte of the file that the extent gives. -/
def byteAt? (e : Extent) (i : Nat) : Option UInt8 :=
  if e.offset ≤ i then e.bytes[i - e.offset]? else none

/-- The part of the extent before `length`. -/
def clip? (length : Nat) (e : Extent) : Option Extent :=
  if length ≤ e.offset then none else some ⟨e.offset, e.bytes.take (length - e.offset)⟩

/-- Bytes read from `start` on, with those of the extent over them. -/
def overlay (e : Extent) (start : Nat) (under : Bytes) : Bytes :=
  if e.stop ≤ start ∨ start + under.length ≤ e.offset then under
  else
    let before := under.take (e.offset - start)
    let here := (e.bytes.drop (start - e.offset)).take (under.length - before.length)
    before ++ here ++ under.drop (before.length + here.length)

end Extent

namespace File

/-- The largest offset that a file can have: that of 63 bits. -/
def maxOffset : Nat := 0x7FFFFFFFFFFFFFFF

def byteAt (f : File) (i : Nat) : UInt8 := (f.extents.findSome? (·.byteAt? i)).getD 0

/-- `count` bytes from `start` on. -/
def read (f : File) (start count : Nat) : Bytes :=
  f.extents.foldr (fun e under => e.overlay start under) (Bytes.zeros count)

def contents (f : File) : Bytes := f.read 0 f.length

/-- Writes bytes at an offset; the file grows if they end behind its end. -/
def write (f : File) (offset : Nat) (bs : Bytes) : File :=
  if bs = [] then f
  else
    let e : Extent := ⟨offset, bs⟩
    { length := max f.length e.stop
      extents := e :: f.extents.filter fun x => ¬ (offset ≤ x.offset ∧ x.stop ≤ e.stop) }

/-- Cuts the file at a length, or fills it with zeros up to there. -/
def setLength (f : File) (length : Nat) : File := ⟨length, f.extents.filterMap (·.clip? length)⟩

end File
end RowStore
