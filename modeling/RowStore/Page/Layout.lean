import RowStore.Fault

/-! The geometry of a page: a bitmap with one bit for each slot, then the slots. -/
namespace RowStore

/-- The least number of groups of `size` that hold `n` things. -/
def ceilDiv (n size : Nat) : Nat := (n + (size - 1)) / size

/-- A page has as many slots as fit with one more bit each. -/
structure Layout where
  pageSize : Nat
  slotWidth : Nat
  slotCount : Nat
  bitmapBytes : Nat
  deriving DecidableEq, Repr

namespace Layout

/-- The layout of a page of `pageSize` bytes with rows of `slotWidth` bytes. Both sizes are
counted in bits, which have to fit a word. -/
def make (pageSize slotWidth : Nat) : Except Fault Layout := do
  let pageBits ← checkedWord (pageSize * 8)
  let slotBits ← checkedWord (slotWidth * 8 + 1)
  let slotCount := pageBits / slotBits
  return ⟨pageSize, slotWidth, slotCount, ceilDiv slotCount 8⟩

/-- Where a slot begins in the page. -/
def slotOffset (l : Layout) (slot : Nat) : Except Fault Nat :=
  checkedWord (l.bitmapBytes + slot * l.slotWidth)

/-- Where a slot begins and where it ends. -/
def slotRange (l : Layout) (slot : Nat) : Except Fault (Nat × Nat) := do
  let start ← l.slotOffset slot
  let stop ← checkedWord (start + l.slotWidth)
  return (start, stop)

example : make 4096 8 = .ok ⟨4096, 8, 504, 63⟩ := rfl

end Layout
end RowStore
