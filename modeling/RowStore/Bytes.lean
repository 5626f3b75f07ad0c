import RowStore.Fault

/-! Byte strings: little-endian words, and reading and writing at the front of a buffer. -/
namespace RowStore

abbrev Bytes := List UInt8

namespace Bytes

/-- `n` as `count` bytes, the least significant first. -/
def ofWord : (count : Nat) → (n : Nat) → Bytes
  | 0, _ => []
  | count + 1, n => UInt8.ofNat n :: ofWord count (n / 256)

/-- The word whose bytes these are, the least significant first. -/
def toWord : Bytes → Nat
  | [] => 0
  | b :: bs => b.toNat + 256 * toWord bs

def zeros (n : Nat) : Bytes := List.replicate n 0

/-- The first `n` bytes of a buffer. -/
def front (n : Nat) (buf : Bytes) : Except Fault Bytes :=
  if n ≤ buf.length then .ok (buf.take n) else .error .outOfBounds

/-- The bytes of a buffer from `n` on. -/
def rest (n : Nat) (buf : Bytes) : Except Fault Bytes :=
  if n ≤ buf.length then .ok (buf.drop n) else .error .outOfBounds

/-- The buffer with its first bytes replaced by `bs`. -/
def overwrite (bs buf : Bytes) : Except Fault Bytes :=
  if bs.length ≤ buf.length then .ok (bs ++ buf.drop bs.length) else .error .outOfBounds

/-- `bs` followed by zeros up to `size` bytes. -/
def padTo (size : Nat) (bs : Bytes) : Except Fault Bytes :=
  if bs.length ≤ size then .ok (bs ++ zeros (size - bs.length)) else .error .outOfBounds

/-- The bytes of a buffer from `start` up to `stop`. -/
def slice (buf : Array UInt8) (start stop : Nat) : Except Fault Bytes :=
  if start ≤ stop ∧ stop ≤ buf.size then .ok (buf.extract start stop).toList
  else .error .outOfBounds

end Bytes

def hexDigit (n : Nat) : Char :=
  if n < 10 then Char.ofNat ('0'.toNat + n) else Char.ofNat ('a'.toNat + (n - 10))

/-- A byte as two lower-case hexadecimal digits. -/
def hexByte (b : UInt8) : String :=
  String.ofList [hexDigit (b.toNat / 16), hexDigit (b.toNat % 16)]

end RowStore
