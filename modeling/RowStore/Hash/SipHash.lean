import RowStore.Bytes

/-! The keyed hash SipHash-1-3, under the key zero. -/
namespace RowStore.SipHash

/-- The four words of the hash under way. -/
structure State where
  v0 : UInt64
  v1 : UInt64
  v2 : UInt64
  v3 : UInt64

def rotateLeft (x : UInt64) (n : UInt64) : UInt64 := x <<< n ||| x >>> (64 - n)

def rotateRight (x : UInt64) (n : UInt64) : UInt64 := x >>> n ||| x <<< (64 - n)

/-- The constants of the hash, which the key zero leaves unchanged. -/
def start : State :=
  ⟨0x736f6d6570736575, 0x646f72616e646f6d, 0x6c7967656e657261, 0x7465646279746573⟩

def round (s : State) : State :=
  let a := s.v0 + s.v1
  let b := rotateLeft s.v1 13 ^^^ a
  let c := s.v2 + s.v3
  let d := rotateLeft s.v3 16 ^^^ c
  let a' := rotateLeft a 32
  let e := a' + d
  let d' := rotateLeft d 21 ^^^ e
  let f := c + b
  let b' := rotateLeft b 17 ^^^ f
  ⟨e, b', rotateLeft f 32, d'⟩

/-- Takes in one word, with one round. -/
def absorb (s : State) (w : UInt64) : State :=
  let t := round { s with v3 := s.v3 ^^^ w }
  { t with v0 := t.v0 ^^^ w }

/-- Takes in bytes, eight to a word. The last word has the bytes left over and, in its highest
byte, the length of all. -/
def absorbAll (length : Nat) (s : State) : Bytes → State
  | b0 :: b1 :: b2 :: b3 :: b4 :: b5 :: b6 :: b7 :: bs =>
      let w := Bytes.toWord [b0, b1, b2, b3, b4, b5, b6, b7]
      absorbAll length (absorb s (UInt64.ofNat w)) bs
  | bs => absorb s (UInt64.ofNat (Bytes.toWord bs) ||| UInt64.ofNat length <<< 56)

/-- Closes the hash with three rounds. -/
def finish (s : State) : UInt64 :=
  let t := round (round (round { s with v2 := s.v2 ^^^ 0xFF }))
  t.v0 ^^^ t.v1 ^^^ t.v2 ^^^ t.v3

def hash (bs : Bytes) : UInt64 := finish (absorbAll bs.length start bs)

end RowStore.SipHash
