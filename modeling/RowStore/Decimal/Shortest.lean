import RowStore.Decimal.Binary64

/-! The shortest decimal text that reads back as a number of the 64-bit format. -/
namespace RowStore.Decimal

/-- The reals that are nearer to a number than to its neighbours, in units of `2 ^ unit`: from
`low` to `high` around `value`. The ends belong to it if `closed`. -/
structure Neighbourhood where
  low : Nat
  value : Nat
  high : Nat
  unit : Int
  closed : Bool

/-- A half of the last place lies above a number and below it; below a power of two the
numbers are twice as dense. -/
def neighbourhood (bits : UInt64) : Neighbourhood :=
  let (m, q) := Binary64.magnitude bits
  let below := if m = Binary64.hiddenBit then 1 else 2
  { low := 4 * m - below, value := 4 * m, high := 4 * m + 2, unit := q - 2, closed := m % 2 = 0 }

/-- `n` units of the neighbourhood and `d` times ten to the `e` have the sizes `n * units` and
`d * tens` on one scale. -/
structure Scale where
  units : Nat
  tens : Nat

def Neighbourhood.scale (h : Neighbourhood) (e : Int) : Scale :=
  let (up, down) := Binary64.powerOfTwo h.unit
  { units := up * Nat.pow 10 (-e).toNat
    tens := Nat.pow 10 e.toNat * down }

/-- Whether `d` times ten to the `e` lies in the neighbourhood. -/
def Neighbourhood.contains (h : Neighbourhood) (d : Nat) (e : Int) : Bool :=
  let s := h.scale e
  let x := d * s.tens
  if h.closed then decide (h.low * s.units ≤ x ∧ x ≤ h.high * s.units)
  else decide (h.low * s.units < x ∧ x < h.high * s.units)

/-- The multiple of ten to the `e` in the neighbourhood that is closest to the number, by its
factor. Only the multiples next to the number can be; of two equally close ones it is the
larger. -/
def Neighbourhood.closest? (h : Neighbourhood) (e : Int) : Option Nat :=
  let s := h.scale e
  let v := h.value * s.units
  let d := v / s.tens
  match h.contains d e, h.contains (d + 1) e with
  | true, true => if 2 * (v % s.tens) < s.tens then some d else some (d + 1)
  | true, false => some d
  | false, true => some (d + 1)
  | false, false => none

/-- Tries ever finer powers of ten. -/
def Neighbourhood.search (h : Neighbourhood) : (fuel : Nat) → (e : Int) → Nat × Int
  | 0, e => (0, e)
  | fuel + 1, e =>
      match h.closest? e with
      | some d => (d, e)
      | none => h.search fuel (e - 1)

/-- An exponent whose power of ten exceeds the number: 0.30103 is above the logarithm of 2. -/
def Neighbourhood.start (h : Neighbourhood) : Int :=
  (Int.ofNat h.value.log2 + 1 + h.unit) * 30103 / 100000 + 1

/-- The fewest digits that read back, as a whole number and a power of ten; seventeen always do,
and the first powers tried may have none. -/
def shortest (bits : UInt64) : Nat × Int :=
  let h := neighbourhood bits
  h.search 24 h.start

/-- A whole number times a power of ten in positional notation. -/
def positional (d : Nat) (e : Int) : String :=
  let digits := Nat.toDigits 10 d
  let places := (-e).toNat
  if 0 ≤ e then String.ofList (digits ++ List.replicate e.toNat '0')
  else if places < digits.length then
    let whole := digits.length - places
    String.ofList (digits.take whole ++ '.' :: digits.drop whole)
  else String.ofList ('0' :: '.' :: List.replicate (places - digits.length) '0' ++ digits)

/-- The text of a number: the fewest digits that read back, always positional, and no point
after a whole number. Zeros keep their sign. -/
def text (bits : UInt64) : String :=
  if Binary64.isNaN bits then "NaN"
  else
    let sign := if Binary64.isNegative bits then "-" else ""
    if Binary64.isInfinite bits then sign ++ "inf"
    else if Binary64.isZero bits then sign ++ "0"
    else
      let (d, e) := shortest bits
      sign ++ positional d e

example : text 0x3FB999999999999A = "0.1" := by decide +kernel

example : text 0x444B1AE4D6E2EF50 = "1000000000000000000000" := by decide +kernel

example : text 0x8000000000000000 = "-0" := by decide +kernel

/-- Of two texts with the fewest digits and equally close it is the larger one. -/
example : text 0x3FB0004000000000 = "0.06250381469726563" := by decide +kernel

end RowStore.Decimal
