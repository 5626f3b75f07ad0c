/-! The 64-bit binary format of numbers with a fraction, read from and written to its bits. -/
namespace RowStore.Binary64

/-- The first number with 53 bits: the weight of the bit before the fraction. -/
def hiddenBit : Nat := 0x10000000000000

/-- The three fields of the format: a sign bit, 11 bits of exponent and 52 bits of fraction. -/
def isNegative (bits : UInt64) : Bool := bits >>> 63 == 1

def exponentField (bits : UInt64) : Nat := (bits.toNat / hiddenBit) % 2048

def fraction (bits : UInt64) : Nat := bits.toNat % hiddenBit

def isNaN (bits : UInt64) : Bool := exponentField bits == 2047 && fraction bits != 0

def isInfinite (bits : UInt64) : Bool := exponentField bits == 2047 && fraction bits == 0

def isZero (bits : UInt64) : Bool := exponentField bits == 0 && fraction bits == 0

/-- A finite number is, but for its sign, the first component times two to the second. -/
def magnitude (bits : UInt64) : Nat × Int :=
  match exponentField bits with
  | 0 => (fraction bits, -1074)
  | e + 1 => (hiddenBit + fraction bits, (e : Int) - 1074)

/-- Numeric equality: a number that is not a number equals nothing, and the zeros are equal. -/
def numEq (a b : UInt64) : Bool :=
  !isNaN a && !isNaN b && (a == b || (isZero a && isZero b))

def infinity : UInt64 := 0x7FF0000000000000

/-- The number that stands for every undefined result. -/
def quietNaN : UInt64 := 0x7FF8000000000000

def withSign (negative : Bool) (bits : UInt64) : UInt64 :=
  if negative then bits ||| 0x8000000000000000 else bits

/-- The whole number nearest to `num / den`; a tie goes to the even one. -/
def roundEven (num den : Nat) : Nat :=
  let q := num / den
  let twice := 2 * (num % den)
  if twice < den then q
  else if den < twice then q + 1
  else q + q % 2

/-- Two to an exponent of any sign, as a numerator and a denominator. -/
def powerOfTwo (e : Int) : Nat × Nat := (Nat.pow 2 e.toNat, Nat.pow 2 (-e).toNat)

/-- The exponent of the last place of the format at `num / den`. -/
def lastPlace (num den : Nat) : Int :=
  let guess : Int := Int.ofNat num.log2 - Int.ofNat den.log2 - 53
  let (up, down) := powerOfTwo guess
  max (if num * down < 2 * hiddenBit * (den * up) then guess else guess + 1) (-1074)

/-- The number of the format nearest to `num / den`, ties to even; infinity past the largest. -/
def ofRatio (num den : Nat) : UInt64 :=
  if num = 0 then 0
  else
    let place := lastPlace num den
    let (up, down) := powerOfTwo place
    let m := roundEven (num * down) (den * up)
    let bits := if m < hiddenBit then m else (place + 1075).toNat * hiddenBit + (m - hiddenBit)
    if bits < infinity.toNat then UInt64.ofNat bits else infinity

end RowStore.Binary64
