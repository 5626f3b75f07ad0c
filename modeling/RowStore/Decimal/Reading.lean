import RowStore.Decimal.Binary64
import RowStore.Text.Numeral
import RowStore.Text.LetterCase

/-! Reading decimal numbers with a fraction from text, correctly rounded. -/
namespace RowStore.Decimal
open RowStore.Text

inductive ReadError where
  | empty
  | invalid
  deriving DecidableEq, Repr

def ReadError.message : ReadError → String
  | .empty => "cannot parse float from empty string"
  | .invalid => "invalid float literal"

def isDigit (c : Char) : Bool := (digit? c).isSome

/-- The number that a row of digits spells. -/
def digitsValue (cs : List Char) : Nat := cs.foldl (fun n c => 10 * n + (digit? c).getD 0) 0

/-- The exponent at the end of a number: absent, or a mark and digits that may have a sign. -/
def readExponent? : List Char → Option Int
  | [] => some 0
  | c :: cs =>
      if c = 'e' ∨ c = 'E' then
        let (negative, ds) := match cs with
          | '+' :: r => (false, r)
          | '-' :: r => (true, r)
          | r => (false, r)
        if ds ≠ [] ∧ ds.all isDigit then
          some (if negative then -(digitsValue ds : Int) else digitsValue ds)
        else none
      else none

/-- A number without a sign: digits, of which some may follow a point, and an exponent. The
answer is a whole number and the power of ten that it is multiplied by. -/
def readUnsigned? (cs : List Char) : Option (Nat × Int) :=
  let whole := cs.takeWhile isDigit
  let (places, tail) := match cs.dropWhile isDigit with
    | '.' :: r => (r.takeWhile isDigit, r.dropWhile isDigit)
    | r => ([], r)
  if whole = [] ∧ places = [] then none
  else (readExponent? tail).map fun e => (digitsValue (whole ++ places), e - places.length)

/-- The number nearest to `n` times ten to the `e`. The comparisons spare the powers of ten of
numbers that are surely too large or too small for the format. -/
def nearest (n : Nat) (e : Int) : UInt64 :=
  let places : Int := (Nat.toDigits 10 n).length
  if n = 0 ∨ e + places < -330 then 0
  else if 310 < e + places then Binary64.infinity
  else Binary64.ofRatio (n * Nat.pow 10 e.toNat) (Nat.pow 10 (-e).toNat)

/-- The words for what no digits spell; letter case does not count. -/
def readWord? (cs : List Char) : Option UInt64 :=
  let word := String.ofList (lower cs)
  if word = "inf" ∨ word = "infinity" then some Binary64.infinity
  else if word = "nan" then some Binary64.quietNaN
  else none

/-- Reads a number: a sign, and then digits or a word. -/
def read (cs : List Char) : Except ReadError UInt64 :=
  let (negative, body) := match cs with
    | '+' :: r => (false, r)
    | '-' :: r => (true, r)
    | r => (false, r)
  if cs = [] then .error .empty
  else
    match readUnsigned? body with
    | some (n, e) => .ok (Binary64.withSign negative (nearest n e))
    | none =>
        match readWord? body with
        | some bits => .ok (Binary64.withSign negative bits)
        | none => .error .invalid

example : (read ['.', '1']).toOption = some 0x3FB999999999999A := by decide +kernel

example : (read ['-', 'N', 'a', 'N']).toOption = some 0xFFF8000000000000 := by decide +kernel

end RowStore.Decimal
