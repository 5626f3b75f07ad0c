/-! Decimal numerals: reading whole numbers of a bounded range from text. -/
namespace RowStore.Text

/-- Why a text is no numeral of the range asked for. -/
inductive NumeralError where
  | empty
  | invalidDigit
  | tooLarge
  | tooSmall
  deriving DecidableEq, Repr

def NumeralError.message : NumeralError → String
  | .empty => "cannot parse integer from empty string"
  | .invalidDigit => "invalid digit found in string"
  | .tooLarge => "number too large to fit in target type"
  | .tooSmall => "number too small to fit in target type"

def digit? (c : Char) : Option Nat :=
  if '0' ≤ c ∧ c ≤ '9' then some (c.toNat - '0'.toNat) else none

/-- Reads digits after `acc`. The leftmost fault wins: a character that is no digit, or the
digit at which the number passes `limit`. -/
def readDigits (limit : Nat) (past : NumeralError) : (acc : Nat) → List Char →
    Except NumeralError Nat
  | acc, [] => .ok acc
  | acc, c :: cs =>
      match digit? c with
      | none => .error .invalidDigit
      | some d =>
          if acc * 10 + d ≤ limit then readDigits limit past (acc * 10 + d) cs
          else .error past

/-- Reads at least one digit. -/
def readMagnitude (limit : Nat) (past : NumeralError) : List Char → Except NumeralError Nat
  | [] => .error .invalidDigit
  | cs => readDigits limit past 0 cs

/-- Reads a number from 0 to `limit`; a plus sign may stand before it. -/
def readNat (limit : Nat) : List Char → Except NumeralError Nat
  | [] => .error .empty
  | '+' :: cs => readMagnitude limit .tooLarge cs
  | cs => readMagnitude limit .tooLarge cs

/-- Reads a number from `-(limit + 1)` to `limit`; a sign may stand before it. -/
def readInt (limit : Nat) : List Char → Except NumeralError Int
  | [] => .error .empty
  | '+' :: cs => (readMagnitude limit .tooLarge cs).map Int.ofNat
  | '-' :: cs => (readMagnitude (limit + 1) .tooSmall cs).map fun n => -Int.ofNat n
  | cs => (readMagnitude limit .tooLarge cs).map Int.ofNat

def maxInt64 : Nat := 0x7FFFFFFFFFFFFFFF
def maxUInt32 : Nat := 0xFFFFFFFF
def maxUInt64 : Nat := 0xFFFFFFFFFFFFFFFF

end RowStore.Text
