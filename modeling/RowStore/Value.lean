import RowStore.Decimal.Reading
import RowStore.Decimal.Shortest
import RowStore.Text.Blank
import RowStore.Text.LetterCase
import RowStore.Text.Utf8

/-! Column types, the values that they take, and the text of both. -/
namespace RowStore
open Text

/-- The type of a column. A text has a limit on its length in bytes. -/
inductive ColumnType where
  | integer
  | float
  | boolean
  | text (limit : UInt32)
  deriving DecidableEq, Repr

/-- A value of a column. A number with a fraction is kept by its bits, so that values are equal
only if they are stored alike. -/
inductive Value where
  | integer (n : Int64)
  | float (bits : UInt64)
  | boolean (b : Bool)
  | text (s : String)
  deriving DecidableEq

namespace ColumnType

/-- The length of the count in front of a stored text. -/
def countSize : Nat := 4

/-- The number of bytes that a value takes in a row. -/
def size : ColumnType → Nat
  | .integer => 8
  | .float => 8
  | .boolean => 1
  | .text limit => countSize + limit.toNat

def accepts : ColumnType → Value → Bool
  | .integer, .integer _ => true
  | .float, .float _ => true
  | .boolean, .boolean _ => true
  | .text limit, .text s => s.utf8ByteSize ≤ limit.toNat
  | _, _ => false

def name : ColumnType → String
  | .integer => "INTEGER"
  | .float => "FLOAT"
  | .boolean => "BOOLEAN"
  | .text limit => s!"TEXT({limit})"

/-- The limit between the brackets of a text type in upper case. -/
def readLimit? (cs : List Char) : Option UInt32 :=
  let opened := match afterStart? "TEXT(".toList cs with
    | some r => some r
    | none => afterStart? "VARCHAR(".toList cs
  match opened.bind (beforeEnd? ')') with
  | none => none
  | some digits =>
      match readNat maxUInt32 (trim digits) with
      | .ok n => some (UInt32.ofNat n)
      | .error _ => none

/-- Reads the name of a type. Letter case does not count, nor does white space around it. -/
def read? (cs : List Char) : Option ColumnType :=
  let word := upper (trim cs)
  if word = "INT".toList ∨ word = "INTEGER".toList then some .integer
  else if word = "FLOAT".toList ∨ word = "REAL".toList ∨ word = "DOUBLE".toList then some .float
  else if word = "BOOL".toList ∨ word = "BOOLEAN".toList then some .boolean
  else (readLimit? word).map .text

end ColumnType

/-- Why a text is no value of a type. -/
inductive ValueError where
  | integer (text : String) (why : NumeralError)
  | float (text : String) (why : Decimal.ReadError)
  | boolean (text : String)
  | misfit (text : String) (type : ColumnType)
  deriving DecidableEq

def ValueError.message : ValueError → String
  | .integer s why => s!"Invalid integer '{s}': {why.message}"
  | .float s why => s!"Invalid float '{s}': {why.message}"
  | .boolean s => s!"Invalid boolean '{s}'"
  | .misfit s type => s!"Value '{s}' does not fit {type.name}"

namespace Value

/-- Equality of the numbers and texts that values stand for. -/
def same : Value → Value → Bool
  | .float a, .float b => Binary64.numEq a b
  | a, b => a == b

/-- The words for truth values; letter case does not count. -/
def readBoolean? (s : String) : Option Bool :=
  let word := String.ofList (lower s.toList)
  if word = "true" ∨ word = "t" ∨ word = "1" then some true
  else if word = "false" ∨ word = "f" ∨ word = "0" then some false
  else none

/-- Reads a text as a value, before its size is looked at. -/
def readAs (type : ColumnType) (s : String) : Except ValueError Value :=
  match type with
  | .integer =>
      match readInt maxInt64 s.toList with
      | .ok n => .ok (.integer (Int64.ofInt n))
      | .error why => .error (.integer s why)
  | .float =>
      match Decimal.read s.toList with
      | .ok bits => .ok (.float bits)
      | .error why => .error (.float s why)
  | .boolean =>
      match readBoolean? s with
      | some b => .ok (.boolean b)
      | none => .error (.boolean s)
  | .text _ => .ok (.text s)

/-- Reads a text as a value of a type. -/
def parse (type : ColumnType) (s : String) : Except ValueError Value :=
  match readAs type s with
  | .error e => .error e
  | .ok v => if type.accepts v then .ok v else .error (.misfit s type)

/-- The text of a value; a text stands between apostrophes. -/
def render : Value → String
  | .integer n => toString n.toInt
  | .float bits => Decimal.text bits
  | .boolean b => if b then "true" else "false"
  | .text s => s!"'{s}'"

end Value
end RowStore
