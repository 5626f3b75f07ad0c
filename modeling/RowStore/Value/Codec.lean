import RowStore.Value

/-! The bytes of a value in a row. -/
namespace RowStore
open Text

/-- Why bytes are no value of a type. -/
inductive FieldError where
  | booleanByte (b : UInt8)
  | textTooLong (length : Nat) (limit : UInt32)
  | notUtf8 (fault : Utf8Fault)
  deriving DecidableEq

def FieldError.message : FieldError → String
  | .booleanByte b => "Invalid boolean byte 0x" ++ hexByte b
  | .textTooLong length limit => s!"Text length {length} exceeds column limit {limit}"
  | .notUtf8 fault => "Invalid UTF-8 in text field: " ++ fault.message

namespace Value

/-- The bytes of a value at the front of its field. -/
def bytes : Value → Bytes
  | .integer n => Bytes.ofWord 8 n.toUInt64.toNat
  | .float bits => Bytes.ofWord 8 bits.toNat
  | .boolean b => [if b then 1 else 0]
  | .text s => Bytes.ofWord ColumnType.countSize s.utf8ByteSize ++ toUtf8 s

/-- Writes a value over a field of a type that takes it. Behind a text the field is filled with
zeros; behind any other value it stays as it was. -/
def encode (type : ColumnType) (v : Value) (field : Bytes) : Except Fault Bytes :=
  if type.accepts v then
    match v with
    | .text _ => Bytes.padTo field.length v.bytes
    | _ => Bytes.overwrite v.bytes field
  else .error .rejectedValue

/-- Reads a word of `count` bytes from the front of a field. -/
def decodeWord (count : Nat) (field : Bytes) : Except (Failure FieldError) Nat := do
  let bs ← orFault (Bytes.front count field)
  return Bytes.toWord bs

def decodeBoolean (field : Bytes) : Except (Failure FieldError) Value := do
  match ← orFault (Bytes.front 1 field) with
  | [0] => .ok (.boolean false)
  | [1] => .ok (.boolean true)
  | bs => .error (.error (.booleanByte (bs.headD 0)))

/-- The count is compared with the limit before the text itself is read. -/
def decodeText (limit : UInt32) (field : Bytes) : Except (Failure FieldError) Value := do
  let count ← decodeWord ColumnType.countSize field
  if limit.toNat < count then .error (.error (.textTooLong count limit))
  else
    let body ← orFault (Bytes.rest ColumnType.countSize field)
    let bs ← orFault (Bytes.front count body)
    match readUtf8 bs with
    | .ok s => .ok (.text s)
    | .error fault => .error (.error (.notUtf8 fault))

/-- Reads a value of a type from the front of a field. -/
def decode (type : ColumnType) (field : Bytes) : Except (Failure FieldError) Value :=
  match type with
  | .integer => (decodeWord 8 field).map fun n => .integer (Int64.ofNat n)
  | .float => (decodeWord 8 field).map fun n => .float (UInt64.ofNat n)
  | .boolean => decodeBoolean field
  | .text limit => decodeText limit field

end Value
end RowStore
