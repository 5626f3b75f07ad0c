import RowStore.Row
import RowStore.Schema
import RowStore.Value.Codec

/-! The bytes of a row: its fields one after the other, each as wide as its column. -/
namespace RowStore

/-- The first column whose bytes are no value. -/
structure RowError where
  column : String
  cause : FieldError
  deriving DecidableEq

def RowError.message (e : RowError) : String := s!"column '{e.column}': {e.cause.message}"

namespace Row

/-- Writes values over the fields of the columns. Bytes behind the last field stay. -/
def encodeFields : List Column → List Value → Bytes → Except Fault Bytes
  | c :: cs, v :: vs, slot => do
      let field ← Bytes.front c.type.size slot
      let field ← v.encode c.type field
      let tail ← encodeFields cs vs (slot.drop c.type.size)
      return field ++ tail
  | _, _, slot => .ok slot

/-- Writes the values of a row over a slot. -/
def encode (schema : Schema) (r : Row) (slot : Bytes) : Except Fault Bytes :=
  encodeFields schema.columns r.values slot

/-- Reads a value for each column. -/
def decodeFields : List Column → Bytes → Except (Failure RowError) (List Value)
  | [], _ => .ok []
  | c :: cs, slot => do
      let field ← orFault (Bytes.front c.type.size slot)
      let v ← (Value.decode c.type field).mapError (Failure.map (RowError.mk c.name))
      let vs ← decodeFields cs (slot.drop c.type.size)
      return v :: vs

/-- Reads the row in a slot. -/
def decode (schema : Schema) (slot : Bytes) : Except (Failure RowError) Row :=
  (decodeFields schema.columns slot).map fun values => ⟨values, none⟩

end Row
end RowStore
