import RowStore.Value

/-! The columns of a table, and the text that declares them. -/
namespace RowStore
open Text

structure Column where
  name : String
  type : ColumnType
  deriving DecidableEq

/-- The columns of a table in the order in which a row stores them. -/
structure Schema where
  columns : List Column
  deriving DecidableEq

/-- Why a text declares no columns. -/
inductive SchemaError where
  | noColon (declaration : String)
  | unknownType (name : String)
  | noColumns
  deriving DecidableEq

def SchemaError.message : SchemaError → String
  | .noColon declaration => s!"Expected name:type, got '{declaration}'"
  | .unknownType name => "Unknown data type: " ++ name
  | .noColumns => "Schema must have at least one column"

/-- Reads the name of a type. -/
def ColumnType.parse (cs : List Char) : Except SchemaError ColumnType :=
  match ColumnType.read? cs with
  | some type => .ok type
  | none => .error (.unknownType (String.ofList cs))

/-- Reads a column from a name and a type with a colon between them. -/
def Column.parse (cs : List Char) : Except SchemaError Column :=
  match splitOnce? ':' cs with
  | none => .error (.noColon (String.ofList cs))
  | some (name, type) => (ColumnType.parse type).map fun t => ⟨String.ofList (trim name), t⟩

namespace Schema

/-- The declarations in a text: what stands between commas, without the blank ones. -/
def declarations (cs : List Char) : List (List Char) :=
  ((splitAt ',' cs).map trim).filter (· ≠ [])

/-- Reads the columns that a text declares; there has to be one at least. -/
def parse (text : String) : Except SchemaError Schema :=
  match (declarations text.toList).mapM Column.parse with
  | .error e => .error e
  | .ok [] => .error .noColumns
  | .ok columns => .ok ⟨columns⟩

/-- The columns of the given types, named by their numbers. -/
def ofTypes (types : List ColumnType) : Schema :=
  ⟨types.zipIdx.map fun (type, i) => ⟨s!"col{i}", type⟩⟩

/-- The number of bytes that columns take one after the other. -/
def totalSize : List Column → Nat
  | [] => 0
  | c :: cs => c.type.size + totalSize cs

/-- The number of bytes that a row takes. -/
def width (s : Schema) : Nat := totalSize s.columns

/-- The number of bytes in a row before column `i`. -/
def offset (s : Schema) (i : Nat) : Nat := totalSize (s.columns.take i)

/-- The offset of a column that exists. -/
def offsetOf (s : Schema) (i : Nat) : Except Fault Nat :=
  if i < s.columns.length then .ok (s.offset i) else .error .outOfBounds

/-- Whether there is a value for each column, of its type. -/
def conforms (s : Schema) (values : List Value) : Bool :=
  values.length == s.columns.length &&
    (s.columns.zip values).all fun (c, v) => c.type.accepts v

def render (s : Schema) : String :=
  "(" ++ ", ".intercalate (s.columns.map fun c => c.name ++ " " ++ c.type.name) ++ ")"

end Schema
end RowStore
