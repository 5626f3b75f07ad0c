import RowStore.Address
import RowStore.Value

/-! Rows: values, and the place where they are stored. -/
namespace RowStore

/-- A row has a record id once it has been stored. -/
structure Row where
  values : List Value
  rid : Option RecordId := none
  deriving DecidableEq

namespace Row

def stamped (r : Row) (rid : RecordId) : Row := { r with rid := some rid }

/-- Equality of the values that rows hold, and of their places. -/
def same (a b : Row) : Bool :=
  a.rid == b.rid && a.values.length == b.values.length &&
    (a.values.zip b.values).all fun (v, w) => v.same w

def render (r : Row) : String := "[" ++ ", ".intercalate (r.values.map (·.render)) ++ "]"

end Row
end RowStore
