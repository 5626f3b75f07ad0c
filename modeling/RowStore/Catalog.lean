import RowStore.TableFile
import Std.Data.TreeMap

/-! The registry of open tables. -/
namespace RowStore

inductive CatalogError where
  | duplicateTable (table : TableId)
  | file (cause : FileError)
  deriving DecidableEq

def CatalogError.message : CatalogError → String
  | .duplicateTable table => s!"Table {table} is already registered"
  | .file cause => "Heap file error: " ++ cause.message

/-- All tables have one page size. `counter` is the number to try first for the next table that
comes without one. -/
structure Catalog where
  pageSize : Nat
  tables : Std.TreeMap TableId TableFile := ∅
  counter : TableId := 1

namespace Catalog

def table? (c : Catalog) (id : TableId) : Option TableFile := c.tables[id]?

def contains (c : Catalog) (id : TableId) : Bool := c.tables.contains id

/-- The numbers of the tables in ascending order. -/
def tableIds (c : Catalog) : List TableId := c.tables.keys

/-- The first number from `id` on that no table has, among `fuel + 1`. -/
def freeFrom (c : Catalog) : (fuel : Nat) → (id : TableId) → TableId
  | 0, id => id
  | fuel + 1, id => if c.contains id then c.freeFrom fuel (id + 1) else id

/-- The number for the next table: the first free one from the counter on. Of one more numbers
than there are tables, one is free. -/
def nextId (c : Catalog) : TableId := c.freeFrom c.tables.size c.counter

abbrev Registration := Action (Catalog × Disk) CatalogError

/-- Opens a file and registers it under a number. -/
def register (path : Path) (id : TableId) (schema : Schema) : Registration TableFile := do
  let (c, d) ← get
  let (t, d) ← Action.lift
    ((TableFile.openAt path id schema c.pageSize d).mapError (Failure.map .file))
  set ({ c with tables := c.tables.insert id t }, d)
  return t

/-- Registers a file under the next free number, which is used up even if that fails. -/
def add (path : Path) (schema : Schema) : Registration TableFile := do
  let (c, d) ← get
  let id := c.nextId
  set ({ c with counter := id + 1 }, d)
  register path id schema

/-- Registers a file under a number that no table has. -/
def addWithId (path : Path) (id : TableId) (schema : Schema) : Registration TableFile := do
  if (← get).1.contains id then Action.fail (.duplicateTable id)
  else register path id schema

end Catalog
end RowStore
