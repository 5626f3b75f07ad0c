import RowStore.Page.Bitmap
import RowStore.Page.Layout
import RowStore.Row.Codec

/-! Pages in memory: which slots are taken, the rows in them, and who changed them last. -/
namespace RowStore

inductive PageError where
  | schemaMismatch (table : TableId)
  | full (page : PageId)
  | invalidDelete (rid : Option RecordId)
  | corrupt (page : PageId) (slot : UInt32) (cause : RowError)
  deriving DecidableEq

def PageError.message : PageError → String
  | .schemaMismatch table => s!"Tuple does not match the row schema of table {table}"
  | .full page => s!"No free slot in page {page.render}"
  | .invalidDelete rid =>
      let place := match rid with
        | none => "None"
        | some r => "Some(" ++ r.describe ++ ")"
      s!"Cannot delete tuple at {place}: slot is empty or belongs to another page"
  | .corrupt page slot cause => s!"Corrupt page {page.render}, slot {slot}: {cause.message}"

/-- A page of rows. A slot is taken if its bit is set. A page that has changed since it was read
or written names the transaction that changed it last. -/
structure Page where
  id : PageId
  schema : Schema
  layout : Layout
  bitmap : Bitmap
  slots : Array (Option Row)
  dirtiedBy : Option TxnId := none

namespace Page

/-- A page with all slots free. -/
def empty (id : PageId) (schema : Schema) (pageSize : Nat) : Except Fault Page := do
  let layout ← Layout.make pageSize schema.width
  return {
    id, schema, layout
    bitmap := Array.replicate layout.bitmapBytes 0
    slots := Array.replicate layout.slotCount none }

def isUsed (p : Page) (slot : Nat) : Bool := slot < p.layout.slotCount && p.bitmap.get slot

/-- The free slots, the lowest first. -/
def freeSlots (p : Page) : List Nat :=
  (List.range p.layout.slotCount).filter fun slot => !p.isUsed slot

def freeCount (p : Page) : Nat := p.freeSlots.length

def firstFree? (p : Page) : Option Nat :=
  (List.range p.layout.slotCount).find? fun slot => !p.isUsed slot

def hasFree (p : Page) : Bool := p.firstFree?.isSome

/-- The row in a slot. -/
def row? (p : Page) (slot : Nat) : Option Row := (p.slots[slot]?).join

/-- The rows of the page in the order of their slots. -/
def rows (p : Page) : List Row := p.slots.toList.filterMap fun r => r

def recordId (p : Page) (slot : Nat) : RecordId := ⟨p.id, UInt32.ofNat slot⟩

/-- Stores a row in the lowest free slot, with its record id. -/
def insert (p : Page) (r : Row) : Except PageError (RecordId × Page) :=
  if p.schema.conforms r.values then
    match p.firstFree? with
    | none => .error (.full p.id)
    | some slot =>
        let rid := p.recordId slot
        .ok (rid, { p with
          bitmap := p.bitmap.set slot
          slots := p.slots.setIfInBounds slot (some (r.stamped rid)) })
  else .error (.schemaMismatch p.id.table)

/-- Frees the slot that a record id names. -/
def delete (p : Page) : Option RecordId → Except PageError Page
  | none => .error (.invalidDelete none)
  | some rid =>
      let slot := rid.slot.toNat
      if rid.pageId = p.id ∧ p.isUsed slot then
        .ok { p with
          bitmap := p.bitmap.clear slot
          slots := p.slots.setIfInBounds slot none }
      else .error (.invalidDelete (some rid))

/-- The page as changed by a transaction, or as unchanged. -/
def mark (p : Page) (txn : Option TxnId) : Page := { p with dirtiedBy := txn }

def isDirty (p : Page) : Bool := p.dirtiedBy.isSome

end Page
end RowStore
