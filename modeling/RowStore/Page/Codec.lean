import RowStore.Page

/-! The bytes of a page: its bitmap, its slots, and zeros up to its size. -/
namespace RowStore.Page

/-- The bytes of a slot; a free one is all zeros. -/
def encodeSlot (schema : Schema) (width : Nat) : Option Row → Except Fault Bytes
  | none => .ok (Bytes.zeros width)
  | some r => r.encode schema (Bytes.zeros width)

def encode (p : Page) : Except Fault Bytes := do
  let cells ← p.slots.toList.mapM (encodeSlot p.schema p.layout.slotWidth)
  Bytes.padTo p.layout.pageSize (p.bitmap.toList ++ cells.flatten)

/-- The row in a slot of an encoded page, if the slot is taken. -/
def decodeSlot (id : PageId) (schema : Schema) (layout : Layout) (bitmap : Bitmap)
    (data : Array UInt8) (slot : Nat) : Except (Failure PageError) (Option Row) :=
  if bitmap.get slot then do
    let (start, stop) ← orFault (layout.slotRange slot)
    let cell ← orFault (Bytes.slice data start stop)
    let number := UInt32.ofNat slot
    let r ← (Row.decode schema cell).mapError (Failure.map (PageError.corrupt id number))
    return some (r.stamped ⟨id, number⟩)
  else .ok none

/-- Reads a page; its size is that of the data. What free slots hold does not matter. -/
def decode (id : PageId) (schema : Schema) (data : Bytes) : Except (Failure PageError) Page := do
  let layout ← orFault (Layout.make data.length schema.width)
  let bits ← orFault (Bytes.front layout.bitmapBytes data)
  let bitmap : Bitmap := bits.toArray
  let buffer := data.toArray
  let slots ←
    (List.range layout.slotCount).mapM (decodeSlot id schema layout bitmap buffer)
  return { id, schema, layout, bitmap, slots := slots.toArray }

end RowStore.Page
