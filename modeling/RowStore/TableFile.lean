import RowStore.Page.Codec
import RowStore.RecencyCache
import RowStore.Text.Quoted
import RowStore.World

/-! The file of a table: pages of one size one after the other. -/
namespace RowStore

/-- Why a source has no page to hand out, apart from what the file says. -/
inductive AccessError where
  | cache (cause : CacheError)
  | unknownTable (table : TableId)
  | notCached (page : PageId)
  deriving DecidableEq

def AccessError.message : AccessError → String
  | .cache cause => "Cache error: " ++ cause.message
  | .unknownTable table => s!"No table with ID {table} is registered"
  | .notCached page => s!"Page {page.render} not found in buffer pool"

inductive FileError where
  | disk (cause : DiskError)
  | outOfRange (page : PageId) (pageCount : UInt32)
  | unusablePageSize (pageSize slotWidth : Nat)
  | foreignPage (page : PageId) (table : TableId)
  | page (cause : PageError)
  | scanNotOpen
  | scanExhausted
  | access (cause : AccessError)
  deriving DecidableEq

def FileError.message : FileError → String
  | .disk cause => "IO error: " ++ cause.message
  | .outOfRange id pageCount =>
      s!"Page {id.render} is beyond the end of the file ({pageCount} pages)"
  | .unusablePageSize pageSize slotWidth =>
      s!"Page size {pageSize} cannot hold a single {slotWidth}-byte slot"
  | .foreignPage id table => s!"Page {id.render} does not belong to table {table}"
  | .page cause => "Page error: " ++ cause.message
  | .scanNotOpen => "Iterator used before open or after close"
  | .scanExhausted => "No more tuples"
  | .access cause => "Page access failed: " ++ cause.message

/-- A table whose file is open. Page `i` lies at `i` times the page size. -/
structure TableFile where
  id : TableId
  path : Path
  location : Location
  schema : Schema
  pageSize : Nat

/-- Whoever hands out the pages of tables. -/
abbrev PageSource (σ : Type) :=
  TxnId → PageId → Permission → Action (World σ) FileError Handle

/-- A row in its place, and the page that it is on. -/
structure Stored where
  handle : Handle
  row : Row

namespace TableFile

/-- Opens the file that a path names, or makes it. One row has to fit a page at least; otherwise
the disk is not touched. -/
def openAt (path : Path) (id : TableId) (schema : Schema) (pageSize : Nat) (d : Disk) :
    Except (Failure FileError) (TableFile × Disk) := do
  let layout ← orFault (Layout.make pageSize schema.width)
  if layout.slotCount = 0 then
    .error (.error (.unusablePageSize pageSize schema.width))
  else
    let (location, d) ← (d.openFile path).mapError fun e => .error (.disk e)
    return (⟨id, path, location, schema, pageSize⟩, d)

/-- The number of pages of a file of some length; a last page that is cut short counts. -/
def pagesIn (t : TableFile) (length : Nat) : UInt32 := UInt32.ofNat (ceilDiv length t.pageSize)

def pageCount (t : TableFile) (d : Disk) : UInt32 := t.pagesIn (d.fileAt t.location).length

def checkTable (t : TableFile) (id : PageId) : Except (Failure FileError) Unit :=
  if id.table = t.id then .ok () else .error (.error (.foreignPage id t.id))

/-- Reads a page, which has to lie in the file whole. -/
def readPage (t : TableFile) (d : Disk) (id : PageId) : Except (Failure FileError) Page := do
  t.checkTable id
  let file := d.fileAt t.location
  let stop ← orFault (checkedWord ((id.page.toNat + 1) * t.pageSize))
  if file.length < stop then .error (.error (.outOfRange id (t.pagesIn file.length)))
  else
    let data := file.read (id.page.toNat * t.pageSize) t.pageSize
    (Page.decode id t.schema data).mapError (Failure.map .page)

/-- Writes a page to its place; the file grows if it has to. -/
def writePage (t : TableFile) (d : Disk) (p : Page) : Except (Failure FileError) Disk := do
  t.checkTable p.id
  let data ← orFault p.encode
  let offset ← orFault (checkedWord (p.id.page.toNat * t.pageSize))
  (d.write t.location offset data).mapError fun e => .error (.disk e)

variable {σ : Type}

/-- Stores a row in a page that is loaded, which `txn` then has changed. -/
def insertInto (h : Handle) (txn : TxnId) (r : Row) : Action (World σ) FileError Stored := do
  let p ← World.page h
  let (rid, p) ← Action.lift ((p.insert r).mapError fun e => .error (.page e))
  World.setPage h (p.mark (some txn))
  return ⟨h, r.stamped rid⟩

/-- Stores a row in the first page with a free slot, of `count` pages from page `number` on. -/
def insertFrom (t : TableFile) (source : PageSource σ) (txn : TxnId) (r : Row) :
    (count : Nat) → (number : UInt32) → Action (World σ) FileError (Option Stored)
  | 0, _ => return none
  | count + 1, number => do
      let h ← source txn ⟨t.id, number⟩ .readWrite
      let p ← World.page h
      if p.hasFree then
        let stored ← insertInto h txn r
        return some stored
      else t.insertFrom source txn r count (number + 1)

/-- Adds an empty page behind the last one and stores a row in it. -/
def insertAppended (t : TableFile) (source : PageSource σ) (txn : TxnId) (r : Row)
    (number : UInt32) : Action (World σ) FileError Stored := do
  let id : PageId := ⟨t.id, number⟩
  let w ← get
  let d ← Action.lift do
    let p ← orFault (Page.empty id t.schema t.pageSize)
    t.writePage w.disk p
  set { w with disk := d }
  let h ← source txn id .readWrite
  insertInto h txn r

/-- Stores a row in the first free slot of the table, in a new page if there is none. A row that
does not fit the columns changes nothing. -/
def insert (t : TableFile) (source : PageSource σ) (txn : TxnId) (r : Row) :
    Action (World σ) FileError Stored := do
  if t.schema.conforms r.values then
    let count := t.pageCount (← get).disk
    match ← t.insertFrom source txn r count.toNat 0 with
    | some stored => return stored
    | none => t.insertAppended source txn r count
  else Action.fail (.page (.schemaMismatch t.id))

/-- Deletes the row at a record id. The answer is the page that it was on. -/
def delete (t : TableFile) (source : PageSource σ) (txn : TxnId) (rid : Option RecordId) :
    Action (World σ) FileError Handle := do
  match rid with
  | none => Action.fail (.page (.invalidDelete none))
  | some r =>
      let count := t.pageCount (← get).disk
      if r.pageId.table = t.id ∧ r.pageId.page < count then
        let h ← source txn r.pageId .readWrite
        let p ← World.page h
        let p ← Action.lift ((p.delete rid).mapError fun e => .error (.page e))
        World.setPage h (p.mark (some txn))
        return h
      else Action.fail (.page (.invalidDelete rid))

/-- The table, its path and its page size in words. -/
def describe (t : TableFile) : String :=
  "HeapFile \x7b table_id: " ++ toString t.id ++ ", path: " ++ Text.quoted t.path.text ++
    ", page_size: " ++ toString t.pageSize ++ " \x7d"

end TableFile
end RowStore
