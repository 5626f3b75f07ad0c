import RowStore.Catalog

/-! The pool: a bounded cache of pages through which tables are read and changed. Pages go back to
their files when they are flushed, or when they have to make room. -/
namespace RowStore

inductive PoolError where
  | file (cause : FileError)
  | access (cause : AccessError)
  deriving DecidableEq

def PoolError.message : PoolError → String
  | .file cause => "Heap file error: " ++ cause.message
  | .access cause => cause.message

/-- The error as those see it who get their pages from the pool. -/
def PoolError.toFileError : PoolError → FileError
  | .file cause => cause
  | .access cause => .access cause

/-- The pages in the pool, by the numbers under which they were fetched. -/
abbrev PageCache := RecencyCache PageId Handle

namespace Pool

abbrev PoolAction := Action (World PageCache) PoolError

/-- A page id and a handle take eight bytes each. -/
def create (capacity : Nat) : Except (Failure PoolError) PageCache :=
  (RecencyCache.create 16 capacity).mapError (Failure.map fun e => .access (.cache e))

def getCache : PoolAction PageCache := return (← get).source

def setCache (c : PageCache) : PoolAction Unit := modify fun w => { w with source := c }

/-- The table with a number. -/
def table (tables : Catalog) (id : TableId) : PoolAction TableFile :=
  match tables.table? id with
  | some t => return t
  | none => Action.fail (.access (.unknownTable id))

/-- Writes a page to its file if it has changed; it then counts as unchanged. -/
def writeBack (tables : Catalog) (h : Handle) : PoolAction Unit := do
  let p ← World.page h
  if p.isDirty then
    let t ← table tables p.id.table
    let w ← get
    let d ← Action.lift ((t.writePage w.disk p).mapError (Failure.map .file))
    set { w with disk := d }
    World.setPage h (p.mark none)

/-- Drops the least recently used page, once it is written back. -/
def evict (tables : Catalog) : PoolAction Unit := do
  match (← getCache).candidate with
  | none => return ()
  | some victim =>
      if let some h := (← getCache).peek victim then
        writeBack tables h
      setCache ((← getCache).remove victim).2

/-- Drops pages as long as the cache is full, at most `fuel` of them. -/
def makeRoom (tables : Catalog) : (fuel : Nat) → PoolAction Unit
  | 0 => return ()
  | fuel + 1 => do
      if (← getCache).isFull then
        evict tables
        makeRoom tables fuel

/-- Puts a page into the cache, after room has been made for a new one. -/
def cachePage (tables : Catalog) (id : PageId) (h : Handle) : PoolAction Unit := do
  let c ← getCache
  if !c.contains id then
    makeRoom tables c.length
  let (_, c) ← Action.lift (((← getCache).put id h).mapError fun e => .error (.access (.cache e)))
  setCache c

/-- Makes sure that a page is cached, as the most recently used one. -/
def recache (tables : Catalog) (h : Handle) : PoolAction Unit := do
  let p ← World.page h
  cachePage tables p.id h

/-- The page with an id: from the cache, or else from its file. -/
def fetch (tables : Catalog) (_txn : TxnId) (id : PageId) (_permission : Permission) :
    PoolAction Handle := do
  match (← getCache).get id with
  | (some h, c) =>
      setCache c
      return h
  | (none, _) =>
      let t ← table tables id.table
      let p ← Action.lift ((t.readPage (← get).disk id).mapError (Failure.map .file))
      let h ← World.load p
      cachePage tables id h
      return h

/-- The pool as a source of pages. -/
def source (tables : Catalog) : PageSource PageCache := fun txn id permission =>
  (fetch tables txn id permission).mapError PoolError.toFileError

/-- What came of storing a row: the row has its record id if it is on a page, even where the page
then found no place in the cache. -/
structure Insertion where
  row : Row
  result : Except (Failure PoolError) Handle

/-- Stores a row in a table. Its page stays in the cache. -/
def insert (tables : Catalog) (txn : TxnId) (id : TableId) (r : Row) :
    StateM (World PageCache) Insertion := do
  let stored : PoolAction Stored := do
    let t ← table tables id
    (t.insert (source tables) txn r).mapError .file
  match ← stored.run with
  | .error e => return ⟨r, .error e⟩
  | .ok s =>
      match ← (recache tables s.handle).run with
      | .error e => return ⟨s.row, .error e⟩
      | .ok () => return ⟨s.row, .ok s.handle⟩

/-- Deletes the row at a record id. Its page stays in the cache. -/
def delete (tables : Catalog) (txn : TxnId) (rid : Option RecordId) : PoolAction Handle := do
  match rid with
  | none => Action.fail (.file (.page (.invalidDelete none)))
  | some r =>
      let t ← table tables r.pageId.table
      let h ← (t.delete (source tables) txn rid).mapError .file
      recache tables h
      return h

/-- Writes a cached page back to its file. -/
def flushPage (tables : Catalog) (id : PageId) : PoolAction Unit := do
  match (← getCache).peek id with
  | none => Action.fail (.access (.notCached id))
  | some h => writeBack tables h

/-- Writes those pages back that satisfy `p`. -/
def flushThose (tables : Catalog) (p : Page → Bool) : List Handle → PoolAction Unit
  | [] => return ()
  | h :: hs => do
      if p (← World.page h) then
        writeBack tables h
      flushThose tables p hs

/-- The handles of the cached pages. -/
def cachedPages (c : PageCache) : List Handle := c.values

/-- Writes the cached pages back that `txn` changed last. -/
def flushTxn (tables : Catalog) (txn : TxnId) : PoolAction Unit := do
  flushThose tables (·.dirtiedBy == some txn) (cachedPages (← getCache))

/-- Writes all cached pages back. -/
def flushAll (tables : Catalog) : PoolAction Unit := do
  flushThose tables (fun _ => true) (cachedPages (← getCache))

/-- Drops a page without writing it back. -/
def discard (id : PageId) : PoolAction Unit := do
  setCache ((← getCache).remove id).2

end Pool
end RowStore
