import RowStore.TableFile

/-! Scans: the rows of a table in order, fetched one page at a time. -/
namespace RowStore

/-- A scan is open if it holds the rows still to come of page `number`. -/
structure Scan where
  table : TableFile
  txn : TxnId
  number : UInt32 := 0
  current : Option (List Row) := none

namespace Scan
variable {σ α : Type}

/-- A step of a scan over what tables work on. -/
abbrev Step (σ : Type) := Action (Scan × World σ) FileError

/-- An action that leaves the scan as it is. -/
def inWorld (x : Action (World σ) FileError α) : Step σ α :=
  ExceptT.mk fun (s, w) =>
    let (r, w) := x.outcome w
    (r, (s, w))

@[simp] theorem outcome_inWorld (x : Action (World σ) FileError α) (s : Scan) (w : World σ) :
    (inWorld x).outcome (s, w) = ((x.outcome w).1, (s, (x.outcome w).2)) := rfl

def update (f : Scan → Scan) : Step σ Unit := modify fun (s, w) => (f s, w)

@[simp] theorem outcome_update (f : Scan → Scan) (s : Scan) (w : World σ) :
    (update f : Step σ Unit).outcome (s, w) = (.ok (), (f s, w)) := rfl

/-- The rows of a page of the table; a page past the end has none. -/
def pageRows (source : PageSource σ) (s : Scan) (number : UInt32) :
    Action (World σ) FileError (List Row) := do
  if s.table.pageCount (← get).disk ≤ number then return []
  else
    let h ← source s.txn ⟨s.table.id, number⟩ .readOnly
    let p ← World.page h
    return p.rows

/-- Starts over with the first page. If that fails, the rows at hand stay. -/
def start (source : PageSource σ) : Step σ Unit := do
  update ({ · with number := 0 })
  let rows ← inWorld (pageRows source (← get).1 0)
  update ({ · with current := some rows })

def close : Step σ Unit := update ({ · with current := none })

def rewind (source : PageSource σ) : Step σ Unit := do
  close
  start source

def isOpen (s : Scan) : Bool := s.current.isSome

/-- Goes on through pages without rows, at most `fuel` of them. -/
def advance (source : PageSource σ) : (fuel : Nat) → Step σ Bool
  | 0 => return false
  | fuel + 1 => do
      let (s, w) ← get
      match s.current with
      | none => Action.fail .scanNotOpen
      | some (_ :: _) => return true
      | some [] =>
          if s.number.toNat + 1 < UInt32.size then
            let next := s.number + 1
            if s.table.pageCount w.disk ≤ next then return false
            else
              let rows ← inWorld (pageRows source s next)
              update ({ · with number := next, current := some rows })
              advance source fuel
          else throw (.fault .overflow)

/-- No more pages than this can come, the one at hand included. -/
def pagesAhead (s : Scan) : Nat := UInt32.size - s.number.toNat

/-- Whether there is another row; the scan goes on to its page. -/
def hasNext (source : PageSource σ) : Step σ Bool := do
  advance source (← get).1.pagesAhead

/-- The next row. -/
def next (source : PageSource σ) : Step σ Row := do
  if ← hasNext source then
    match (← get).1.current with
    | some (r :: rows) =>
        update ({ · with current := some rows })
        return r
    | _ => Action.fail .scanExhausted
  else Action.fail .scanExhausted

/-- All rows to come, page by page and from at most `fuel` pages, and how the scan ended. -/
def drain (source : PageSource σ) : (fuel : Nat) → StateM (Scan × World σ)
    (List Row × Except (Failure FileError) Unit)
  | 0 => return ([], .ok ())
  | fuel + 1 => do
      match ← (hasNext source).run with
      | .error e => return ([], .error e)
      | .ok false => return ([], .ok ())
      | .ok true =>
          let rows := (← get).1.current.getD []
          modify fun (s, w) => ({ s with current := some [] }, w)
          let (more, ending) ← drain source fuel
          return (rows ++ more, ending)

/-- All rows to come, and how the scan ended. The page at hand may have rows besides those of the
pages ahead. -/
def rest (source : PageSource σ) : StateM (Scan × World σ)
    (List Row × Except (Failure FileError) Unit) := do
  drain source ((← get).1.pagesAhead + 1)

end Scan

/-- A scan of the table, not yet open. -/
def TableFile.scan (t : TableFile) (txn : TxnId) : Scan := { table := t, txn }

end RowStore
