import RowStore.CommandLine.Arguments
import RowStore.Causes
import RowStore.Scan

/-! The command line: one command on one table file, and what it prints. -/
namespace RowStore.CommandLine

/-- Why a command fails. -/
inductive CommandError where
  | schema (cause : SchemaError)
  | resolving (path : Path) (cause : DiskError)
  | opening (path : Path) (cause : CatalogError)
  | pool (cause : PoolError)
  | file (cause : FileError)
  | valueCount (expected got : Nat)
  | value (cause : ValueError)
  deriving DecidableEq

/-- The messages of the error and of its causes, from the outside in. -/
def CommandError.chain : CommandError → List String
  | .schema cause => [cause.message]
  | .resolving path cause => ["resolving " ++ path.text, cause.message]
  | .opening path cause => ("opening " ++ path.text) :: cause.chain
  | .pool cause => cause.chain
  | .file cause => cause.chain
  | .valueCount expected got => [s!"expected {expected} values, got {got}"]
  | .value cause => [cause.message]

/-- A text whose further lines are moved to the right. -/
def hanging (indent : String) (s : String) : String :=
  String.ofList (s.toList.flatMap fun c => if c = '\n' then c :: indent.toList else [c])

/-- A number or a text with blanks before it, up to a width. -/
def padLeft (width : Nat) (s : String) : String :=
  String.ofList (List.replicate (width - s.length) ' ') ++ s

/-- The lines for the causes of an error: numbered, unless there is one only. -/
def causeLines : List String → List String
  | [cause] => ["    " ++ hanging "    " cause]
  | causes => causes.zipIdx.map fun (cause, i) =>
      padLeft 5 (toString i) ++ ": " ++ hanging "       " cause

/-- The report of an error with its causes. -/
def errorReport : List String → String
  | [] => ""
  | [message] => "Error: " ++ message ++ "\n"
  | message :: causes =>
      "Error: " ++ message ++ "\n\nCaused by:\n" ++ "\n".intercalate (causeLines causes) ++ "\n"

/-- A table that is open through a pool of its own. -/
structure OpenTable where
  tables : Catalog
  file : TableFile
  cache : PageCache

/-- All changes are made by one transaction. -/
def transaction : TxnId := 1

/-- Opens the table of an invocation; its file is made if there is none. -/
def openTable (base : Location) (i : Invocation) : Action Disk CommandError OpenTable := do
  let schema ← Action.lift ((Schema.parse i.columns).mapError fun e => .error (.schema e))
  match i.file.tableId? base with
  | none => Action.fail (.resolving i.file .emptyPath)
  | some id =>
      let empty : Catalog := { pageSize := i.settings.pageSize }
      let (r, (tables, d)) := (Catalog.addWithId i.file id schema).outcome (empty, ← get)
      set d
      let file ← Action.lift (r.mapError (Failure.map (.opening i.file)))
      let cache ← Action.lift
        ((Pool.create i.settings.cacheCapacity).mapError (Failure.map .pool))
      return ⟨tables, file, cache⟩

/-- What a command works on, and what it has printed. -/
structure Console where
  world : World PageCache
  output : String := ""

abbrev Run := Action Console CommandError

variable {ε α : Type}

def printLine (s : String) : Run Unit := modify fun c => { c with output := c.output ++ s ++ "\n" }

/-- A computation on the disk and the pool. -/
def onWorld (x : StateM (World PageCache) α) : Run α := do
  let c ← get
  let (a, w) := x.run c.world
  set { c with world := w }
  return a

/-- The answer of a computation that may fail. -/
def expect (f : ε → CommandError) (r : Except (Failure ε) α) : Run α :=
  Action.lift (r.mapError (Failure.map f))

/-- Prints how many slots of each page from `number` on are taken; the answer is their sum. -/
def showPages (t : OpenTable) : (count : Nat) → (number : UInt32) → Run Nat
  | 0, _ => return 0
  | count + 1, number => do
      let d := (← get).world.disk
      let p ← expect .file (t.file.readPage d ⟨t.file.id, number⟩)
      let slots := p.layout.slotCount
      let used := slots - p.freeCount
      printLine ("  page " ++ padLeft 4 (toString number) ++ ": " ++ padLeft 5 (toString used) ++
        s!"/{slots} slots used")
      let others ← showPages t count (number + 1)
      return used + others

def showInfo (t : OpenTable) : Run Unit := do
  let count := t.file.pageCount (← get).world.disk
  printLine ("file:       " ++ t.file.path.text)
  printLine ("schema:     " ++ t.file.schema.render)
  printLine s!"page size:  {t.file.pageSize} bytes"
  printLine s!"slot width: {t.file.schema.width} bytes"
  printLine s!"pages:      {count}"
  let total ← showPages t count.toNat 0
  printLine s!"tuples:     {total}"

def showRow (r : Row) : Run Unit :=
  printLine ((r.rid.map (·.render)).getD "" ++ " " ++ r.render)

/-- Prints all rows with their record ids. Rows before an unreadable page are printed too. -/
def showRows (t : OpenTable) : Run Unit := do
  let source := Pool.source t.tables
  let (opened, s) ← onWorld fun w =>
    let (r, (s, w)) := (Scan.start source).outcome (t.file.scan transaction, w)
    ((r, s), w)
  expect .file opened
  let (rows, ending) ← onWorld fun w =>
    let (r, (_, w)) := (Scan.rest source).run (s, w)
    (r, w)
  rows.forM showRow
  expect .file ending
  printLine s!"{rows.length} tuple(s)"

/-- Reads each text as a value of its column. -/
def readValues (columns : List Column) (texts : List String) : Except ValueError (List Value) :=
  (columns.zip texts).mapM fun (c, s) => Value.parse c.type s

/-- Stores a row of one value for each column, and writes it to the file. -/
def insertRow (t : OpenTable) (texts : List String) : Run Unit := do
  let columns := t.file.schema.columns
  if texts.length = columns.length then
    let values ← Action.lift
      ((readValues columns texts).mapError fun e => .error (.value e))
    let stored ← onWorld (Pool.insert t.tables transaction t.file.id ⟨values, none⟩)
    discard (expect .pool stored.result)
    expect .pool (← onWorld (Pool.flushAll t.tables).run)
    match stored.row.rid with
    | some rid => printLine ("inserted at " ++ rid.render)
    | none => return ()
  else Action.fail (.valueCount columns.length texts.length)

/-- Deletes the row at a place, and writes that to the file. -/
def deleteRow (t : OpenTable) (page slot : UInt32) : Run Unit := do
  let rid : RecordId := ⟨⟨t.file.id, page⟩, slot⟩
  discard (expect .pool (← onWorld (Pool.delete t.tables transaction (some rid)).run))
  expect .pool (← onWorld (Pool.flushAll t.tables).run)
  printLine ("deleted " ++ rid.render)

def perform (t : OpenTable) : Command → Run Unit
  | .info => showInfo t
  | .scan => showRows t
  | .insert texts => insertRow t texts
  | .delete page slot => deleteRow t page slot

/-- How the program ends: its exit code, and what it printed as output and as errors. -/
structure Report where
  exitCode : Nat
  output : String := ""
  errors : String := ""
  deriving DecidableEq

/-- The report on a failure, with what had been printed before. -/
def Report.ofFailure (output : String) : Failure CommandError → Report
  | .error e => ⟨1, output, errorReport e.chain⟩
  | .fault _ => ⟨101, output, ""⟩

/-- Runs the program with some arguments on a disk, in the directory `base`. -/
def run (base : Location) (arguments : List String) (d : Disk) : Report × Disk :=
  match Invocation.parse arguments with
  | .error e => (⟨2, "", "error: " ++ e.message ++ "\n"⟩, d)
  | .ok i =>
      let (opened, d) := (openTable base i).outcome (d.seenFrom base)
      match opened with
      | .error f => (Report.ofFailure "" f, d)
      | .ok t =>
          let (r, c) := (perform t i.command).outcome ⟨⟨d, #[], t.cache⟩, ""⟩
          match r with
          | .error f => (Report.ofFailure c.output f, c.world.disk)
          | .ok () => (⟨0, c.output, ""⟩, c.world.disk)

end CommandLine
end RowStore
