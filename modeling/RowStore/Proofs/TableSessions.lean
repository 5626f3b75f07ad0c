import RowStore.Proofs.TableCommands

/-! One run of the program on a file that it can open, whatever the file holds: the command works on
the table through a new pool, and what the pool does by itself leaves the disk as it is. -/
namespace RowStore

/-- A path that can be opened stands for a table number. -/
theorem Path.tableId?_of_openFile {d d' : Disk} {l : Location} {p : Path} (base : Location)
    (hopen : d.openFile p = .ok (l, d')) :
    p.tableId? base = some (locationId (p.fromRoot base)) := by
  have htext : p.text ≠ "" := by
    intro htext
    have hsteps : p.steps = [] := by
      rw [steps, htext]
      rfl
    obtain ⟨dir, -, hopen⟩ := bind_eq_ok.mp hopen
    rw [hsteps] at hopen
    contradiction
  rw [tableId?, if_neg htext]

theorem TableFile.openAt_of_openFile {d d' : Disk} {l : Location} {p : Path} {schema : Schema}
    {pageSize : Nat} {layout : Layout} (id : TableId)
    (hlayout : Layout.make pageSize schema.width = .ok layout) (hroom : 0 < layout.slotCount)
    (hopen : d.openFile p = .ok (l, d')) :
    TableFile.openAt p id schema pageSize d = .ok (⟨id, p, l, schema, pageSize⟩, d') := by
  unfold TableFile.openAt
  simp only [hlayout, orFault_ok, ok_bind, if_neg hroom.ne', hopen, mapError_ok]
  rfl

/-- The first table that is registered is the only one of its catalog. -/
theorem Catalog.outcome_addWithId {d d' : Disk} {p : Path} {schema : Schema} {t : TableFile}
    (hopen : TableFile.openAt p t.id schema t.pageSize d = .ok (t, d')) :
    (addWithId p t.id schema).outcome ({ pageSize := t.pageSize }, d) = (.ok t, (single t, d')) := by
  have hfree : ({ pageSize := t.pageSize } : Catalog).contains t.id = false := rfl
  unfold addWithId register
  simp only [Action.outcome_bind, Action.outcome_get, hfree, Bool.false_eq_true, if_false,
    Action.outcome_lift, hopen, mapError_ok, Action.outcome_set]
  rfl

/-- The file of the only table is no longer than an offset can be. -/
theorem Catalog.addressed_single {t : TableFile} {d : Disk}
    (hlong : (d.fileAt t.location).length ≤ File.maxOffset) : (single t).Addressed d := by
  intro k t' ht'
  obtain ⟨rfl, rfl⟩ := eq_of_table?_single ht'
  exact hlong

namespace TableStore
variable {s : TableStore} {t : TableFile} {d : Disk}

/-- A store has of a table what the file of the table has on a disk. -/
structure Matches (s : TableStore) (t : TableFile) (d : Disk) : Prop where
  length : s.length t.id = (d.fileAt t.location).length
  bytes : ∀ number, t.pageBytes d number = s.bytes ⟨t.id, number⟩

theorem Matches.readPage_eq (h : s.Matches t d) (number : UInt32) :
    t.readPage d ⟨t.id, number⟩ = s.read t ⟨t.id, number⟩ := by
  rw [TableFile.readPage_eq rfl, read, h.length, h.bytes]

theorem Matches.pageCount_eq (h : s.Matches t d) : t.pagesIn (s.length t.id) = t.pageCount d := by
  rw [h.length]
  rfl

end TableStore

namespace Pool
variable {tables : Catalog} {w w' : World PageCache} {s : TableStore} {t : TableFile}

theorem Keeps.matches_disk (hb : tables.Separate) (hw : Keeps tables s w) (hclean : Clean w)
    (ht : tables.table? t.id = some t) : s.Matches t w.disk :=
  ⟨hw.length_eq hb ht, hw.pageBytes_of_clean hclean ht⟩

end Pool

namespace CommandLine
variable {base : Location} {d d₁ : Disk} {i : Invocation} {t : TableFile} {cache : PageCache}

/-- An invocation opens a table with a pool of its own: its columns are those of the table, its page
size has room for a row and its pool for a page, and its path leads from the directory `base` to the
place of the file. -/
structure Session (base : Location) (d : Disk) (i : Invocation) (t : TableFile)
    (cache : PageCache) (d₁ : Disk) : Prop where
  schema : Schema.parse i.columns = .ok t.schema
  path_eq : t.path = i.file
  id_eq : t.id = Path.locationId (i.file.fromRoot base)
  size_eq : t.pageSize = i.settings.pageSize
  room : ∃ l, Layout.make t.pageSize t.schema.width = .ok l ∧ 0 < l.slotCount
  file : (d.seenFrom base).openFile i.file = .ok (t.location, d₁)
  pool : Pool.create i.settings.cacheCapacity = .ok cache

namespace Session
variable (h : Session base d i t cache d₁)
include h

theorem opened : t.Opened t.id t.pageSize := by
  obtain ⟨l, hl, hroom⟩ := h.room
  exact ⟨rfl, rfl, Disk.openFile_ne_nil h.file, l, hl, hroom⟩

theorem sameBut : Disk.SameBut t.location d d₁ :=
  Disk.SameBut.seenFrom_left.mp (Disk.sameBut_of_openFile h.file).1

/-- No file has other bytes once the table is open. -/
theorem fileAt_eq (l : Location) : d₁.fileAt l = d.fileAt l := (Disk.sameBut_of_openFile h.file).2 l

theorem outcome_openTable :
    (openTable base i).outcome (d.seenFrom base) = (.ok ⟨.single t, t, cache⟩, d₁) := by
  obtain ⟨l, hl, hroom⟩ := h.room
  have hsize := h.size_eq
  have htable : TableFile.openAt i.file t.id t.schema t.pageSize (d.seenFrom base) =
      .ok (t, d₁) := by
    rw [TableFile.openAt_of_openFile t.id hl hroom h.file, ← h.path_eq]
  have hadd := Catalog.outcome_addWithId htable
  rw [h.id_eq, hsize] at hadd
  unfold openTable
  simp only [h.schema, Path.tableId?_of_openFile base h.file, mapError_ok, Action.outcome_bind,
    Action.outcome_lift, Action.outcome_get, hadd, Action.outcome_set, h.pool, Action.outcome_pure]

end Session

/-- The report on a command that printed a text. -/
def Report.of (output : String) : Except (Failure CommandError) Unit → Report
  | .ok () => ⟨0, output, ""⟩
  | .error f => .ofFailure output f

/-- The program runs the command on the table through the new pool. -/
theorem Session.run_eq (h : Session base d i t cache d₁) {arguments : List String}
    (hparse : Invocation.parse arguments = .ok i) :
    run base arguments d =
      let out := (perform ⟨.single t, t, cache⟩ i.command).outcome ⟨Pool.fresh d₁ cache, ""⟩
      (.of out.2.output out.1, out.2.world.disk) := by
  unfold run
  simp only [hparse, h.outcome_openTable]
  have hfresh : (⟨d₁, #[], cache⟩ : World PageCache) = Pool.fresh d₁ cache := rfl
  rw [hfresh]
  rcases (perform ⟨.single t, t, cache⟩ i.command).outcome ⟨Pool.fresh d₁ cache, ""⟩ with
    ⟨_ | _, c⟩ <;> rfl

/-- A table of numbers in the file `a`, two on a page. -/
def tornTable : TableFile :=
  ⟨Path.locationId (Path.fromRoot [] ⟨"a"⟩), ⟨"a"⟩, ["a"], ⟨[⟨"n", .integer⟩]⟩, 17⟩

/-- A page with a row in its second slot and stray bits, and then one that is cut short. -/
def tornDisk : Disk :=
  ({} : Disk).setFile ["a"] (({} : File).write 0
    [0xF2, 1, 2, 3, 4, 5, 6, 7, 8, 5, 0, 0, 0, 0, 0, 0, 0, 3, 1])

theorem session_torn (hfile : i.file = ⟨"a"⟩) (hcolumns : i.columns = "n:int")
    (hsize : i.settings.pageSize = 17) (hc : Pool.create i.settings.cacheCapacity = .ok cache) :
    Session [] tornDisk i tornTable cache tornDisk := by
  have hschema : Schema.parse "n:int" = .ok tornTable.schema := by decide +kernel
  refine ⟨hcolumns ▸ hschema, hfile.symm, ?_, hsize.symm, ⟨_, rfl, by decide⟩, hfile ▸ rfl, hc⟩
  rw [hfile]
  rfl

end CommandLine
end RowStore
