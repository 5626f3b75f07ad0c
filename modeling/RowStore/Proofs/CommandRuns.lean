import RowStore.Proofs.TableSessions

/-! Runs of the program on one file, one after the other. Each run opens the table again, with a pool
of its own; together they print and store what the same commands do to one sheet. -/
namespace RowStore

/-- All values of a sheet that a file holds are in places of its pages. -/
theorem Sheet.Stored.mem_all {schema : Schema} {pageSize : Nat} {layout : Layout} {s : Sheet}
    {f : File} {x : Place} (h : s.Stored schema pageSize f)
    (hlayout : Layout.make pageSize schema.width = .ok layout) (hpages : s.pageCount ≤ 2 ^ 32)
    (hslots : layout.slotCount ≤ 2 ^ 32) (htaken : (s.values? x).isSome) :
    x ∈ Place.all s.pageCount layout.slotCount := by
  have hpage : x.page.toNat < s.pageCount := by
    by_contra hout
    simp [h.beyond x (not_lt.mp hout)] at htaken
  refine (Place.mem_all hpages hslots).mpr ⟨hpage, ?_⟩
  obtain ⟨p, hdecode, hrows⟩ := h.pages 0 x.page hpage
  obtain ⟨hsound, -, hschema, hsize, -⟩ := Page.sound_of_decode hdecode
  have hlayout' := hsound.layout
  rw [hschema, hsize, File.length_read] at hlayout'
  have hcount := hsound.slots
  rw [← Except.ok.inj (hlayout.symm.trans hlayout')] at hcount
  by_contra hout
  have hnone : p.row? x.slot.toNat = none := by
    simp [Page.row?, Array.getElem?_eq_none (hcount.trans_le (not_lt.mp hout))]
  rw [← hrows x.slot, hnone] at htaken
  contradiction

namespace CommandLine

/-- A run of the program: its arguments, and what they say. -/
structure Use where
  arguments : List String
  file : Path
  columns : String
  settings : Settings
  command : RowCommand

namespace Use

def invocation (u : Use) : Invocation := ⟨u.file, u.columns, u.settings, u.command.toCommand⟩

/-- The number that the table has in the run. -/
def tableId (base : Location) (u : Use) : TableId := Path.locationId (u.file.fromRoot base)

end Use

variable {base : Location} {schema : Schema} {pageSize : Nat} {layout : Layout} {l : Location}
  {d₀ d d₁ : Disk} {s : Sheet} {u : Use}

/-- The table that the arguments name. -/
def Use.table (base : Location) (schema : Schema) (l : Location) (u : Use) : TableFile :=
  ⟨u.tableId base, u.file, l, schema, u.settings.pageSize⟩

/-- What a command yields on a table that was opened, the run of the program reports. -/
theorem Yields.run {arguments : List String} {i : Invocation} {t : TableFile} {cache : PageCache}
    {answer : Option String} (hsession : Session base d i t cache d₁)
    (hparse : Invocation.parse arguments = .ok i)
    (h : Yields t (Pool.fresh d₁ cache) (perform ⟨.single t, t, cache⟩ i.command) answer s) :
    (CommandLine.run base arguments d).1.Answers answer ∧
      s.Stored t.schema t.pageSize ((CommandLine.run base arguments d).2.fileAt t.location) ∧
        ∃ calls, (CommandLine.run base arguments d).2 =
          (Pool.afterCalls (.single t) (Pool.fresh d₁ cache) calls).disk := by
  obtain ⟨hends, hstored, calls, hcalls⟩ := h
  rw [hsession.run_eq hparse]
  refine ⟨?_, hstored, calls, congrArg World.disk hcalls⟩
  generalize (perform ⟨.single t, t, cache⟩ i.command).outcome ⟨Pool.fresh d₁ cache, ""⟩ = out
    at hends ⊢
  obtain ⟨res, c⟩ := out
  cases answer with
  | some text =>
    obtain ⟨rfl, rfl⟩ := hends
    rfl
  | none =>
    obtain ⟨⟨e, rfl⟩, hprinted⟩ := hends
    exact ⟨rfl, hprinted⟩

/-- A run on a file, with pages that hold two numbers. -/
def Use.numbers (file : String) (capacity : Nat) (words : List String) (command : RowCommand) :
    Use :=
  ⟨[file, "-c", "n:int", "-p", "17", "-b", toString capacity] ++ words, ⟨file⟩, "n:int",
    ⟨17, capacity⟩, command⟩

end CommandLine
end RowStore
