import RowStore.Proofs.TableIsolation

/-! The numbers of tables: a catalog gives a new table a number that no table has, and not one that
it tried before; what it has registered stays, whatever requests follow and whether they fail. -/
namespace RowStore

/-- The numbers from `id` on, as 32 bits count. -/
def numbersFrom (id : TableId) (count : Nat) : List TableId :=
  (List.range count).map fun i => id + UInt32.ofNat i

theorem length_numbersFrom (id : TableId) (count : Nat) :
    (numbersFrom id count).length = count := by
  rw [numbersFrom, List.length_map, List.length_range]

theorem numbersFrom_succ (id : TableId) (count : Nat) :
    numbersFrom id (count + 1) = id :: numbersFrom (id + 1) count := by
  unfold numbersFrom
  rw [List.range_succ_eq_map, List.map_cons, List.map_map]
  congr 1
  · exact UInt32.add_zero id
  · apply List.map_congr_left
    intro i _
    exact (TableStore.succ_add_ofNat id i).symm

theorem numbersFrom_add (id : TableId) (m n : Nat) :
    numbersFrom id (m + n) = numbersFrom id m ++ numbersFrom (id + UInt32.ofNat m) n := by
  unfold numbersFrom
  rw [List.range_add, List.map_append, List.map_map]
  congr 1
  apply List.map_congr_left
  intro i _
  rw [Function.comp_apply, UInt32.ofNat_add, UInt32.add_assoc]

/-- The count comes round after all numbers there are. -/
theorem nodup_numbersFrom (id : TableId) {count : Nat} (h : count ≤ 2 ^ 32) :
    (numbersFrom id count).Nodup := by
  apply List.Nodup.map_on _ List.nodup_range
  intro i hi j hj heq
  have hi : i < UInt32.size := (List.mem_range.mp hi).trans_le h
  have hj : j < UInt32.size := (List.mem_range.mp hj).trans_le h
  have hnat := congrArg UInt32.toNat ((UInt32.add_right_inj id).mp heq)
  rwa [UInt32.toNat_ofNat_of_lt' hi, UInt32.toNat_ofNat_of_lt' hj] at hnat

namespace Catalog

variable {c c₀ c₁ c₂ : Catalog} {d d' : Disk} {id found found' : TableId} {t : TableFile}
  {tried tried' drawn drawn' : List TableId}

theorem mem_tableIds : id ∈ c.tableIds ↔ c.contains id = true := by
  unfold tableIds contains
  rw [Std.TreeMap.mem_keys, Std.TreeMap.contains_iff_mem]

theorem contains_eq_isSome (c : Catalog) (id : TableId) : c.contains id = (c.table? id).isSome :=
  Std.TreeMap.contains_eq_isSome_getElem?

theorem length_tableIds (c : Catalog) : c.tableIds.length = c.tables.size := Std.TreeMap.length_keys

theorem nodup_tableIds (c : Catalog) : c.tableIds.Nodup := Std.TreeMap.nodup_keys

theorem ascending_tableIds (c : Catalog) : c.tableIds.Pairwise (· < ·) :=
  Std.TreeMap.ordered_keys.imp Std.compare_eq_lt.mp

section Search

/-- The search for a free number: the numbers from `id` on are tried one after the other, until one
is free. -/
inductive Search (c : Catalog) :
    (id : TableId) → (tried : List TableId) → (found : TableId) → Prop where
  | free {id : TableId} (h : c.contains id = false) : Search c id [id] id
  | taken {id : TableId} {tried : List TableId} {found : TableId} (h : c.contains id = true)
      (rest : Search c (id + 1) tried found) : Search c id (id :: tried) found

namespace Search

theorem found_free (h : c.Search id tried found) : c.contains found = false := by
  induction h with
  | free h => exact h
  | taken _ _ ih => exact ih

theorem found_mem (h : c.Search id tried found) : found ∈ tried := by
  induction h with
  | free _ => exact List.mem_singleton_self _
  | taken _ _ ih => exact List.mem_cons_of_mem _ ih

theorem unique (h : c.Search id tried found) (h' : c.Search id tried' found') :
    tried = tried' ∧ found = found' := by
  induction h generalizing tried' with
  | free hfree =>
    cases h' with
    | free _ => exact ⟨rfl, rfl⟩
    | taken htaken _ => exact absurd (hfree.symm.trans htaken) Bool.false_ne_true
  | taken htaken _ ih =>
    cases h' with
    | free hfree => exact absurd (hfree.symm.trans htaken) Bool.false_ne_true
    | taken _ rest =>
      obtain ⟨rfl, rfl⟩ := ih rest
      exact ⟨rfl, rfl⟩

theorem tried_eq (h : c.Search id tried found) : tried = numbersFrom id tried.length := by
  induction h with
  | free _ => rw [List.length_singleton, numbersFrom_succ]; rfl
  | taken _ _ ih => rw [List.length_cons, numbersFrom_succ, ← ih]

/-- The number after the one found is the next that was not tried. -/
theorem found_succ (h : c.Search id tried found) : found + 1 = id + UInt32.ofNat tried.length := by
  induction h with
  | free _ => rfl
  | taken _ _ ih => rw [ih, List.length_cons, TableStore.succ_add_ofNat]

end Search

/-- As many numbers as are taken one after the other, so many tables there are. -/
theorem le_size_of_taken {count : Nat} (hcount : count ≤ 2 ^ 32)
    (h : ∀ id' ∈ numbersFrom id count, c.contains id' = true) : count ≤ c.tables.size := by
  -- The numbers differ from each other, so there are no more of them than of registered ones.
  have hsub : numbersFrom id count ⊆ c.tableIds := fun id' hid => mem_tableIds.mpr (h id' hid)
  have hle := ((nodup_numbersFrom id hcount).subperm hsub).length_le
  rwa [length_numbersFrom, length_tableIds] at hle

/-- The search that is cut off after `fuel + 1` numbers finds what the search finds, unless all of
these are taken. -/
theorem search_freeFrom (c : Catalog) (fuel : Nat) (id : TableId) :
    (∃ tried, c.Search id tried (c.freeFrom fuel id) ∧ tried.length ≤ fuel + 1) ∨
      ∀ id' ∈ numbersFrom id (fuel + 1), c.contains id' = true := by
  induction fuel generalizing id with
  | zero =>
    cases hid : c.contains id with
    | false => exact .inl ⟨[id], .free hid, le_rfl⟩
    | true =>
      right
      intro id' hmem
      rw [numbersFrom_succ] at hmem
      rwa [List.mem_singleton.mp hmem]
  | succ fuel ih =>
    rw [freeFrom]
    cases hid : c.contains id with
    | false =>
      left
      refine ⟨[id], ?_, Nat.le_add_left 1 _⟩
      exact .free hid
    | true =>
      simp only [if_true]
      rcases ih (id + 1) with ⟨tried, hsearch, hlength⟩ | htaken
      · left
        refine ⟨id :: tried, .taken hid hsearch, ?_⟩
        rw [List.length_cons]
        omega
      · right
        intro id' hmem
        rw [numbersFrom_succ] at hmem
        rcases List.mem_cons.mp hmem with rfl | hrest
        · exact hid
        · exact htaken id' hrest

/-- Where there are fewer tables than numbers the search comes to an end: of one more numbers than
there are tables, one is free. -/
theorem search_nextId (h : c.tables.size < 2 ^ 32) :
    ∃ tried, c.Search c.counter tried c.nextId ∧ tried.length ≤ c.tables.size + 1 := by
  rcases c.search_freeFrom c.tables.size c.counter with hsearch | htaken
  · exact hsearch
  · have hle := le_size_of_taken (Nat.succ_le_of_lt h) htaken
    omega

/-- The next number is a free one. -/
theorem table?_nextId (h : c.tables.size < 2 ^ 32) : c.table? c.nextId = none := by
  obtain ⟨tried, hsearch, -⟩ := search_nextId h
  have hfree := hsearch.found_free
  rw [contains_eq_isSome, Option.isSome_eq_false_iff] at hfree
  exact Option.isNone_iff_eq_none.mp hfree

end Search

section Requests

/-- A request to register a table: under the next free number, or under one of the caller's. -/
inductive Call where
  | add (path : Path) (schema : Schema)
  | addWithId (path : Path) (id : TableId) (schema : Schema)

namespace Call

def run : Call → Registration TableFile
  | .add path schema => Catalog.add path schema
  | .addWithId path id schema => Catalog.addWithId path id schema

def path : Call → Path
  | .add path _ => path
  | .addWithId path _ _ => path

def schema : Call → Schema
  | .add _ schema => schema
  | .addWithId _ _ schema => schema

/-- The number for the table that a call registers. -/
def number (c : Catalog) : Call → TableId
  | .add _ _ => c.nextId
  | .addWithId _ id _ => id

/-- Whether a table has the number that a call brings along. -/
def refused (c : Catalog) : Call → Bool
  | .add _ _ => false
  | .addWithId _ id _ => c.contains id

/-- The number to try first after a call. -/
def counter (c : Catalog) : Call → TableId
  | .add _ _ => c.nextId + 1
  | .addWithId _ _ _ => c.counter

end Call

/-- A call that is not refused comes to what opening its file comes to. Only the counter is moved
on even if that fails. -/
theorem Call.run_eq (a : Call) (c : Catalog) (d : Disk) :
    a.run.outcome (c, d) =
      if a.refused c then
        (.error (.error (.duplicateTable (a.number c))), ({ c with counter := a.counter c }, d))
      else
        match TableFile.openAt a.path (a.number c) a.schema c.pageSize d with
        | .ok (t, d') => (.ok t,
            ({ c with tables := c.tables.insert (a.number c) t, counter := a.counter c }, d'))
        | .error e => (.error (e.map .file), ({ c with counter := a.counter c }, d)) := by
  cases a with
  | add path schema =>
    have hrun := add_eq_register path schema c d
    rw [register_eq] at hrun
    exact hrun
  | addWithId path id schema =>
    have hrun := addWithId_eq_register path id schema c d
    rw [register_eq] at hrun
    exact hrun

/-- What comes of a call: it fails, and no more is changed than the number to try next, or it adds
the table that it answers with. A call with a number of its own does so only if no table has it. -/
theorem Call.run_cases (a : Call) (c : Catalog) (d : Disk) :
    (∃ e, a.run.outcome (c, d) = (.error e, ({ c with counter := a.counter c }, d))) ∨
    ∃ t d', t.Opened (a.number c) c.pageSize ∧
      (c.contains (a.number c) = true → a.number c = c.nextId) ∧ a.run.outcome (c, d) = (.ok t,
        ({ c with tables := c.tables.insert (a.number c) t, counter := a.counter c }, d')) := by
  rw [a.run_eq]
  cases hrefused : a.refused c with
  | true => exact .inl ⟨_, rfl⟩
  | false =>
    have hnumber : c.contains (a.number c) = true → a.number c = c.nextId := by
      intro htaken
      cases a with
      | add path schema => rfl
      | addWithId path id schema => exact absurd (hrefused.symm.trans htaken) Bool.false_ne_true
    rw [if_neg Bool.false_ne_true]
    cases hopen : TableFile.openAt a.path (a.number c) a.schema c.pageSize d with
    | error e => exact .inl ⟨_, rfl⟩
    | ok opened =>
      obtain ⟨t, d'⟩ := opened
      exact .inr ⟨t, d', TableFile.opened_of_openAt hopen, hnumber, rfl⟩

/-- A call leaves the page size, and takes away no table. -/
theorem Call.run_keeps (a : Call) (c : Catalog) (d : Disk) :
    (a.run.outcome (c, d)).2.1.pageSize = c.pageSize ∧
      (a.run.outcome (c, d)).2.1.counter = a.counter c ∧
        c.tables.size ≤ (a.run.outcome (c, d)).2.1.tables.size := by
  rcases a.run_cases c d with ⟨e, hout⟩ | ⟨t, d', -, -, hout⟩
  · rw [hout]
    exact ⟨rfl, rfl, le_rfl⟩
  · rw [hout]
    exact ⟨rfl, rfl, Std.TreeMap.size_le_size_insert⟩

/-- Registering under a number of the caller's is refused as a duplicate just if a table has it. -/
theorem duplicate_iff (path : Path) (id : TableId) (schema : Schema) (c : Catalog) (d : Disk) :
    ((addWithId path id schema).outcome (c, d)).1 = .error (.error (.duplicateTable id)) ↔
      c.contains id = true := by
  rw [addWithId_eq_register, register_eq]
  split
  · next hid => exact iff_of_true rfl hid
  · next hid =>
    refine iff_of_false ?_ hid
    cases TableFile.openAt path id schema c.pageSize d with
    | error e => cases e <;> nofun
    | ok opened => nofun

/-- One table more than before: it is registered under a number that was free. -/
structure Adds (c c' : Catalog) (id : TableId) (t : TableFile) : Prop where
  absent : c.table? id = none
  opened : t.Opened id c.pageSize
  entry : ∀ k, c'.table? k = if k = id then some t else c.table? k
  tableIds : c'.tableIds.Perm (id :: c.tableIds)

theorem adds_insert (hid : c.table? id = none) (ht : t.Opened id c.pageSize) (n : TableId) :
    Adds c { c with tables := c.tables.insert id t, counter := n } id t where
  absent := hid
  opened := ht
  entry := getElem?_insert c.tables id t
  tableIds := by
    have hnew : id ∉ c.tableIds := by
      rw [mem_tableIds, contains_eq_isSome, hid]
      exact Bool.false_ne_true
    have hnodup := List.nodup_cons.mpr ⟨hnew, nodup_tableIds c⟩
    rw [List.perm_ext_iff_of_nodup (nodup_tableIds _) hnodup]
    intro k
    rw [List.mem_cons, mem_tableIds, mem_tableIds, contains_eq_isSome, contains_eq_isSome]
    unfold table?
    rw [getElem?_insert]
    by_cases hk : k = id
    · simp [hk]
    · simp [hk]

/-- A catalog over which a sequence of calls was run, with all the numbers that these tried. -/
inductive Draws : Catalog → List TableId → Catalog → Prop where
  | refl (c : Catalog) : Draws c [] c
  | add {c c₁ : Catalog} {drawn tried : List TableId} (h : Draws c drawn c₁)
      (hs : c₁.Search c₁.counter tried c₁.nextId) (path : Path) (schema : Schema) (d : Disk) :
      Draws c (drawn ++ tried) ((Catalog.add path schema).outcome (c₁, d)).2.1
  | addWithId {c c₁ : Catalog} {drawn : List TableId} (h : Draws c drawn c₁) (path : Path)
      (id : TableId) (schema : Schema) (d : Disk) :
      Draws c drawn ((Catalog.addWithId path id schema).outcome (c₁, d)).2.1

/-- Numbers are tried in their order and none is left out. -/
theorem Draws.numbered (h : Draws c drawn c₁) :
    drawn = numbersFrom c.counter drawn.length ∧
      c₁.counter = c.counter + UInt32.ofNat drawn.length := by
  induction h with
  | refl => exact ⟨rfl, (UInt32.add_zero _).symm⟩
  | @add c₁ drawn tried _ hs path schema d ih =>
    obtain ⟨hdrawn, hcounter⟩ := ih
    have hnext := ((Call.add path schema).run_keeps c₁ d).2.1
    rw [List.length_append]
    constructor
    · rw [numbersFrom_add, ← hdrawn, ← hcounter, ← hs.tried_eq]
    · rw [UInt32.ofNat_add, ← UInt32.add_assoc, ← hcounter, ← hs.found_succ]
      exact hnext
  | @addWithId c₁ drawn _ path id schema d ih =>
    have hnext := ((Call.addWithId path id schema).run_keeps c₁ d).2.1
    exact ⟨ih.1, hnext.trans ih.2⟩

/-- Of as many numbers as there are no number is tried twice. -/
theorem Draws.nodup (h : Draws c drawn c₁) (hcount : drawn.length ≤ 2 ^ 32) : drawn.Nodup := by
  rw [h.numbered.1]
  exact nodup_numbersFrom _ hcount

theorem Draws.trans (h : Draws c drawn c₁) (h' : Draws c₁ drawn' c₂) :
    Draws c (drawn ++ drawn') c₂ := by
  induction h' with
  | refl =>
    rw [List.append_nil]
    exact h
  | add _ hs path schema d ih =>
    rw [← List.append_assoc]
    exact ih.add hs path schema d
  | addWithId _ path id schema d ih => exact ih.addWithId path id schema d

/-- Each catalog that comes about was made without tables, and then calls were run over it. -/
theorem Built.draws (h : c.Built) (hsize : c.tables.size < 2 ^ 32) :
    ∃ drawn, Draws { pageSize := c.pageSize } drawn c := by
  induction h with
  | empty pageSize => exact ⟨[], .refl _⟩
  | @add c _ path schema d ih =>
    obtain ⟨hpage, -, hle⟩ := (Call.add path schema).run_keeps c d
    have hbefore : c.tables.size < 2 ^ 32 := hle.trans_lt hsize
    obtain ⟨drawn, hdraws⟩ := ih hbefore
    obtain ⟨tried, hsearch, -⟩ := search_nextId hbefore
    rw [← hpage] at hdraws
    exact ⟨drawn ++ tried, hdraws.add hsearch path schema d⟩
  | @addWithId c _ path id schema d ih =>
    obtain ⟨hpage, -, hle⟩ := (Call.addWithId path id schema).run_keeps c d
    obtain ⟨drawn, hdraws⟩ := ih (hle.trans_lt hsize)
    rw [← hpage] at hdraws
    exact ⟨drawn, hdraws.addWithId path id schema d⟩

/-- How a catalog registers tables. -/
structure Registers (c : Catalog) : Prop where
  searches : ∃ tried, c.Search c.counter tried c.nextId ∧ tried.length ≤ c.tables.size + 1
  fresh : c.table? c.nextId = none
  /-- The next number is used up, and then the file is registered under it. -/
  next : ∀ path schema d, (add path schema).outcome (c, d) =
    (register path c.nextId schema).outcome ({ c with counter := c.nextId + 1 }, d)
  /-- A call fails only if a table has the number that it brings along, or as opening its file
  does. -/
  calls : ∀ (a : Call) d, a.run.outcome (c, d) =
    if a.refused c then
      (.error (.error (.duplicateTable (a.number c))), ({ c with counter := a.counter c }, d))
    else
      match TableFile.openAt a.path (a.number c) a.schema c.pageSize d with
      | .ok (t, d') => (.ok t,
          ({ c with tables := c.tables.insert (a.number c) t, counter := a.counter c }, d'))
      | .error e => (.error (e.map .file), ({ c with counter := a.counter c }, d))
  duplicate : ∀ path id schema d,
    ((addWithId path id schema).outcome (c, d)).1 = .error (.error (.duplicateTable id)) ↔
      (c.table? id).isSome = true
  added : ∀ (a : Call) d t c' d', a.run.outcome (c, d) = (.ok t, (c', d')) →
    Adds c c' (a.number c) t
  failed : ∀ (a : Call) d e c' d', a.run.outcome (c, d) = (.error e, (c', d')) →
    c'.tables = c.tables ∧ c'.tableIds = c.tableIds ∧ d' = d
  /-- Since the catalog was made, the numbers 1, 2, 3, … were tried. -/
  drawn : ∃ drawn, Draws { pageSize := c.pageSize } drawn c ∧
    drawn = numbersFrom 1 drawn.length ∧ c.counter = 1 + UInt32.ofNat drawn.length
  /-- A later search does not answer with a number that was tried, unless all numbers there are
  were tried between. -/
  once : ∀ tried, c.Search c.counter tried c.nextId → ∀ path schema d drawn c',
    Draws ((add path schema).outcome (c, d)).2.1 drawn c' → ∀ tried',
      c'.Search c'.counter tried' c'.nextId → tried.length + drawn.length + tried'.length ≤ 2 ^ 32 →
        ∀ path' schema' d' t, ((add path' schema').outcome (c', d')).1 = .ok t → t.id ∉ tried
  ascending : c.tableIds.Pairwise (· < ·)

theorem id_of_add {path : Path} {schema : Schema}
    (h : ((add path schema).outcome (c, d)).1 = .ok t) : t.id = c.nextId := by
  rcases (Call.add path schema).run_cases c d with ⟨e, hout⟩ | ⟨t', d', ht, -, hout⟩
  · rw [Call.run] at hout
    rw [hout] at h
    contradiction
  · rw [Call.run] at hout
    rw [hout] at h
    rw [← Except.ok.inj h]
    exact ht.id_eq

/-- Whatever tables were registered before, and whichever attempts failed: as long as there are
fewer tables than numbers, the next table gets a fresh number, a number that a table has is refused,
one table at most comes in, all others stay, and what fails changes neither tables nor files. -/
theorem Built.registers (h : c.Built) (hsize : c.tables.size < 2 ^ 32) : c.Registers where
  searches := search_nextId hsize
  fresh := table?_nextId hsize
  next path schema d := add_eq_register path schema c d
  calls a d := a.run_eq c d
  duplicate := by
    intro path id schema d
    rw [duplicate_iff, contains_eq_isSome]
  added := by
    intro a d t c' d' hrun
    rcases a.run_cases c d with ⟨e, hout⟩ | ⟨t', d'', ht, hnumber, hout⟩
    · cases hout.symm.trans hrun
    · cases hout.symm.trans hrun
      have hfree : c.table? (a.number c) = none := by
        by_contra htaken
        have hcontains : c.contains (a.number c) = true := by
          rw [contains_eq_isSome]
          exact Option.isSome_iff_ne_none.mpr htaken
        rw [hnumber hcontains] at htaken
        exact htaken (table?_nextId hsize)
      exact adds_insert hfree ht _
  failed := by
    intro a d e c' d' hrun
    rcases a.run_cases c d with ⟨e', hout⟩ | ⟨t, d'', -, -, hout⟩
    · cases hout.symm.trans hrun
      exact ⟨rfl, rfl, rfl⟩
    · cases hout.symm.trans hrun
  drawn := by
    obtain ⟨drawn, hdraws⟩ := h.draws hsize
    exact ⟨drawn, hdraws, hdraws.numbered.1, hdraws.numbered.2⟩
  once := by
    intro tried hs path schema d drawn c' hdraws tried' hs' hcount path' schema' d' t hadd
    -- Both searches and all between them are one run, which tried no number twice.
    have hall := ((Draws.add (.refl c) hs path schema d).trans hdraws).add hs' path' schema' d'
    rw [List.nil_append] at hall
    have hnodup : (tried ++ drawn ++ tried').Nodup := by
      apply hall.nodup
      rwa [List.length_append, List.length_append]
    rw [id_of_add hadd]
    intro hmem
    have hbefore : c'.nextId ∈ tried ++ drawn := List.mem_append_left _ hmem
    exact (List.nodup_append.mp hnodup).2.2 _ hbefore _ hs'.found_mem rfl
  ascending := ascending_tableIds c

/-- Two tables with numbers of the caller's, 1 and 2, which the search for the next number meets.
The number it finds is used up by a table whose rows are too wide, and the one after it goes to a
table that can be opened. -/
theorem Built.registers_between : ∃ c c₁ c₂ : Catalog, c.Built ∧ c.tableIds = [1, 2] ∧
    c.counter = 1 ∧ c.Registers ∧ c.Search c.counter [1, 2, 3] c.nextId ∧
    (Catalog.add ⟨"c"⟩ ⟨[⟨"s", .text 9⟩]⟩).outcome (c, {}) =
      (.error (.error (.file (.unusablePageSize 9 13))), (c₁, {})) ∧
    c₁.tableIds = [1, 2] ∧ c₁.counter = 4 ∧ c₁.Registers ∧ c₁.Search c₁.counter [4] c₁.nextId ∧
    (∃ t d, (Catalog.add ⟨"d"⟩ ⟨[⟨"n", .integer⟩]⟩).outcome (c₁, {}) = (.ok t, (c₂, d)) ∧
      t.id = 4) ∧
    c₂.tableIds = [1, 2, 4] ∧ c₂.counter = 5 ∧ c₂.Registers := by
  have hbuilt := ((Built.empty 9).addWithId ⟨"b"⟩ 2 ⟨[⟨"n", .integer⟩]⟩ {}).addWithId ⟨"a"⟩ 1
    ⟨[⟨"n", .integer⟩]⟩ {}
  have hfailed := hbuilt.add ⟨"c"⟩ ⟨[⟨"s", .text 9⟩]⟩ {}
  have hadded := hfailed.add ⟨"d"⟩ ⟨[⟨"n", .integer⟩]⟩ {}
  refine ⟨_, _, _, hbuilt, rfl, rfl, hbuilt.registers (by decide), ?_, rfl, rfl, rfl,
    hfailed.registers (by decide), .free rfl, ⟨_, _, rfl, rfl⟩, rfl, rfl,
    hadded.registers (by decide)⟩
  exact .taken rfl (.taken rfl (.free rfl))

end Requests

end Catalog
end RowStore
