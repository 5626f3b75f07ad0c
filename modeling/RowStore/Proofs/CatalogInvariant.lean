import RowStore.Catalog
import RowStore.Proofs.PageInvariant

/-! What holds of the tables of a catalog, however they came into it, and what a pool over them
relies on. -/
namespace RowStore

instance : Std.TransOrd PageId :=
  inferInstanceAs (Std.TransCmp (compareLex (compareOn PageId.table) (compareOn PageId.page)))

instance : Std.LawfulEqOrd PageId where
  eq_of_compare {a b} h := by
    obtain ⟨table, page⟩ := a
    have h : compareLex (compareOn PageId.table) (compareOn PageId.page) ⟨table, page⟩ b = .eq := h
    simp only [compareLex, compareOn, Ordering.then_eq_eq, Std.compare_eq_iff_eq] at h
    obtain ⟨rfl, rfl⟩ := h
    rfl

/-- A table as its file is opened: it is not the top directory, and one row fits a page. -/
structure TableFile.Opened (t : TableFile) (id : TableId) (pageSize : Nat) : Prop where
  id_eq : t.id = id
  pageSize_eq : t.pageSize = pageSize
  location_ne : t.location ≠ []
  room : ∃ l, Layout.make t.pageSize t.schema.width = .ok l ∧ 0 < l.slotCount

theorem TableFile.Opened.size_pos {t : TableFile} {id : TableId} {pageSize : Nat}
    (h : t.Opened id pageSize) : 0 < t.pageSize := by
  obtain ⟨l, hl, hslots⟩ := h.room
  obtain ⟨-, -, rfl⟩ := Layout.make_eq_ok.mp hl
  by_contra hzero
  simp [Nat.eq_zero_of_not_pos hzero] at hslots

theorem Disk.openFile_ne_nil {d d' : Disk} {p : Path} {l : Location}
    (h : d.openFile p = .ok (l, d')) : l ≠ [] := by
  obtain ⟨dir, -, h⟩ := bind_eq_ok.mp h
  split at h
  · contradiction
  · next last _ =>
    split at h
    · contradiction
    · next hlast =>
      obtain ⟨l', hl', h⟩ := bind_eq_ok.mp h
      have hne : l' ≠ [] := by
        unfold child at hl'
        split at hl'
        · next hdot => exact absurd (.inl hdot) hlast
        · split at hl'
          · next hup => exact absurd (.inr (.inl hup)) hlast
          · split at hl'
            · contradiction
            · rw [← Except.ok.inj hl']
              simp
      split at h
      · contradiction
      · rwa [← (Prod.mk.inj (Except.ok.inj h)).1]
      · rwa [← (Prod.mk.inj (Except.ok.inj h)).1]

theorem TableFile.opened_of_openAt {path : Path} {id : TableId} {schema : Schema} {pageSize : Nat}
    {d d' : Disk} {t : TableFile} (h : openAt path id schema pageSize d = .ok (t, d')) :
    t.Opened id pageSize := by
  obtain ⟨l, hl, h⟩ := bind_eq_ok.mp h
  split at h
  · contradiction
  · next hslots =>
    obtain ⟨⟨location, d''⟩, hopen, h⟩ := bind_eq_ok.mp h
    obtain ⟨rfl, -⟩ := Prod.mk.inj (Except.ok.inj h)
    exact ⟨rfl, rfl, Disk.openFile_ne_nil (mapError_eq_ok.mp hopen),
      l, orFault_eq_ok.mp hl, Nat.pos_of_ne_zero hslots⟩

/-- A table with a column of integers, whose pages have room for one row. -/
def TableFile.numbers : TableFile := ⟨1, ⟨"a"⟩, ["a"], ⟨[⟨"n", .integer⟩]⟩, 9⟩

namespace Catalog

/-- A catalog as registration makes it: every table was opened under its number. -/
def Registered (c : Catalog) : Prop := ∀ k t, c.table? k = some t → t.Opened k c.pageSize

variable {c : Catalog} {d : Disk} {path : Path} {schema : Schema}

theorem registered_empty (pageSize : Nat) : ({ pageSize } : Catalog).Registered := by
  intro k t h
  simp [table?] at h

theorem getElem?_insert (tables : Std.TreeMap TableId TableFile) (id : TableId) (t : TableFile)
    (k : TableId) : (tables.insert id t)[k]? = if k = id then some t else tables[k]? := by
  rw [Std.TreeMap.getElem?_insert]
  by_cases hk : k = id
  · rw [if_pos hk, if_pos (Std.compare_eq_iff_eq.mpr hk.symm)]
  · rw [if_neg hk, if_neg fun heq => hk (Std.compare_eq_iff_eq.mp heq).symm]

/-- Registering opens the file and puts the table under its number; if the file is not opened,
nothing is changed. -/
theorem register_eq (path : Path) (id : TableId) (schema : Schema) (c : Catalog) (d : Disk) :
    (register path id schema).outcome (c, d) =
      match TableFile.openAt path id schema c.pageSize d with
      | .ok (t, d') => (.ok t, ({ c with tables := c.tables.insert id t }, d'))
      | .error e => (.error (e.map .file), (c, d)) := by
  unfold register
  simp only [Action.outcome_bind, Action.outcome_get, Action.outcome_lift]
  cases TableFile.openAt path id schema c.pageSize d with
  | error e => rfl
  | ok opened => rfl

theorem register_cases (path : Path) (id : TableId) (schema : Schema) (c : Catalog) (d : Disk) :
    (∃ e : Failure FileError,
      (register path id schema).outcome (c, d) = (.error (e.map .file), (c, d))) ∨
    ∃ t d', t.Opened id c.pageSize ∧ (register path id schema).outcome (c, d) =
      (.ok t, ({ c with tables := c.tables.insert id t }, d')) := by
  rw [register_eq]
  cases hopen : TableFile.openAt path id schema c.pageSize d with
  | error e =>
    left
    exact ⟨e, rfl⟩
  | ok opened =>
    right
    obtain ⟨t, d'⟩ := opened
    exact ⟨t, d', TableFile.opened_of_openAt hopen, rfl⟩

theorem add_eq_register (path : Path) (schema : Schema) (c : Catalog) (d : Disk) :
    (add path schema).outcome (c, d) =
      (register path c.nextId schema).outcome ({ c with counter := c.nextId + 1 }, d) := by
  unfold add
  simp only [Action.outcome_bind, Action.outcome_get, Action.outcome_set]

theorem addWithId_eq_register (path : Path) (id : TableId) (schema : Schema) (c : Catalog)
    (d : Disk) : (addWithId path id schema).outcome (c, d) =
      if c.contains id then (.error (.error (.duplicateTable id)), (c, d))
      else (register path id schema).outcome (c, d) := by
  unfold addWithId
  simp only [Action.outcome_bind, Action.outcome_get]
  split <;> rfl

theorem Registered.insert (h : c.Registered) {id : TableId} {t : TableFile}
    (ht : t.Opened id c.pageSize) :
    ({ c with tables := c.tables.insert id t } : Catalog).Registered := by
  intro k t' hk
  rw [table?, getElem?_insert] at hk
  split at hk
  · next hid =>
    subst hid
    exact Option.some.inj hk ▸ ht
  · exact h k t' hk

theorem Registered.register (h : c.Registered) (id : TableId) :
    ((register path id schema).outcome (c, d)).2.1.Registered := by
  rcases register_cases path id schema c d with ⟨e, hout⟩ | ⟨t, d', ht, hout⟩
  · rwa [hout]
  · rw [hout]
    exact h.insert ht

theorem Registered.add (h : c.Registered) :
    ((add path schema).outcome (c, d)).2.1.Registered := by
  rw [add_eq_register]
  exact Registered.register (c := { c with counter := c.nextId + 1 }) h c.nextId

theorem Registered.addWithId (h : c.Registered) (id : TableId) :
    ((addWithId path id schema).outcome (c, d)).2.1.Registered := by
  rw [addWithId_eq_register]
  split
  · exact h
  · exact h.register id

/-- A catalog whose tables have a file each for themselves. -/
structure Separate (c : Catalog) : Prop where
  registered : c.Registered
  distinct : ∀ k k' t t', c.table? k = some t → c.table? k' = some t' →
    t.location = t'.location → k = k'

/-- A catalog whose tables have a file each for themselves, and pages with slots that 32 bits can
count. -/
structure Apart (c : Catalog) : Prop extends Separate c where
  slotCount_le : ∀ k t l, c.table? k = some t →
    Layout.make t.pageSize t.schema.width = .ok l → l.slotCount ≤ 2 ^ 32

instance : Coe c.Apart c.Separate := ⟨Apart.toSeparate⟩

/-- A catalog whose tables have a file each for themselves, and pages of a size and with slots that
32 bits can count. -/
structure Backed (c : Catalog) : Prop extends Apart c where
  pageSize_lt : c.pageSize < 2 ^ 32

instance : Coe c.Backed c.Apart := ⟨Backed.toApart⟩

/-- Two tables with a column of integers each, whose pages have room for one row. -/
def pair : Catalog where
  pageSize := 9
  tables := ((∅ : Std.TreeMap TableId TableFile).insert 1 .numbers).insert 2
    ⟨2, ⟨"b"⟩, ["b"], TableFile.numbers.schema, 9⟩

theorem table?_numbers : pair.table? TableFile.numbers.id = some .numbers := rfl

theorem table?_pair {k : TableId} {t : TableFile} (h : pair.table? k = some t) :
    k = 1 ∧ t = .numbers ∨ k = 2 ∧ t = ⟨2, ⟨"b"⟩, ["b"], TableFile.numbers.schema, 9⟩ := by
  simp only [table?, pair, getElem?_insert, Std.TreeMap.getElem?_emptyc] at h
  split at h
  · next hk => exact .inr ⟨hk, (Option.some.inj h).symm⟩
  · split at h
    · next hk => exact .inl ⟨hk, (Option.some.inj h).symm⟩
    · contradiction

theorem backed_pair : pair.Backed := by
  refine ⟨⟨⟨?_, ?_⟩, ?_⟩, by decide⟩
  · intro k t ht
    rcases table?_pair ht with ⟨rfl, rfl⟩ | ⟨rfl, rfl⟩
    · exact ⟨rfl, rfl, by decide, _, rfl, by decide⟩
    · exact ⟨rfl, rfl, by decide, _, rfl, by decide⟩
  · intro k k' t t' ht ht' hloc
    rcases table?_pair ht with ⟨rfl, rfl⟩ | ⟨rfl, rfl⟩ <;>
      rcases table?_pair ht' with ⟨rfl, rfl⟩ | ⟨rfl, rfl⟩ <;> simp_all [TableFile.numbers]
  · intro k t l ht hl
    rcases table?_pair ht with ⟨rfl, rfl⟩ | ⟨rfl, rfl⟩ <;>
      (obtain ⟨-, -, rfl⟩ := Layout.make_eq_ok.mp hl; decide)

end Catalog

theorem TableFile.opened_numbers : TableFile.numbers.Opened 1 9 :=
  Catalog.backed_pair.registered 1 .numbers Catalog.table?_numbers

end RowStore
