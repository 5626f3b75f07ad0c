import RowStore.Proofs.FlushDurability
import RowStore.Proofs.Sheet

/-! What a table store does to the sheet that its pages show: a row goes to the first free place, a
row that is deleted frees its place, and a scan gives the rows in order. -/
namespace RowStore

theorem ceilDiv_mul {n size : Nat} (hpos : 0 < size) : ceilDiv (n * size) size = n := by
  rw [ceilDiv, Nat.mul_comm, Nat.mul_add_div hpos, Nat.div_eq_of_lt (by omega), Nat.add_zero]

/-- All pages of a table can be read, and hold what a sheet says. -/
structure Sheet.Shown (tables : Catalog) (t : TableFile) (s : Sheet) (st : TableStore) : Prop where
  length : st.length t.id = s.pageCount * t.pageSize
  pages : ∀ number : UInt32, number.toNat < s.pageCount →
    ∃ p, st.contents tables ⟨t.id, number⟩ = some (.ok p)
  rows : ∀ x : Place, ((st.contents tables).row? (x.inTable t.id)).map Row.values = s.values? x

namespace Sheet.Shown

variable {tables : Catalog} {t : TableFile} {s : Sheet} {st : TableStore} {l : Layout}
  {number : UInt32} {x : Place} {r : Row} {p : Page}

section Reading
variable (hb : tables.Apart) (ht : tables.table? t.id = some t)

include hb ht in
theorem pagesIn_eq (h : s.Shown tables t st) (hpages : s.pageCount < 2 ^ 32) :
    (t.pagesIn (st.length t.id)).toNat = s.pageCount := by
  rw [TableFile.pagesIn, h.length, ceilDiv_mul (hb.size_pos ht), UInt32.toNat_ofNat_of_lt' hpages]

variable (hs : st.Sized tables) (hfits : st.Fits tables)
  (hl : Layout.make t.pageSize t.schema.width = .ok l)
include ht hs hfits hl

/-- A page is read with the rows of the sheet. -/
theorem read (h : s.Shown tables t st) (hnumber : number.toNat < s.pageCount) :
    ∃ p, st.read t ⟨t.id, number⟩ = .ok p ∧ p.Belongs ⟨t.id, number⟩ t.schema t.pageSize ∧
      p.layout = l ∧
        ∀ slot : UInt32, (p.row? slot.toNat).map Row.values = s.values? ⟨number, slot⟩ := by
  have ht' : tables.table? (PageId.mk t.id number).table = some t := ht
  obtain ⟨p, hpage⟩ := h.pages number hnumber
  obtain ⟨hp, -⟩ := TableStore.belongs_of_contents ht' hs hpage
  have hlayout := hp.sound.layout
  rw [hp.size_eq, hp.schema_eq] at hlayout
  refine ⟨p, TableStore.read_of_contents ht' rfl hfits hpage, hp,
    Except.ok.inj (hlayout.symm.trans hl), fun slot => ?_⟩
  rw [← h.rows, Place.inTable, Contents.row?_of_page hpage]

variable (hslots : l.slotCount ≤ 2 ^ 32)
include hslots

/-- The first free slot of a page is the first free place of the sheet there. -/
theorem firstFree?_eq (h : s.Shown tables t st) (hread : st.read t ⟨t.id, number⟩ = .ok p)
    (hnumber : number.toNat < s.pageCount) :
    ((List.range l.slotCount).map fun i => Place.mk number (UInt32.ofNat i)).find?
        (fun x => (s.values? x).isNone) =
      p.firstFree?.map fun slot => ⟨number, UInt32.ofNat slot⟩ := by
  obtain ⟨p', hread', hp, rfl, hrows⟩ := h.read ht hs hfits hl hnumber
  obtain rfl := Except.ok.inj (hread.symm.trans hread')
  rw [List.find?_map, Page.firstFree?]
  congr 1
  apply List.find?_congr
  intro slot hmem
  have hslot := (List.mem_range.mp hmem).trans_le hslots
  have hrow := hrows (UInt32.ofNat slot)
  rw [UInt32.toNat_ofNat_of_lt' hslot] at hrow
  rw [Function.comp_apply, ← hrow, hp.sound.isUsed_eq]
  cases p.row? slot <;> rfl

/-- The search for a free slot finds the first free place of the sheet. -/
theorem search (h : s.Shown tables t st) (count : Nat) (number : UInt32)
    (hcount : number.toNat + count ≤ s.pageCount) (hpages : s.pageCount < 2 ^ 32) :
    match (Place.onPages l.slotCount count number).find? fun x => (s.values? x).isNone with
    | none => st.firstWithRoom t count number = .ok none
    | some x => ∃ p slot, st.firstWithRoom t count number = .ok (some p) ∧
        st.read t ⟨t.id, x.page⟩ = .ok p ∧ p.firstFree? = some slot ∧ x.slot = UInt32.ofNat slot := by
  induction count generalizing number with
  | zero => rfl
  | succ count ih =>
    have hnumber : number.toNat < s.pageCount := by omega
    obtain ⟨p, hread, -⟩ := h.read ht hs hfits hl hnumber
    rw [Place.onPages, List.find?_append, h.firstFree?_eq ht hs hfits hl hslots hread hnumber]
    unfold TableStore.firstWithRoom
    simp only [hread, ok_bind]
    rcases Option.eq_none_or_eq_some p.firstFree? with hfirst | ⟨slot, hfirst⟩
    · have hfull : ¬ p.hasFree := by simp [Page.hasFree, hfirst]
      rw [hfirst, if_neg hfull]
      cases count with
      | zero => rfl
      | succ count =>
        have hnext : (number + 1).toNat = number.toNat + 1 := TableStore.toNat_succ (by omega)
        exact ih (number + 1) (by omega)
    · have hfree : p.hasFree := by simp [Page.hasFree, hfirst]
      rw [hfirst, if_pos hfree]
      exact ⟨p, slot, rfl, hread, hfirst, rfl⟩

/-- A scan gives the rows of the sheet. -/
theorem rowsFrom (h : s.Shown tables t st) (count : Nat) (number : UInt32)
    (hcount : number.toNat + count ≤ s.pageCount) (hpages : s.pageCount < 2 ^ 32) :
    st.rowsFrom t count number = ((Place.onPages l.slotCount count number).filterMap fun x =>
      (s.values? x).map fun values => ⟨values, some (x.inTable t.id)⟩, .ok ()) := by
  induction count generalizing number with
  | zero => rfl
  | succ count ih =>
    obtain ⟨p, hread, hp, rfl, hrows⟩ := h.read ht hs hfits hl
      (show number.toNat < s.pageCount by omega)
    have hpage : p.rows = ((List.range p.layout.slotCount).map fun i =>
        Place.mk number (UInt32.ofNat i)).filterMap fun x =>
          (s.values? x).map fun values => ⟨values, some (x.inTable t.id)⟩ := by
      rw [hp.sound.rows_eq, List.filterMap_map]
      apply List.filterMap_congr
      intro slot hmem
      have hslot := (List.mem_range.mp hmem).trans_le hslots
      have hrow := hrows (UInt32.ofNat slot)
      rw [UInt32.toNat_ofNat_of_lt' hslot] at hrow
      rw [Function.comp_apply, ← hrow]
      cases hstored : p.row? slot with
      | none => rfl
      | some r =>
        obtain ⟨-, hrid⟩ := hp.sound.stored slot r hstored
        rw [Page.recordId, hp.id_eq] at hrid
        show some r = some ⟨r.values, some _⟩
        rw [Place.inTable, ← hrid]
    unfold TableStore.rowsFrom
    rw [hread, Place.onPages, List.filterMap_append, ← hpage]
    cases count with
    | zero => rfl
    | succ count =>
      have hnext : (number + 1).toNat = number.toNat + 1 := TableStore.toNat_succ (by omega)
      rw [ih (number + 1) (by omega)]

end Reading

theorem inTable_inj {k : TableId} {x y : Place} : x.inTable k = y.inTable k ↔ x = y := by
  obtain ⟨page, slot⟩ := x
  obtain ⟨page', slot'⟩ := y
  simp [Place.inTable]

/-- With the row at one record id the values in one place change. -/
theorem values_of_rows {c c' : Contents} {k : TableId} {row : Option Row}
    (h : ∀ y : Place, (c.row? (y.inTable k)).map Row.values = s.values? y)
    (hrows : ∀ rid, c'.row? rid = if rid = x.inTable k then row else c.row? rid) (y : Place) :
    (c'.row? (y.inTable k)).map Row.values =
      Function.update s.values? x (row.map Row.values) y := by
  simp only [hrows, inTable_inj, Function.update_apply]
  split
  · rfl
  · exact h y

/-- With one page, which may be a new one, the values in one place of it change. -/
theorem change {st' : TableStore} {row : Option Row} {count : Nat} (h : s.Shown tables t st)
    (hlength : st'.length t.id = count * t.pageSize)
    (hcount : ∀ n < count, n = x.page.toNat ∨ n < s.pageCount)
    (hpage : st'.contents tables (x.inTable t.id).pageId = some (.ok p))
    (hpages : ∀ id, id ≠ (x.inTable t.id).pageId → st'.contents tables id = st.contents tables id)
    (hrows : ∀ rid, (st'.contents tables).row? rid =
      if rid = x.inTable t.id then row else (st.contents tables).row? rid) :
    Sheet.Shown tables t ⟨count, Function.update s.values? x (row.map Row.values)⟩ st' := by
  refine ⟨hlength, fun number hlt => ?_, values_of_rows h.rows hrows⟩
  by_cases hsame : number = x.page
  · exact ⟨p, by rw [hsame]; exact hpage⟩
  · have hold : number.toNat < s.pageCount :=
      (hcount _ hlt).resolve_left fun heq => hsame (UInt32.toNat_inj.mp heq)
    obtain ⟨q, hq⟩ := h.pages number hold
    exact ⟨q, (hpages ⟨t.id, number⟩ fun heq => hsame (congrArg PageId.page heq)).trans hq⟩

section Changing
variable (hb : tables.Apart) (ht : tables.table? t.id = some t) (hs : st.Sized tables)
  (hfits : st.Fits tables) (hl : Layout.make t.pageSize t.schema.width = .ok l)

include hb ht in
/-- Only pages of the file hold values. -/
theorem lt_of_taken (h : s.Shown tables t st) (htaken : (s.values? x).isSome) :
    x.page.toNat < s.pageCount := by
  by_contra hout
  have hbehind : st.length t.id < (x.page.toNat + 1) * t.pageSize := by
    rw [h.length, Nat.succ_mul]
    have hle := Nat.mul_le_mul_right t.pageSize (not_lt.mp hout)
    have hpos := hb.size_pos ht
    omega
  rw [← h.rows] at htaken
  simp [Contents.row?, TableStore.contents, Place.inTable, ht, hbehind] at htaken

include hb ht hs hfits hl

variable (hslots : l.slotCount ≤ 2 ^ 32)
include hslots

/-- The place that a row gets is the first free one, or it is on a new page. -/
theorem stored_home (h : s.Shown tables t st) (hroom : 0 < l.slotCount)
    (hconf : t.schema.conforms r.values)
    (hpages : (s.put (s.home l.slotCount) r.values).pageCount < 2 ^ 32)
    (hend : (s.put (s.home l.slotCount) r.values).pageCount * t.pageSize ≤ File.maxOffset) :
    ∃ q st', st.insert t r = (.ok (r.stamped ((s.home l.slotCount).inTable t.id), q), st') ∧
      st'.length t.id = (s.put (s.home l.slotCount) r.values).pageCount * t.pageSize := by
  have hpages₀ : s.pageCount < 2 ^ 32 := (le_max_left _ _).trans_lt hpages
  have hcount := h.pagesIn_eq hb ht hpages₀
  have hsearch := h.search ht hs hfits hl hslots s.pageCount 0 (by simp) hpages₀
  have hhome : s.home l.slotCount = ((Place.all s.pageCount l.slotCount).find? fun x =>
      (s.values? x).isNone).getD ⟨UInt32.ofNat s.pageCount, 0⟩ := rfl
  rw [← Place.all_eq] at hsearch
  unfold TableStore.insert TableStore.insertInto
  rw [if_pos hconf, hcount]
  cases hfind : (Place.all s.pageCount l.slotCount).find? fun x => (s.values? x).isNone with
  | some x =>
    rw [hfind] at hsearch hhome
    rw [Option.getD_some] at hhome
    obtain ⟨p, slot, hfirst, hread, hslot, hx⟩ := hsearch
    have hnumber : x.page.toNat < s.pageCount :=
      ((Place.mem_all hpages₀.le hslots).mp (List.mem_of_find?_eq_some hfind)).1
    obtain ⟨p', hread', hp, -⟩ := h.read ht hs hfits hl hnumber
    obtain rfl := Except.ok.inj (hread.symm.trans hread')
    have hrid : p.recordId slot = x.inTable t.id := by
      rw [Page.recordId, hp.id_eq, ← hx, Place.inTable]
    have hins := Page.insert_eq_ok.mpr ⟨hp.schema_eq ▸ hconf, slot, hslot, hrid.symm, rfl⟩
    simp only [hfirst, hins, hhome]
    refine ⟨_, _, rfl, h.length.trans ?_⟩
    rw [put, max_eq_left hnumber]
  | none =>
    rw [hfind] at hsearch hhome
    rw [Option.getD_none] at hhome
    have hnumber : (UInt32.ofNat s.pageCount).toNat = s.pageCount :=
      UInt32.toNat_ofNat_of_lt' hpages₀
    have hnew : (s.put (s.home l.slotCount) r.values).pageCount = s.pageCount + 1 := by
      rw [hhome, put, hnumber, max_eq_right (Nat.le_succ _)]
    rw [hnew] at hend ⊢
    obtain ⟨p, hblank⟩ := TableStore.blank_of_room (s := st) hl (hcount.symm ▸ hend)
    have hempty := (TableStore.blank_eq_ok hblank).1
    have hp := Page.belongs_of_made (.inl hempty)
    have hlayout := hp.sound.layout
    rw [hp.size_eq, hp.schema_eq, hl] at hlayout
    have hslot := hp.sound.firstFree?_of_blank (Except.ok.inj hlayout ▸ hroom)
      fun slot => TableStore.row?_empty hempty slot
    have hrid : p.recordId 0 = (s.home l.slotCount).inTable t.id := by
      rw [Page.recordId, hp.id_eq, hhome, Place.inTable, ← hcount, UInt32.ofNat_toNat]
      rfl
    have hins := Page.insert_eq_ok.mpr ⟨hp.schema_eq ▸ hconf, 0, hslot, hrid.symm, rfl⟩
    simp only [hsearch, hblank, hins]
    refine ⟨_, _, rfl, ?_⟩
    simp only [TableStore.setPage, TableStore.append, Function.update_self, h.length, Nat.succ_mul]

/-- A row is stored in the first free place. -/
theorem insert (h : s.Shown tables t st) (hsmall : st.Small tables) (hroom : 0 < l.slotCount)
    (hconf : t.schema.conforms r.values)
    (hpages : (s.put (s.home l.slotCount) r.values).pageCount < 2 ^ 32)
    (hend : (s.put (s.home l.slotCount) r.values).pageCount * t.pageSize ≤ File.maxOffset) :
    ∃ q st', st.insert t r = (.ok (r.stamped ((s.home l.slotCount).inTable t.id), q), st') ∧
      (s.put (s.home l.slotCount) r.values).Shown tables t st' := by
  obtain ⟨q, st', hins, hlength⟩ :=
    h.stored_home hb ht hs hfits hl hslots hroom hconf hpages hend
  obtain ⟨rid, hrow, -, hpage, hadds⟩ := TableStore.adds_insert hb hs hsmall ht hins
  obtain rfl := Option.some.inj (congrArg Row.rid hrow)
  refine ⟨q, st', hins, h.change hlength (fun n hn => ?_) hpage hadds.pages hadds.rows⟩
  have hpage := s.home_page_le ((le_max_left _ _).trans hpages.le) hslots
  simp only [put] at hn
  omega

end Changing

end Sheet.Shown

theorem Page.values_inTable (k : TableId) (p : Page) (slot : Nat) :
    ((p.inTable k).row? slot).map Row.values = (p.row? slot).map Row.values := by
  simp only [inTable, row?, Array.getElem?_map]
  rcases p.slots[slot]? with _ | _ | r <;> rfl

/-- A file holds a sheet: it ends with a page, and all its pages can be read, as those of a table
with any number. -/
structure Sheet.Stored (schema : Schema) (pageSize : Nat) (s : Sheet) (f : File) : Prop where
  length : f.length = s.pageCount * pageSize
  pages : ∀ (k : TableId) (number : UInt32), number.toNat < s.pageCount → ∃ p,
    Page.decode ⟨k, number⟩ schema (f.read (number.toNat * pageSize) pageSize) = .ok p ∧
      ∀ slot : UInt32, (p.row? slot.toNat).map Row.values = s.values? ⟨number, slot⟩
  beyond : ∀ x : Place, s.pageCount ≤ x.page.toNat → s.values? x = none

namespace Sheet

variable {tables : Catalog} {t : TableFile} {s : Sheet} {st : TableStore} {w : World PageCache}
  (hb : tables.Apart) (ht : tables.table? t.id = some t) (hw : Pool.Keeps tables st w)
  (hclean : Pool.Clean w)

theorem contents_of_clean (hb : tables.Apart) (hw : Pool.Keeps tables st w)
    (hclean : Pool.Clean w) : st.contents tables = Pool.diskContents tables w.disk := by
  rw [← hw.contents_eq hb, hw.coherent.contents_of_clean hclean]

include hb ht hw hclean

/-- A pool whose pages are as in the file shows what the file holds. -/
theorem Stored.shown (h : s.Stored t.schema t.pageSize (w.disk.fileAt t.location)) :
    s.Shown tables t st := by
  have hlength := hw.length_eq hb ht
  have hpos := hb.size_pos ht
  have hpage : ∀ number : UInt32, number.toNat < s.pageCount → ∃ p,
      st.contents tables ⟨t.id, number⟩ = some (.ok p) ∧
        ∀ slot : UInt32, (p.row? slot.toNat).map Row.values = s.values? ⟨number, slot⟩ := by
    intro number hlt
    obtain ⟨p, hdecode, hrows⟩ := h.pages t.id number hlt
    have hwhole : ¬ (w.disk.fileAt t.location).length < (number.toNat + 1) * t.pageSize := by
      rw [h.length, not_lt]
      exact Nat.mul_le_mul_right _ hlt
    refine ⟨p, ?_, hrows⟩
    rw [contents_of_clean hb hw hclean]
    simp only [Pool.diskContents, ht, if_neg hwhole, TableFile.pageBytes, hdecode]
  refine ⟨hlength.trans h.length, fun number hlt => ?_, fun x => ?_⟩
  · obtain ⟨p, hp, -⟩ := hpage number hlt
    exact ⟨p, hp⟩
  · by_cases hlt : x.page.toNat < s.pageCount
    · obtain ⟨p, hp, hrows⟩ := hpage x.page hlt
      rw [Place.inTable, Contents.row?_of_page hp, hrows]
    · rw [h.beyond x (not_lt.mp hlt)]
      have hbehind : (w.disk.fileAt t.location).length < (x.page.toNat + 1) * t.pageSize := by
        rw [h.length, Nat.succ_mul]
        have hle := Nat.mul_le_mul_right t.pageSize (not_lt.mp hlt)
        omega
      rw [contents_of_clean hb hw hclean]
      simp [Contents.row?, Pool.diskContents, Place.inTable, ht, hbehind]

/-- Once all is written back the file holds what the pool shows. -/
theorem Shown.stored (h : s.Shown tables t st) :
    s.Stored t.schema t.pageSize (w.disk.fileAt t.location) := by
  refine ⟨(hw.length_eq hb ht).symm.trans h.length, fun k number hlt => ?_, fun x hx => ?_⟩
  · obtain ⟨p, hp⟩ := h.pages number hlt
    have hdisk := hp
    rw [contents_of_clean hb hw hclean] at hdisk
    simp only [Pool.diskContents, ht] at hdisk
    split at hdisk
    · contradiction
    · refine ⟨p.inTable k, Page.decode_inTable k (Option.some.inj hdisk), fun slot => ?_⟩
      rw [Page.values_inTable, ← h.rows, Place.inTable, Contents.row?_of_page hp]
  · by_contra htaken
    have hlt := h.lt_of_taken hb ht (Option.isSome_iff_ne_none.mpr htaken)
    omega

end Sheet
end RowStore
