import RowStore.Proofs.PoolRefinement
import RowStore.Proofs.ScanSource

/-! What the steps of a scan do whenever they give an answer: which pages they turn, and which rows
come to hand. -/
namespace RowStore

/-- The order of a scan: by page, then by slot. -/
def RecordId.Before (a b : RecordId) : Prop :=
  a.pageId.page < b.pageId.page ∨ a.pageId.page = b.pageId.page ∧ a.slot < b.slot

/-- The order of rows in a scan, by their record ids. -/
def Row.Before (a b : Row) : Prop := ∃ x y, a.rid = some x ∧ b.rid = some y ∧ x.Before y

theorem Row.Before.ne {a b : Row} (h : a.Before b) : a ≠ b := by
  rintro rfl
  obtain ⟨x, y, hx, hy, hlt | ⟨-, hlt⟩⟩ := h
  · obtain rfl := Option.some.inj (hx.symm.trans hy)
    exact UInt32.lt_irrefl _ hlt
  · obtain rfl := Option.some.inj (hx.symm.trans hy)
    exact UInt32.lt_irrefl _ hlt

namespace Page
variable {p : Page} {r : Row}

theorem mem_rows : r ∈ p.rows ↔ ∃ slot, p.row? slot = some r := by
  simp only [rows, List.mem_filterMap, exists_eq_right, row?, Option.join_eq_some_iff]
  rw [List.mem_iff_getElem?]
  simp only [Array.getElem?_toList]

/-- The rows of a page carry its page id. -/
theorem Sound.pageId_of_mem_rows (h : p.Sound) (hr : r ∈ p.rows) :
    ∃ rid, r.rid = some rid ∧ rid.pageId = p.id := by
  obtain ⟨slot, hrow⟩ := mem_rows.mp hr
  exact ⟨_, (h.stored slot r hrow).2, rfl⟩

/-- The rows of a page come in the order of their slots. -/
theorem Sound.rows_ordered (h : p.Sound) (hcount : p.layout.slotCount ≤ 2 ^ 32) :
    p.rows.Pairwise Row.Before := by
  unfold rows
  rw [List.pairwise_filterMap, List.pairwise_iff_getElem]
  intro i j hi hj hlt r hr r' hr'
  have hrow : p.row? i = some r := by
    rw [row?, ← Array.getElem?_toList, List.getElem?_eq_getElem hi, hr]
    rfl
  have hrow' : p.row? j = some r' := by
    rw [row?, ← Array.getElem?_toList, List.getElem?_eq_getElem hj, hr']
    rfl
  rw [Array.length_toList, h.slots] at hj
  have hj : j < 2 ^ 32 := hj.trans_le hcount
  refine ⟨_, _, (h.stored i r hrow).2, (h.stored j r' hrow').2, .inr ⟨rfl, ?_⟩⟩
  show UInt32.ofNat i < UInt32.ofNat j
  rw [UInt32.lt_iff_toNat_lt, UInt32.toNat_ofNat_of_lt' (hlt.trans hj),
    UInt32.toNat_ofNat_of_lt' hj]
  exact hlt

end Page

namespace TableStore
variable {tables : Catalog} {s : TableStore} {t : TableFile} {p : Page} {id : PageId} {r : Row}

/-- A row of a page that is read is stored at its record id. -/
theorem row?_of_mem_rows (hb : tables.Apart) (hs : s.Sized tables)
    (ht : tables.table? id.table = some t) (hread : s.read t id = .ok p) (hr : r ∈ p.rows) :
    ∃ rid, rid.pageId = id ∧ r.rid = some rid ∧ (s.contents tables).row? rid = some r := by
  obtain ⟨hp, -⟩ := belongs_of_read ht hs hread
  obtain ⟨slot, hrow⟩ := Page.mem_rows.mp hr
  have hslot := hp.sound.lt_of_row? hrow
  refine ⟨⟨id, UInt32.ofNat slot⟩, rfl, ?_, ?_⟩
  · rw [(hp.sound.stored slot r hrow).2, Page.recordId, hp.id_eq]
  · rw [Contents.row?_of_page (contents_of_read ht hread), toNat_slot hb ht hp hslot, hrow]

theorem mem_rows_of_row? {rid : RecordId} (ht : tables.table? rid.pageId.table = some t)
    (h : (s.contents tables).row? rid = some r) (hread : s.read t rid.pageId = .ok p) :
    r ∈ p.rows := by
  rw [Contents.row?_of_page (contents_of_read ht hread)] at h
  exact Page.mem_rows.mpr ⟨_, h⟩

/-- A row carries the record id at which it is stored. -/
theorem rid_of_row? (hs : s.Sized tables) {rid : RecordId}
    (ht : tables.table? rid.pageId.table = some t)
    (h : (s.contents tables).row? rid = some r) : r.rid = some rid := by
  unfold Contents.row? at h
  split at h
  · next p hpage =>
    obtain ⟨hp, -⟩ := belongs_of_contents ht hs hpage
    rw [(hp.sound.stored _ r h).2, Page.recordId, hp.id_eq, UInt32.ofNat_toNat]
  · contradiction

theorem rows_ordered_of_read (hb : tables.Apart) (hs : s.Sized tables)
    (ht : tables.table? id.table = some t) (hread : s.read t id = .ok p) :
    p.rows.Pairwise Row.Before := by
  obtain ⟨hp, -⟩ := belongs_of_read ht hs hread
  have hlayout := hp.sound.layout
  rw [hp.size_eq, hp.schema_eq] at hlayout
  exact hp.sound.rows_ordered (hb.slotCount_le id.table t p.layout ht hlayout)

/-- A row of the contents is on a page that 32 bits count. -/
theorem lt_pagesIn_of_row? (hb : tables.Apart) (hsmall : s.Small tables) {rid : RecordId}
    (ht : tables.table? rid.pageId.table = some t)
    (h : (s.contents tables).row? rid = some r) :
    rid.pageId.page < t.pagesIn (s.length t.id) := by
  have hid := hb.id_eq ht
  have hwhole : (rid.pageId.page.toNat + 1) * t.pageSize ≤ s.length t.id := by
    by_contra hcut
    simp [Contents.row?, contents, ht, not_le.mp hcut] at h
  have hpos := hb.size_pos ht
  have hcount := hsmall _ t ht
  rw [← hid] at hcount
  exact TableFile.lt_pagesIn_of_whole hpos hcount hwhole

end TableStore

/-- A scan turns pages: from a page whose rows are all given it goes on to the next page of the
table, with the rows of this one at hand. -/
inductive Turns (s : TableStore) (t : TableFile) :
    UInt32 × List Row → UInt32 × List Row → Prop where
  | refl (here : UInt32 × List Row) : Turns s t here here
  | next {number : UInt32} {p : Page} {there : UInt32 × List Row}
      (hmore : number.toNat + 1 < (t.pagesIn (s.length t.id)).toNat)
      (hread : s.read t ⟨t.id, number + 1⟩ = .ok p)
      (h : Turns s t (number + 1, p.rows) there) : Turns s t (number, []) there

namespace Turns
variable {s : TableStore} {t : TableFile} {here there : UInt32 × List Row}

/-- Either no page is turned, or all rows at hand were given; then all pages between are without
rows, and those of the last page are at hand. -/
theorem cases (h : Turns s t here there) : there = here ∨
    here.2 = [] ∧ here.1 < there.1 ∧ (∃ p, s.read t ⟨t.id, there.1⟩ = .ok p ∧ p.rows = there.2) ∧
      ∀ number, here.1 < number → number < there.1 →
        ∃ p, s.read t ⟨t.id, number⟩ = .ok p ∧ p.rows = [] := by
  induction h with
  | refl => exact .inl rfl
  | @next number p there hmore hread h ih =>
    right
    have hnext : (number + 1).toNat = number.toNat + 1 :=
      TableStore.toNat_succ (hmore.trans (UInt32.toNat_lt _))
    dsimp only at ih ⊢
    rcases ih with rfl | ⟨hnone, hlt, hpage, hskipped⟩
    · refine ⟨rfl, ?_, ⟨p, hread, rfl⟩, ?_⟩
      · rw [UInt32.lt_iff_toNat_lt, hnext]
        exact Nat.lt_succ_self _
      · intro m hm hm'
        simp only [UInt32.lt_iff_toNat_lt] at hm hm'
        omega
    · rw [UInt32.lt_iff_toNat_lt] at hlt
      refine ⟨rfl, ?_, hpage, ?_⟩
      · rw [UInt32.lt_iff_toNat_lt]
        omega
      · intro m hm hm'
        rw [UInt32.lt_iff_toNat_lt] at hm
        by_cases heq : m = number + 1
        · exact ⟨p, heq ▸ hread, hnone⟩
        · have hne : m.toNat ≠ number.toNat + 1 := fun e =>
            heq (UInt32.toNat_inj.mp (e.trans hnext.symm))
          apply hskipped m _ hm'
          rw [UInt32.lt_iff_toNat_lt]
          omega

/-- A row of a page that was turned is at hand: the scan has not gone beyond it. -/
theorem mem_of_row? {tables : Catalog} {rid : RecordId} {r : Row}
    (ht : tables.table? t.id = some t) (h : Turns s t here there) (htable : rid.pageId.table = t.id)
    (hbehind : here.1 < rid.pageId.page) (hle : rid.pageId.page ≤ there.1)
    (hrow : (s.contents tables).row? rid = some r) : r ∈ there.2 := by
  obtain ⟨⟨k, page⟩, slot⟩ := rid
  obtain rfl : k = t.id := htable
  rcases h.cases with rfl | ⟨-, -, ⟨p, hread, hrows⟩, hskipped⟩
  · exact absurd (UInt32.lt_of_lt_of_le hbehind hle) (UInt32.lt_irrefl _)
  · rcases UInt32.lt_or_eq_of_le hle with hwithin | hlast
    · obtain ⟨q, hq, hnone⟩ := hskipped page hbehind hwithin
      have hmem := TableStore.mem_rows_of_row? ht hrow hq
      simp [hnone] at hmem
    · dsimp only at hlast
      rw [← hrows]
      exact TableStore.mem_rows_of_row? ht hrow (hlast ▸ hread)

/-- Turning pages adds their rows to those of the pages before. -/
theorem rowsFrom {tables : Catalog} (ht : tables.table? t.id = some t) (h : Turns s t here there)
    (rows : List Row)
    (hrows : (s.contents tables).rowsFrom t.id
      (min (here.1.toNat + 1) (t.pagesIn (s.length t.id)).toNat) 0 = (rows ++ here.2, true)) :
    (s.contents tables).rowsFrom t.id
      (min (there.1.toNat + 1) (t.pagesIn (s.length t.id)).toNat) 0 =
        (rows ++ there.2, true) := by
  induction h with
  | refl => exact hrows
  | @next number p there hmore hread h ih =>
    apply ih
    have hnext : (number + 1).toNat = number.toNat + 1 :=
      TableStore.toNat_succ (hmore.trans (UInt32.toNat_lt _))
    dsimp only at hrows ⊢
    rw [min_eq_left hmore.le, List.append_nil] at hrows
    rw [hnext, min_eq_left (Nat.succ_le_of_lt hmore)]
    apply Contents.rowsFrom_concat hrows
    have hplace : (0 : UInt32) + UInt32.ofNat (number.toNat + 1) = number + 1 := by
      rw [UInt32.zero_add, TableStore.ofNat_toNat_succ]
    rw [hplace]
    exact TableStore.contents_of_read ht hread

end Turns

namespace Pool
variable {tables : Catalog} {s : TableStore} {w : World PageCache} {t : TableFile}

section Answers
variable (hb : tables.Apart) (ht : tables.table? t.id = some t) (hw : Keeps tables s w)
include hb ht hw

/-- A scan that is opened has the rows of the first page at hand. -/
theorem Keeps.start_ok {sc : Scan} {st : Scan × World PageCache} (hsc : sc.table = t)
    (h : (Scan.start (Pool.source tables)).outcome (sc, w) = (.ok (), st)) :
    Keeps tables s st.2 ∧ ∃ rows, s.pageRows t 0 = .ok rows ∧
      st.1 = { sc with number := 0, current := some rows } := by
  obtain ⟨res, w', hout, hw', hres⟩ := hw.pageRows_cases hb ht { sc with number := 0 } hsc 0
  rw [Scan.outcome_start, hout] at h
  rcases hres with rfl | ⟨⟨e, rfl⟩, -⟩
  · cases hrows : s.pageRows t 0 with
    | error e => simp [hrows] at h
    | ok rows =>
      rw [hrows] at h
      obtain ⟨-, rfl⟩ := Prod.mk.inj h
      exact ⟨hw', rows, rfl, rfl⟩
  · simp at h

omit hw in
/-- The pages that a scan turns over a pool are those of the store. -/
theorem Keeps.turned {st st' : Scan × World PageCache} {rows : List Row}
    (h : Scan.Turned (Pool.source tables) st st') (hw : Keeps tables s st.2)
    (hsc : st.1.table = t) (hcurrent : st.1.current = some rows) :
    Keeps tables s st'.2 ∧ ∃ number rows', st'.1 = { st.1 with number, current := some rows' } ∧
      Turns s t (st.1.number, rows) (number, rows') := by
  induction h generalizing rows with
  | refl st =>
    obtain ⟨⟨table, txn, number, current⟩, w⟩ := st
    obtain rfl : current = some rows := hcurrent
    exact ⟨hw, number, rows, rfl, .refl _⟩
  | @next sc w w' rows₁ st' hcurrent₁ hmore hwithin hrows _ ih =>
    dsimp only at hw hsc hcurrent ⊢
    obtain rfl : [] = rows := Option.some.inj (hcurrent₁.symm.trans hcurrent)
    obtain ⟨res, w₁, hout, hw', hres⟩ := hw.pageRows_cases hb ht sc hsc (sc.number + 1)
    obtain ⟨rfl, rfl⟩ := Prod.mk.inj (hout.symm.trans hrows)
    obtain ⟨hkeeps, number, rows', hst, hturns⟩ := ih hw' hsc rfl
    rw [hsc, hw.pageCount_eq hb ht] at hwithin
    rcases hres with hres | ⟨⟨e, he⟩, -⟩
    · unfold TableStore.pageRows at hres
      rw [if_neg (UInt32.not_le.mpr hwithin)] at hres
      obtain ⟨p, hread, rfl⟩ := map_eq_ok.mp hres.symm
      rw [UInt32.lt_iff_toNat_lt, TableStore.toNat_succ hmore] at hwithin
      exact ⟨hkeeps, number, rows', hst, .next hwithin hread hturns⟩
    · cases he

/-- A scan that goes on without an error turns pages until it has rows at hand, or there are no
more pages. -/
theorem Keeps.hasNext_ok {sc : Scan} {rows : List Row} {more : Bool} {st : Scan × World PageCache}
    (hsc : sc.table = t) (hcurrent : sc.current = some rows)
    (h : (Scan.hasNext (Pool.source tables)).outcome (sc, w) = (.ok more, st)) :
    Keeps tables s st.2 ∧ ∃ number rows', st.1 = { sc with number, current := some rows' } ∧
      Turns s t (sc.number, rows) (number, rows') ∧ (more = true → rows' ≠ []) ∧
        (more = false → rows' = [] ∧
          (t.pagesIn (s.length t.id)).toNat ≤ number.toNat + 1) := by
  have hasked := Scan.asked_hasNext (Pool.source tables) (sc, w)
  rw [h] at hasked
  cases hasked with
  | more hturned hrows =>
    obtain ⟨hw', number, rows', rfl, hturns⟩ := Keeps.turned hb ht hturned hw hsc hcurrent
    obtain rfl := Option.some.inj hrows
    exact ⟨hw', number, _, rfl, hturns, by simp, by simp⟩
  | done hturned hrows hmore hend =>
    obtain ⟨hw', number, rows', rfl, hturns⟩ := Keeps.turned hb ht hturned hw hsc hcurrent
    obtain rfl := Option.some.inj hrows
    dsimp only at hw' hmore hend
    rw [hsc, hw'.pageCount_eq hb ht, UInt32.le_iff_toNat_le, TableStore.toNat_succ hmore] at hend
    exact ⟨hw', number, [], rfl, hturns, by simp, fun _ => ⟨rfl, hend⟩⟩

/-- The next row is the first one at hand, once enough pages are turned. -/
theorem Keeps.next_ok {sc : Scan} {rows : List Row} {r : Row} {st : Scan × World PageCache}
    (hsc : sc.table = t) (hcurrent : sc.current = some rows)
    (h : (Scan.next (Pool.source tables)).outcome (sc, w) = (.ok r, st)) :
    Keeps tables s st.2 ∧ ∃ number rs, st.1 = { sc with number, current := some rs } ∧
      Turns s t (sc.number, rows) (number, r :: rs) := by
  rw [Scan.outcome_next] at h
  rcases hmore : (Scan.hasNext (Pool.source tables)).outcome (sc, w) with ⟨_ | _ | _, st'⟩
  · simp [hmore] at h
  · simp [hmore] at h
  · obtain ⟨hw', number, rows', hst', hturns, hrows, -⟩ := hw.hasNext_ok hb ht hsc hcurrent hmore
    obtain ⟨sc', w'⟩ := st'
    obtain rfl : sc' = { sc with number, current := some rows' } := hst'
    rw [hmore] at h
    cases rows' with
    | nil => exact absurd rfl (hrows rfl)
    | cons r' rs =>
      obtain ⟨hr, rfl⟩ := Prod.mk.inj h
      obtain rfl := Except.ok.inj hr
      exact ⟨hw', number, rs, rfl, hturns⟩

end Answers

end Pool
end RowStore
