import RowStore.Proofs.PoolRefinement

/-! What a flush makes last: once all pages are written back, the files alone hold all that the
tables held for the users of the pool. Whoever opens the files again finds the same rows. -/
namespace RowStore

/-- The record id in another table. -/
def RecordId.inTable (k : TableId) (rid : RecordId) : RecordId :=
  { rid with pageId := { rid.pageId with table := k } }

/-- The row as one of another table. -/
def Row.inTable (k : TableId) (r : Row) : Row := { r with rid := r.rid.map (·.inTable k) }

namespace Page

/-- The page as one of another table. -/
def inTable (k : TableId) (p : Page) : Page :=
  { p with
    id := { p.id with table := k }
    slots := p.slots.map (·.map (·.inTable k)) }

variable {k k' : TableId} {number : UInt32} {schema : Schema} {p : Page}

theorem rows_inTable (k : TableId) (p : Page) :
    (p.inTable k).rows = p.rows.map (·.inTable k) := by
  simp only [rows, inTable, Array.toList_map, List.filterMap_map, List.map_filterMap]
  rfl

theorem decodeSlot_inTable {layout : Layout} {bitmap : Bitmap} {data : Array UInt8} {slot : Nat}
    {content : Option Row}
    (h : decodeSlot ⟨k, number⟩ schema layout bitmap data slot = .ok content) :
    decodeSlot ⟨k', number⟩ schema layout bitmap data slot = .ok (content.map (·.inTable k')) := by
  unfold decodeSlot at h ⊢
  split at h
  · next hbit =>
    obtain ⟨⟨start, stop⟩, hrange, h⟩ := bind_eq_ok.mp h
    obtain ⟨cell, hcell, h⟩ := bind_eq_ok.mp h
    obtain ⟨r, hr, h⟩ := bind_eq_ok.mp h
    simp only [← Except.ok.inj h, if_pos hbit, hrange, ok_bind, hcell, mapError_eq_ok.mp hr]
    rfl
  · next hbit =>
    rw [← Except.ok.inj h, if_neg hbit]
    rfl

/-- Bytes decode to the same page in every table. -/
theorem decode_inTable (k' : TableId) {data : Bytes} (h : decode ⟨k, number⟩ schema data = .ok p) :
    decode ⟨k', number⟩ schema data = .ok (p.inTable k') := by
  obtain ⟨l, hl, h⟩ := bind_eq_ok.mp h
  obtain ⟨bits, hbits, h⟩ := bind_eq_ok.mp h
  obtain ⟨slots, hslots, h⟩ := bind_eq_ok.mp h
  have hslots' : (List.range l.slotCount).mapM
      (decodeSlot ⟨k', number⟩ schema l bits.toArray data.toArray) =
        .ok (slots.map (·.map (·.inTable k'))) := by
    rw [mapM_eq_ok, List.forall₂_map_right_iff]
    exact (mapM_eq_ok.mp hslots).imp fun _ _ => decodeSlot_inTable
  unfold decode
  simp only [hl, hbits, ok_bind, hslots', ← Except.ok.inj h]
  simp [inTable]
  rfl

end Page

namespace Contents
variable {c c' : Contents} {k k' : TableId}

/-- Contents with the same pages under another number of the table have the same rows. -/
theorem rowsFrom_inTable
    (hpage : ∀ number p, c ⟨k, number⟩ = some (.ok p) → c' ⟨k', number⟩ = some (.ok (p.inTable k')))
    (hback : ∀ number q, c' ⟨k', number⟩ = some (.ok q) → ∃ p, c ⟨k, number⟩ = some (.ok p))
    (count : Nat) (number : UInt32) : c'.rowsFrom k' count number =
      ((c.rowsFrom k count number).1.map (·.inTable k'), (c.rowsFrom k count number).2) := by
  induction count generalizing number with
  | zero => rfl
  | succ count ih =>
    unfold rowsFrom
    split
    · next q hq =>
      obtain ⟨p, hp⟩ := hback number q hq
      have hqp := (hpage number p hp).symm.trans hq
      rw [hp, ih, ← Except.ok.inj (Option.some.inj hqp)]
      simp only [Page.rows_inTable, List.map_append]
    · next hno =>
      split
      · next p hp => exact absurd (hpage number p hp) (hno _)
      · rfl

end Contents

/-- Two tables with the same file, the same columns and pages of the same size. -/
structure TableFile.SameFile (t t' : TableFile) : Prop where
  location : t.location = t'.location
  schema : t.schema = t'.schema
  pageSize : t.pageSize = t'.pageSize

theorem TableFile.SameFile.symm {t t' : TableFile} (h : t.SameFile t') : t'.SameFile t :=
  ⟨h.location.symm, h.schema.symm, h.pageSize.symm⟩

/-- A catalog opens files again that another one has opened, under any numbers. -/
def Catalog.Reopens (tables' tables : Catalog) : Prop :=
  ∀ k' t', tables'.table? k' = some t' → ∃ k t, tables.table? k = some t ∧ t.SameFile t'

theorem Catalog.Reopens.addressed {tables tables' : Catalog} {d : Disk} (h : tables'.Reopens tables)
    (hd : tables.Addressed d) : tables'.Addressed d := by
  intro k' t' ht'
  obtain ⟨k, t, ht, hsame⟩ := h k' t' ht'
  rw [← hsame.location]
  exact hd k t ht

namespace Pool

variable {tables tables' : Catalog} {s : TableStore} {w w' : World PageCache} {h : Handle}
  {p : Page} {t t' : TableFile} {k k' : TableId} {d : Disk}

/-- No cached page has changed. -/
def Clean (w : World PageCache) : Prop := ∀ id p, cached? w id = some p → p.dirtiedBy = none

theorem outcome_writeBack_of_clean (hload : w.loaded[h.index]? = some p)
    (hclean : p.dirtiedBy = none) : (writeBack tables h).outcome w = (.ok (), w) := by
  simp [writeBack, hload, Page.isDirty, hclean]

theorem outcome_flushThose_of_clean (P : Page → Bool) {hs : List Handle}
    (hclean : ∀ h ∈ hs, ∃ p, w.loaded[h.index]? = some p ∧ p.dirtiedBy = none) :
    (flushThose tables P hs).outcome w = (.ok (), w) := by
  induction hs with
  | nil => rfl
  | cons h hs ih =>
    obtain ⟨p, hload, hp⟩ := hclean h (by simp)
    have hrest := ih fun g hg => hclean g (by simp [hg])
    unfold flushThose
    simp only [Action.outcome_bind, World.outcome_page, hload]
    split
    · simp only [Action.outcome_bind, outcome_writeBack_of_clean hload hp, hrest]
    · exact hrest

/-- A flush of pages that have not changed does nothing. -/
theorem Coherent.flushAll_of_clean (hw : Coherent tables w) (hclean : Clean w) :
    (flushAll tables).outcome w = (.ok (), w) := by
  apply outcome_flushThose_of_clean
  intro h hmem
  obtain ⟨id, hpeek⟩ := hw.live.mem_values.mp hmem
  obtain ⟨p, hc⟩ := hw.exists_cached hpeek
  exact ⟨p, hc.2, hclean id p hc.cached?_eq⟩

/-- Where no cached page has changed, the tables hold what the files say. -/
theorem Coherent.contents_of_clean (hw : Coherent tables w) (hclean : Clean w) :
    contents tables w = diskContents tables w.disk := by
  funext id
  unfold contents
  cases hp : cached? w id with
  | none => rfl
  | some p =>
    obtain ⟨t, ht, hplaced⟩ := hw.placed id p hp
    have hnone := hclean id p hp
    simp only [diskContents, ht, if_neg (not_lt.mpr hplaced.whole), hplaced.clean hnone,
      Page.mark_of_clean hnone]

theorem clean_fresh {capacity : Nat} {c : PageCache} (hc : create capacity = .ok c) (d : Disk) :
    Clean (fresh d c) := by
  obtain ⟨-, hempty⟩ := RecencyCache.Live.create (mapError_eq_ok.mp hc)
  intro id p hp
  simp [cached?, fresh, hempty] at hp

/-- A complete scan gives the rows of all pages, or of those before the first that cannot be read. -/
theorem Keeps.scan_contents (hb : tables.Apart) (hw : Keeps tables s w) (hfits : s.Fits tables)
    (ht : tables.table? t.id = some t) (txn : TxnId) :
    (scan tables txn t w).1.1 =
        ((contents tables w).rowsFrom t.id (t.pageCount w.disk).toNat 0).1 ∧
      ((scan tables txn t w).1.2 = .ok () ↔
        ((contents tables w).rowsFrom t.id (t.pageCount w.disk).toNat 0).2 = true) := by
  rw [hw.scan_eq hb hfits ht, hw.contents_eq hb, hw.pageCount_eq hb ht]
  exact TableStore.rowsFrom_contents ht hfits _ _

/-- A new pool scans the rows that are in the files. -/
theorem scan_fresh {capacity : Nat} {c : PageCache} (hb : tables.Apart)
    (hc : create capacity = .ok c) (haddressed : tables.Addressed d)
    (ht : tables.table? t.id = some t) (txn : TxnId) :
    (scan tables txn t (fresh d c)).1.1 =
        ((diskContents tables d).rowsFrom t.id (t.pageCount d).toNat 0).1 ∧
      ((scan tables txn t (fresh d c)).1.2 = .ok () ↔
        ((diskContents tables d).rowsFrom t.id (t.pageCount d).toNat 0).2 = true) := by
  have hfresh : Coherent tables (fresh d c) := coherent_fresh hc d
  have hw := hfresh.keeps
  have hcontents : contents tables (fresh d c) = diskContents tables d :=
    hfresh.contents_of_clean (clean_fresh hc d)
  rw [← hcontents]
  exact hw.scan_contents hb (hw.fits_iff.mpr haddressed) ht txn

/-- A page of a file is the same page in all tables with this file. -/
theorem diskContents_inTable {number : UInt32} (ht : tables.table? k = some t)
    (ht' : tables'.table? k' = some t') (hsame : t.SameFile t')
    (h : diskContents tables d ⟨k, number⟩ = some (.ok p)) :
    diskContents tables' d ⟨k', number⟩ = some (.ok (p.inTable k')) := by
  simp only [diskContents, ht] at h
  split at h
  · contradiction
  · next hwhole =>
    have hdecode := Page.decode_inTable k' (Option.some.inj h)
    rw [TableFile.pageBytes, hsame.location, hsame.pageSize, hsame.schema] at hdecode
    rw [hsame.location, hsame.pageSize] at hwhole
    simp only [diskContents, ht', if_neg hwhole, TableFile.pageBytes, hdecode]

/-- What a flush that succeeds leaves behind, and what whoever opens the files again finds there. -/
structure Durable (tables : Catalog) (w w' : World PageCache) : Prop where
  clean : Clean w'
  cache : w'.source = w.source
  pages : ∀ id, cached? w' id = (cached? w id).map (·.mark none)
  disk : diskContents tables w'.disk = contents tables w
  again : (flushAll tables).outcome w' = (.ok (), w')
  reopened : tables.Addressed w'.disk → ∀ tables' : Catalog, tables'.Apart →
    tables'.Reopens tables → ∀ capacity c, create capacity = .ok c →
      ∀ txn k' t' k t, tables'.table? k' = some t' → tables.table? k = some t → t.SameFile t' →
        (scan tables' txn t' (fresh w'.disk c)).1.1 =
            ((contents tables w).rowsFrom k (t.pageCount w.disk).toNat 0).1.map (·.inTable k') ∧
          ((scan tables' txn t' (fresh w'.disk c)).1.2 = .ok () ↔
            ((contents tables w).rowsFrom k (t.pageCount w.disk).toNat 0).2 = true)

theorem Keeps.durable (hb : tables.Apart) (hw : Keeps tables s w)
    (hflush : (Pool.flushAll tables).outcome w = (.ok (), w')) : Durable tables w w' := by
  obtain ⟨r, w'', hout, hw', hretains, hr⟩ := (quiet_keeps hb).flushAll hw
  obtain ⟨rfl, rfl⟩ := Prod.mk.inj (hout.symm.trans hflush)
  obtain ⟨-, hclean⟩ | ⟨⟨e, he⟩, -⟩ := hr
  · have hdisk : diskContents tables w''.disk = contents tables w := by
      rw [← hw'.coherent.contents_of_clean hclean, hw'.contents_eq hb, hw.contents_eq hb]
    refine ⟨hclean, hretains.source, ?_, hdisk, hw'.coherent.flushAll_of_clean hclean, ?_⟩
    · intro id
      rw [← hretains.cached?]
      cases hp : cached? w'' id with
      | none => rfl
      | some p => rw [Option.map_some, Page.mark_of_clean (hclean id p hp)]
    · intro haddressed tables' hb' hreopens capacity c hc txn k' t' k t ht' ht hsame
      have hcount : t'.pageCount w''.disk = t.pageCount w.disk := by
        rw [hw.pageCount_eq hb (hb.id_eq ht ▸ ht), ← hw'.pageCount_eq hb (hb.id_eq ht ▸ ht)]
        simp only [TableFile.pageCount, TableFile.pagesIn, hsame.location, hsame.pageSize]
      have hrows : (diskContents tables' w''.disk).rowsFrom k' (t.pageCount w.disk).toNat 0 =
          (((contents tables w).rowsFrom k (t.pageCount w.disk).toNat 0).1.map (·.inTable k'),
            ((contents tables w).rowsFrom k (t.pageCount w.disk).toNat 0).2) :=
        Contents.rowsFrom_inTable
          (fun number p hp => diskContents_inTable ht ht' hsame (hdisk ▸ hp))
          (fun number q hq => ⟨_, hdisk ▸ diskContents_inTable ht' ht hsame.symm hq⟩) _ 0
      obtain ⟨hscan, hending⟩ :=
        scan_fresh hb' hc (hreopens.addressed haddressed) (hb'.id_eq ht' ▸ ht') txn
      rw [hb'.id_eq ht', hcount, hrows] at hscan hending
      exact ⟨hscan, hending⟩
  · cases he

/-- In every run of a pool a flush that succeeds makes the tables last: no cached page has changed
any more, the cache is as it was, and the files hold what the tables held. A pool of any capacity
over a catalog that opens the files again scans the same rows in the same slots. -/
theorem flush_durable {capacity : Nat} {c : PageCache} (hb : tables.Apart)
    (hc : create capacity = .ok c) (d : Disk) (calls : List Call)
    (hcounted : ∀ n, tables.Counted (afterCalls tables (fresh d c) (calls.take n)).disk)
    (hflush : (flushAll tables).outcome (afterCalls tables (fresh d c) calls) = (.ok (), w')) :
    Durable tables (afterCalls tables (fresh d c) calls) w' := by
  have hw := (coherent_fresh hc d).afterCalls hb calls hcounted
  exact hw.keeps.durable hb hflush

/-- Calls on a pool of two pages: a page is dropped and one is discarded, and others have changed. -/
def unflushed : List Call :=
  [.request (.insert 7 1 ⟨[.integer 5], none⟩), .request (.insert 7 1 ⟨[.integer 6], none⟩),
    .request (.insert 8 2 ⟨[.integer (-1)], none⟩), .discard ⟨2, 0⟩,
    .request (.insert 8 2 ⟨[.integer (-2)], none⟩), .request (.delete 8 (some ⟨⟨1, 0⟩, 0⟩))]

theorem flush_durable_unflushed : ∃ c w', create 2 = .ok c ∧
    ¬ Clean (afterCalls .pair (fresh {} c) unflushed) ∧
      Durable .pair (afterCalls .pair (fresh {} c) unflushed) w' := by
  obtain ⟨hc, -, hcounted⟩ := pair_run (act .pair) 2 {} unflushed (by decide)
    (by decide +kernel)
  have hok : ((flushAll .pair).outcome
      (afterCalls .pair (fresh {} (roomFor 2)) unflushed)).1 = .ok () := by decide +kernel
  obtain ⟨w', hflush⟩ := Action.exists_outcome hok
  refine ⟨_, w', hc, ?_, flush_durable Catalog.backed_pair hc {} unflushed hcounted hflush⟩
  · have hdirty : (cached? (afterCalls .pair (fresh {} (roomFor 2)) unflushed)
        ⟨1, 0⟩).bind (·.dirtiedBy) = some 8 := by decide +kernel
    intro hclean
    obtain ⟨p, hp, hp'⟩ := Option.bind_eq_some_iff.mp hdirty
    exact absurd ((hclean _ p hp).symm.trans hp') (by simp)

end Pool
end RowStore
