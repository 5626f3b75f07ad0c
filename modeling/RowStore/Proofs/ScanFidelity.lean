import RowStore.Proofs.ScanProgress

/-! What a scan gives in the end, whatever is done to its pool meanwhile. If nothing is written
meanwhile, it gives all rows of the table. -/
namespace RowStore.Pool

variable {tables : Catalog} {s : TableStore} {w : World PageCache} {t : TableFile}
  {st : Scan × World PageCache} {moves : List Move} {n : Nat} {rid : RecordId} {r : Row}
  {rows : List Row}

/-- Whether a call writes nothing: no row is stored or deleted, and no change is dropped. -/
def Call.Reads (w : World PageCache) : Call → Prop
  | .request (.insert ..) => False
  | .request (.delete ..) => False
  | .discard id => ∀ p, cached? w id = some p → p.dirtiedBy = none
  | _ => True

/-- Whether a move writes nothing; the calls of a scan never do. -/
def Move.Reads (w : World PageCache) : Move → Prop
  | .call c => c.Reads w
  | .hasNext => True
  | .next => True

/-- A call that writes nothing keeps the store. -/
theorem Keeps.act_reads (hb : tables.Apart) (hw : Keeps tables s w) {c : Call} (hc : c.Reads w) :
    Keeps tables s (act tables w c) := by
  cases c with
  | request q =>
    cases q with
    | get txn id permission => exact (quiet_keeps hb).preserves_fetch txn id permission w hw
    | insert txn k r => exact hc.elim
    | delete txn rid => exact hc.elim
    | scan txn k =>
      simp only [act, Pool.perform]
      cases tables.table? k with
      | none => exact hw
      | some t => exact (quiet_keeps hb).outcome_scan hw txn t
    | flushTxn txn =>
      obtain ⟨r, w', hout, hw', -⟩ := (quiet_keeps hb).flushTxn hw txn
      simp only [act, Pool.perform, hout]
      exact hw'
    | flushAll =>
      obtain ⟨r, w', hout, hw', -⟩ := (quiet_keeps hb).flushAll hw
      simp only [act, Pool.perform, hout]
      exact hw'
  | fetchPage txn id permission => exact (hw.act_fetchPage hb txn id permission).1
  | flushPage id => exact hw.act_flushPage hb id
  | discard id => exact hw.drop hc
  | evict =>
    obtain ⟨r, w', hout, hw', -⟩ := (quiet_keeps hb).evict hw
    rw [act, hout]
    exact hw'
  | scanStep sc step => exact (quiet_keeps hb).act_scan hw sc step

/-- Whether a scan says that there are no more rows. -/
def Exhausted (tables : Catalog) (st : Scan × World PageCache) : Prop :=
  ((Scan.hasNext (source tables)).outcome st).1 = .ok false

/-- A scan on its way through a store that stays as it is: after `n` moves, the rows that were at
hand are those of all pages up to the one to which the scan has come. -/
structure Copies (tables : Catalog) (s : TableStore) (t : TableFile)
    (st : Scan × World PageCache) (moves : List Move) (n : Nat) : Prop where
  keeps : Keeps tables s (reached tables st moves n).2
  table : (reached tables st moves n).1.table = t
  copied : ∃ rows, (reached tables st moves n).1.current = some rows ∧
    (s.contents tables).rowsFrom t.id
      (min ((reached tables st moves n).1.number.toNat + 1) (t.pagesIn (s.length t.id)).toNat) 0 =
        (yielded tables st (moves.take n) ++ rows, true)

section Unwritten
variable (hb : tables.Apart) (ht : tables.table? t.id = some t)
include hb ht

omit hb in
/-- The rows of the first page are those at hand at the opening. -/
theorem rowsFrom_of_pageRows (hrows : s.pageRows t 0 = .ok rows) :
    (s.contents tables).rowsFrom t.id (min 1 (t.pagesIn (s.length t.id)).toNat) 0 =
      (rows, true) := by
  unfold TableStore.pageRows at hrows
  split at hrows
  · next hend =>
    obtain rfl := Except.ok.inj hrows
    have hzero : (t.pagesIn (s.length t.id)).toNat = 0 :=
      Nat.le_zero.mp (UInt32.le_iff_toNat_le.mp hend)
    rw [hzero]
    rfl
  · next hend =>
    obtain ⟨p, hread, rfl⟩ := map_eq_ok.mp hrows
    rw [UInt32.not_le, UInt32.lt_iff_toNat_lt] at hend
    rw [min_eq_left hend]
    simp [Contents.rowsFrom, TableStore.contents_of_read ht hread]

theorem Copies.start {sc : Scan} (moves : List Move) (hw : Keeps tables s w) (hsc : sc.table = t)
    (h : (Scan.start (source tables)).outcome (sc, w) = (.ok (), st)) :
    Copies tables s t st moves 0 := by
  obtain ⟨hw', rows, hrows, hst⟩ := hw.start_ok hb ht hsc h
  refine ⟨hw', ?_, rows, ?_, ?_⟩
  · rw [reached_zero, hst]
    exact hsc
  · rw [reached_zero, hst]
  · rw [reached_zero, hst]
    exact rowsFrom_of_pageRows ht hrows

theorem Copies.step (hn : n < moves.length)
    (hanswers : answers tables (reached tables st moves n) moves[n])
    (hreads : moves[n].Reads (reached tables st moves n).2)
    (h : Copies tables s t st moves n) : Copies tables s t st moves (n + 1) := by
  obtain ⟨rows, hcurrent, hcopied⟩ := h.copied
  rcases reached_cases hb ht hn h.keeps h.table hcurrent hanswers with
    ⟨c, hc, hreached, hyielded⟩ | ⟨hkeeps', htable, rows', ahead, hcurrent', hyielded, hturns⟩
  · rw [hc] at hreads
    refine ⟨?_, ?_, rows, ?_, ?_⟩
    · rw [hreached]
      exact h.keeps.act_reads hb hreads
    · rw [hreached]
      exact h.table
    · rw [hreached]
      exact hcurrent
    · rw [hyielded, hreached]
      exact hcopied
  · refine ⟨hkeeps', htable, rows', hcurrent', ?_⟩
    rw [hyielded]
    exact hturns.rowsFrom ht _ hcopied

theorem Copies.run
    (hanswers : ∀ n (hn : n < moves.length), answers tables (reached tables st moves n) moves[n])
    (hreads : ∀ n (hn : n < moves.length), moves[n].Reads (reached tables st moves n).2)
    (h : Copies tables s t st moves 0) : ∀ n ≤ moves.length, Copies tables s t st moves n := by
  intro n
  induction n with
  | zero => exact fun _ => h
  | succ n ih =>
    intro hn
    exact (ih (Nat.le_of_succ_le hn)).step hb ht hn (hanswers n hn) (hreads n hn)

/-- When there are no more rows, all pages have been copied. -/
theorem Copies.all (h : Copies tables s t st moves moves.length)
    (hdone : Exhausted tables (reached tables st moves moves.length)) :
    (s.contents tables).rowsFrom t.id (t.pagesIn (s.length t.id)).toNat 0 =
      (yielded tables st moves, true) := by
  obtain ⟨rows, hcurrent, hcopied⟩ := h.copied
  obtain ⟨st', hout⟩ := Action.exists_outcome hdone
  obtain ⟨-, number, rows', -, hturns, -, hend⟩ := h.keeps.hasNext_ok hb ht h.table hcurrent hout
  obtain ⟨rfl, hlast⟩ := hend rfl
  have hall := hturns.rowsFrom ht _ hcopied
  rwa [min_eq_right hlast, List.append_nil, List.take_length] at hall

end Unwritten

/-- What a scan gives, from its opening on through any moves. -/
structure Faithful (tables : Catalog) (t : TableFile) (st : Scan × World PageCache)
    (moves : List Move) : Prop where
  ordered : (yielded tables st moves).Pairwise Row.Before
  fetched : ∀ r ∈ yielded tables st moves, ∃ rid, r.rid = some rid ∧ rid.pageId.table = t.id ∧
    Fetched tables st moves moves.length rid r
  complete : Exhausted tables (reached tables st moves moves.length) →
    ∀ rid r, rid.pageId.table = t.id → Steady tables st moves moves.length rid r →
      r.rid = some rid ∧ (yielded tables st moves).count r = 1
  unwritten : Exhausted tables (reached tables st moves moves.length) →
    (∀ n (hn : n < moves.length), moves[n].Reads (reached tables st moves n).2) →
      (contents tables st.2).rowsFrom t.id (t.pageCount st.2.disk).toNat 0 =
        (yielded tables st moves, true)

section Ending
variable (hb : tables.Apart) (ht : tables.table? t.id = some t)
  (h : OnTrack tables t st moves moves.length)
include h

theorem OnTrack.ordered : (yielded tables st moves).Pairwise Row.Before := by
  obtain ⟨rows, -, hlisted⟩ := h.listed
  have hordered := (List.pairwise_append.mp hlisted.ordered).1
  rwa [List.take_length] at hordered

theorem OnTrack.fetched (r : Row) (hr : r ∈ yielded tables st moves) :
    ∃ rid, r.rid = some rid ∧ rid.pageId.table = t.id ∧
      Fetched tables st moves moves.length rid r := by
  obtain ⟨rows, -, hlisted⟩ := h.listed
  rw [List.take_length] at hlisted
  obtain ⟨rid, hrid, htable, -, hfetched⟩ := hlisted.fetched r (List.mem_append_left rows hr)
  exact ⟨rid, hrid, htable, hfetched⟩

include hb ht

/-- When there are no more rows, none is missing that was there all the time. -/
theorem OnTrack.mem_yielded
    (hcounted : tables.Counted (reached tables st moves moves.length).2.disk)
    (hdone : Exhausted tables (reached tables st moves moves.length))
    (htable : rid.pageId.table = t.id) (hsteady : Steady tables st moves moves.length rid r) :
    r.rid = some rid ∧ r ∈ yielded tables st moves := by
  obtain ⟨rows, hcurrent, hlisted⟩ := h.listed
  have hkeeps := h.coherent.keeps
  obtain ⟨st', hout⟩ := Action.exists_outcome hdone
  obtain ⟨-, number, rows', -, hturns, -, hend⟩ := hkeeps.hasNext_ok hb ht h.table hcurrent hout
  obtain ⟨rfl, hlast⟩ := hend rfl
  have hnone : rows = [] := by
    rcases hturns.cases with heq | ⟨hnone, -⟩
    · exact (congrArg Prod.snd heq).symm
    · exact hnone
  have hrow := hsteady moves.length (le_refl _)
  rw [hkeeps.contents_eq hb] at hrow
  refine ⟨TableStore.rid_of_row? hkeeps.sized (htable ▸ ht) hrow, ?_⟩
  have hplace := TableStore.lt_pagesIn_of_row? hb (hkeeps.small_iff.mpr hcounted) (htable ▸ ht) hrow
  rcases UInt32.lt_or_le (reached tables st moves moves.length).1.number rid.pageId.page with
    hbehind | hbefore
  · -- the last question turned all pages ahead, and none of them had a row
    have hle : rid.pageId.page ≤ number := by
      rw [UInt32.lt_iff_toNat_lt] at hplace
      rw [UInt32.le_iff_toNat_le]
      omega
    have hmem := hturns.mem_of_row? ht htable hbehind hle hrow
    simp at hmem
  · have hmem := hlisted.complete rid r htable hbefore hsteady
    rwa [hnone, List.append_nil, List.take_length] at hmem

end Ending

/-- In every run of a pool, over files that are never longer than 32 bits can count their pages, a
scan that is opened and then answers without an error, whatever is done to the pool meanwhile, gives
rows in strict order, each as it was when its page was fetched; when there are no more rows, it has
given once each row that was there all the time. If nothing is written meanwhile, it has given all
rows of the table. -/
theorem scan_faithful {capacity : Nat} {c : PageCache} (hb : tables.Apart)
    (hc : create capacity = .ok c) (d : Disk) (calls : List Call)
    (hcounted : ∀ n, tables.Counted (afterCalls tables (fresh d c) (calls.take n)).disk)
    (ht : tables.table? t.id = some t) {sc : Scan} (hsc : sc.table = t)
    (hopen : (Scan.start (source tables)).outcome (sc, afterCalls tables (fresh d c) calls) =
      (.ok (), st)) (moves : List Move)
    (hcounted' : ∀ n, tables.Counted (reached tables st moves n).2.disk)
    (hanswers : ∀ n (hn : n < moves.length),
      answers tables (reached tables st moves n) moves[n]) :
    Faithful tables t st moves := by
  have hkeeps := ((coherent_fresh hc d).afterCalls hb calls hcounted).keeps
  have hend := hcounted calls.length
  rw [List.take_length] at hend
  have hstart := OnTrack.start hb ht moves hkeeps (hkeeps.small_iff.mpr hend) hsc hopen
  have htrack := hstart.run hb ht hcounted' hanswers moves.length (le_refl _)
  refine ⟨htrack.ordered, htrack.fetched, ?_, ?_⟩
  · intro hdone rid r htable hsteady
    obtain ⟨hrid, hmem⟩ := htrack.mem_yielded hb ht (hcounted' _) hdone htable hsteady
    exact ⟨hrid, List.count_eq_one_of_mem (htrack.ordered.imp Row.Before.ne) hmem⟩
  · intro hdone hreads
    have hcopies := (Copies.start hb ht moves hkeeps hsc hopen).run hb ht hanswers hreads
    have hw' := (hcopies 0 (Nat.zero_le _)).keeps
    rw [reached_zero] at hw'
    rw [hw'.contents_eq hb, hw'.pageCount_eq hb ht]
    exact (hcopies moves.length (le_refl _)).all hb ht hdone

/-- Calls on a pool of one page: three pages get a row each. -/
def stored : List Call :=
  [.request (.insert 7 1 ⟨[.integer 5], none⟩), .request (.insert 7 1 ⟨[.integer 6], none⟩),
    .request (.insert 7 1 ⟨[.integer 7], none⟩)]

/-- A scan of these pages that has been opened. -/
def opened : Scan × World PageCache :=
  ((Scan.start (source .pair)).outcome
    (TableFile.numbers.scan 9, afterCalls .pair (fresh {} (roomFor 1)) stored)).2

/-- One row is deleted before its page is fetched and one afterwards. One is stored behind the scan,
and one on a new page. -/
def meanwhile : List Move :=
  [.next, .call (.request (.delete 7 (some ⟨⟨1, 1⟩, 0⟩))), .hasNext,
    .call (.request (.insert 8 1 ⟨[.integer 8], none⟩)),
    .call (.request (.insert 8 1 ⟨[.integer 9], none⟩)), .call .evict,
    .call (.request (.delete 8 (some ⟨⟨1, 2⟩, 0⟩))), .next, .next]

theorem start_opened : (Scan.start (source .pair)).outcome
    (TableFile.numbers.scan 9, afterCalls .pair (fresh {} (roomFor 1)) stored) =
      (.ok (), opened) := by
  have hopen : ((Scan.start (source .pair)).outcome
      (TableFile.numbers.scan 9, afterCalls .pair (fresh {} (roomFor 1)) stored)).1 = .ok () := by
    decide +kernel
  exact Prod.ext hopen (by rw [opened])

theorem answers_meanwhile : ∀ n (hn : n < meanwhile.length),
    answers .pair (reached .pair opened meanwhile n) meanwhile[n] := by decide +kernel

theorem scan_faithful_meanwhile :
    Faithful .pair .numbers opened meanwhile ∧
      Exhausted .pair (reached .pair opened meanwhile meanwhile.length) ∧
      (yielded .pair opened meanwhile).map (·.values) =
        [[.integer 5], [.integer 7], [.integer 9]] := by
  obtain ⟨hc, -, hcounted⟩ := pair_run (act .pair) 1 {} stored (by decide)
    (by decide +kernel)
  have hdone : ((Scan.hasNext (source .pair)).outcome
      (reached .pair opened meanwhile meanwhile.length)).1 = .ok false := by decide +kernel
  refine ⟨scan_faithful Catalog.backed_pair hc {} stored hcounted Catalog.table?_numbers rfl
    start_opened meanwhile ?_ answers_meanwhile, hdone, by decide +kernel⟩
  apply Catalog.counted_pair_take (f := fun moves => (moves.foldl (move .pair) opened).2.disk)
  decide +kernel

end RowStore.Pool
