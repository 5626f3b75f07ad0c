import RowStore.Proofs.ScanCoverage
import RowStore.Proofs.ScanFidelity
import RowStore.Proofs.TableGrowth
import RowStore.Proofs.TableIsolation

/-! Scans over a pool while their table grows. A scan takes all pages up to the last one, also those
that come meanwhile; only if the table has no pages when the scan is opened, the first page is left
out, however much is stored on it later. -/
namespace RowStore

/-- A page that cannot be read is no reason for a scan to end. -/
theorem TableFile.readPage_ne_exhausted (t : TableFile) (d : Disk) (id : PageId) :
    t.readPage d id ≠ .error (.error .scanExhausted) := by
  unfold readPage checkTable
  split
  · simp only [orFault, checkedWord]
    split
    · dsimp only [bind, Except.bind, Except.mapError]
      split
      · simp
      · rcases Page.decode id t.schema _ with ⟨_ | _⟩ | _ <;> simp [Failure.map]
    · simp [bind, Except.bind, Except.mapError]
  · simp [bind, Except.bind]

namespace Pool
variable {tables : Catalog} {t : TableFile}

/-- A pool provides the pages of its tables. -/
theorem provides_source (hb : tables.Registered) (ht : tables.table? t.id = some t) :
    (source tables).Provides (Sheltered tables) t where
  keeps txn id permission w hw :=
    ((quiet_leads hb).preserves_source txn id permission w (.refl hw)).after
  page {txn number permission w h w' p} hw hout hload := by
    have ht' : tables.table? (PageId.mk t.id number).table = some t := ht
    obtain ⟨res, v, hfetch, hleads, hcached⟩ := hw.source hb ht' txn permission
    rw [hfetch] at hout
    obtain ⟨rfl, rfl⟩ := Prod.mk.inj hout
    obtain ⟨q, hq⟩ := hcached h rfl
    obtain rfl := Option.some.inj (hq.2.symm.trans hload)
    exact (hleads.after.housed_of_cached hq.cached?_eq ht).belongs

/-- Fetching makes no file shorter. -/
theorem grows_source (hb : tables.Registered) (txn : TxnId) (id : PageId) (permission : Permission)
    (w : World PageCache) (hw : Sheltered tables w) : (w.disk.fileAt t.location).length ≤
      (((source tables txn id permission).outcome w).2.disk.fileAt t.location).length :=
  Leads.length_le hb ((quiet_leads hb).preserves_source txn id permission w (.refl hw)) t.location

theorem source_ne_exhausted (hb : tables.Registered) (ht : tables.table? t.id = some t)
    (txn : TxnId) (number : UInt32) (permission : Permission) (w : World PageCache)
    (hw : Sheltered tables w) :
    ((source tables txn ⟨t.id, number⟩ permission).outcome w).1 ≠ .error (.error .scanExhausted) := by
  have ht' : tables.table? (PageId.mk t.id number).table = some t := ht
  obtain ⟨r, w', hout, -, hr⟩ := (quiet_leads hb).fetch (.refl hw) ht' txn permission
  simp only [source, Action.outcome_mapError, hout]
  rcases hr with ⟨h, p, rfl, -⟩ | ⟨e, rfl, hread, -⟩ | ⟨-, hfalse⟩
  · simp
  · rw [mapError_error, toFileError_file]
    intro he
    obtain rfl := Except.error.inj he
    exact t.readPage_ne_exhausted w.disk _ hread
  · exact hfalse.elim

/-- A move of a scan or on its pool, where the pages that the scan takes are listed. -/
def watch (tables : Catalog) (st : Scan × World (PageCache × List PageId)) :
    Move → Scan × World (PageCache × List PageId)
  | .call c => (st.1, (act tables st.2.unlisted c).listing st.2.source.2)
  | .hasNext => ((Scan.hasNext (source tables).listed).outcome st).2
  | .next => ((Scan.next (source tables).listed).outcome st).2

/-- The scan and the world once the scan is opened and the moves are made, with the list. -/
def watched (tables : Catalog) (sc : Scan) (w : World PageCache) (moves : List Move) :
    Scan × World (PageCache × List PageId) :=
  moves.foldl (watch tables) ((Scan.start (source tables).listed).outcome (sc, w.listing [])).2

/-- The pages that a scan takes, from its opening on and through the moves. -/
def taken (tables : Catalog) (sc : Scan) (w : World PageCache) (moves : List Move) : List PageId :=
  (watched tables sc w moves).2.source.2

variable {sc : Scan} {w : World PageCache} {st : Scan × World PageCache} {moves : List Move}
  {n : Nat}

theorem unlisted_watch (st : Scan × World (PageCache × List PageId)) (m : Move) :
    ((watch tables st m).1, (watch tables st m).2.unlisted) =
      move tables (st.1, st.2.unlisted) m := by
  cases m with
  | call c => rfl
  | hasNext =>
    simp only [move, Scan.unlisted_hasNext]
    rfl
  | next =>
    simp only [move, Scan.unlisted_next]
    rfl

theorem watched_succ (hn : n < moves.length) : watched tables sc w (moves.take (n + 1)) =
    watch tables (watched tables sc w (moves.take n)) moves[n] := by
  rw [watched, List.take_succ_eq_append_getElem hn, List.foldl_append]
  rfl

/-- The run with the list is the run without it. -/
theorem unlisted_watched
    (hopen : (Scan.start (source tables)).outcome (sc, w) = (.ok (), st)) (hn : n ≤ moves.length) :
    ((watched tables sc w (moves.take n)).1, (watched tables sc w (moves.take n)).2.unlisted) =
      reached tables st moves n := by
  induction n with
  | zero =>
    have hbare := Scan.unlisted_start (source tables) sc (w.listing [])
    rw [World.unlisted_listing, hopen] at hbare
    exact (congrArg Prod.snd hbare).symm
  | succ n ih =>
    rw [watched_succ hn, unlisted_watch, ih (Nat.le_of_succ_le hn), reached_succ hn]

/-- Whether the scan says at a move that there are no more rows. -/
def Ends (tables : Catalog) (st : Scan × World PageCache) : Move → Prop
  | .call _ => False
  | .hasNext => ((Scan.hasNext (source tables)).outcome st).1 = .ok false
  | .next => ((Scan.next (source tables)).outcome st).1 = .error (.error .scanExhausted)

/-- From which pages a scan takes its rows, from its opening in `w` on: at all times from those up
to the one at hand, and in the end from those of the whole table. The first page is among them unless
it came only after the opening. -/
structure Gapless (tables : Catalog) (t : TableFile) (sc : Scan) (w : World PageCache)
    (st : Scan × World PageCache) (moves : List Move) : Prop where
  sofar : ∀ n ≤ moves.length, taken tables sc w (moves.take n) =
    t.pagesFrom (t.firstTaken w.disk) ((reached tables st moves n).1.number.toNat + 1)
  given : ∀ n ≤ moves.length, ∀ r ∈ yielded tables st (moves.take n), ∃ rid, r.rid = some rid ∧
    rid.pageId ∈ taken tables sc w (moves.take n)
  total : ∀ m, Ends tables (reached tables st moves moves.length) m →
    let d := (move tables (reached tables st moves moves.length) m).2.disk
    ceilDiv (d.fileAt t.location).length t.pageSize < 2 ^ 32 →
      taken tables sc w (moves ++ [m]) =
          t.pagesFrom (t.firstTaken w.disk) (t.pageCount d).toNat ∧
        (taken tables sc w (moves ++ [m]) = t.pagesFrom 0 (t.pageCount d).toNat ↔
          0 < t.pageCount w.disk ∨ t.pageCount d = 0)

section Run
variable (hb : tables.Registered) (ht : tables.table? t.id = some t)
include hb ht

/-- Whatever is done, the pages taken stay in order, and the rows that are given are of these. -/
theorem covers_watch {st : Scan × World (PageCache × List PageId)} {first : Nat} {m : Move}
    (h : Scan.Covers (Sheltered tables) t first st)
    (hm : answers tables (st.1, st.2.unlisted) m) :
    Scan.Covers (Sheltered tables) t first (watch tables st m) ∧
      st.2.source.2 ⊆ (watch tables st m).2.source.2 ∧
      ∀ r ∈ given? tables (st.1, st.2.unlisted) m,
        ∃ rid, r.rid = some rid ∧ rid.pageId ∈ (watch tables st m).2.source.2 := by
  have hsource := provides_source hb ht
  have hgrows := grows_source (t := t) hb
  cases m with
  | call c =>
    have hleads := h.inv.act hb c
    exact ⟨h.grow hleads.after (hleads.length_le hb t.location), List.Subset.refl _, by
      simp [given?]⟩
  | hasNext =>
    simp only [answers, Scan.unlisted_hasNext] at hm
    simp only [watch, given?]
    rcases hout : (Scan.hasNext (source tables).listed).outcome st with ⟨e | more, st'⟩
    · simp [Scan.unlisted, hout, Except.isOk, Except.toBool] at hm
    · obtain ⟨h', hsub, -⟩ := h.hasNext hsource hgrows hout
      exact ⟨h', hsub, by simp⟩
  | next =>
    simp only [answers, Scan.unlisted_next] at hm
    simp only [watch, given?, Scan.unlisted_next]
    rcases hout : (Scan.next (source tables).listed).outcome st with ⟨e | r, st'⟩
    · simp [Scan.unlisted, hout, Except.isOk, Except.toBool] at hm
    · obtain ⟨h', hsub, hrow⟩ := h.next hsource hgrows hout
      refine ⟨h', hsub, fun r' hr' => ?_⟩
      obtain rfl : r = r' := Option.some.inj hr'
      exact hrow

/-- The same along the moves, from the opening on. -/
theorem covers_watched (hw : Sheltered tables w) (hsc : sc.table = t)
    (hopen : (Scan.start (source tables)).outcome (sc, w) = (.ok (), st))
    (hanswers : ∀ n (hn : n < moves.length), answers tables (reached tables st moves n) moves[n])
    (hn : n ≤ moves.length) :
    Scan.Covers (Sheltered tables) t (t.firstTaken w.disk) (watched tables sc w (moves.take n)) ∧
      ∀ r ∈ yielded tables st (moves.take n), ∃ rid, r.rid = some rid ∧
        rid.pageId ∈ taken tables sc w (moves.take n) := by
  induction n with
  | zero =>
    have hbare := Scan.unlisted_start (source tables) sc (w.listing [])
    rw [World.unlisted_listing, hopen] at hbare
    have hlisted : (Scan.start (source tables).listed).outcome (sc, w.listing []) =
        (.ok (), watched tables sc w []) := Prod.ext (congrArg Prod.fst hbare).symm rfl
    exact ⟨Scan.Covers.start (provides_source hb ht) (grows_source hb) hw hsc hlisted, by
      simp [yielded]⟩
  | succ n ih =>
    obtain ⟨hcovers, hyielded⟩ := ih (Nat.le_of_succ_le hn)
    have hbare := unlisted_watched hopen (Nat.le_of_succ_le hn)
    have hm := hanswers n hn
    rw [← hbare] at hm
    obtain ⟨hcovers', hsub, hgiven⟩ := covers_watch hb ht hcovers hm
    rw [hbare] at hgiven
    unfold taken at hyielded ⊢
    rw [watched_succ hn, yielded_succ hn]
    refine ⟨hcovers', fun r hr => ?_⟩
    rcases List.mem_append.mp hr with hr | hr
    · obtain ⟨rid, hrid, hmem⟩ := hyielded r hr
      exact ⟨rid, hrid, hsub hmem⟩
    · exact hgiven r (Option.mem_toList.mp hr)

/-- A move at which the scan ends takes the pages that asking for another row takes. -/
theorem hasNext_of_ends {st : Scan × World (PageCache × List PageId)} {m : Move}
    (hst : Sheltered tables st.2.unlisted) (htable : st.1.table = t)
    (hm : Ends tables (st.1, st.2.unlisted) m) :
    (Scan.hasNext (source tables).listed).outcome st = (.ok false, watch tables st m) := by
  have hbare := Scan.unlisted_hasNext (source tables) st
  cases m with
  | call c => exact hm.elim
  | hasNext =>
    have hfirst : ((Scan.hasNext (source tables).listed).outcome st).1 = .ok false :=
      (congrArg Prod.fst hbare).symm.trans hm
    exact Prod.ext hfirst rfl
  | next =>
    have hkeeps := (provides_source hb ht).keeps
    have hdone := Scan.hasNext_of_exhausted hkeeps (source_ne_exhausted hb ht) hst htable hm
    have hfirst : ((Scan.hasNext (source tables).listed).outcome st).1 = .ok false :=
      (congrArg Prod.fst hbare).symm.trans hdone
    obtain ⟨st', hout⟩ := Action.exists_outcome hfirst
    simp only [watch, Scan.outcome_next, hout]

/-- When the scan ends, it has taken all pages from the first one on. -/
theorem taken_of_ends (hw : Sheltered tables w) (hsc : sc.table = t)
    (hopen : (Scan.start (source tables)).outcome (sc, w) = (.ok (), st))
    (hanswers : ∀ n (hn : n < moves.length), answers tables (reached tables st moves n) moves[n])
    {m : Move} (hm : Ends tables (reached tables st moves moves.length) m)
    (hsmall : ceilDiv ((move tables (reached tables st moves moves.length) m).2.disk.fileAt
      t.location).length t.pageSize < 2 ^ 32) :
    taken tables sc w (moves ++ [m]) = t.pagesFrom (t.firstTaken w.disk)
      (t.pageCount (move tables (reached tables st moves moves.length) m).2.disk).toNat := by
  have hbare := unlisted_watched hopen (le_refl moves.length)
  obtain ⟨hcovers, -⟩ := covers_watched hb ht hw hsc hopen hanswers (le_refl moves.length)
  rw [← hbare] at hm
  have hlast := hasNext_of_ends hb ht hcovers.inv hcovers.table hm
  obtain ⟨hcovers', -, hend⟩ := hcovers.hasNext (provides_source hb ht) (grows_source hb) hlast
  obtain ⟨hmore, hpast⟩ := hend rfl
  rw [← hbare, ← unlisted_watch] at hsmall ⊢
  have htaken : taken tables sc w (moves ++ [m]) =
      (watch tables (watched tables sc w (moves.take moves.length)) m).2.source.2 := by
    rw [List.take_length, taken, watched, List.foldl_append]
    rfl
  rw [htaken]
  exact hcovers'.total hmore hpast hsmall

end Run

/-- In every run of a pool, a scan that is opened and then answers without an error takes its rows
from the pages of the table in order, each once, however the table grows meanwhile. When it ends, it
has taken all of them if the table had pages when it was opened, and otherwise all but the first. -/
theorem scan_gapless {capacity : Nat} {c : PageCache} (hb : tables.Registered)
    (hc : create capacity = .ok c) {d : Disk} (haddressed : tables.Addressed d) (calls : List Call)
    (ht : tables.table? t.id = some t) (hsc : sc.table = t)
    (hopen : (Scan.start (source tables)).outcome (sc, afterCalls tables (fresh d c) calls) =
      (.ok (), st)) (moves : List Move)
    (hanswers : ∀ n (hn : n < moves.length),
      answers tables (reached tables st moves n) moves[n]) :
    Gapless tables t sc (afterCalls tables (fresh d c) calls) st moves := by
  have hw := ((sheltered_fresh hc haddressed).afterCalls hb calls).after
  have hcovers := fun n (hn : n ≤ moves.length) => covers_watched hb ht hw hsc hopen hanswers hn
  refine ⟨fun n hn => ?_, fun n hn => (hcovers n hn).2, fun m hm hsmall => ?_⟩
  · rw [← unlisted_watched hopen hn]
    exact (hcovers n hn).1.taken
  · have htaken := taken_of_ends hb ht hw hsc hopen hanswers hm hsmall
    refine ⟨htaken, ?_⟩
    rw [htaken, TableFile.pagesFrom_firstTaken_iff]
    exact or_congr_right (UInt32.toNat_inj (b := 0))

/-- The table has pages when the scan is opened, and one more comes meanwhile. -/
theorem scan_gapless_meanwhile :
    Gapless .pair .numbers (TableFile.numbers.scan 9)
        (afterCalls .pair (fresh {} (roomFor 1)) stored) opened meanwhile ∧
      Ends .pair (reached .pair opened meanwhile meanwhile.length) .next ∧
      taken .pair (TableFile.numbers.scan 9)
          (afterCalls .pair (fresh {} (roomFor 1)) stored) (meanwhile ++ [.next]) =
        [⟨1, 0⟩, ⟨1, 1⟩, ⟨1, 2⟩, ⟨1, 3⟩] := by
  obtain ⟨hc, haddressed, -⟩ := pair_run (act .pair) 1 {} stored (by decide)
    (by decide +kernel)
  have hends : ((Scan.next (source .pair)).outcome
      (reached .pair opened meanwhile meanwhile.length)).1 = .error (.error .scanExhausted) := by
    decide +kernel
  exact ⟨scan_gapless Catalog.backed_pair.registered hc haddressed stored Catalog.table?_numbers rfl
    start_opened meanwhile answers_meanwhile, hends, by decide +kernel⟩

/-- Two rows are stored in a table without pages once a scan is open; each gets a page. -/
def grown : List Move :=
  [.call (.request (.insert 7 1 ⟨[.integer 5], none⟩)),
    .call (.request (.insert 7 1 ⟨[.integer 6], none⟩)), .next]

/-- A scan of that table, opened while it has no pages. -/
def openedEmpty : Scan × World PageCache :=
  ((Scan.start (source .pair)).outcome
    (TableFile.numbers.scan 9, fresh {} (roomFor 1))).2

/-- The scan gives the row of the second page and ends, and the row of the first page is left out. -/
theorem first_page_left_out :
    (Scan.start (source .pair)).outcome (TableFile.numbers.scan 9,
        fresh {} (roomFor 1)) = (.ok (), openedEmpty) ∧
      (∀ n (hn : n < grown.length), answers .pair (reached .pair openedEmpty grown n) grown[n]) ∧
      Ends .pair (reached .pair openedEmpty grown grown.length) .hasNext ∧
      (yielded .pair openedEmpty grown).map (·.rid) = [some ⟨⟨1, 1⟩, 0⟩] ∧
      ((contents .pair (reached .pair openedEmpty grown grown.length).2).row?
        ⟨⟨1, 0⟩, 0⟩).map (·.values) = some [.integer 5] ∧
      TableFile.numbers.pageCount (reached .pair openedEmpty grown grown.length).2.disk = 2 ∧
      taken .pair (TableFile.numbers.scan 9)
          (fresh {} (roomFor 1)) (grown ++ [.hasNext]) ≠
        TableFile.numbers.pagesFrom 0 2 := by
  have hopen : ((Scan.start (source .pair)).outcome
      (TableFile.numbers.scan 9,
        fresh {} (roomFor 1))).1 = .ok () := by
    decide +kernel
  have hends : ((Scan.hasNext (source .pair)).outcome
      (reached .pair openedEmpty grown grown.length)).1 = .ok false := by
    decide +kernel
  refine ⟨Prod.ext hopen rfl, ?_, hends, ?_, ?_, ?_, ?_⟩ <;> decide +kernel

end Pool
end RowStore
