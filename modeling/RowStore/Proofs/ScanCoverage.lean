import RowStore.Proofs.ScanSteps
import RowStore.Proofs.SourceViews

/-! Which pages a scan takes its rows from, over any source that makes no file shorter. They come in
order, each once and with none left out between them. A scan that is opened while its table has no
pages takes those behind the first one. -/
namespace RowStore

namespace World
variable {σ : Type}

/-- The world of a source that lists the pages it hands out. -/
def listing (w : World σ) (ids : List PageId) : World (σ × List PageId) where
  disk := w.disk
  loaded := w.loaded
  source := (w.source, ids)

def unlisted (w : World (σ × List PageId)) : World σ where
  disk := w.disk
  loaded := w.loaded
  source := w.source.1

@[simp] theorem unlisted_listing (w : World σ) (ids : List PageId) :
    (w.listing ids).unlisted = w := rfl

end World

/-- The same source, which also lists the pages that it hands out. -/
def PageSource.listed {σ : Type} (source : PageSource σ) : PageSource (σ × List PageId) :=
  fun txn id permission => ExceptT.mk fun w =>
    let (r, w') := (source txn id permission).outcome w.unlisted
    (r, w'.listing (if r.isOk then w.source.2 ++ [id] else w.source.2))

namespace Scan
variable {σ : Type} {source : PageSource σ}

theorem outcome_listed (txn : TxnId) (id : PageId) (permission : Permission)
    (w : World (σ × List PageId)) : (source.listed txn id permission).outcome w =
      let out := (source txn id permission).outcome w.unlisted
      (out.1, out.2.listing (if out.1.isOk then w.source.2 ++ [id] else w.source.2)) := rfl

/-- What comes of a step, without the list. -/
def unlisted {α : Type} (out : α × Scan × World (σ × List PageId)) : α × Scan × World σ :=
  (out.1, out.2.1, out.2.2.unlisted)

/-- The list changes nothing in what a source does, and so nothing in what a scan does. -/
theorem views_listed (source : PageSource σ) : source.listed.Views Prod.fst source :=
  fun _ _ _ _ => rfl

theorem unlisted_start (source : PageSource σ) (s : Scan) (w : World (σ × List PageId)) :
    (start source).outcome (s, w.unlisted) = unlisted ((start source.listed).outcome (s, w)) :=
  views_start (views_listed source) (s, w)

theorem unlisted_hasNext (source : PageSource σ) (st : Scan × World (σ × List PageId)) :
    (hasNext source).outcome (st.1, st.2.unlisted) =
      unlisted ((hasNext source.listed).outcome st) := views_hasNext (views_listed source) st

theorem unlisted_next (source : PageSource σ) (st : Scan × World (σ × List PageId)) :
    (next source).outcome (st.1, st.2.unlisted) = unlisted ((next source.listed).outcome st) :=
  views_next (views_listed source) st

end Scan

/-- The pages of a table from number `first` on, up to number `stop` without it. -/
def TableFile.pagesFrom (t : TableFile) (first stop : Nat) : List PageId :=
  (List.range' first (stop - first)).map fun i => ⟨t.id, UInt32.ofNat i⟩

/-- Where a scan begins: with the first page, unless there is none when the scan is opened. Then it
goes on behind it once pages have come. -/
def TableFile.firstTaken (t : TableFile) (d : Disk) : Nat := if t.pageCount d = 0 then 1 else 0

namespace TableFile
variable {t : TableFile} {d : Disk} {first stop : Nat}

@[simp] theorem length_pagesFrom : (t.pagesFrom first stop).length = stop - first := by
  simp [pagesFrom]

theorem pagesFrom_of_le (h : stop ≤ first) : t.pagesFrom first stop = [] := by
  rw [← List.length_eq_zero_iff, length_pagesFrom]
  exact Nat.sub_eq_zero_of_le h

theorem pagesFrom_succ (h : first ≤ stop) :
    t.pagesFrom first (stop + 1) = t.pagesFrom first stop ++ [⟨t.id, UInt32.ofNat stop⟩] := by
  unfold pagesFrom
  rw [Nat.succ_sub h, List.range'_1_concat, List.map_append, Nat.add_sub_cancel' h]
  rfl

/-- No page is left out unless the first one was missing at first. -/
theorem pagesFrom_firstTaken_iff :
    t.pagesFrom (t.firstTaken d) stop = t.pagesFrom 0 stop ↔ 0 < t.pageCount d ∨ stop = 0 := by
  unfold firstTaken
  by_cases hnone : t.pageCount d = 0
  · rw [if_pos hnone, hnone]
    constructor
    · intro heq
      have hlength := congrArg List.length heq
      simp only [length_pagesFrom] at hlength
      right
      omega
    · rintro (hpos | rfl)
      · exact absurd hpos (UInt32.lt_irrefl 0)
      · rfl
  · rw [if_neg hnone]
    exact iff_of_true rfl (.inl (UInt32.pos_iff_ne_zero.mpr hnone))

end TableFile

namespace Scan
variable {σ : Type} {source : PageSource σ} {I : World σ → Prop} {t : TableFile} {first : Nat}
  {s s' : Scan} {w w' : World (σ × List PageId)} {st st' : Scan × World (σ × List PageId)}

/-- A scan that has taken the pages from number `first` up to the one at hand, in order; its rows at
hand are of these pages. If it has taken none, `first` is the next one. -/
structure Covers (I : World σ → Prop) (t : TableFile) (first : Nat)
    (st : Scan × World (σ × List PageId)) : Prop where
  inv : I st.2.unlisted
  table : st.1.table = t
  first_le : first ≤ st.1.number.toNat + 1
  taken : st.2.source.2 = t.pagesFrom first (st.1.number.toNat + 1)
  within : st.1.number.toNat < ceilDiv (st.2.disk.fileAt t.location).length t.pageSize ∨
    first = st.1.number.toNat + 1
  rows : ∃ rows, st.1.current = some rows ∧
    ∀ r ∈ rows, ∃ rid, r.rid = some rid ∧ rid.pageId ∈ st.2.source.2

/-- It stays so while the file gets longer. -/
theorem Covers.grow (h : Covers I t first (s, w)) {v : World σ} (hv : I v)
    (hlength : (w.disk.fileAt t.location).length ≤ (v.disk.fileAt t.location).length) :
    Covers I t first (s, v.listing w.source.2) where
  inv := hv
  table := h.table
  first_le := h.first_le
  taken := h.taken
  within := h.within.imp_left fun hlt =>
    hlt.trans_le (ceilDiv_le_ceilDiv hlength _)
  rows := h.rows

section Growing
variable (hsource : source.Provides I t)
  (hgrows : ∀ txn id permission w, I w → (w.disk.fileAt t.location).length ≤
    (((source txn id permission).outcome w).2.disk.fileAt t.location).length)
include hsource hgrows

/-- A page that is taken is listed, and its rows come at hand. -/
theorem takes_page {number : UInt32} {rows : List Row} (hw : I w.unlisted) (hs : s.table = t)
    (hwithin : number < t.pageCount w.disk)
    (hrows : (pageRows source.listed s number).outcome w = (.ok rows, w')) :
    I w'.unlisted ∧ w'.source.2 = w.source.2 ++ [⟨t.id, number⟩] ∧
      number.toNat < ceilDiv (w'.disk.fileAt t.location).length t.pageSize ∧
      ∀ r ∈ rows, ∃ rid, r.rid = some rid ∧ rid.pageId ∈ w'.source.2 := by
  subst hs
  obtain ⟨h, p, hout, hload, rfl⟩ := exists_page_of_pageRows hwithin hrows
  rw [outcome_listed] at hout
  have hkeeps := hsource.keeps s.txn ⟨s.table.id, number⟩ .readOnly w.unlisted hw
  have hlength := hgrows s.txn ⟨s.table.id, number⟩ .readOnly w.unlisted hw
  rcases hbare : (source s.txn ⟨s.table.id, number⟩ .readOnly).outcome w.unlisted with ⟨r, v⟩
  rw [hbare] at hout hkeeps hlength
  obtain ⟨rfl, rfl⟩ := Prod.mk.inj hout
  have hp := hsource.page hw hbare hload
  refine ⟨hkeeps, rfl, ?_, fun r hr => ?_⟩
  · rw [UInt32.lt_iff_toNat_lt, TableFile.pageCount, TableFile.pagesIn,
      UInt32.toNat_ofNat'] at hwithin
    calc number.toNat
        < ceilDiv (w.disk.fileAt s.table.location).length s.table.pageSize :=
          hwithin.trans_le (Nat.mod_le _ _)
      _ ≤ ceilDiv (v.disk.fileAt s.table.location).length s.table.pageSize :=
          ceilDiv_le_ceilDiv hlength _
  · obtain ⟨rid, hrid, hplace⟩ := hp.sound.pageId_of_mem_rows hr
    refine ⟨rid, hrid, ?_⟩
    rw [hplace, hp.id_eq]
    exact List.mem_append_right _ (List.mem_singleton_self _)

/-- Turning pages takes them one after the other. -/
theorem Covers.turned (hturned : Turned source.listed st st') (h : Covers I t first st) :
    Covers I t first st' ∧ st.2.source.2 ⊆ st'.2.source.2 := by
  induction hturned with
  | refl => exact ⟨h, List.Subset.refl _⟩
  | @next s w w' rows st' _ hmore hwithin hrows _ ih =>
    have hs : s.table = t := h.table
    rw [hs] at hwithin
    obtain ⟨hw', hlist, hlt, horigin⟩ := takes_page hsource hgrows h.inv hs hwithin hrows
    have hnext := TableStore.toNat_succ hmore
    have hcovers : Covers I t first ({ s with number := s.number + 1, current := some rows }, w') := by
      refine ⟨hw', hs, ?_, ?_, .inl hlt, rows, rfl, horigin⟩
      · rw [hnext]
        exact Nat.le_succ_of_le h.first_le
      · rw [hnext, hlist, TableFile.pagesFrom_succ h.first_le, h.taken,
          TableStore.ofNat_toNat_succ]
    obtain ⟨hend, hsub⟩ := ih hcovers
    refine ⟨hend, List.Subset.trans ?_ hsub⟩
    rw [hlist]
    exact List.subset_append_left _ _

/-- A scan that is opened takes the first page, if there is one. -/
theorem Covers.start {w : World σ} (hw : I w) (hs : s.table = t)
    (h : (start source.listed).outcome (s, w.listing []) = (.ok (), st)) :
    Covers I t (t.firstTaken w.disk) st := by
  unfold TableFile.firstTaken
  rw [outcome_start] at h
  rcases hrows : (pageRows source.listed { s with number := 0 } 0).outcome (w.listing []) with
    ⟨e | rows, w'⟩
  · simp [hrows] at h
  · rw [hrows] at h
    obtain ⟨-, rfl⟩ := Prod.mk.inj h
    by_cases hnone : t.pageCount w.disk = 0
    · -- nothing is taken, and the next page in turn is the one behind the first
      rw [outcome_pageRows_of_end source.listed (hs ▸ UInt32.le_of_eq hnone)] at hrows
      cases hrows
      rw [if_pos hnone]
      exact ⟨hw, hs, le_refl 1, rfl, .inr rfl, [], rfl, by simp⟩
    · have hwithin : 0 < t.pageCount w.disk := UInt32.pos_iff_ne_zero.mpr hnone
      obtain ⟨hw', hlist, hlt, horigin⟩ := takes_page hsource hgrows
        (s := { s with number := 0 }) (w := w.listing []) hw hs hwithin hrows
      rw [if_neg hnone]
      exact ⟨hw', hs, Nat.zero_le _, hlist, .inl hlt, rows, rfl, horigin⟩

/-- Asking a scan for another row takes pages until one has rows. -/
theorem Covers.hasNext {more : Bool} (h : Covers I t first st)
    (hout : (hasNext source.listed).outcome st = (.ok more, st')) :
    Covers I t first st' ∧ st.2.source.2 ⊆ st'.2.source.2 ∧
      (more = false → st'.1.number.toNat + 1 < 2 ^ 32 ∧
        t.pageCount st'.2.disk ≤ st'.1.number + 1) := by
  have hasked := asked_hasNext source.listed st
  rw [hout] at hasked
  cases hasked with
  | more hturned =>
    obtain ⟨h', hsub⟩ := h.turned hsource hgrows hturned
    exact ⟨h', hsub, by simp⟩
  | done hturned _ hmore hend =>
    obtain ⟨h', hsub⟩ := h.turned hsource hgrows hturned
    rw [h'.table] at hend
    exact ⟨h', hsub, fun _ => ⟨hmore, hend⟩⟩

/-- The next row is of a page that has been taken. -/
theorem Covers.next {r : Row} (h : Covers I t first st)
    (hout : (next source.listed).outcome st = (.ok r, st')) :
    Covers I t first st' ∧ st.2.source.2 ⊆ st'.2.source.2 ∧
      ∃ rid, r.rid = some rid ∧ rid.pageId ∈ st'.2.source.2 := by
  rw [outcome_next] at hout
  rcases hmore : (Scan.hasNext source.listed).outcome st with ⟨_ | _ | _, s, w⟩
  · simp [hmore] at hout
  · simp [hmore] at hout
  · obtain ⟨h', hsub, -⟩ := h.hasNext hsource hgrows hmore
    obtain ⟨rows, hcurrent, hrows⟩ := h'.rows
    rw [hmore] at hout
    simp only at hcurrent
    cases rows with
    | nil => simp [hcurrent] at hout
    | cons r' rows =>
      simp only [hcurrent] at hout
      obtain ⟨hr, rfl⟩ := Prod.mk.inj hout
      obtain rfl := Except.ok.inj hr
      refine ⟨⟨h'.inv, h'.table, h'.first_le, h'.taken, h'.within, rows, rfl, ?_⟩, hsub, ?_⟩
      · exact fun r hr => hrows r (List.mem_cons_of_mem _ hr)
      · exact hrows _ List.mem_cons_self

end Growing

/-- When there are no more pages, all pages of the table have been taken from the first one on. -/
theorem Covers.total (h : Covers I t first st) (hmore : st.1.number.toNat + 1 < 2 ^ 32)
    (hend : t.pageCount st.2.disk ≤ st.1.number + 1)
    (hsmall : ceilDiv (st.2.disk.fileAt t.location).length t.pageSize < 2 ^ 32) :
    st.2.source.2 = t.pagesFrom first (t.pageCount st.2.disk).toNat := by
  have hcount : (t.pageCount st.2.disk).toNat =
      ceilDiv (st.2.disk.fileAt t.location).length t.pageSize := UInt32.toNat_ofNat_of_lt' hsmall
  rw [UInt32.le_iff_toNat_le, TableStore.toNat_succ hmore, hcount] at hend
  rw [h.taken, hcount]
  rcases h.within with hlt | hnone
  · rw [Nat.le_antisymm hend hlt]
  · rw [TableFile.pagesFrom_of_le hnone.ge, TableFile.pagesFrom_of_le (hend.trans hnone.ge)]

/-- A scan that has no next row since there are no more says so when it is asked, unless the source
fails in that very way. -/
theorem hasNext_of_exhausted {st : Scan × World σ}
    (hkeeps : ∀ txn id permission, Action.Preserves I (source txn id permission))
    (hsource : ∀ txn number permission w, I w →
      ((source txn ⟨t.id, number⟩ permission).outcome w).1 ≠ .error (.error .scanExhausted))
    (hst : I st.2) (htable : st.1.table = t)
    (h : ((next source).outcome st).1 = .error (.error .scanExhausted)) :
    ((hasNext source).outcome st).1 = .ok false := by
  have hasked := asked_hasNext source st
  rw [outcome_next] at h
  generalize (hasNext source).outcome st = out at h hasked
  cases hasked with
  | closed => cases h
  | more _ hcurrent => simp [hcurrent] at h
  | done => rfl
  | last => cases h
  | @failed s w w' e hturned _ hrows =>
    have hw := hturned.preserves hkeeps hst
    have hs := hturned.table_eq.trans htable
    obtain rfl := Except.error.inj h
    subst hs
    rcases pageRows_cases source s (s.number + 1) w with
      ⟨-, hout⟩ | ⟨-, ⟨_, _, _, -, -, hout⟩ | ⟨e, _, hout, he⟩⟩
    · rw [hout] at hrows
      cases hrows
    · rw [hout] at hrows
      cases hrows
    · rw [hout] at hrows
      cases hrows
      rcases he with he | he
      · cases he
      · exact absurd he (hsource _ _ _ w hw)

end Scan

end RowStore
