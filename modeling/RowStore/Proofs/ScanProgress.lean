import RowStore.Proofs.ScanSteps

/-! A scan on its way while its table changes under it: the calls of a scan and calls on its pool
come in any order. The rows come in order, each as it was when its page was fetched, and up to the
page at hand no row is missed that was there all the time. -/
namespace RowStore.Pool

/-- What happens once a scan is open: a call on the pool, or a call of the scan. -/
inductive Move where
  | call (c : Call)
  | hasNext
  | next

/-- The scan and the world after a move. -/
def move (tables : Catalog) (st : Scan × World PageCache) : Move → Scan × World PageCache
  | .call c => (st.1, act tables st.2 c)
  | .hasNext => ((Scan.hasNext (source tables)).outcome st).2
  | .next => ((Scan.next (source tables)).outcome st).2

/-- The row that a move yields. -/
def given? (tables : Catalog) (st : Scan × World PageCache) : Move → Option Row
  | .next => ((Scan.next (source tables)).outcome st).1.toOption
  | _ => none

/-- Whether the scan answers without an error, if the move asks it. -/
def answers (tables : Catalog) (st : Scan × World PageCache) : Move → Bool
  | .call _ => true
  | .hasNext => ((Scan.hasNext (source tables)).outcome st).1.isOk
  | .next => ((Scan.next (source tables)).outcome st).1.isOk

/-- The scan and the world after the first `n` moves. -/
def reached (tables : Catalog) (st : Scan × World PageCache) (moves : List Move) (n : Nat) :
    Scan × World PageCache := (moves.take n).foldl (move tables) st

/-- The rows that moves yield. -/
def yielded (tables : Catalog) (st : Scan × World PageCache) : List Move → List Row
  | [] => []
  | m :: ms => (given? tables st m).toList ++ yielded tables (move tables st m) ms

section Moments
variable (tables : Catalog) (st : Scan × World PageCache) (moves : List Move) (n : Nat)
  (rid : RecordId) (r : Row)

/-- A row that was at one record id all the time from the opening on until after `n` moves. -/
def Steady : Prop := ∀ i ≤ n, (contents tables (reached tables st moves i).2).row? rid = some r

/-- A row that was at its record id when its page was fetched: with the move, or at the opening,
after which the scan is on this page for the first time. -/
def Fetched : Prop := ∃ i ≤ n, (reached tables st moves i).1.number = rid.pageId.page ∧
  (∀ j < i, (reached tables st moves j).1.number < rid.pageId.page) ∧
    (contents tables (reached tables st moves i).2).row? rid = some r

end Moments

variable {tables : Catalog} {s : TableStore} {w : World PageCache} {t : TableFile}
  {st : Scan × World PageCache} {moves : List Move} {n : Nat} {rid : RecordId} {r : Row}
  {number : UInt32} {rows listed : List Row}

@[simp] theorem reached_zero : reached tables st moves 0 = st := rfl

theorem reached_succ (hn : n < moves.length) :
    reached tables st moves (n + 1) = move tables (reached tables st moves n) moves[n] := by
  rw [reached, List.take_succ_eq_append_getElem hn, List.foldl_append]
  rfl

theorem yielded_succ (hn : n < moves.length) : yielded tables st (moves.take (n + 1)) =
    yielded tables st (moves.take n) ++
      (given? tables (reached tables st moves n) moves[n]).toList := by
  induction moves generalizing st n with
  | nil => simp at hn
  | cons m ms ih =>
    cases n with
    | zero => simp [yielded, reached]
    | succ n =>
      simp only [List.take_succ_cons, yielded, List.getElem_cons_succ, List.append_assoc]
      rw [ih (by simpa using hn)]
      rfl

theorem Fetched.mono (h : Fetched tables st moves n rid r) :
    Fetched tables st moves (n + 1) rid r := by
  obtain ⟨i, hi, h⟩ := h
  exact ⟨i, Nat.le_succ_of_le hi, h⟩

theorem Steady.of_succ (h : Steady tables st moves (n + 1) rid r) :
    Steady tables st moves n rid r := fun i hi => h i (Nat.le_succ_of_le hi)

/-- What holds of all rows that were at hand until after `n` moves, when the scan has come to page
`number`. -/
structure Listed (tables : Catalog) (t : TableFile) (st : Scan × World PageCache)
    (moves : List Move) (n : Nat) (number : UInt32) (listed : List Row) : Prop where
  ordered : listed.Pairwise Row.Before
  fetched : ∀ r ∈ listed, ∃ rid, r.rid = some rid ∧ rid.pageId.table = t.id ∧
    rid.pageId.page ≤ number ∧ Fetched tables st moves n rid r
  complete : ∀ rid r, rid.pageId.table = t.id → rid.pageId.page ≤ number →
    Steady tables st moves n rid r → r ∈ listed
  passed : ∀ i ≤ n, (reached tables st moves i).1.number ≤ number

/-- A move at which no page is turned. -/
theorem Listed.stay (h : Listed tables t st moves n number listed)
    (hnumber : (reached tables st moves (n + 1)).1.number = number) :
    Listed tables t st moves (n + 1) number listed := by
  refine ⟨h.ordered, ?_, ?_, ?_⟩
  · intro r hr
    obtain ⟨rid, hrid, htable, hpage, hfetched⟩ := h.fetched r hr
    exact ⟨rid, hrid, htable, hpage, hfetched.mono⟩
  · intro rid r htable hpage hsteady
    exact h.complete rid r htable hpage hsteady.of_succ
  · intro i hi
    rcases Nat.le_succ_iff.mp hi with hi | rfl
    · exact h.passed i hi
    · exact UInt32.le_of_eq hnumber

section Turning
variable (hb : tables.Apart) (ht : tables.table? t.id = some t)
include hb ht

/-- The rows of a page to which the scan has just come are fetched now. -/
theorem fetched_of_read {p : Page} (hkeeps : Keeps tables s (reached tables st moves n).2)
    (hnumber : (reached tables st moves n).1.number = number)
    (hfirst : ∀ j < n, (reached tables st moves j).1.number < number)
    (hread : s.read t ⟨t.id, number⟩ = .ok p) (hr : r ∈ p.rows) :
    ∃ rid, r.rid = some rid ∧ rid.pageId = ⟨t.id, number⟩ ∧ Fetched tables st moves n rid r := by
  obtain ⟨rid, hpage, hrid, hrow⟩ := TableStore.row?_of_mem_rows hb hkeeps.sized ht hread hr
  rw [← hkeeps.contents_eq hb] at hrow
  refine ⟨rid, hrid, hpage, n, le_refl n, ?_, ?_, hrow⟩
  · rw [hnumber, hpage]
  · rw [hpage]
    exact hfirst

/-- A move at which pages are turned: the rows of the last one come at hand. -/
theorem Listed.turn (h : Listed tables t st moves n number listed) {there : UInt32 × List Row}
    {p : Page} (hkeeps : Keeps tables s (reached tables st moves (n + 1)).2)
    (hnumber : (reached tables st moves (n + 1)).1.number = there.1)
    (hturns : Turns s t (number, rows) there) (hlt : number < there.1)
    (hread : s.read t ⟨t.id, there.1⟩ = .ok p) (hrows : p.rows = there.2) :
    Listed tables t st moves (n + 1) there.1 (listed ++ there.2) := by
  have hle := UInt32.le_of_lt hlt
  have hnew : ∀ r ∈ there.2, ∃ rid, r.rid = some rid ∧ rid.pageId = ⟨t.id, there.1⟩ ∧
      Fetched tables st moves (n + 1) rid r := by
    intro r hr
    refine fetched_of_read hb ht hkeeps hnumber (fun j hj => ?_) hread (hrows ▸ hr)
    exact UInt32.lt_of_le_of_lt (h.passed j (Nat.le_of_lt_succ hj)) hlt
  refine ⟨?_, ?_, ?_, ?_⟩
  · rw [List.pairwise_append]
    refine ⟨h.ordered, hrows ▸ TableStore.rows_ordered_of_read hb hkeeps.sized ht hread, ?_⟩
    intro a ha b hb'
    obtain ⟨x, hx, -, hpage, -⟩ := h.fetched a ha
    obtain ⟨y, hy, hplace, -⟩ := hnew b hb'
    refine ⟨x, y, hx, hy, .inl ?_⟩
    rw [hplace]
    exact UInt32.lt_of_le_of_lt hpage hlt
  · intro r hr
    rcases List.mem_append.mp hr with hr | hr
    · obtain ⟨rid, hrid, htable, hpage, hfetched⟩ := h.fetched r hr
      exact ⟨rid, hrid, htable, UInt32.le_trans hpage hle, hfetched.mono⟩
    · obtain ⟨rid, hrid, hplace, hfetched⟩ := hnew r hr
      exact ⟨rid, hrid, by rw [hplace], UInt32.le_of_eq (by rw [hplace]), hfetched⟩
  · intro rid r htable hpage hsteady
    rw [List.mem_append]
    rcases UInt32.lt_or_le number rid.pageId.page with hbehind | hbefore
    · -- its page was turned by this move, so what the contents say now is what was turned
      right
      have hrow := hsteady (n + 1) (le_refl _)
      rw [hkeeps.contents_eq hb] at hrow
      exact hturns.mem_of_row? ht htable hbehind hpage hrow
    · exact .inl (h.complete rid r htable hbefore hsteady.of_succ)
  · intro i hi
    rcases Nat.le_succ_iff.mp hi with hi | rfl
    · exact UInt32.le_trans (h.passed i hi) hle
    · exact UInt32.le_of_eq hnumber

theorem Listed.turns (h : Listed tables t st moves n number (listed ++ rows))
    {there : UInt32 × List Row}
    (hkeeps : Keeps tables s (reached tables st moves (n + 1)).2)
    (hnumber : (reached tables st moves (n + 1)).1.number = there.1)
    (hturns : Turns s t (number, rows) there) :
    Listed tables t st moves (n + 1) there.1 (listed ++ there.2) := by
  rcases hturns.cases with rfl | ⟨rfl, hlt, ⟨p, hread, hrows⟩, -⟩
  · exact h.stay hnumber
  · rw [List.append_nil] at h
    exact h.turn hb ht hkeeps hnumber hturns hlt hread hrows

/-- Each move is a call on the pool, or it turns pages and yields a row at most. -/
theorem move_cases (hw : Keeps tables s st.2) (htable : st.1.table = t)
    (hcurrent : st.1.current = some rows) {m : Move} (hm : answers tables st m) :
    (∃ c, m = .call c) ∨ Keeps tables s (move tables st m).2 ∧ (move tables st m).1.table = t ∧
      ∃ rows', (move tables st m).1.current = some rows' ∧ Turns s t (st.1.number, rows)
        ((move tables st m).1.number, (given? tables st m).toList ++ rows') := by
  obtain ⟨sc, w⟩ := st
  cases m with
  | call c => exact .inl ⟨c, rfl⟩
  | hasNext =>
    right
    rcases hout : (Scan.hasNext (source tables)).outcome (sc, w) with ⟨e | more, st'⟩
    · simp [answers, hout, Except.isOk, Except.toBool] at hm
    · obtain ⟨hw', number, rows', hst', hturns, -⟩ := hw.hasNext_ok hb ht htable hcurrent hout
      simp only [move, given?, hout, hst']
      exact ⟨hw', htable, rows', rfl, hturns⟩
  | next =>
    right
    rcases hout : (Scan.next (source tables)).outcome (sc, w) with ⟨e | r, st'⟩
    · simp [answers, hout, Except.isOk, Except.toBool] at hm
    · obtain ⟨hw', number, rows', hst', hturns⟩ := hw.next_ok hb ht htable hcurrent hout
      simp only [move, given?, hout, hst']
      exact ⟨hw', htable, rows', rfl, hturns⟩

/-- The same along the moves: with a call the scan stays as it is; otherwise what it turns to is
at hand or yielded. -/
theorem reached_cases (hn : n < moves.length)
    (hw : Keeps tables s (reached tables st moves n).2)
    (htable : (reached tables st moves n).1.table = t)
    (hcurrent : (reached tables st moves n).1.current = some rows)
    (hanswers : answers tables (reached tables st moves n) moves[n]) :
    (∃ c, moves[n] = .call c ∧ reached tables st moves (n + 1) =
        ((reached tables st moves n).1, act tables (reached tables st moves n).2 c) ∧
      yielded tables st (moves.take (n + 1)) = yielded tables st (moves.take n)) ∨
    Keeps tables s (reached tables st moves (n + 1)).2 ∧
      (reached tables st moves (n + 1)).1.table = t ∧
      ∃ rows' ahead, (reached tables st moves (n + 1)).1.current = some rows' ∧
        yielded tables st (moves.take (n + 1)) ++ rows' =
          yielded tables st (moves.take n) ++ ahead ∧
        Turns s t ((reached tables st moves n).1.number, rows)
          ((reached tables st moves (n + 1)).1.number, ahead) := by
  rw [reached_succ hn, yielded_succ hn]
  rcases move_cases hb ht hw htable hcurrent hanswers with
    ⟨c, hc⟩ | ⟨hw', htable', rows', hcurrent', hturns⟩
  · left
    rw [hc]
    exact ⟨c, rfl, rfl, List.append_nil _⟩
  · exact .inr ⟨hw', htable', rows', _, hcurrent', List.append_assoc _ _ _, hturns⟩

end Turning

/-- A scan on its way through the table after `n` moves. -/
structure OnTrack (tables : Catalog) (t : TableFile) (st : Scan × World PageCache)
    (moves : List Move) (n : Nat) : Prop where
  coherent : Coherent tables (reached tables st moves n).2
  table : (reached tables st moves n).1.table = t
  listed : ∃ rows, (reached tables st moves n).1.current = some rows ∧
    Listed tables t st moves n (reached tables st moves n).1.number
      (yielded tables st (moves.take n) ++ rows)

section Run
variable (hb : tables.Apart) (ht : tables.table? t.id = some t)
include hb ht

/-- At the opening the rows of the first page are listed. -/
theorem Listed.start (moves : List Move) (hw : Keeps tables s st.2) (hsmall : s.Small tables)
    (hnumber : st.1.number = 0) (hrows : s.pageRows t 0 = .ok rows) :
    Listed tables t st moves 0 0 rows := by
  have hpassed : ∀ i ≤ 0, (reached tables st moves i).1.number ≤ 0 := by
    intro i hi
    obtain rfl := Nat.le_zero.mp hi
    exact UInt32.le_of_eq hnumber
  have hbound : ∀ rid r, rid.pageId.table = t.id → Steady tables st moves 0 rid r →
      (s.contents tables).row? rid = some r ∧ rid.pageId.page < t.pagesIn (s.length t.id) := by
    intro rid r htable hsteady
    have hrow := hsteady 0 (le_refl 0)
    rw [reached_zero, hw.contents_eq hb] at hrow
    exact ⟨hrow, TableStore.lt_pagesIn_of_row? hb hsmall (htable ▸ ht) hrow⟩
  unfold TableStore.pageRows at hrows
  split at hrows
  · next hend =>
    obtain rfl := Except.ok.inj hrows
    -- a table without pages has no rows, whatever is appended later
    refine ⟨.nil, by simp, ?_, hpassed⟩
    intro rid r htable hpage hsteady
    have hlt := UInt32.lt_of_lt_of_le (hbound rid r htable hsteady).2 hend
    exact absurd hlt UInt32.not_lt_zero
  · obtain ⟨p, hread, rfl⟩ := map_eq_ok.mp hrows
    refine ⟨TableStore.rows_ordered_of_read hb hw.sized ht hread, ?_, ?_, hpassed⟩
    · intro r hr
      have hw' : Keeps tables s (reached tables st moves 0).2 := hw
      obtain ⟨rid, hrid, hplace, hfetched⟩ := fetched_of_read hb ht hw' hnumber (by simp) hread hr
      exact ⟨rid, hrid, by rw [hplace], UInt32.le_of_eq (by rw [hplace]), hfetched⟩
    · rintro ⟨⟨k, page⟩, slot⟩ r (rfl : k = t.id) hpage hsteady
      obtain rfl : page = 0 := UInt32.le_zero_iff.mp hpage
      exact TableStore.mem_rows_of_row? ht (hbound _ r rfl hsteady).1 hread

/-- A scan that has been opened is on its way, with the rows of the first page at hand. -/
theorem OnTrack.start {sc : Scan} (moves : List Move) (hw : Keeps tables s w)
    (hsmall : s.Small tables) (hsc : sc.table = t)
    (h : (Scan.start (source tables)).outcome (sc, w) = (.ok (), st)) :
    OnTrack tables t st moves 0 := by
  obtain ⟨hw', rows, hrows, hst⟩ := hw.start_ok hb ht hsc h
  have hnumber : st.1.number = 0 := by rw [hst]
  refine ⟨hw'.coherent, ?_, rows, ?_, ?_⟩
  · rw [reached_zero, hst]
    exact hsc
  · rw [reached_zero, hst]
  · have hlisted := Listed.start hb ht moves hw' hsmall hnumber hrows
    exact hnumber.symm ▸ hlisted

theorem OnTrack.step (hn : n < moves.length)
    (hcounted : tables.Counted (reached tables st moves n).2.disk)
    (hanswers : answers tables (reached tables st moves n) moves[n])
    (h : OnTrack tables t st moves n) : OnTrack tables t st moves (n + 1) := by
  obtain ⟨rows, hcurrent, hlisted⟩ := h.listed
  have hkeeps := h.coherent.keeps
  rcases reached_cases hb ht hn hkeeps h.table hcurrent hanswers with
    ⟨c, -, hreached, hyielded⟩ | ⟨hkeeps', htable, rows', ahead, hcurrent', hyielded, hturns⟩
  · have hscan : (reached tables st moves (n + 1)).1 = (reached tables st moves n).1 := by
      rw [hreached]
    refine ⟨?_, hscan ▸ h.table, rows, hscan ▸ hcurrent, ?_⟩
    · rw [hreached]
      exact (h.coherent.step hb hcounted c).1
    · rw [hyielded, hscan]
      exact hlisted.stay (by rw [hscan])
  · refine ⟨hkeeps'.coherent, htable, rows', hcurrent', ?_⟩
    rw [hyielded]
    exact hlisted.turns hb ht hkeeps' rfl hturns

/-- Every move keeps the scan on its way. -/
theorem OnTrack.run (hcounted : ∀ n, tables.Counted (reached tables st moves n).2.disk)
    (hanswers : ∀ n (hn : n < moves.length), answers tables (reached tables st moves n) moves[n])
    (h : OnTrack tables t st moves 0) : ∀ n ≤ moves.length, OnTrack tables t st moves n := by
  intro n
  induction n with
  | zero => exact fun _ => h
  | succ n ih =>
    intro hn
    exact (ih (Nat.le_of_succ_le hn)).step hb ht hn (hcounted n) (hanswers n hn)

end Run

end RowStore.Pool
