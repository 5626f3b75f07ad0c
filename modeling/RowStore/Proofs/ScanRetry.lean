import RowStore.Proofs.ScanRestart

/-! Scans of a table that does not change, over a source that may refuse any page at any time. What
a step is refused it can ask for again: the rows to come are then the same. -/
namespace RowStore

namespace PageSource
variable {σ : Type}

/-- A source of the pages of a table that does not change. In worlds with `I` it hands out the page
that is asked for, with its rows in `pages`, or it fails, for whatever reason. -/
structure Shows (source : PageSource σ) (I : World σ → Prop) (t : TableFile)
    (pages : List (List Row)) : Prop where
  counted : pages.length < 2 ^ 32
  ceilDiv_eq : ∀ {w}, I w → ceilDiv (w.disk.fileAt t.location).length t.pageSize = pages.length
  keeps : ∀ txn id permission, Action.Preserves I (source txn id permission)
  page : ∀ {txn number permission w h w'}, I w → number.toNat < pages.length →
    (source txn ⟨t.id, number⟩ permission).outcome w = (.ok h, w') →
      ∃ p, w'.loaded[h.index]? = some p ∧ pages[number.toNat]? = some p.rows

/-- The source was asked for a page of the table, failed with an error, and left this world. -/
def Refused (source : PageSource σ) (I : World σ → Prop) (t : TableFile) (pages : List (List Row))
    (e : Failure FileError) (w' : World σ) : Prop :=
  ∃ txn number permission w, I w ∧ number.toNat < pages.length ∧
    (source txn ⟨t.id, number⟩ permission).outcome w = (.error e, w')

end PageSource

namespace Scan
variable {σ : Type}

/-- The rows that a scan has still to give, if it is open. -/
abbrev Cursor := Option (List Row)

/-- The rows at hand and those of the pages ahead. -/
def ahead (pages : List (List Row)) (s : Scan) : Cursor :=
  s.current.map (· ++ (pages.drop (s.number.toNat + 1)).flatten)

/-- What a scan with these rows to come answers when it is asked whether there is another one. -/
def Cursor.hasNext : Cursor → Except (Failure FileError) Bool
  | none => .error (.error .scanNotOpen)
  | some rows => .ok !rows.isEmpty

/-- What it answers when it is asked for the next row, and the rows to come then. -/
def Cursor.next : Cursor → Except (Failure FileError) Row × Cursor
  | none => (.error (.error .scanNotOpen), none)
  | some [] => (.error (.error .scanExhausted), some [])
  | some (r :: rows) => (.ok r, some rows)

/-- A scan of the table is on one of its pages, or on the first one if there are none. -/
structure Within (I : World σ → Prop) (t : TableFile) (pages : List (List Row))
    (st : Scan × World σ) : Prop where
  inv : I st.2
  table : st.1.table = t
  le : st.1.number.toNat ≤ pages.length - 1

/-- The events while a caller takes rows and tries again: the scan is not opened, rewound or closed,
and what else happens keeps `I`. -/
def GoesOn (I : World σ → Prop) : Event σ → Prop
  | .step x => x = .hasNext ∨ x = .next
  | .change f => ∀ w, I w → I (f w)

/-- Whatever failed so far, the rows given begin the rows of the table. The next answer goes on from
there, and tells the end just where all rows are given, unless the source refuses a page. -/
structure Resumes (source : PageSource σ) (I : World σ → Prop) (t : TableFile)
    (pages : List (List Row)) (given : List Row) (st : Scan × World σ) : Prop where
  given_prefix : given <+: pages.flatten
  hasNext : (∃ more, ((hasNext source).outcome st).1 = .ok more ∧
      (more = true ↔ given ≠ pages.flatten)) ∨
    ∃ e, ((hasNext source).outcome st).1 = .error e ∧
      source.Refused I t pages e ((hasNext source).outcome st).2.2
  next : (∃ r, ((next source).outcome st).1 = .ok r ∧ given ++ [r] <+: pages.flatten) ∨
    ((next source).outcome st).1 = .error (.error .scanExhausted) ∧ given = pages.flatten ∨
      ∃ e, ((next source).outcome st).1 = .error e ∧
        source.Refused I t pages e ((next source).outcome st).2.2

section Showing
variable {source : PageSource σ} {I : World σ → Prop} {t : TableFile} {pages : List (List Row)}
  {s : Scan} {w : World σ} {st st' : Scan × World σ} {given rest : List Row}
variable (hsource : source.Shows I t pages)
include hsource

theorem pageCount_eq (hw : I w) : (t.pageCount w.disk).toNat = pages.length := by
  unfold TableFile.pageCount TableFile.pagesIn
  rw [hsource.ceilDiv_eq hw, UInt32.toNat_ofNat_of_lt' hsource.counted]

/-- The rows of a page are the right ones, unless the source refuses the page. -/
theorem shown_pageRows (hw : I w) (hs : s.table = t) (number : UInt32) :
    I ((pageRows source s number).outcome w).2 ∧
      (((pageRows source s number).outcome w).1 = .ok (pages[number.toNat]?.getD []) ∨
        ∃ e, ((pageRows source s number).outcome w).1 = .error e ∧
          source.Refused I t pages e ((pageRows source s number).outcome w).2) := by
  subst hs
  refine ⟨preserves_pageRows hsource.keeps s number w hw, ?_⟩
  have hcount := pageCount_eq hsource hw
  unfold pageRows
  simp only [Action.outcome_bind, Action.outcome_get]
  by_cases hend : s.table.pageCount w.disk ≤ number
  · rw [UInt32.le_iff_toNat_le, hcount] at hend
    simp only [if_pos (UInt32.le_iff_toNat_le.mpr (hcount.le.trans hend)),
      List.getElem?_eq_none hend]
    exact .inl rfl
  · rw [if_neg hend]
    rw [UInt32.le_iff_toNat_le, hcount, not_le] at hend
    rcases hout : (source s.txn ⟨s.table.id, number⟩ .readOnly).outcome w with ⟨e | h, w'⟩
    · right
      simp only [Action.outcome_bind, hout]
      exact ⟨e, rfl, s.txn, number, .readOnly, w, hw, hend, hout⟩
    · obtain ⟨p, hload, hrows⟩ := hsource.page hw hend hout
      simp only [Action.outcome_bind, hout, World.outcome_page, hload, hrows]
      exact .inl rfl

/-- Turning pages leaves the rows to come as they are. -/
theorem Within.turned (h : Turned source st st') (hst : Within I t pages st) :
    Within I t pages st' ∧ st'.1.ahead pages = st.1.ahead pages := by
  induction h with
  | refl => exact ⟨hst, rfl⟩
  | @next s w w' rows st' hcurrent hmore hwithin hrows _ ih =>
    obtain ⟨hw, hs, hle⟩ := hst
    have hnext := TableStore.toNat_succ hmore
    obtain ⟨hw', hshown⟩ := shown_pageRows hsource hw hs (s.number + 1)
    rw [hrows] at hw' hshown
    rw [UInt32.lt_iff_toNat_lt, hs, pageCount_eq hsource hw] at hwithin
    rcases hshown with hok | ⟨e, he, -⟩
    · obtain ⟨hst', hahead⟩ := ih ⟨hw', hs, Nat.le_sub_one_of_lt hwithin⟩
      refine ⟨hst', hahead.trans ?_⟩
      rw [List.getElem?_eq_getElem hwithin] at hok
      obtain rfl : rows = pages[(s.number + 1).toNat] := Except.ok.inj hok
      unfold ahead
      rw [hcurrent, ← hnext, List.drop_eq_getElem_cons hwithin]
      rfl
    · cases he

/-- Asking for another row leaves the rows to come as they are. The answer says whether there are
any, unless the source refuses a page. -/
theorem Within.hasNext (hst : Within I t pages st)
    {out : Except (Failure FileError) Bool × Scan × World σ}
    (hout : (Scan.hasNext source).outcome st = out) :
    Within I t pages out.2 ∧ out.2.1.ahead pages = st.1.ahead pages ∧
      (out.1 = Cursor.hasNext (st.1.ahead pages) ∨
        ∃ e, out.1 = .error e ∧ source.Refused I t pages e out.2.2) ∧
          (out.1 = .ok true → ∃ r rows, out.2.1.current = some (r :: rows)) := by
  have hasked := asked_hasNext source st
  rw [hout] at hasked
  cases hasked with
  | closed hcurrent => exact ⟨hst, rfl, .inl (by simp [ahead, hcurrent, Cursor.hasNext]), by simp⟩
  | @more s w r rows h hcurrent =>
    obtain ⟨hst', hahead⟩ := hst.turned hsource h
    refine ⟨hst', hahead, .inl ?_, fun _ => ⟨r, rows, hcurrent⟩⟩
    rw [← hahead]
    simp [ahead, hcurrent, Cursor.hasNext]
  | @done s w h hcurrent hmore hend =>
    obtain ⟨hst', hahead⟩ := hst.turned hsource h
    refine ⟨hst', hahead, .inl ?_, by simp⟩
    rw [UInt32.le_iff_toNat_le, hst'.table, pageCount_eq hsource hst'.inv,
      TableStore.toNat_succ hmore] at hend
    rw [← hahead]
    simp [ahead, hcurrent, Cursor.hasNext, List.drop_eq_nil_of_le hend]
  | @last s w h hcurrent hlast =>
    -- the last page that 32 bits can count is not a page of the table
    obtain ⟨hst', -⟩ := hst.turned hsource h
    have hcounted := hsource.counted
    have hle : s.number.toNat ≤ pages.length - 1 := hst'.le
    omega
  | failed h hcurrent hrows =>
    obtain ⟨hst', hahead⟩ := hst.turned hsource h
    obtain ⟨hw', hshown⟩ := shown_pageRows hsource hst'.inv hst'.table _
    rw [hrows] at hw' hshown
    rcases hshown with hok | ⟨e, he, hrefused⟩
    · cases hok
    · cases he
      exact ⟨⟨hw', hst'.table, hst'.le⟩, hahead, .inr ⟨_, rfl, hrefused⟩, by simp⟩

/-- The next row is the first one of those to come. If the source refuses a page, they stay as they
are. -/
theorem Within.next (hst : Within I t pages st)
    {out : Except (Failure FileError) Row × Scan × World σ}
    (hout : (Scan.next source).outcome st = out) :
    Within I t pages out.2 ∧ ((out.1, out.2.1.ahead pages) = Cursor.next (st.1.ahead pages) ∨
      out.2.1.ahead pages = st.1.ahead pages ∧
        ∃ e, out.1 = .error e ∧ source.Refused I t pages e out.2.2) := by
  subst hout
  rw [outcome_next]
  rcases hmore : (Scan.hasNext source).outcome st with ⟨res, s, w⟩
  obtain ⟨hst', hahead, hres, hcurrent⟩ := hst.hasNext hsource hmore
  dsimp only at hahead hres hcurrent
  rcases hres with rfl | ⟨e, rfl, hrefused⟩
  · rw [← hahead] at hcurrent ⊢
    rcases hrows : s.current with _ | rows
    · have hclosed : s.ahead pages = none := by simp [ahead, hrows]
      simp only [hclosed, Cursor.hasNext, Cursor.next]
      exact ⟨hst', .inl trivial⟩
    · rcases hcoming : s.ahead pages with _ | _ | ⟨r, coming⟩
      · simp [ahead, hrows] at hcoming
      · simp only [Cursor.hasNext, Cursor.next, List.isEmpty_nil, Bool.not_true]
        exact ⟨hst', .inl (by simp [hcoming])⟩
      · rw [hcoming] at hcurrent
        obtain ⟨r', rows', hhand⟩ := hcurrent rfl
        obtain rfl := Option.some.inj (hrows.symm.trans hhand)
        simp only [Cursor.hasNext, Cursor.next, List.isEmpty_cons, Bool.not_false, hrows]
        refine ⟨⟨hst'.inv, hst'.table, hst'.le⟩, .inl ?_⟩
        unfold ahead at hcoming ⊢
        rw [hrows] at hcoming
        simpa [eq_comm] using hcoming
  · exact ⟨hst', .inr ⟨hahead, e, rfl, hrefused⟩⟩

/-- A scan that is opened has the rows of the table to come, unless the source refuses a page. -/
theorem shown_start (hw : I w) (hs : s.table = t)
    {out : Except (Failure FileError) Unit × Scan × World σ}
    (hout : (start source).outcome (s, w) = out) :
    out.1 = .ok () ∧ Within I t pages out.2 ∧ out.2.1.ahead pages = some pages.flatten ∨
      ∃ e, out.1 = .error e ∧ source.Refused I t pages e out.2.2 := by
  rw [outcome_start] at hout
  have hshown := shown_pageRows hsource hw (s := { s with number := 0 }) hs 0
  rcases hrows : (pageRows source { s with number := 0 } 0).outcome w with ⟨e | rows, w'⟩
  · rw [hrows] at hout hshown
    obtain ⟨-, hok | ⟨e', he, hrefused⟩⟩ := hshown
    · cases hok
    · cases he
      subst hout
      exact .inr ⟨e, rfl, hrefused⟩
  · rw [hrows] at hout hshown
    obtain ⟨hw', hok | ⟨e, he, -⟩⟩ := hshown
    · obtain rfl := Except.ok.inj hok
      subst hout
      refine .inl ⟨rfl, ⟨hw', hs, Nat.zero_le _⟩, congrArg some ?_⟩
      cases pages <;> rfl
    · cases he

/-- The rows given and those to come are the rows of the table. -/
structure Reads (I : World σ → Prop) (t : TableFile) (pages : List (List Row)) (given : List Row)
    (st : Scan × World σ) : Prop extends Within I t pages st where
  split : ∃ rest, st.1.ahead pages = some rest ∧ given ++ rest = pages.flatten

omit hsource in
theorem Reads.of_ahead (h : Reads I t pages given st) (hst : Within I t pages st')
    (hahead : st'.1.ahead pages = st.1.ahead pages) : Reads I t pages given st' :=
  ⟨hst, by rw [hahead]; exact h.split⟩

/-- Whatever fails, the rows given and those to come stay the rows of the table. -/
theorem Reads.happen {st : List Row × Scan × World σ} (h : Reads I t pages st.1 st.2)
    {event : Event σ} (hgoes : GoesOn I event) :
    Reads I t pages (happen source st event).1 (happen source st event).2 := by
  match event with
  | .change f => exact ⟨⟨hgoes _ h.inv, h.table, h.le⟩, h.split⟩
  | .step x =>
    rcases hgoes with rfl | rfl
    · obtain ⟨hst, hahead, -⟩ := h.toWithin.hasNext hsource rfl
      exact h.of_ahead hst hahead
    · obtain ⟨hst, hres⟩ := h.toWithin.next hsource rfl
      obtain ⟨rest, hrest, hsplit⟩ := h.split
      rw [hrest] at hres
      unfold Scan.happen
      generalize (Scan.next source).outcome st.2 = out at hst hres ⊢
      obtain ⟨res, st'⟩ := out
      rcases hres with hres | ⟨hahead, e, rfl, -⟩
      · cases rest with
        | nil =>
          obtain ⟨rfl, hahead⟩ := Prod.mk.inj hres
          exact ⟨hst, [], hahead, by simpa [Except.toOption] using hsplit⟩
        | cons r rest =>
          obtain ⟨rfl, hahead⟩ := Prod.mk.inj hres
          exact ⟨hst, rest, hahead, by simpa [Except.toOption] using hsplit⟩
      · exact ⟨hst, rest, hahead, by simpa [Except.toOption] using hsplit⟩

theorem Reads.run {events : List (Event σ)} (hgoes : ∀ event ∈ events, GoesOn I event)
    {st : List Row × Scan × World σ} (h : Reads I t pages st.1 st.2) :
    Reads I t pages (events.foldl (Scan.happen source) st).1
      (events.foldl (Scan.happen source) st).2 := by
  induction events generalizing st with
  | nil => exact h
  | cons event events ih =>
    apply ih
    · intro event' hevent'
      exact hgoes event' (List.mem_cons_of_mem _ hevent')
    · exact h.happen hsource (hgoes event List.mem_cons_self)

/-- A scan whose rows to come follow on those given answers with the first of them. -/
theorem Reads.resumes (h : Reads I t pages given st) : Resumes source I t pages given st := by
  obtain ⟨rest, hrest, hsplit⟩ := h.split
  obtain ⟨-, -, hmore, -⟩ := h.toWithin.hasNext hsource rfl
  obtain ⟨-, hnext⟩ := h.toWithin.next hsource rfl
  rw [hrest] at hmore hnext
  refine ⟨⟨rest, hsplit⟩, hmore.imp_left fun hres => ⟨_, hres, ?_⟩, ?_⟩
  · rw [← hsplit]
    simp
  · rcases hnext with hres | ⟨-, hrefused⟩
    · cases rest with
      | nil =>
        right
        left
        exact ⟨(Prod.mk.inj hres).1, by simpa using hsplit⟩
      | cons r rest =>
        left
        exact ⟨r, (Prod.mk.inj hres).1, rest, by simpa using hsplit⟩
    · exact .inr (.inr hrefused)

end Showing

/-- Over every source that hands out the right pages or fails, a scan that has been opened gives a
beginning of the rows of the table, in order and without a gap, however often it is refused a page
and asked again. It tells the end only once it has given all of them. -/
theorem scan_resumes {source : PageSource σ} {I : World σ → Prop} {t : TableFile}
    {pages : List (List Row)} (hsource : source.Shows I t pages) {s : Scan} {w : World σ}
    {st : Scan × World σ} (hw : I w) (hs : s.table = t)
    (hopen : (start source).outcome (s, w) = (.ok (), st)) {events : List (Event σ)}
    (hgoes : ∀ event ∈ events, GoesOn I event) :
    Resumes source I t pages (after source st events).1 (after source st events).2 := by
  rcases shown_start hsource hw hs hopen with ⟨-, hst, hahead⟩ | ⟨e, he, -⟩
  · have hreads : Reads I t pages [] st := ⟨hst, _, hahead, List.nil_append _⟩
    have hread : Reads I t pages (events.foldl (happen source) ([], st)).1
        (events.foldl (happen source) ([], st)).2 := hreads.run hsource hgoes
    exact hread.resumes hsource
  · cases he

/-- The rows of the pages of a table, as they are read. A page that cannot be read has none. -/
def rowLists (count : Nat) (read : UInt32 → Except (Failure FileError) Page) : List (List Row) :=
  (List.range count).map fun i => match read (.ofNat i) with
    | .ok p => p.rows
    | .error _ => []

theorem getElem?_rowLists {count : Nat} {read : UInt32 → Except (Failure FileError) Page}
    {number : UInt32} {p : Page} (hwithin : number.toNat < count) (hread : read number = .ok p) :
    (rowLists count read)[number.toNat]? = some p.rows := by
  simp [rowLists, hwithin, hread]

/-- The rows of the pages of a file. -/
def fileRows (t : TableFile) (d : Disk) : List (List Row) :=
  rowLists (ceilDiv (d.fileAt t.location).length t.pageSize) fun number =>
    t.readPage d ⟨t.id, number⟩

/-- A source that reads pages from the disk hands out the right ones, whichever fetches fail. -/
theorem shows_faulty {t : TableFile} {d : Disk}
    (hcounted : ceilDiv (d.fileAt t.location).length t.pageSize < 2 ^ 32) :
    (faulty t).Shows (fun w => w.disk = d) t (fileRows t d) where
  counted := by simpa [fileRows, rowLists] using hcounted
  ceilDiv_eq hw := by simp [fileRows, rowLists, hw]
  keeps txn id permission w hw := by
    unfold faulty
    simp only [Action.outcome_bind, Action.outcome_get, Action.outcome_set]
    split
    · exact hw
    · simp only [Action.outcome_bind, Action.outcome_lift]
      cases t.readPage w.disk id <;> exact hw
  page {txn number permission w h w'} hw hwithin hout := by
    unfold faulty at hout
    simp only [Action.outcome_bind, Action.outcome_get, Action.outcome_set] at hout
    split at hout
    · cases hout
    · simp only [Action.outcome_bind, Action.outcome_lift, hw] at hout
      cases hread : t.readPage d ⟨t.id, number⟩ with
      | error e => simp [hread] at hout
      | ok p =>
        simp only [hread, World.outcome_load] at hout
        cases hout
        refine ⟨p, by simp, getElem?_rowLists ?_ hread⟩
        simpa [fileRows, rowLists] using hwithin

/-- A scan that has been opened, over a source that then refuses three fetches. -/
def tried : Scan × World (List Bool) :=
  ((start (faulty .numbers)).outcome
    (TableFile.numbers.scan 9, failing [false, true, true, true])).2

/-- Three steps are refused the second page, and the fourth one comes to it. The pages are forgotten
on the way. -/
def retried : List (Event (List Bool)) :=
  [.step .next, .step .hasNext, .step .next,
    .change fun w => { w with loaded := #[] }, .step .hasNext, .step .next]

theorem scan_resumes_retried :
    Resumes (faulty .numbers) (fun w => w.disk = (failing []).disk) .numbers
      (fileRows .numbers (failing []).disk) (after (faulty .numbers) tried retried).1
      (after (faulty .numbers) tried retried).2 ∧
    ((after (faulty .numbers) tried (retried.take 5)).1.map (·.values) = [[.integer 5]]) ∧
    ((after (faulty .numbers) tried retried).1.map (·.values) = [[.integer 5], [.integer 6]]) ∧
    ((fileRows .numbers (failing []).disk).flatten.map (·.values) =
      [[.integer 5], [.integer 6]]) := by
  have hopen : ((start (faulty .numbers)).outcome
      (TableFile.numbers.scan 9, failing [false, true, true, true])).1 = .ok () := by decide +kernel
  have hopened : (start (faulty .numbers)).outcome
      (TableFile.numbers.scan 9, failing [false, true, true, true]) = (.ok (), tried) :=
    Prod.ext hopen (by rw [tried])
  have hcounted : ceilDiv ((failing []).disk.fileAt TableFile.numbers.location).length
      TableFile.numbers.pageSize < 2 ^ 32 := by decide +kernel
  refine ⟨?_, by decide +kernel, by decide +kernel, by decide +kernel⟩
  have hw : (failing [false, true, true, true]).disk = (failing []).disk := rfl
  apply scan_resumes (shows_faulty hcounted) hw rfl hopened
  simp [retried, GoesOn]

end Scan
end RowStore
