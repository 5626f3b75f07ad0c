import RowStore.Proofs.HousedPool
import RowStore.Proofs.ScanSteps
import RowStore.Proofs.TableGrowth

/-! Scans that start over while their source may fail at any page. A rewind that fails leaves the scan
closed. An opening that fails leaves the scan on the first page, with the rows at hand of another one;
where it does not come to that, the rows between two openings are in order, whatever fails. -/
namespace RowStore

theorem Page.Belongs.rows_ordered {id : PageId} {schema : Schema} {size : Nat} {p : Page}
    (h : p.Belongs id schema size)
    (hslots : ∀ l, Layout.make size schema.width = .ok l → l.slotCount ≤ 2 ^ 32) :
    p.rows.Pairwise Row.Before := by
  have hlayout := h.sound.layout
  rw [h.size_eq, h.schema_eq] at hlayout
  exact h.sound.rows_ordered (hslots p.layout hlayout)

namespace Scan
variable {σ : Type}

/-- What happens while a scan is used: a step of the scan, or any change in the world. -/
inductive Event (σ : Type) where
  | step (x : Pool.ScanStep)
  | change (f : World σ → World σ)

/-- The rows given since the scan was opened, with the scan and the world, after an event. They count
anew once the scan is opened or rewound without an error. -/
def happen (source : PageSource σ) (st : List Row × Scan × World σ) :
    Event σ → List Row × Scan × World σ
  | .step .start =>
      let (r, st') := (start source).outcome st.2
      (if r.isOk then [] else st.1, st')
  | .step .rewind =>
      let (r, st') := (rewind source).outcome st.2
      (if r.isOk then [] else st.1, st')
  | .step .hasNext => (st.1, ((hasNext source).outcome st.2).2)
  | .step .next =>
      let (r, st') := (next source).outcome st.2
      (st.1 ++ r.toOption.toList, st')
  | .step .close => (st.1, ((close : Step σ Unit).outcome st.2).2)
  | .change f => (st.1, st.2.1, f st.2.2)

/-- The same after events one after the other, for a scan that has given no rows so far. -/
def after (source : PageSource σ) (st : Scan × World σ) (events : List (Event σ)) :
    List Row × Scan × World σ := events.foldl (happen source) ([], st)

/-- An opening that fails only if it leaves the scan closed or as it was. -/
def Restores (source : PageSource σ) (st : Scan × World σ) : Prop :=
  ((start source).outcome st).1.isOk ∨ ((start source).outcome st).2.1.current = none ∨
    ((start source).outcome st).2.1 = st.1

/-- What becomes of scans that start over, whatever pages the source fails to give. -/
structure StartsOver (source : PageSource σ) : Prop where
  rewind_closes : ∀ st e, ((rewind source).outcome st).1 = .error e →
    ((rewind source).outcome st).2.1.current = none
  start_restores : ∀ st, Restores source st ↔
    ((start source).outcome st).1.isOk ∨ st.1.current = none ∨ st.1.number = 0
  ordered : ∀ (I : World σ → Prop) (t : TableFile), source.Provides I t →
    (∀ l, Layout.make t.pageSize t.schema.width = .ok l → l.slotCount ≤ 2 ^ 32) →
      ∀ txn w events, I w → (∀ f, .change f ∈ events → ∀ w, I w → I (f w)) →
        (∀ n, events[n]? = some (.step .start) →
          Restores source (after source (t.scan txn, w) (events.take n)).2) →
            (after source (t.scan txn, w) events).1.Pairwise Row.Before

variable {source : PageSource σ} {I : World σ → Prop} {t : TableFile} {given : List Row}
  {st st' : Scan × World σ} {s : Scan} {w : World σ}

/-- An opening that fails puts the scan on the first page, and leaves it as it is otherwise. -/
theorem scan_of_start_failed {e : Failure FileError} {w' : World σ} {s' : Scan}
    (h : (start source).outcome (s, w) = (.error e, (s', w'))) : s' = { s with number := 0 } := by
  rw [outcome_start] at h
  rcases hrows : (pageRows source { s with number := 0 } 0).outcome w with ⟨e' | rows, w₁⟩
  · rw [hrows] at h
    cases h
    rfl
  · simp [hrows] at h

/-- A rewind that fails has closed the scan. -/
theorem current_of_rewind {e : Failure FileError}
    (h : ((rewind source).outcome st).1 = .error e) :
    ((rewind source).outcome st).2.1.current = none := by
  obtain ⟨s, w⟩ := st
  rw [outcome_rewind] at h ⊢
  rcases hout : (start source).outcome ({ s with current := none }, w) with ⟨e' | u, s', w'⟩
  · obtain rfl := scan_of_start_failed hout
    rfl
  · rw [hout] at h
    cases h

theorem restores_iff (source : PageSource σ) (st : Scan × World σ) : Restores source st ↔
    ((start source).outcome st).1.isOk ∨ st.1.current = none ∨ st.1.number = 0 := by
  obtain ⟨⟨table, txn, number, current⟩, w⟩ := st
  unfold Restores
  rcases hout : (start source).outcome (⟨table, txn, number, current⟩, w) with ⟨e | u, s', w'⟩
  · obtain rfl := scan_of_start_failed hout
    refine or_congr_right (or_congr_right ?_)
    constructor
    · intro h
      exact (congrArg Scan.number h).symm
    · rintro (rfl : number = 0)
      rfl
  · simp [Except.isOk, Except.toBool]

/-- The rows given and those at hand are in order, and none of them is of a page ahead. -/
structure InOrder (I : World σ → Prop) (t : TableFile) (given : List Row) (st : Scan × World σ) :
    Prop where
  inv : I st.2
  table : st.1.table = t
  ordered : (given ++ st.1.current.getD []).Pairwise Row.Before
  behind : ∀ rows, st.1.current = some rows → ∀ r ∈ given ++ rows, ∃ rid, r.rid = some rid ∧
    rid.pageId.page ≤ st.1.number

theorem InOrder.given_ordered (h : InOrder I t given st) : given.Pairwise Row.Before :=
  (List.pairwise_append.mp h.ordered).1

/-- A closed scan is in order if the rows that it has given are. -/
theorem InOrder.of_closed (hw : I w) (hs : s.table = t) (hcurrent : s.current = none)
    (hgiven : given.Pairwise Row.Before) : InOrder I t given (s, w) where
  inv := hw
  table := hs
  ordered := by simpa [hcurrent] using hgiven
  behind rows hrows := by simp [hcurrent] at hrows

section Providing
variable (hsource : source.Provides I t)
  (hslots : ∀ l, Layout.make t.pageSize t.schema.width = .ok l → l.slotCount ≤ 2 ^ 32)
include hsource hslots

/-- The rows of a page are in order, and of this page. -/
theorem rows_of_pageRows {number : UInt32} {rows : List Row} {w' : World σ} (hw : I w)
    (hs : s.table = t) (hrows : (pageRows source s number).outcome w = (.ok rows, w')) :
    I w' ∧ rows.Pairwise Row.Before ∧
      ∀ r ∈ rows, ∃ rid, r.rid = some rid ∧ rid.pageId.page = number := by
  subst hs
  have hw' := preserves_pageRows hsource.keeps s number w hw
  rw [hrows] at hw'
  rcases UInt32.lt_or_le number (s.table.pageCount w.disk) with hwithin | hpast
  · obtain ⟨h, p, hout, hload, rfl⟩ := exists_page_of_pageRows hwithin hrows
    have hp := hsource.page hw hout hload
    refine ⟨hw', hp.rows_ordered hslots, fun r hr => ?_⟩
    obtain ⟨rid, hrid, hplace⟩ := hp.sound.pageId_of_mem_rows hr
    rw [hp.id_eq] at hplace
    exact ⟨rid, hrid, by rw [hplace]⟩
  · rw [outcome_pageRows_of_end source hpast] at hrows
    cases hrows
    exact ⟨hw', .nil, by simp⟩

/-- Turning pages keeps the order. -/
theorem InOrder.turned (hturned : Turned source st st') (h : InOrder I t given st) :
    InOrder I t given st' := by
  induction hturned with
  | refl => exact h
  | @next s w w' rows st' hcurrent hmore hwithin hrows _ ih =>
    apply ih
    obtain ⟨hw', hordered, hpage⟩ := rows_of_pageRows hsource hslots h.inv h.table hrows
    have hlt : s.number < s.number + 1 := by
      rw [UInt32.lt_iff_toNat_lt, TableStore.toNat_succ hmore]
      exact Nat.lt_succ_self _
    have hgiven : ∀ r ∈ given, ∃ rid, r.rid = some rid ∧ rid.pageId.page ≤ s.number := by
      intro r hr
      exact h.behind [] hcurrent r (List.mem_append_left _ hr)
    refine ⟨hw', h.table, ?_, ?_⟩
    · show (given ++ rows).Pairwise Row.Before
      rw [List.pairwise_append]
      refine ⟨h.given_ordered, hordered, fun a ha b hb => ?_⟩
      obtain ⟨x, hx, hle⟩ := hgiven a ha
      obtain ⟨y, hy, hplace⟩ := hpage b hb
      refine ⟨x, y, hx, hy, .inl ?_⟩
      rw [hplace]
      exact UInt32.lt_of_le_of_lt hle hlt
    · rintro rows' hrows' r hr
      obtain rfl : rows = rows' := Option.some.inj hrows'
      rcases List.mem_append.mp hr with hr | hr
      · obtain ⟨rid, hrid, hle⟩ := hgiven r hr
        exact ⟨rid, hrid, UInt32.le_trans hle (UInt32.le_of_lt hlt)⟩
      · obtain ⟨rid, hrid, hplace⟩ := hpage r hr
        exact ⟨rid, hrid, UInt32.le_of_eq hplace⟩

/-- Asking for another row keeps the order, also if it fails. -/
theorem InOrder.hasNext (h : InOrder I t given st) :
    InOrder I t given ((hasNext source).outcome st).2 := by
  have hasked := asked_hasNext source st
  generalize (Scan.hasNext source).outcome st = out at hasked ⊢
  cases hasked with
  | closed => exact h
  | more hturned => exact h.turned hsource hslots hturned
  | done hturned => exact h.turned hsource hslots hturned
  | last hturned => exact h.turned hsource hslots hturned
  | @failed s w w' e hturned _ hrows =>
    have h' := h.turned hsource hslots hturned
    have hw' := preserves_pageRows hsource.keeps s (s.number + 1) w h'.inv
    rw [hrows] at hw'
    exact ⟨hw', h'.table, h'.ordered, h'.behind⟩

/-- A row that is given comes after those given before. -/
theorem InOrder.next (h : InOrder I t given st) :
    InOrder I t (given ++ ((next source).outcome st).1.toOption.toList)
      ((next source).outcome st).2 := by
  have hasked := asked_hasNext source st
  have h' := h.hasNext hsource hslots
  rw [outcome_next]
  generalize (Scan.hasNext source).outcome st = out at hasked h' ⊢
  have hfailed : ∀ {e : Failure FileError} {st' : Scan × World σ}, InOrder I t given st' →
      InOrder I t (given ++ (.error e : Except (Failure FileError) Row).toOption.toList) st' := by
    intro e st' hst'
    simpa [Except.toOption] using hst'
  cases hasked with
  | closed => exact hfailed h'
  | done => exact hfailed h'
  | last => exact hfailed h'
  | failed => exact hfailed h'
  | @more s w r rows _ hcurrent =>
    simp only [hcurrent]
    obtain ⟨hw, hs, hordered, hbehind⟩ := h'
    simp only [hcurrent, Option.getD_some] at hordered
    refine ⟨hw, hs, by simpa [Except.toOption] using hordered, ?_⟩
    rintro rows' hrows' r' hr'
    obtain rfl : rows = rows' := Option.some.inj hrows'
    apply hbehind _ hcurrent
    simpa [Except.toOption] using hr'

/-- A scan that is opened is in order from the first row on. If the opening fails, it is in order as
before, unless it was left on the first page with the rows of another one. -/
theorem InOrder.start (h : InOrder I t given st) (hst : Restores source st) :
    InOrder I t (if ((start source).outcome st).1.isOk then [] else given)
      ((start source).outcome st).2 := by
  obtain ⟨s, w⟩ := st
  rw [restores_iff] at hst
  have hkeeps := preserves_start hsource.keeps (s, w) h.inv
  rcases hout : (Scan.start source).outcome (s, w) with ⟨e | u, s', w'⟩
  · rw [hout] at hst hkeeps
    obtain rfl := scan_of_start_failed hout
    rcases hst with hok | hclosed | hzero
    · cases hok
    · exact .of_closed hkeeps h.table hclosed h.given_ordered
    · dsimp only at hzero
      refine ⟨hkeeps, h.table, h.ordered, ?_⟩
      rw [← hzero]
      exact h.behind
  · rw [outcome_start] at hout
    rcases hrows : (pageRows source { s with number := 0 } 0).outcome w with ⟨e | rows, w₁⟩
    · simp [hrows] at hout
    · rw [hrows] at hout
      cases hout
      obtain ⟨hw', hordered, hpage⟩ :=
        rows_of_pageRows hsource hslots (s := { s with number := 0 }) h.inv h.table hrows
      refine ⟨hw', h.table, hordered, ?_⟩
      rintro rows' hrows' r hr
      obtain rfl : rows = rows' := Option.some.inj hrows'
      obtain ⟨rid, hrid, hplace⟩ := hpage r hr
      exact ⟨rid, hrid, UInt32.le_of_eq hplace⟩

/-- Whatever happens, the rows given stay in order. -/
theorem InOrder.happen {st : List Row × Scan × World σ} (h : InOrder I t st.1 st.2)
    {event : Event σ} (hchange : ∀ f, event = .change f → ∀ w, I w → I (f w))
    (hstart : event = .step .start → Restores source st.2) :
    InOrder I t (happen source st event).1 (happen source st event).2 := by
  have hclosed : InOrder I t st.1 ({ st.2.1 with current := none }, st.2.2) :=
    .of_closed h.inv h.table rfl h.given_ordered
  match event with
  | .step .start => exact h.start hsource hslots (hstart rfl)
  | .step .rewind =>
    exact hclosed.start hsource hslots ((restores_iff _ _).mpr (.inr (.inl rfl)))
  | .step .hasNext => exact h.hasNext hsource hslots
  | .step .next => exact h.next hsource hslots
  | .step .close => exact hclosed
  | .change f => exact ⟨hchange f rfl _ h.inv, h.table, h.ordered, h.behind⟩

theorem InOrder.after {txn : TxnId} {events : List (Event σ)} (hw : I w)
    (hchange : ∀ f, .change f ∈ events → ∀ w, I w → I (f w))
    (hstart : ∀ n, events[n]? = some (.step .start) →
      Restores source (after source (t.scan txn, w) (events.take n)).2) :
    ∀ n ≤ events.length, InOrder I t (after source (t.scan txn, w) (events.take n)).1
      (after source (t.scan txn, w) (events.take n)).2 := by
  intro n
  induction n with
  | zero => exact fun _ => .of_closed hw rfl rfl .nil
  | succ n ih =>
    intro hn
    have hsucc : Scan.after source (t.scan txn, w) (events.take (n + 1)) =
        Scan.happen source (Scan.after source (t.scan txn, w) (events.take n)) events[n] := by
      rw [Scan.after, List.take_succ_eq_append_getElem hn, List.foldl_append]
      rfl
    rw [hsucc]
    apply (ih (Nat.le_of_succ_le hn)).happen hsource hslots
    · intro f hf
      exact hchange f (hf ▸ List.getElem_mem hn)
    · intro he
      exact hstart n (by rw [List.getElem?_eq_getElem hn, he])

end Providing

/-- Over every source of pages, a rewind that fails leaves the scan closed, and an opening that fails
leaves it closed or as it was just if it was closed or on the first page. In every run in which all
openings that fail do so, the rows given since the scan was last opened or rewound are in strict
order, whatever else fails. -/
theorem starts_over (source : PageSource σ) : StartsOver source where
  rewind_closes _ _ h := current_of_rewind h
  start_restores := restores_iff source
  ordered I t hsource hslots txn w events hw hchange hstart := by
    have h := InOrder.after hsource hslots hw hchange hstart events.length (le_refl _)
    rw [List.take_length] at h
    exact h.given_ordered

/-- A source that reads pages from the disk. Its state says which of the next fetches fail. -/
def faulty (t : TableFile) : PageSource (List Bool) := fun _ id _ => do
  let w ← get
  set { w with source := w.source.tail }
  if w.source.headD false then Action.fail (.access (.notCached id))
  else
    let p ← Action.lift (t.readPage w.disk id)
    World.load p

theorem provides_faulty (t : TableFile) : (faulty t).Provides (fun _ => True) t where
  keeps _ _ _ _ _ := trivial
  page {txn number permission w h w' p} _ hout hload := by
    unfold faulty at hout
    simp only [Action.outcome_bind, Action.outcome_get, Action.outcome_set] at hout
    split at hout
    · cases hout
    · simp only [Action.outcome_bind, Action.outcome_lift] at hout
      cases hread : t.readPage w.disk ⟨t.id, number⟩ with
      | error e => simp [hread] at hout
      | ok q =>
        simp only [hread, World.outcome_load] at hout
        obtain ⟨hh, rfl⟩ := Prod.mk.inj hout
        obtain rfl := Except.ok.inj hh
        obtain rfl : q = p := by simpa using hload
        have hid : (PageId.mk t.id number).table = t.id := rfl
        exact (Pool.housed_of_readPage hid hread).1.belongs

/-- A table with a row on each of two pages, and which fetches from it fail. -/
def failing (fetches : List Bool) : World (List Bool) :=
  ⟨TableFile.numbers.putBytes TableFile.oneRow 1 [1, 6, 0, 0, 0, 0, 0, 0, 0], #[], fetches⟩

/-- A rewind fails, and then an opening of the closed scan. The pages are forgotten before the next
opening, which gives all rows. -/
def reopened : List (Event (List Bool)) :=
  [.step .start, .step .next, .step .rewind, .step .start, .change fun w => { w with loaded := #[] },
    .step .start, .step .next, .step .next]

theorem starts_over_reopened :
    (∃ e, ((start (faulty .numbers)).outcome (after (faulty .numbers)
      (TableFile.numbers.scan 9, failing [false, true, true]) (reopened.take 3)).2).1 = .error e) ∧
    (after (faulty .numbers) (TableFile.numbers.scan 9, failing [false, true, true])
      reopened).1.map (·.values) = [[.integer 5], [.integer 6]] ∧
    (after (faulty .numbers) (TableFile.numbers.scan 9, failing [false, true, true])
      reopened).1.Pairwise Row.Before := by
  have hslots : ∀ l, Layout.make TableFile.numbers.pageSize TableFile.numbers.schema.width = .ok l →
      l.slotCount ≤ 2 ^ 32 := fun l => Catalog.backed_pair.slotCount_le 1 _ l rfl
  refine ⟨⟨.error (.access (.notCached ⟨1, 0⟩)), by decide +kernel⟩, by decide +kernel, ?_⟩
  apply (starts_over (faulty .numbers)).ordered (fun _ => True) .numbers (provides_faulty _) hslots 9
    (failing [false, true, true]) reopened trivial fun _ _ _ _ => trivial
  intro n hn
  rcases n with _ | _ | _ | _ | _ | _ | _ | _ | n
  · exact .inl (by decide +kernel)
  · cases hn
  · cases hn
  · exact .inr (.inl (by decide +kernel))
  · cases hn
  · exact .inl (by decide +kernel)
  · cases hn
  · cases hn
  · cases hn

/-- An opening that fails once the scan has come to the second page. -/
def mixed : List (Event (List Bool)) :=
  [.step .start, .step .next, .step .next, .step .start, .step .next]

/-- The opening leaves the scan neither closed nor as it was, and the second page is given again. -/
theorem second_page_again :
    (∃ e, ((start (faulty .numbers)).outcome (after (faulty .numbers)
      (TableFile.numbers.scan 9, failing [false, false, true]) (mixed.take 3)).2).1 = .error e) ∧
    ¬ Restores (faulty .numbers) (after (faulty .numbers)
      (TableFile.numbers.scan 9, failing [false, false, true]) (mixed.take 3)).2 ∧
    (after (faulty .numbers) (TableFile.numbers.scan 9, failing [false, false, true])
      mixed).1.map (·.rid) = [some ⟨⟨1, 0⟩, 0⟩, some ⟨⟨1, 1⟩, 0⟩, some ⟨⟨1, 1⟩, 0⟩] ∧
    ¬ (after (faulty .numbers) (TableFile.numbers.scan 9, failing [false, false, true])
      mixed).1.Pairwise Row.Before := by
  refine ⟨⟨.error (.access (.notCached ⟨1, 0⟩)), by decide +kernel⟩, ?_, by decide +kernel, ?_⟩
  · rw [restores_iff]
    decide +kernel
  · intro h
    have hnodup := h.imp Row.Before.ne
    revert hnodup
    decide +kernel

end Scan
end RowStore
