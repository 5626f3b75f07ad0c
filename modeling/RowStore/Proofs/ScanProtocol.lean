import RowStore.Proofs.ScanRetry
import RowStore.Proofs.TableIsolation

/-! The protocol of scans over a source that hands out every page of a table that does not change.
However a scan is used, it answers as a position in the rows of the table, and asking for another
row changes no other answer. -/
namespace RowStore

/-- A source that refuses no page of the table. -/
def PageSource.Ready {σ : Type} (source : PageSource σ) (I : World σ → Prop) (t : TableFile)
    (pages : List (List Row)) : Prop := ∀ e w', ¬ source.Refused I t pages e w'

namespace Pool.ScanStep

/-- Whether a step opens the scan. -/
def opens : ScanStep → Bool
  | .start | .rewind => true
  | _ => false

/-- Whether a step opens or closes the scan. -/
def turns : ScanStep → Bool
  | .start | .rewind | .close => true
  | _ => false

/-- Whether a step only looks ahead. -/
def looks : ScanStep → Bool
  | .hasNext => true
  | _ => false

end Pool.ScanStep

namespace Scan
open Pool (ScanStep)
variable {σ : Type}

/-- What a step of a scan gives back. -/
inductive Answer where
  | done (r : Except (Failure FileError) Unit)
  | asked (r : Except (Failure FileError) Bool)
  | row (r : Except (Failure FileError) Row)

def perform (source : PageSource σ) (st : Scan × World σ) : ScanStep → Answer × Scan × World σ
  | .start => let (r, st') := (start source).outcome st; (.done r, st')
  | .rewind => let (r, st') := (rewind source).outcome st; (.done r, st')
  | .hasNext => let (r, st') := (hasNext source).outcome st; (.asked r, st')
  | .next => let (r, st') := (next source).outcome st; (.row r, st')
  | .close => let (r, st') := (close : Step σ Unit).outcome st; (.done r, st')

/-- The steps of a scan among some events. -/
def steps : List (Event σ) → List ScanStep
  | [] => []
  | .step x :: events => x :: steps events
  | .change _ :: events => steps events

theorem steps_append (events events' : List (Event σ)) :
    steps (events ++ events') = steps events ++ steps events' := by
  induction events with
  | nil => rfl
  | cons event events ih =>
    cases event with
    | step x => exact congrArg (x :: ·) ih
    | change f => exact ih

/-- The steps with what they gave back. -/
def answers (source : PageSource σ) : Scan × World σ → List (Event σ) → List (ScanStep × Answer)
  | _, [] => []
  | st, .step x :: events =>
      (x, (perform source st x).1) :: answers source (perform source st x).2 events
  | st, .change f :: events => answers source (st.1, f st.2) events

/-- Whether the last step that opened or closed the scan left it open. -/
def leftOpen (xs : List ScanStep) : Bool := (xs.filter (·.turns)).getLast?.any (·.opens)

/-- The answers of a scan after some steps. It is closed if it was not opened or rewound since it
was made or closed. Otherwise the next row is the one behind those given since; looking ahead tells
whether there is one. -/
structure Exact (source : PageSource σ) (pages : List (List Row)) (xs : List ScanStep)
    (given : List Row) (st : Scan × World σ) : Prop where
  hasNext_closed : ((hasNext source).outcome st).1 = .error (.error .scanNotOpen) ↔
    leftOpen xs = false
  next_closed : ((next source).outcome st).1 = .error (.error .scanNotOpen) ↔ leftOpen xs = false
  next_true : ∀ st', (hasNext source).outcome st = (.ok true, st') →
    ∃ r, ((next source).outcome st').1 = .ok r
  next_false : ∀ st', (hasNext source).outcome st = (.ok false, st') →
    ((next source).outcome st').1 = .error (.error .scanExhausted)
  hasNext_open : leftOpen xs = true →
    ((hasNext source).outcome st).1 = .ok pages.flatten[given.length]?.isSome
  next_open : leftOpen xs = true → ((next source).outcome st).1 =
    match pages.flatten[given.length]? with
      | some r => .ok r
      | none => .error (.error .scanExhausted)

/-- The position after a step, and what it answers. -/
def Cursor.perform (rows : List Row) (c : Cursor) : ScanStep → Answer × Cursor
  | .start | .rewind => (.done (.ok ()), some rows)
  | .hasNext => (.asked c.hasNext, c)
  | .next => (.row c.next.1, c.next.2)
  | .close => (.done (.ok ()), none)

def Cursor.answers (rows : List Row) : Cursor → List ScanStep → List (ScanStep × Answer)
  | _, [] => []
  | c, x :: xs => (x, (c.perform rows x).1) :: Cursor.answers rows (c.perform rows x).2 xs

/-- At a position, looking ahead changes no other answer. -/
theorem Cursor.answers_looks (rows : List Row) (c : Cursor) (xs : List ScanStep) :
    (c.answers rows xs).filter (!·.1.looks) = c.answers rows (xs.filter (!·.looks)) := by
  induction xs generalizing c with
  | nil => rfl
  | cons x xs ih =>
    cases x with
    | hasNext => exact ih c
    | start | rewind | next | close =>
      show _ :: List.filter _ _ = _ :: _
      rw [ih]

/-- In front of the rows behind the first `n`, the next row is the one with number `n`. -/
theorem Cursor.next_drop (rows : List Row) (n : Nat) :
    Cursor.next (some (rows.drop n)) = match rows[n]? with
      | some r => (.ok r, some (rows.drop (n + 1)))
      | none => (.error (.error .scanExhausted), some (rows.drop n)) := by
  by_cases hn : n < rows.length
  · rw [List.drop_eq_getElem_cons hn, List.getElem?_eq_getElem hn]
    rfl
  · rw [not_lt] at hn
    rw [List.drop_eq_nil_of_le hn, List.getElem?_eq_none hn]
    rfl

theorem Cursor.hasNext_drop (rows : List Row) (n : Nat) :
    Cursor.hasNext (some (rows.drop n)) = .ok rows[n]?.isSome := by
  by_cases hn : n < rows.length
  · rw [List.drop_eq_getElem_cons hn, List.getElem?_eq_getElem hn]
    rfl
  · rw [not_lt] at hn
    rw [List.drop_eq_nil_of_le hn, List.getElem?_eq_none hn]
    rfl

section Ready
variable {source : PageSource σ} {I : World σ → Prop} {t : TableFile} {pages : List (List Row)}
  {s : Scan} {w : World σ} {st : Scan × World σ} {given : List Row} {xs : List ScanStep}
variable (hsource : source.Shows I t pages) (hready : source.Ready I t pages)
include hsource hready

/-- Every step is answered as at the position of the scan, and leaves it at the position then. -/
theorem Within.perform (hst : Within I t pages st) (x : ScanStep) :
    Within I t pages (Scan.perform source st x).2 ∧
      ((Scan.perform source st x).1, (Scan.perform source st x).2.1.ahead pages) =
        Cursor.perform pages.flatten (st.1.ahead pages) x := by
  have hopen : ∀ s : Scan, s.table = t → ∀ out, (Scan.start source).outcome (s, st.2) = out →
      Within I t pages out.2 ∧ out.1 = .ok () ∧ out.2.1.ahead pages = some pages.flatten := by
    intro s hs out hout
    rcases shown_start hsource hst.inv hs hout with ⟨hok, hst', hahead⟩ | ⟨e, -, hrefused⟩
    · exact ⟨hst', hok, hahead⟩
    · exact absurd hrefused (hready e _)
  cases x with
  | start =>
    obtain ⟨hst', hok, hahead⟩ := hopen st.1 hst.table _ rfl
    exact ⟨hst', Prod.ext (congrArg Answer.done hok) hahead⟩
  | rewind =>
    obtain ⟨hst', hok, hahead⟩ := hopen { st.1 with current := none } hst.table _ rfl
    exact ⟨hst', Prod.ext (congrArg Answer.done hok) hahead⟩
  | hasNext =>
    obtain ⟨hst', hahead, hres | ⟨e, -, hrefused⟩, -⟩ := hst.hasNext hsource rfl
    · exact ⟨hst', Prod.ext (congrArg Answer.asked hres) hahead⟩
    · exact absurd hrefused (hready e _)
  | next =>
    obtain ⟨hst', hres | ⟨-, e, -, hrefused⟩⟩ := hst.next hsource rfl
    · obtain ⟨hrow, hahead⟩ := Prod.mk.inj hres
      exact ⟨hst', Prod.ext (congrArg Answer.row hrow) hahead⟩
    · exact absurd hrefused (hready e _)
  | close => exact ⟨⟨hst.inv, hst.table, hst.le⟩, rfl⟩

/-- A scan answers all steps as at its position. -/
theorem Within.answers_eq (hst : Within I t pages st) {events : List (Event σ)}
    (hchange : ∀ f, .change f ∈ events → ∀ w, I w → I (f w)) :
    answers source st events = Cursor.answers pages.flatten (st.1.ahead pages) (steps events) := by
  induction events generalizing st with
  | nil => rfl
  | cons event events ih =>
    have hlater : ∀ f, .change f ∈ events → ∀ w, I w → I (f w) := fun f hf =>
      hchange f (List.mem_cons_of_mem _ hf)
    cases event with
    | step x =>
      obtain ⟨hst', hres⟩ := hst.perform hsource hready x
      show _ :: _ = _ :: _
      rw [ih hst' hlater, ← hres]
    | change f => exact ih ⟨hchange f List.mem_cons_self _ hst.inv, hst.table, hst.le⟩ hlater

/-- A scan that is not open has given rows that do not count; otherwise those to come are the rows
of the table behind those given. -/
structure Stands (I : World σ → Prop) (t : TableFile) (pages : List (List Row))
    (xs : List ScanStep) (given : List Row) (st : Scan × World σ) : Prop
    extends Within I t pages st where
  ahead_eq : st.1.ahead pages =
    if leftOpen xs then some (pages.flatten.drop given.length) else none

omit hsource hready in
theorem leftOpen_concat (xs : List ScanStep) (x : ScanStep) :
    leftOpen (xs ++ [x]) = if x.turns then x.opens else leftOpen xs := by
  cases hturns : x.turns <;> simp [leftOpen, hturns]

/-- A step leads to the position that its answer tells of. -/
theorem Stands.happen {st : List Row × Scan × World σ} (h : Stands I t pages xs st.1 st.2)
    (x : ScanStep) : Stands I t pages (xs ++ [x]) (happen source st (.step x)).1
      (happen source st (.step x)).2 := by
  obtain ⟨hst, hres⟩ := h.toWithin.perform hsource hready x
  have hstill := leftOpen_concat xs x
  unfold Scan.perform at hst hres
  unfold Scan.happen
  cases x with
  | start =>
    generalize (Scan.start source).outcome st.2 = out at hst hres ⊢
    obtain ⟨hr, hahead⟩ := Prod.mk.inj hres
    obtain ⟨r, st'⟩ := out
    cases hr
    exact ⟨hst, by rw [hstill]; exact hahead⟩
  | rewind =>
    generalize (Scan.rewind source).outcome st.2 = out at hst hres ⊢
    obtain ⟨hr, hahead⟩ := Prod.mk.inj hres
    obtain ⟨r, st'⟩ := out
    cases hr
    exact ⟨hst, by rw [hstill]; exact hahead⟩
  | hasNext =>
    obtain ⟨-, hahead⟩ := Prod.mk.inj hres
    exact ⟨hst, by rw [hstill]; exact hahead.trans h.ahead_eq⟩
  | next =>
    generalize (Scan.next source).outcome st.2 = out at hst hres ⊢
    obtain ⟨hr, hahead⟩ := Prod.mk.inj hres
    obtain ⟨r, st'⟩ := out
    refine ⟨hst, ?_⟩
    rw [hstill]
    dsimp only at hr hahead ⊢
    obtain rfl := Answer.row.inj hr
    rw [hahead, h.ahead_eq]
    cases hopen : leftOpen xs with
    | false => simp [Cursor.next, ScanStep.turns]
    | true =>
      simp only [if_true, Cursor.next_drop, ScanStep.turns, Bool.false_eq_true, if_false]
      cases pages.flatten[st.1.length]? <;> simp [Except.toOption]
  | close => exact ⟨hst, by rw [hstill]; rfl⟩

theorem Stands.after {txn : TxnId} (hw : I w) {events : List (Event σ)}
    (hchange : ∀ f, .change f ∈ events → ∀ w, I w → I (f w)) :
    Stands I t pages (steps events) (after source (t.scan txn, w) events).1
      (after source (t.scan txn, w) events).2 := by
  induction events using List.reverseRecOn with
  | nil => exact ⟨⟨hw, rfl, Nat.zero_le _⟩, rfl⟩
  | append_singleton events event ih =>
    have hlater := ih fun f hf => hchange f (List.mem_append_left _ hf)
    have hafter : Scan.after source (t.scan txn, w) (events ++ [event]) =
        Scan.happen source (Scan.after source (t.scan txn, w) events) event := by
      simp [Scan.after]
    rw [hafter]
    cases event with
    | step x =>
      rw [steps_append]
      exact hlater.happen hsource hready x
    | change f =>
      rw [steps_append]
      have hkeep := hchange f (List.mem_append_right _ (List.mem_singleton_self _))
      simp only [steps, List.append_nil]
      exact ⟨⟨hkeep _ hlater.inv, hlater.table, hlater.le⟩, hlater.ahead_eq⟩

/-- What a scan answers at its position. -/
theorem Stands.exact (h : Stands I t pages xs given st) : Exact source pages xs given st := by
  have hmore : ((Scan.hasNext source).outcome st).1 = Cursor.hasNext (st.1.ahead pages) :=
    Answer.asked.inj (Prod.mk.inj (h.toWithin.perform hsource hready .hasNext).2).1
  have hnext {st' : Scan × World σ} (hst' : Within I t pages st') :
      ((Scan.next source).outcome st').1 = (Cursor.next (st'.1.ahead pages)).1 :=
    Answer.row.inj (Prod.mk.inj (hst'.perform hsource hready .next).2).1
  -- once it has looked ahead, the scan is still at its position
  have hthen {more : Bool} {st' : Scan × World σ}
      (hout : (Scan.hasNext source).outcome st = (.ok more, st')) :
      ((Scan.next source).outcome st').1 = (Cursor.next (st.1.ahead pages)).1 := by
    obtain ⟨hst', hahead, -⟩ := h.toWithin.hasNext hsource hout
    rw [hnext hst']
    exact congrArg (fun c => (Cursor.next c).1) hahead
  rw [h.ahead_eq] at hmore hthen
  have hnow := hnext h.toWithin
  rw [h.ahead_eq] at hnow
  cases hopen : leftOpen xs with
  | false =>
    rw [hopen] at hmore hnow
    refine ⟨by simp [hmore, Cursor.hasNext, hopen], by simp [hnow, Cursor.next, hopen],
      ?_, ?_, ?_, ?_⟩
    · intro st' hout
      simp [hout, Cursor.hasNext] at hmore
    · intro st' hout
      simp [hout, Cursor.hasNext] at hmore
    · intro htrue
      cases hopen.symm.trans htrue
    · intro htrue
      cases hopen.symm.trans htrue
  | true =>
    simp only [hopen, if_true, Cursor.hasNext_drop, Cursor.next_drop] at hmore hnow hthen
    refine ⟨by simp [hmore, hopen], ?_, ?_, ?_, fun _ => hmore, fun _ => ?_⟩
    · rw [hnow, hopen]
      cases pages.flatten[given.length]? <;> simp
    · intro st' hout
      rw [hthen hout]
      rw [hout] at hmore
      cases hrow : pages.flatten[given.length]? with
      | none => simp [hrow] at hmore
      | some r => exact ⟨r, rfl⟩
    · intro st' hout
      rw [hthen hout]
      rw [hout] at hmore
      cases hrow : pages.flatten[given.length]? with
      | none => rfl
      | some r => simp [hrow] at hmore
    · rw [hnow]
      cases pages.flatten[given.length]? <;> rfl

end Ready

/-- Over every source that hands out all pages of a table that does not change, a scan answers in
every use as a position in the rows of the table. Two uses of which the second looks ahead in other
places have the same answers to all other steps, whatever else happens in the world. -/
theorem protocol_exact {source : PageSource σ} {I : World σ → Prop} {t : TableFile}
    {pages : List (List Row)} (hsource : source.Shows I t pages)
    (hready : source.Ready I t pages) (txn : TxnId) {w : World σ} (hw : I w)
    {events : List (Event σ)} (hchange : ∀ f, .change f ∈ events → ∀ w, I w → I (f w)) :
    Exact source pages (steps events) (after source (t.scan txn, w) events).1
        (after source (t.scan txn, w) events).2 ∧
      ∀ txn' w' events', I w' → (∀ f, .change f ∈ events' → ∀ w, I w → I (f w)) →
        (steps events').filter (!·.looks) = (steps events).filter (!·.looks) →
          (answers source (t.scan txn', w') events').filter (!·.1.looks) =
            (answers source (t.scan txn, w) events).filter (!·.1.looks) := by
  have hnew {w : World σ} (hw : I w) (txn : TxnId) : Within I t pages (t.scan txn, w) :=
    ⟨hw, rfl, Nat.zero_le _⟩
  refine ⟨(Stands.after hsource hready hw hchange).exact hsource hready, ?_⟩
  intro txn' w' events' hw' hchange' hsame
  rw [(hnew hw' txn').answers_eq hsource hready hchange',
    (hnew hw txn).answers_eq hsource hready hchange, Cursor.answers_looks, Cursor.answers_looks,
    hsame]
  rfl

end Scan

namespace Pool
open Scan (Event rowLists steps)
variable {tables : Catalog} {s : TableStore} {t : TableFile}

/-- The rows of the pages of a table in a store. -/
def storeRows (s : TableStore) (t : TableFile) : List (List Row) :=
  rowLists (ceilDiv (s.length t.id) t.pageSize) fun number => s.read t ⟨t.id, number⟩

section Source
variable (hb : tables.Separate) (ht : tables.table? t.id = some t)
include hb ht

/-- A pool shows the pages of the store that it stands for. -/
theorem shows_source (hsmall : ceilDiv (s.length t.id) t.pageSize < 2 ^ 32) :
    (source tables).Shows (Keeps tables s) t (storeRows s t) where
  counted := by simpa [storeRows, rowLists] using hsmall
  ceilDiv_eq hw := by simp [storeRows, rowLists, hw.length_eq hb ht]
  keeps := preserves_source hb
  page {txn number permission w h w'} hw hwithin hout := by
    obtain ⟨res, w'', hout', -, hres⟩ := hw.source hb ⟨t.id, number⟩ ht txn permission
    obtain ⟨rfl, rfl⟩ := Prod.mk.inj (hout'.symm.trans hout)
    rcases hres with ⟨h', p, hh, hc, hread⟩ | ⟨e, he, -⟩
    · obtain rfl := Except.ok.inj hh
      have hcount : number.toNat < ceilDiv (s.length t.id) t.pageSize := by
        simpa [storeRows, rowLists] using hwithin
      exact ⟨p, hc.2, Scan.getElem?_rowLists (p := p.mark none) hcount hread⟩
    · cases he

/-- If all pages of the table can be read, the pool refuses none of them. -/
theorem ready_source (hfits : s.Fits tables)
    (hread : ∀ i < ceilDiv (s.length t.id) t.pageSize, ∃ p, s.read t ⟨t.id, .ofNat i⟩ = .ok p) :
    (source tables).Ready (Keeps tables s) t (storeRows s t) := by
  rintro e w' ⟨txn, number, permission, w, hw, hwithin, hout⟩
  obtain ⟨res, w'', hout', -, hres⟩ := hw.source hb ⟨t.id, number⟩ ht txn permission
  obtain ⟨rfl, rfl⟩ := Prod.mk.inj (hout'.symm.trans hout)
  rcases hres with ⟨h, p, hh, -⟩ | ⟨e', -, hfailed | hlong⟩
  · cases hh
  · obtain ⟨p, hp⟩ := hread number.toNat (by simpa [storeRows, rowLists] using hwithin)
    rw [UInt32.ofNat_toNat] at hp
    cases hp.symm.trans hfailed
  · exact hlong hfits

end Source

/-- A file of three pages; the second one has no row. -/
def gapped : Disk :=
  TableFile.numbers.putBytes (TableFile.numbers.putBytes TableFile.oneRow 1 (Bytes.zeros 9)) 2
    [1, 7, 0, 0, 0, 0, 0, 0, 0]

/-- A pool with room for one page, over that file. -/
def single : World PageCache := fresh gapped (roomFor 1)

/-- The second row is asked for after a rewind. Another scan fetches a page meanwhile. -/
def rewound : List (Event PageCache) :=
  [.step .next, .step .start, .step .next,
    .change fun w => ((source .pair 8 ⟨1, 1⟩ .readOnly).outcome w).2, .step .close, .step .rewind,
    .step .next]

/-- The same steps, looking ahead at every place. -/
def looking : List (Event PageCache) :=
  [.step .hasNext, .step .next, .step .start, .step .hasNext, .step .hasNext, .step .next,
    .step .hasNext, .step .close, .step .hasNext, .step .rewind, .step .next, .step .hasNext]

theorem protocol_exact_rewound :
    Scan.Exact (source .pair) (storeRows (store .pair single) .numbers) (steps rewound)
      (Scan.after (source .pair) (TableFile.numbers.scan 9, single) rewound).1
      (Scan.after (source .pair) (TableFile.numbers.scan 9, single) rewound).2 ∧
    (Scan.answers (source .pair) (TableFile.numbers.scan 9, single) looking).filter
        (!·.1.looks) =
      (Scan.answers (source .pair) (TableFile.numbers.scan 9, single) rewound).filter
        (!·.1.looks) ∧
    (storeRows (store .pair single) .numbers).map (·.map (·.values)) =
      [[[.integer 5]], [], [[.integer 7]]] := by
  have hc : create 1 = .ok (roomFor 1) := rfl
  have hw : Keeps .pair (store .pair single) single := ⟨coherent_fresh hc gapped, rfl⟩
  have hsmall : ceilDiv ((store .pair single).length 1) TableFile.numbers.pageSize < 2 ^ 32 := by
    decide +kernel
  have hfits : (store .pair single).Fits .pair := Catalog.forall_of_toList (by decide +kernel)
  have hreadable : ∀ i < ceilDiv ((store .pair single).length 1) TableFile.numbers.pageSize,
      ((store .pair single).read .numbers ⟨1, .ofNat i⟩).isOk := by decide +kernel
  have hsource := shows_source Catalog.backed_pair Catalog.table?_numbers hsmall
  have hready : (source .pair).Ready (Keeps .pair (store .pair single)) .numbers
      (storeRows (store .pair single) .numbers) := by
    apply ready_source Catalog.backed_pair Catalog.table?_numbers hfits
    intro i hi
    have hok := hreadable i hi
    rcases hread : (store .pair single).read .numbers ⟨1, .ofNat i⟩ with e | p
    · rw [hread] at hok
      cases hok
    · exact ⟨p, hread⟩
  have hchange : ∀ f, Event.change f ∈ rewound → ∀ w, Keeps .pair (store .pair single) w →
      Keeps .pair (store .pair single) (f w) := by
    intro f hf
    obtain rfl : f = fun w => ((source .pair 8 ⟨1, 1⟩ .readOnly).outcome w).2 := by
      simpa [rewound] using hf
    exact hsource.keeps 8 ⟨1, 1⟩ .readOnly
  have hexact := Scan.protocol_exact hsource hready 9 hw hchange
  exact ⟨hexact.1, hexact.2 9 single looking hw (by simp [looking]) rfl, by decide +kernel⟩

end Pool
end RowStore
