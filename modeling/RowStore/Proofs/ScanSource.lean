import RowStore.Proofs.PoolScan

/-! What the steps of a scan do over any source of pages, also when they fail: which pages they turn,
and in which state they leave the scan. -/
namespace RowStore

/-- A source that hands out the pages of a table: in worlds with `I` it hands out the page that is
asked for, and leaves a world with `I`. It may fail at any time. -/
structure PageSource.Provides {σ : Type} (source : PageSource σ) (I : World σ → Prop)
    (t : TableFile) : Prop where
  keeps : ∀ txn id permission, Action.Preserves I (source txn id permission)
  page : ∀ {txn number permission w h w' p}, I w →
    (source txn ⟨t.id, number⟩ permission).outcome w = (.ok h, w') →
      w'.loaded[h.index]? = some p → p.Belongs ⟨t.id, number⟩ t.schema t.pageSize

namespace Scan
variable {σ : Type} {source : PageSource σ} {s : Scan} {w w' : World σ} {number : UInt32}

/-- A page past the end has no rows, and is not asked for. -/
theorem outcome_pageRows_of_end (source : PageSource σ)
    (hend : s.table.pageCount w.disk ≤ number) :
    (pageRows source s number).outcome w = (.ok [], w) := by
  unfold pageRows
  simp only [Action.outcome_bind, Action.outcome_get, if_pos hend]
  rfl

/-- The rows of a page past the end are none; those of a page of the file are the rows of the page
that the source hands out. -/
theorem pageRows_cases (source : PageSource σ) (s : Scan) (number : UInt32) (w : World σ) :
    (s.table.pageCount w.disk ≤ number ∧ (pageRows source s number).outcome w = (.ok [], w)) ∨
    (number < s.table.pageCount w.disk ∧
      ((∃ h p w', (source s.txn ⟨s.table.id, number⟩ .readOnly).outcome w = (.ok h, w') ∧
          w'.loaded[h.index]? = some p ∧
          (pageRows source s number).outcome w = (.ok p.rows, w')) ∨
        ∃ e w', (pageRows source s number).outcome w = (.error e, w') ∧
          (e = .fault .danglingHandle ∨
            ((source s.txn ⟨s.table.id, number⟩ .readOnly).outcome w).1 = .error e))) := by
  by_cases hend : s.table.pageCount w.disk ≤ number
  · exact .inl ⟨hend, outcome_pageRows_of_end source hend⟩
  · right
    unfold pageRows
    simp only [Action.outcome_bind, Action.outcome_get]
    rw [if_neg hend]
    constructor
    · exact UInt32.not_le.mp hend
    · rcases hsource : (source s.txn ⟨s.table.id, number⟩ .readOnly).outcome w with ⟨e | h, w'⟩
      · right
        simp only [Action.outcome_bind, hsource]
        exact ⟨e, w', rfl, .inr rfl⟩
      · simp only [Action.outcome_bind, hsource, World.outcome_page]
        cases hload : w'.loaded[h.index]? with
        | none => exact .inr ⟨_, w', rfl, .inl rfl⟩
        | some p => exact .inl ⟨h, p, w', rfl, hload, rfl⟩

/-- The rows of a page of the file are those of a page that the source handed out. -/
theorem exists_page_of_pageRows {rows : List Row} (hwithin : number < s.table.pageCount w.disk)
    (hrows : (pageRows source s number).outcome w = (.ok rows, w')) :
    ∃ h p, (source s.txn ⟨s.table.id, number⟩ .readOnly).outcome w = (.ok h, w') ∧
      w'.loaded[h.index]? = some p ∧ rows = p.rows := by
  rcases pageRows_cases source s number w with
    ⟨hpast, -⟩ | ⟨-, ⟨h, p, w₁, hsource, hload, hout⟩ | ⟨e, w₁, hout, -⟩⟩
  · exact absurd (UInt32.lt_of_lt_of_le hwithin hpast) (UInt32.lt_irrefl _)
  · rw [hout] at hrows
    cases hrows
    exact ⟨h, p, hsource, hload, rfl⟩
  · rw [hout] at hrows
    cases hrows

/-- A scan that starts over is on the first page at once, also if it fails to get its rows. -/
theorem outcome_start (source : PageSource σ) (s : Scan) (w : World σ) :
    (start source).outcome (s, w) =
      match (pageRows source { s with number := 0 } 0).outcome w with
        | (.ok rows, w') => (.ok (), ({ s with number := 0, current := some rows }, w'))
        | (.error e, w') => (.error e, ({ s with number := 0 }, w')) := by
  unfold start
  simp only [Action.outcome_bind, outcome_update, Action.outcome_get, outcome_inWorld]
  rcases (pageRows source { s with number := 0 } 0).outcome w with ⟨e | rows, w'⟩ <;> rfl

theorem outcome_rewind (source : PageSource σ) (s : Scan) (w : World σ) :
    (rewind source).outcome (s, w) = (start source).outcome ({ s with current := none }, w) := rfl

/-- A scan turns pages: from a page whose rows are all given it goes on to the next page of the
table, with the rows of this one at hand. -/
inductive Turned (source : PageSource σ) : Scan × World σ → Scan × World σ → Prop where
  | refl (st : Scan × World σ) : Turned source st st
  | next {s : Scan} {w w' : World σ} {rows : List Row} {st : Scan × World σ}
      (hcurrent : s.current = some []) (hmore : s.number.toNat + 1 < 2 ^ 32)
      (hwithin : s.number + 1 < s.table.pageCount w.disk)
      (hrows : (pageRows source s (s.number + 1)).outcome w = (.ok rows, w'))
      (rest : Turned source ({ s with number := s.number + 1, current := some rows }, w') st) :
      Turned source (s, w) st

theorem Turned.table_eq {st st' : Scan × World σ} (h : Turned source st st') :
    st'.1.table = st.1.table := by
  induction h with
  | refl => rfl
  | next _ _ _ _ _ ih => exact ih

/-- Turning pages keeps what the source keeps. -/
theorem Turned.preserves {P : World σ → Prop} {st st' : Scan × World σ}
    (hP : ∀ txn id permission, Action.Preserves P (source txn id permission))
    (h : Turned source st st') (hst : P st.2) : P st'.2 := by
  induction h with
  | refl => exact hst
  | @next s w w' rows st' _ _ _ hrows _ ih =>
    apply ih
    have hw' := preserves_pageRows hP s (s.number + 1) w hst
    rw [hrows] at hw'
    exact hw'

/-- What comes of asking a scan whether there is another row. -/
inductive Asked (source : PageSource σ) (st : Scan × World σ) :
    Except (Failure FileError) Bool × Scan × World σ → Prop where
  | closed (hcurrent : st.1.current = none) : Asked source st (.error (.error .scanNotOpen), st)
  | more {s : Scan} {w : World σ} {r : Row} {rows : List Row} (h : Turned source st (s, w))
      (hcurrent : s.current = some (r :: rows)) : Asked source st (.ok true, (s, w))
  | done {s : Scan} {w : World σ} (h : Turned source st (s, w)) (hcurrent : s.current = some [])
      (hmore : s.number.toNat + 1 < 2 ^ 32) (hend : s.table.pageCount w.disk ≤ s.number + 1) :
      Asked source st (.ok false, (s, w))
  | last {s : Scan} {w : World σ} (h : Turned source st (s, w)) (hcurrent : s.current = some [])
      (hlast : ¬ s.number.toNat + 1 < 2 ^ 32) : Asked source st (.error (.fault .overflow), (s, w))
  | failed {s : Scan} {w w' : World σ} {e : Failure FileError} (h : Turned source st (s, w))
      (hcurrent : s.current = some [])
      (hrows : (pageRows source s (s.number + 1)).outcome w = (.error e, w')) :
      Asked source st (.error e, (s, w'))

/-- What comes of asking after a page is turned comes of asking before. -/
theorem Asked.turn {rows : List Row} {out : Except (Failure FileError) Bool × Scan × World σ}
    (hcurrent : s.current = some []) (hmore : s.number.toNat + 1 < 2 ^ 32)
    (hwithin : s.number + 1 < s.table.pageCount w.disk)
    (hrows : (pageRows source s (s.number + 1)).outcome w = (.ok rows, w'))
    (h : Asked source ({ s with number := s.number + 1, current := some rows }, w') out) :
    Asked source (s, w) out := by
  cases h with
  | closed hclosed => cases hclosed
  | more h hcurrent' => exact .more (.next hcurrent hmore hwithin hrows h) hcurrent'
  | done h hcurrent' hmore' hend =>
    exact .done (.next hcurrent hmore hwithin hrows h) hcurrent' hmore' hend
  | last h hcurrent' hlast => exact .last (.next hcurrent hmore hwithin hrows h) hcurrent' hlast
  | failed h hcurrent' hrows' =>
    exact .failed (.next hcurrent hmore hwithin hrows h) hcurrent' hrows'

theorem asked_advance (fuel : Nat) (hfuel : fuel + s.number.toNat = 2 ^ 32) :
    Asked source (s, w) ((advance source fuel).outcome (s, w)) := by
  induction fuel generalizing s w with
  | zero =>
    have := s.number.toNat_lt
    omega
  | succ fuel ih =>
    obtain ⟨table, txn, number, current⟩ := s
    unfold advance
    simp only [Action.outcome_bind, Action.outcome_get]
    match current with
    | none => exact .closed rfl
    | some (r :: rows) => exact .more (.refl _) rfl
    | some [] =>
      by_cases hsize : number.toNat + 1 < UInt32.size
      · simp only [if_pos hsize]
        by_cases hend : table.pageCount w.disk ≤ number + 1
        · simp only [if_pos hend]
          exact .done (.refl _) rfl hsize hend
        · have hwithin : number + 1 < table.pageCount w.disk := UInt32.not_le.mp hend
          simp only [if_neg hend, Action.outcome_bind, outcome_inWorld]
          rcases hrows : (pageRows source ⟨table, txn, number, some []⟩ (number + 1)).outcome w with
            ⟨e | rows, w'⟩
          · exact .failed (.refl _) rfl hrows
          · apply Asked.turn rfl hsize hwithin hrows
            apply ih
            dsimp only at hfuel ⊢
            rw [TableStore.toNat_succ hsize]
            omega
      · simp only [if_neg hsize]
        exact .last (.refl _) rfl hsize

theorem asked_hasNext (source : PageSource σ) (st : Scan × World σ) :
    Asked source st ((hasNext source).outcome st) := by
  obtain ⟨s, w⟩ := st
  have hlt := s.number.toNat_lt
  apply asked_advance
  show UInt32.size - s.number.toNat + s.number.toNat = 2 ^ 32
  exact Nat.sub_add_cancel hlt.le

/-- The next row is the first one at hand, if there is another row. -/
theorem outcome_next (source : PageSource σ) (st : Scan × World σ) :
    (next source).outcome st = match (hasNext source).outcome st with
      | (.ok true, (s, w)) =>
          match s.current with
          | some (r :: rows) => (.ok r, ({ s with current := some rows }, w))
          | _ => (.error (.error .scanExhausted), (s, w))
      | (.ok false, st') => (.error (.error .scanExhausted), st')
      | (.error e, st') => (.error e, st') := by
  unfold next
  rw [Action.outcome_bind]
  rcases (hasNext source).outcome st with ⟨_ | _ | _, s, w⟩
  · rfl
  · rfl
  · simp only [if_true, Action.outcome_bind, Action.outcome_get]
    rcases s.current with _ | _ | ⟨r, rows⟩ <;> rfl

end Scan
end RowStore
