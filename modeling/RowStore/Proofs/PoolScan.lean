import RowStore.Proofs.PoolTables

/-! Scans through a pool: whatever a scan does, the table store stays as it is, and a complete scan
gives the rows of the store. -/
namespace RowStore

namespace Action
variable {σ ε α β : Type} {P : σ → Prop}

theorem exists_outcome {x : Action σ ε α} {s : σ} {r : Except (Failure ε) α}
    (h : (x.outcome s).1 = r) : ∃ s', x.outcome s = (r, s') := ⟨_, Prod.ext h rfl⟩

/-- An action that leaves a state with a property wherever it finds one, also if it fails. -/
def Preserves (P : σ → Prop) (x : Action σ ε α) : Prop := ∀ s, P s → P (x.outcome s).2

theorem preserves_pure (a : α) : Preserves P (pure a : Action σ ε α) := fun _ h => h

theorem preserves_get : Preserves P (get : Action σ ε σ) := fun _ h => h

theorem preserves_throw (e : Failure ε) : Preserves P (throw e : Action σ ε α) := fun _ h => h

theorem Preserves.bind {x : Action σ ε α} {f : α → Action σ ε β} (hx : Preserves P x)
    (hf : ∀ a, Preserves P (f a)) : Preserves P (x >>= f) := by
  intro s hs
  have hs' := hx s hs
  rw [outcome_bind]
  generalize x.outcome s = out at hs' ⊢
  obtain ⟨res, s'⟩ := out
  cases res with
  | error e => exact hs'
  | ok a => exact hf a s' hs'

end Action

namespace Scan
variable {σ : Type} {source : PageSource σ}

section Frame
open RowStore.Action
variable {P : World σ → Prop} (hP : ∀ txn id permission, Preserves P (source txn id permission))

/-- What an action keeps of the world, it keeps as a step of a scan. -/
theorem preserves_inWorld {α : Type} {x : Action (World σ) FileError α} (hx : Preserves P x) :
    Preserves (fun st : Scan × World σ => P st.2) (inWorld x) := fun st hst => hx st.2 hst

theorem preserves_update (f : Scan → Scan) :
    Preserves (fun st : Scan × World σ => P st.2) (update f) := fun _ hst => hst

include hP

theorem preserves_pageRows (s : Scan) (number : UInt32) :
    Preserves P (pageRows source s number) := by
  unfold pageRows
  refine preserves_get.bind fun w => ?_
  split
  · exact preserves_pure _
  · refine (hP _ _ _).bind fun h => Preserves.bind ?_ fun p => preserves_pure _
    intro w hw
    rw [World.outcome_page]
    split <;> exact hw

theorem preserves_start : Preserves (fun st : Scan × World σ => P st.2) (start source) :=
  (preserves_update _).bind fun _ => preserves_get.bind fun st =>
    (preserves_inWorld (preserves_pageRows hP st.1 0)).bind fun _ => preserves_update _

theorem preserves_rewind : Preserves (fun st : Scan × World σ => P st.2) (rewind source) :=
  (preserves_update _).bind fun _ => preserves_start hP

theorem preserves_advance (fuel : Nat) :
    Preserves (fun st : Scan × World σ => P st.2) (advance source fuel) := by
  induction fuel with
  | zero => exact preserves_pure _
  | succ fuel ih =>
    unfold advance
    refine preserves_get.bind fun st => ?_
    obtain ⟨s, w⟩ := st
    dsimp only
    split
    · exact preserves_throw _
    · exact preserves_pure _
    · split
      · split
        · exact preserves_pure _
        · exact (preserves_inWorld (preserves_pageRows hP s _)).bind fun _ =>
            (preserves_update _).bind fun _ => ih
      · exact preserves_throw _

theorem preserves_hasNext : Preserves (fun st : Scan × World σ => P st.2) (hasNext source) :=
  preserves_get.bind fun st => preserves_advance hP st.1.pagesAhead

theorem preserves_next : Preserves (fun st : Scan × World σ => P st.2) (next source) := by
  unfold next
  refine (preserves_hasNext hP).bind fun more => ?_
  split
  · refine preserves_get.bind fun st => ?_
    split
    · exact (preserves_update _).bind fun _ => preserves_pure _
    · exact preserves_throw _
  · exact preserves_throw _

end Frame

theorem run_drain_succ (fuel : Nat) (st : Scan × World σ) :
    (drain source (fuel + 1)).run st = match (hasNext source).outcome st with
      | (.error e, st') => (([], .error e), st')
      | (.ok false, st') => (([], .ok ()), st')
      | (.ok true, (sc, w)) =>
          let (rest, st') := (drain source fuel).run ({ sc with current := some [] }, w)
          ((sc.current.getD [] ++ rest.1, rest.2), st') := by
  rw [drain]
  simp only [Action.outcome, StateT.run_bind]
  rcases (hasNext source).run.run st with ⟨_ | _ | _, st'⟩ <;> rfl

theorem preserves_drain {P : World σ → Prop}
    (hP : ∀ txn id permission, Action.Preserves P (source txn id permission)) (fuel : Nat)
    {st : Scan × World σ} (hst : P st.2) : P ((drain source fuel).run st).2.2 := by
  induction fuel generalizing st with
  | zero => exact hst
  | succ fuel ih =>
    have hst' := preserves_hasNext hP st hst
    rw [run_drain_succ]
    generalize (hasNext source).outcome st = out at hst' ⊢
    obtain ⟨res, s, w⟩ := out
    rcases res with _ | _ | _
    · exact hst'
    · exact hst'
    · exact ih hst'

end Scan

namespace Pool

variable {tables : Catalog} {s : TableStore} {w w' : World PageCache} {id : PageId} {h : Handle}
  {p q : Page} {t : TableFile}

/-- Fetching keeps what a pool keeps by itself, whatever page it is for. -/
theorem Quiet.preserves_fetch {I : World PageCache → Prop} {F : Prop} (hI : Quiet tables I F)
    (txn : TxnId) (id : PageId) (permission : Permission) :
    Action.Preserves I (Pool.fetch tables txn id permission) := by
  intro w hw
  cases ht : tables.table? id.table with
  | none =>
    rw [hI.fetch_none hw ht]
    exact hw
  | some t =>
    obtain ⟨res, w', hout, hw', -⟩ := hI.fetch hw ht txn permission
    rw [hout]
    exact hw'

theorem Quiet.preserves_source {I : World PageCache → Prop} {F : Prop} (hI : Quiet tables I F)
    (txn : TxnId) (id : PageId) (permission : Permission) :
    Action.Preserves I (source tables txn id permission) := hI.preserves_fetch txn id permission

theorem preserves_source (hb : tables.Separate) (txn : TxnId) (id : PageId)
    (permission : Permission) :
    Action.Preserves (Keeps tables s) (source tables txn id permission) :=
  (quiet_keeps hb).preserves_source txn id permission

/-- A scan that asks for the rows of a page gets those of the store, unless the page found no
room. -/
theorem Keeps.pageRows_cases (hb : tables.Separate) (ht : tables.table? t.id = some t)
    (hw : Keeps tables s w) (sc : Scan) (hsc : sc.table = t) (number : UInt32) :
    ∃ res w', (Scan.pageRows (Pool.source tables) sc number).outcome w = (res, w') ∧
      Keeps tables s w' ∧
        (res = s.pageRows t number ∨ (∃ e, res = .error e) ∧ ¬ s.Fits tables) := by
  have hcount := hw.pageCount_eq hb ht
  unfold Scan.pageRows TableStore.pageRows
  simp only [Action.outcome_bind, Action.outcome_get, hsc, hcount]
  by_cases hend : t.pagesIn (s.length t.id) ≤ number
  · simp only [if_pos hend]
    exact ⟨_, w, rfl, hw, .inl rfl⟩
  · obtain ⟨res, w', hout, hw', hres⟩ := hw.source hb ⟨t.id, number⟩ ht sc.txn .readOnly
    simp only [if_neg hend, Action.outcome_bind, hout]
    rcases hres with ⟨h, p, rfl, hc, hread⟩ | ⟨e, rfl, hread | hlong⟩
    · simp only [World.outcome_page, hc.2, hread]
      exact ⟨_, w', rfl, hw', .inl rfl⟩
    · rw [hread]
      exact ⟨_, w', rfl, hw', .inl rfl⟩
    · exact ⟨_, w', rfl, hw', .inr ⟨⟨e, rfl⟩, hlong⟩⟩

/-- A pool gives the pages of a table as a store has them. `P log w` is what holds of the pool in `w`
once the pages of `log` have been fetched, in this order. -/
structure Serves (tables : Catalog) (P : List PageId → World PageCache → Prop) (s : TableStore)
    (t : TableFile) : Prop where
  pageCount_eq : ∀ {log w}, P log w → t.pageCount w.disk = t.pagesIn (s.length t.id)
  fetch : ∀ {log w} {number : UInt32}, P log w → number < t.pagesIn (s.length t.id) →
    ∀ txn permission, ∃ res w',
      (source tables txn ⟨t.id, number⟩ permission).outcome w = (res, w') ∧
        ((∃ h p, res = .ok h ∧ w'.loaded[h.index]? = some p ∧
            s.read t ⟨t.id, number⟩ = .ok (p.mark none) ∧ P (log ++ [⟨t.id, number⟩]) w') ∨
          ∃ e, res = .error e ∧ s.read t ⟨t.id, number⟩ = .error e ∧ P log w')

/-- Whether a page has rows. -/
def hasRows (p : Page) : Bool := !p.rows.isEmpty

namespace Serves
variable {P : List PageId → World PageCache → Prop} {log : List PageId}
  (hs : Serves tables P s t)
include hs

theorem pageRows (hw : P log w) (sc : Scan) (hsc : sc.table = t) (number : UInt32) :
    ∃ w', (Scan.pageRows (source tables) sc number).outcome w = (s.pageRows t number, w') ∧
      P (log ++ s.pageReads t number) w' := by
  have hcount := hs.pageCount_eq hw
  unfold Scan.pageRows TableStore.pageRows TableStore.pageReads TableStore.readable
  simp only [Action.outcome_bind, Action.outcome_get, hsc, hcount]
  by_cases hend : t.pagesIn (s.length t.id) ≤ number
  · simp only [if_pos hend, List.append_nil]
    exact ⟨w, rfl, hw⟩
  · obtain ⟨res, w', hout, hres⟩ := hs.fetch hw (UInt32.not_le.mp hend) sc.txn .readOnly
    simp only [if_neg hend, Action.outcome_bind, hout]
    rcases hres with ⟨h, p, rfl, hload, hread, hw'⟩ | ⟨e, rfl, hread, hw'⟩
    · simp only [World.outcome_page, hload, hread]
      exact ⟨w', rfl, hw'⟩
    · simp only [hread, List.append_nil]
      exact ⟨w', rfl, hw'⟩

/-- Going on to a page with rows fetches the pages up to there, and leaves the same rows and the same
pages to come. -/
theorem advance (hw : P log w) (fuel : Nat) (sc : Scan) (rows : List Row) (hsc : sc.table = t)
    (hcurrent : sc.current = some rows) (hlt : sc.number.toNat + 1 < 2 ^ 32)
    (hfuel : 2 ^ 32 ≤ fuel + sc.number.toNat) :
    ∃ res sc' w', (Scan.advance (source tables) fuel).outcome (sc, w) = (res, (sc', w')) ∧
      P (log ++ if rows = [] then s.readsAfter t hasRows sc.number else []) w' ∧ match res with
        | .error e => s.rowsAfter t sc.number rows = ([], .error e) ∧ rows = [] ∧
            s.readsAfter t (fun _ => false) sc.number = s.readsAfter t hasRows sc.number
        | .ok false => s.rowsAfter t sc.number rows = ([], .ok ()) ∧ rows = [] ∧
            s.readsAfter t (fun _ => false) sc.number = s.readsAfter t hasRows sc.number
        | .ok true => sc'.table = t ∧ sc'.number.toNat + 1 < 2 ^ 32 ∧
            sc.number.toNat + (if rows = [] then 1 else 0) ≤ sc'.number.toNat ∧
            (∃ r rs, sc'.current = some (r :: rs) ∧
              s.rowsAfter t sc'.number (r :: rs) = s.rowsAfter t sc.number rows) ∧
            s.readsAfter t (fun _ => false) sc.number =
              (if rows = [] then s.readsAfter t hasRows sc.number else []) ++
                s.readsAfter t (fun _ => false) sc'.number := by
  induction fuel generalizing sc rows w log with
  | zero => omega
  | succ fuel ih =>
    obtain ⟨table, txn, number, current⟩ := sc
    simp only at hsc hcurrent hlt hfuel
    subst hsc hcurrent
    have hnext := TableStore.toNat_succ hlt
    have hcount := hs.pageCount_eq hw
    unfold Scan.advance
    simp only [Action.outcome_bind, Action.outcome_get]
    cases rows with
    | cons r rs =>
      exact ⟨_, _, _, rfl, by simpa using hw, rfl, hlt, by simp, ⟨r, rs, rfl, rfl⟩, rfl⟩
    | nil =>
      have hsize : number.toNat + 1 < UInt32.size := hlt
      simp only [if_pos hsize, hcount, if_true]
      by_cases hend : table.pagesIn (s.length table.id) ≤ number + 1
      · have hend' : (table.pagesIn (s.length table.id)).toNat ≤ number.toNat + 1 :=
          hnext ▸ UInt32.le_iff_toNat_le.mp hend
        simp only [if_pos hend, TableStore.readsAfter_last hend', List.append_nil]
        exact ⟨_, _, _, rfl, hw, TableStore.rowsAfter_last hend' [], trivial, trivial⟩
      · have hmore : number.toNat + 1 < (table.pagesIn (s.length table.id)).toNat := by
          rw [UInt32.le_iff_toNat_le, hnext] at hend
          omega
        have hlimit := (table.pagesIn (s.length table.id)).toNat_lt
        obtain ⟨w', hout, hw'⟩ := hs.pageRows hw ⟨table, txn, number, some []⟩ rfl (number + 1)
        simp only [if_neg hend, Action.outcome_bind, Scan.outcome_inWorld, hout,
          TableStore.pageRows, TableStore.pageReads, TableStore.readable,
          TableStore.rowsAfter_next hmore, TableStore.readsAfter_next hmore] at hw' ⊢
        cases hread : s.read table ⟨table.id, number + 1⟩ with
        | error e =>
          rw [hread] at hw'
          exact ⟨_, _, _, rfl, hw', rfl, trivial, rfl⟩
        | ok p =>
          rw [hread] at hw'
          obtain ⟨res, sc', w'', hadv, hw'', hres⟩ :=
            ih hw' ⟨table, txn, number + 1, some p.rows⟩ p.rows rfl rfl
              (show (number + 1).toNat + 1 < 2 ^ 32 by omega)
              (show 2 ^ 32 ≤ fuel + (number + 1).toNat by omega)
          -- the page at hand ends the search if it has rows
          have hstop : (if p.rows = [] then s.readsAfter table hasRows (number + 1) else []) =
              if hasRows p then [] else s.readsAfter table hasRows (number + 1) := by
            unfold hasRows
            cases p.rows <;> rfl
          rw [hstop, List.append_assoc] at hw''
          refine ⟨res, sc', w'', hadv, hw'', ?_⟩
          rcases res with e | _ | _
          · obtain ⟨hrows, hnil, hahead⟩ := hres
            refine ⟨hrows, trivial, ?_⟩
            simp [hahead, hasRows, hnil]
          · obtain ⟨hrows, hnil, hahead⟩ := hres
            refine ⟨hrows, trivial, ?_⟩
            simp [hahead, hasRows, hnil]
          · obtain ⟨htable, hbound, hmono, hrest, hahead⟩ := hres
            simp only [hnext] at hmono
            refine ⟨htable, hbound, (Nat.le_add_right _ _).trans hmono, hrest, ?_⟩
            simp only [hahead, hstop, Bool.false_eq_true, if_false, List.cons_append]

/-- Draining a scan gives the rows at hand and those of the pages ahead, which it fetches all. -/
theorem drain (hw : P log w) (fuel : Nat) (sc : Scan) (rows : List Row)
    (hsc : sc.table = t) (hcurrent : sc.current = some rows) (hlt : sc.number.toNat + 1 < 2 ^ 32)
    (hfuel : 2 ^ 32 + (if rows = [] then 0 else 1) ≤ fuel + sc.number.toNat) :
    ∃ st, (Scan.drain (source tables) fuel).run (sc, w) =
      (s.rowsAfter t sc.number rows, st) ∧
        P (log ++ s.readsAfter t (fun _ => false) sc.number) st.2 := by
  induction fuel generalizing sc rows w log with
  | zero => omega
  | succ fuel ih =>
    have hahead : 2 ^ 32 ≤ sc.pagesAhead + sc.number.toNat := by
      unfold Scan.pagesAhead UInt32.size
      omega
    obtain ⟨res, sc', w', hadv, hw', hres⟩ :=
      hs.advance hw sc.pagesAhead sc rows hsc hcurrent hlt hahead
    rw [Scan.run_drain_succ]
    simp only [Scan.hasNext, Action.outcome_bind, Action.outcome_get, hadv]
    rcases res with e | _ | _
    · obtain ⟨hrows, rfl, hreads⟩ := hres
      exact ⟨_, by rw [hrows], by simpa [hreads] using hw'⟩
    · obtain ⟨hrows, rfl, hreads⟩ := hres
      exact ⟨_, by rw [hrows], by simpa [hreads] using hw'⟩
    · obtain ⟨hsc', hlt', hmono, ⟨r, rs, hrows, hrest⟩, hreads⟩ := hres
      obtain ⟨st, hdrain, hw''⟩ := ih hw' { sc' with current := some [] } [] hsc' rfl hlt' (by
          simp only [if_true]
          split at hfuel <;> split at hmono <;> omega)
      refine ⟨st, ?_, ?_⟩
      · simp only [hdrain, hrows, Option.getD_some, ← hrest]
        rfl
      · rw [hreads, ← List.append_assoc]
        exact hw''

end Serves

/-- A complete scan: all rows of a table, and how the scan ended. -/
def scan (tables : Catalog) (txn : TxnId) (t : TableFile) (w : World PageCache) :
    (List Row × Except (Failure FileError) Unit) × World PageCache :=
  match (Scan.start (source tables)).outcome (t.scan txn, w) with
  | (.error e, (_, w')) => (([], .error e), w')
  | (.ok (), st) =>
      let out := (Scan.rest (source tables)).run st
      (out.1, out.2.2)

section Scanned
variable {σ : Type}

/-- The world after a complete scan, with any source of pages. -/
def scanned (source : PageSource σ) (txn : TxnId) (t : TableFile) (w : World σ) : World σ :=
  match (Scan.start source).outcome (t.scan txn, w) with
  | (.error _, st) => st.2
  | (.ok _, st) => ((Scan.rest source).run st).2.2

theorem preserves_scanned {source : PageSource σ} {P : World σ → Prop} {w : World σ}
    (hP : ∀ txn id permission, Action.Preserves P (source txn id permission)) (hw : P w)
    (txn : TxnId) (t : TableFile) : P (scanned source txn t w) := by
  have hstart := Scan.preserves_start hP (t.scan txn, w) hw
  unfold scanned
  generalize (Scan.start source).outcome (t.scan txn, w) = out at hstart ⊢
  obtain ⟨e | _, st⟩ := out
  · exact hstart
  · exact Scan.preserves_drain hP _ hstart

end Scanned

theorem scanned_source (tables : Catalog) (txn : TxnId) (t : TableFile) (w : World PageCache) :
    scanned (source tables) txn t w = (scan tables txn t w).2 := by
  unfold scanned scan
  rcases (Scan.start (source tables)).outcome (t.scan txn, w) with ⟨e | _, st⟩ <;> rfl

/-- A complete scan keeps what the pool keeps as a source of pages. -/
theorem preserves_scan {P : World PageCache → Prop}
    (hP : ∀ txn id permission, Action.Preserves P (source tables txn id permission)) (hw : P w)
    (txn : TxnId) (t : TableFile) : P (scan tables txn t w).2 :=
  scanned_source tables txn t w ▸ preserves_scanned hP hw txn t

theorem Quiet.outcome_scan {I : World PageCache → Prop} {F : Prop} (hI : Quiet tables I F)
    (hw : I w) (txn : TxnId) (t : TableFile) : I (scan tables txn t w).2 :=
  preserves_scan hI.preserves_source hw txn t

/-- A complete scan gives the rows of the store, and fetches all pages up to the first one that
cannot be read. -/
theorem Serves.scan_eq {P : List PageId → World PageCache → Prop} (hs : Serves tables P s t)
    (log : List PageId) (hw : P log w) (txn : TxnId) :
    (scan tables txn t w).1 = s.rows t ∧
      P (log ++ s.reads t (fun _ => false) (t.pagesIn (s.length t.id)).toNat 0)
        (scan tables txn t w).2 := by
  obtain ⟨w', hpage, hw'⟩ := hs.pageRows hw { t.scan txn with number := 0 } rfl 0
  rw [TableStore.rows_eq, TableStore.reads_eq s t _ fun _ => rfl, ← List.append_assoc]
  unfold Pool.scan Scan.start
  simp only [Action.outcome_bind, Scan.outcome_update, Action.outcome_get, Scan.outcome_inWorld,
    hpage]
  cases hrows : s.pageRows t 0 with
  | error e => exact ⟨rfl, by simpa using hw'⟩
  | ok rows =>
    obtain ⟨st, hdrain, hw''⟩ := hs.drain hw' (2 ^ 32 + 1)
      { t.scan txn with number := 0, current := some rows } rows rfl rfl
      (show (0 : UInt32).toNat + 1 < 2 ^ 32 by decide) (by split <;> simp)
    refine ⟨congrArg Prod.fst hdrain, ?_⟩
    show P _ (((Scan.drain (source tables) (2 ^ 32 + 1)).run
      ({ t.scan txn with number := 0, current := some rows }, w')).2.2)
    rw [hdrain]
    exact hw''

theorem Keeps.serves (hb : tables.Separate) (hfits : s.Fits tables)
    (ht : tables.table? t.id = some t) : Serves tables (fun _ => Keeps tables s) s t where
  pageCount_eq hw := hw.pageCount_eq hb ht
  fetch {log w number} hw _ txn permission := by
    obtain ⟨res, w', hout, hw', hres⟩ := hw.source hb ⟨t.id, number⟩ ht txn permission
    refine ⟨res, w', hout, ?_⟩
    rcases hres with ⟨h, p, rfl, hc, hread⟩ | ⟨e, rfl, he⟩
    · exact .inl ⟨h, p, rfl, hc.2, hread, hw'⟩
    · exact .inr ⟨e, rfl, he.resolve_right fun hlong => hlong hfits, hw'⟩

/-- A complete scan gives the rows of the store. -/
theorem Keeps.scan_eq (hb : tables.Separate) (hfits : s.Fits tables)
    (ht : tables.table? t.id = some t) (hw : Keeps tables s w) (txn : TxnId) :
    (scan tables txn t w).1 = s.rows t :=
  ((Keeps.serves hb hfits ht).scan_eq [] hw txn).1

end Pool
end RowStore
