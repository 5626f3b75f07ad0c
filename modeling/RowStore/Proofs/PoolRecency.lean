import RowStore.Proofs.FetchTrace
import RowStore.Proofs.PoolCapacity

/-! Which pages are cached: in every run those that were fetched last, as many as the pool has room
for. A larger pool has cached what a smaller one has, in the same order. -/
namespace RowStore.Pool

open RecencyCache

/-- The cached pages are those of a log that were fetched last. -/
structure Recent (capacity : Nat) (log : List PageId) (w : World PageCache) : Prop where
  capacity_eq : w.source.capacity = capacity
  keys_eq : w.source.keysByRecency = (byLastUse log).take capacity

variable {tables : Catalog} {s : TableStore} {w w' : World PageCache} {id : PageId} {h : Handle}
  {p q : Page} {t : TableFile} {capacity : Nat} {log : List PageId}

theorem Recent.uses (hr : Recent capacity log w) (hu : Uses w w' id) :
    Recent capacity (log ++ [id]) w' := by
  refine ⟨hu.1.trans hr.capacity_eq, ?_⟩
  rw [hu.2, hr.capacity_eq, hr.keys_eq, take_touch, byLastUse_concat]

theorem Recent.same (hr : Recent capacity log w) (hsource : w'.source = w.source) :
    Recent capacity log w' :=
  ⟨hsource ▸ hr.capacity_eq, hsource ▸ hr.keys_eq⟩

/-- The page that was fetched last stays the first one. -/
theorem Recent.recache (hb : tables.Separate) (hw : Keeps tables s w)
    (hr : Recent capacity (log ++ [id]) w) (hc : Cached w id h p) :
    Recent capacity (log ++ [id]) ((recache tables h).outcome w).2 := by
  obtain ⟨c, hout, -, -, hkeys, hcapacity⟩ := (quiet_keeps hb).recache hw hc
  rw [hout]
  refine ⟨hcapacity.trans hr.capacity_eq, ?_⟩
  have hpos := hw.coherent.live.capacity_pos
  rw [hr.capacity_eq] at hpos
  show c.keysByRecency = _
  rw [hkeys, hr.keys_eq, byLastUse_concat]
  unfold touch
  rw [List.take_cons hpos, List.erase_cons_head]

theorem source_insertInto (h : Handle) (txn : TxnId) (r : Row) (w : World PageCache) :
    ((TableFile.insertInto h txn r).outcome w).2.source = w.source := by
  unfold TableFile.insertInto
  simp only [Action.outcome_bind, World.outcome_page]
  cases w.loaded[h.index]? with
  | none => rfl
  | some p =>
    simp only [Action.outcome_lift]
    cases p.insert r <;> rfl

section Steps
variable (hb : tables.Separate) (hfits : s.Fits tables)
include hb hfits

/-- A page that the store has is fetched; any other is not, and the pool is as it was. -/
theorem Recent.fetch (hw : Keeps tables s w) (hr : Recent capacity log w)
    (ht : tables.table? id.table = some t) (txn : TxnId) (permission : Permission) :
    ∃ res w', (Pool.fetch tables txn id permission).outcome w = (res, w') ∧ Keeps tables s w' ∧
      Recent capacity (log ++ s.readable t id) w' ∧
        ((∃ h p, res = .ok h ∧ Cached w' id h p ∧ s.read t id = .ok (p.mark none)) ∨
          ∃ e, res = .error (e.map .file) ∧ s.read t id = .error e) := by
  obtain ⟨res, w', hout, hw', hres⟩ := (quiet_keeps hb).fetch hw ht txn permission
  refine ⟨res, w', hout, hw', ?_⟩
  unfold TableStore.readable
  rcases hres with ⟨h, p, rfl, hc, huses, -⟩ | ⟨e, rfl, hread, habs, rfl⟩ | ⟨-, hlong⟩
  · have hread := hw'.read_of_cached hb ht hc
    rw [hread]
    exact ⟨hr.uses huses, .inl ⟨h, p, rfl, hc, rfl⟩⟩
  · rw [hw.read_of_absent hb ht habs, hread, List.append_nil]
    exact ⟨hr, .inr ⟨e, rfl, rfl⟩⟩
  · exact absurd hfits hlong

theorem Recent.source (hw : Keeps tables s w) (hr : Recent capacity log w)
    (ht : tables.table? id.table = some t) (txn : TxnId) (permission : Permission) :
    ∃ res w', (Pool.source tables txn id permission).outcome w = (res, w') ∧ Keeps tables s w' ∧
      Recent capacity (log ++ s.readable t id) w' ∧
        ((∃ h p, res = .ok h ∧ Cached w' id h p ∧ s.read t id = .ok (p.mark none)) ∨
          ∃ e, res = .error e ∧ s.read t id = .error e) := by
  obtain ⟨res, w', hout, hw', hr', hres⟩ := hr.fetch hb hfits hw ht txn permission
  refine ⟨res.mapError (Failure.map PoolError.toFileError), w', ?_, hw', hr', ?_⟩
  · simp only [Pool.source, Action.outcome_mapError, hout]
  · rcases hres with ⟨h, p, rfl, hread⟩ | ⟨e, rfl, hread⟩
    · exact .inl ⟨h, p, rfl, hread⟩
    · exact .inr ⟨e, congrArg _ (toFileError_file e), hread⟩

theorem serves_recent (ht : tables.table? t.id = some t) :
    Serves tables (fun log w => Keeps tables s w ∧ Recent capacity log w) s t where
  pageCount_eq hw := hw.1.pageCount_eq hb ht
  fetch {log w number} hw _ txn permission := by
    have ht' : tables.table? (PageId.mk t.id number).table = some t := ht
    obtain ⟨res, w', hout, hw', hr', hres⟩ := hw.2.source hb hfits hw.1 ht' txn permission
    refine ⟨res, w', hout, ?_⟩
    unfold TableStore.readable at hr'
    rcases hres with ⟨h, p, rfl, hc, hread⟩ | ⟨e, rfl, hread⟩
    · rw [hread] at hr'
      exact .inl ⟨h, p, rfl, hc.2, hread, hw', hr'⟩
    · rw [hread, List.append_nil] at hr'
      exact .inr ⟨e, rfl, hread, hw', hr'⟩

/-- The search for a free slot fetches the pages up to where it ends. -/
theorem Recent.insertFrom (ht : tables.table? t.id = some t) (txn : TxnId) (r : Row) (count : Nat)
    (number : UInt32) (hw : Keeps tables s w) (hr : Recent capacity log w) :
    ∃ res w', (t.insertFrom (Pool.source tables) txn r count number).outcome w = (res, w') ∧
      Recent capacity (log ++ s.reads t Page.hasFree count number) w' ∧
        match s.firstWithRoom t count number with
        | .ok none => res = .ok none ∧ Keeps tables s w'
        | _ => res ≠ .ok none := by
  induction count generalizing number w log with
  | zero => exact ⟨_, w, rfl, by simpa [TableStore.reads] using hr, rfl, hw⟩
  | succ count ih =>
    have ht' : tables.table? (PageId.mk t.id number).table = some t := ht
    obtain ⟨res, w₁, hout, hw₁, hr₁, hres⟩ := hr.source hb hfits hw ht' txn .readWrite
    unfold TableStore.readable at hr₁
    unfold TableFile.insertFrom TableStore.reads TableStore.firstWithRoom
    simp only [Action.outcome_bind, hout]
    rcases hres with ⟨h, p, rfl, hc, hread⟩ | ⟨e, rfl, hread⟩
    · rw [hread] at hr₁
      have hsame : (p.mark none).hasFree = p.hasFree := rfl
      simp only [World.outcome_page, hc.2, hread, ok_bind, hsame]
      by_cases hfree : p.hasFree
      · obtain ⟨res, w', hinto⟩ : ∃ res w', (TableFile.insertInto h txn r).outcome w₁ = (res, w') :=
          ⟨_, _, rfl⟩
        have hsource := source_insertInto h txn r w₁
        rw [hinto] at hsource
        simp only [if_pos hfree, Action.outcome_bind, hinto]
        cases res with
        | error e => exact ⟨_, w', rfl, hr₁.same hsource, by simp [pure, Except.pure]⟩
        | ok st => exact ⟨_, w', rfl, hr₁.same hsource, by simp [pure, Except.pure]⟩
      · obtain ⟨res, w', hrest, hr', hres⟩ := ih (number + 1) hw₁ hr₁
        simp only [if_neg hfree]
        exact ⟨res, w', hrest, by simpa using hr', hres⟩
    · rw [hread] at hr₁
      simp only [hread, error_bind]
      exact ⟨_, w₁, rfl, hr₁, by simp⟩

/-- A row that finds no free slot makes a new page, which is fetched. -/
theorem Recent.insertAppended (hw : Keeps tables s w) (hr : Recent capacity log w)
    (ht : tables.table? t.id = some t)
    (hlast : s.length t.id = (t.pagesIn (s.length t.id)).toNat * t.pageSize) (txn : TxnId)
    (r : Row) :
    Recent capacity (log ++ match s.blank t with
        | .ok p => [p.id]
        | .error _ => [])
      ((t.insertAppended (Pool.source tables) txn r (t.pagesIn (s.length t.id))).outcome w).2 := by
  unfold TableFile.insertAppended
  simp only [Action.outcome_bind, Action.outcome_get, Action.outcome_lift,
    writeBlank_eq (hb.size_pos ht) s]
  cases hblank : s.blank t with
  | error e =>
    rw [List.append_nil]
    exact hr
  | ok p =>
    obtain ⟨hempty, -⟩ := TableStore.blank_eq_ok hblank
    have hlength : (w.disk.fileAt t.location).length =
        (t.pagesIn (s.length t.id)).toNat * t.pageSize := by
      rw [← hlast, hw.length_eq hb ht]
    have hw₁ := hw.append ⟨t.id, t.pagesIn (s.length t.id)⟩ hb ht
      (Page.belongs_of_made (.inl hempty)) hlength
    have hread := TableStore.read_append hblank hlast
    have ht' : tables.table? (PageId.mk t.id (t.pagesIn (s.length t.id))).table = some t := ht
    obtain ⟨res, w', hout, -, hr', hres⟩ := Recent.source hb (fits_append hlast hblank hfits) hw₁
      (hr.same rfl) ht' txn .readWrite
    rw [TableStore.readable, hread] at hr'
    simp only [Except.map, Action.outcome_set, hout, TableStore.id_of_read hread]
    rcases hres with ⟨h, q, rfl, -, -⟩ | ⟨e, rfl, he⟩
    · exact hr'.same (source_insertInto h txn r w')
    · exact hr'

theorem Recent.insertRow (hsmall : s.Small tables) (hw : Keeps tables s w)
    (hr : Recent capacity log w) (ht : tables.table? t.id = some t) (txn : TxnId) (r : Row) :
    Recent capacity (log ++ s.insertReads t r)
      ((t.insert (Pool.source tables) txn r).outcome w).2 := by
  have hcount := hw.pageCount_eq hb ht
  unfold TableFile.insert TableStore.insertReads
  by_cases hconf : t.schema.conforms r.values
  · simp only [if_pos hconf, Action.outcome_bind, Action.outcome_get, hcount]
    obtain ⟨res, w', hout, hr', hres⟩ :=
      hr.insertFrom hb hfits ht txn r (t.pagesIn (s.length t.id)).toNat 0 hw
    simp only [hout]
    rcases hfirst : s.firstWithRoom t (t.pagesIn (s.length t.id)).toNat 0 with e | _ | p
    · rw [hfirst] at hres
      rcases res with e | _ | st
      · simpa using hr'
      · exact absurd rfl hres
      · simpa using hr'
    · rw [hfirst] at hres
      obtain ⟨rfl, hw'⟩ := hres
      have hlast := TableStore.length_of_firstWithRoom (hb.size_pos ht) (hsmall t.id t ht) hfirst
      rw [← List.append_assoc]
      exact hr'.insertAppended hb hfits hw' ht hlast txn r
    · rw [hfirst] at hres
      rcases res with e | _ | st
      · simpa using hr'
      · exact absurd rfl hres
      · simpa using hr'
  · rw [if_neg hconf, if_neg hconf, List.append_nil]
    exact hr

theorem Recent.deleteRow (hw : Keeps tables s w) (hr : Recent capacity log w)
    (ht : tables.table? t.id = some t) (txn : TxnId) {rid : RecordId}
    (hrid : rid.pageId.table = t.id) :
    Recent capacity (log ++ s.deleteReads t rid)
      ((t.delete (Pool.source tables) txn (some rid)).outcome w).2 := by
  have hcount := hw.pageCount_eq hb ht
  unfold TableFile.delete TableStore.deleteReads
  simp only [Action.outcome_bind, Action.outcome_get, hcount, hrid, true_and]
  by_cases hlt : rid.pageId.page < t.pagesIn (s.length t.id)
  · simp only [if_pos hlt, Action.outcome_bind]
    have ht' : tables.table? rid.pageId.table = some t := hrid ▸ ht
    obtain ⟨res, w', hout, -, hr', hres⟩ := hr.source hb hfits hw ht' txn .readWrite
    simp only [hout]
    rcases hres with ⟨h, p, rfl, hc, -⟩ | ⟨e, rfl, -⟩
    · simp only [World.outcome_page, hc.2, Action.outcome_lift]
      cases p.delete (some rid) <;> exact hr'.same rfl
    · exact hr'
  · rw [if_neg hlt, if_neg hlt, List.append_nil]
    exact hr

theorem Recent.insert (hsmall : s.Small tables) (hw : Keeps tables s w)
    (hr : Recent capacity log w) (txn : TxnId) (k : TableId) (r : Row) :
    Recent capacity (log ++ s.requestReads tables (.insert txn k r))
      ((Pool.insert tables txn k r).run w).2 := by
  cases ht : tables.table? k with
  | none =>
    rw [run_insert_none ht]
    simpa [TableStore.requestReads, ht] using hr
  | some t =>
    have ht' : tables.table? t.id = some t := hb.id_eq ht ▸ ht
    have hr' := hr.insertRow hb hfits hsmall hw ht' txn r
    obtain ⟨res, w', hout, hres⟩ := hw.insertRow hb hsmall ht' txn r
    obtain ⟨hw', hsame⟩ := hres.resolve_right fun hlong => hlong.2.1 hfits
    rw [hout] at hr'
    simp only [run_insert ht, hout, TableStore.requestReads, ht, Option.elim_some]
    cases res with
    | error e => exact hr'
    | ok st =>
      cases hins : (s.insert t r).1 with
      | error e =>
        rw [hins] at hsame
        exact hsame.elim
      | ok stored =>
        -- the page of the row was fetched last, so that it is the first one already
        obtain ⟨row, q⟩ := stored
        rw [hins] at hsame
        obtain ⟨-, p, hc, -⟩ := hsame
        obtain ⟨ids, hids⟩ := TableStore.insertReads_of_ok hins
        rw [hids, ← List.append_assoc] at hr' ⊢
        have hre := hr'.recache hb hw' hc
        dsimp only
        generalize (Pool.recache tables st.handle).outcome w' = out at hre ⊢
        obtain ⟨_ | _, w''⟩ := out <;> exact hre

theorem Recent.delete (hw : Keeps tables s w) (hr : Recent capacity log w) (txn : TxnId)
    (rid : Option RecordId) :
    Recent capacity (log ++ s.requestReads tables (.delete txn rid))
      ((Pool.delete tables txn rid).outcome w).2 := by
  unfold Pool.delete
  cases rid with
  | none => simpa [TableStore.requestReads] using hr
  | some rid =>
    simp only [Action.outcome_bind, TableStore.requestReads]
    cases ht : tables.table? rid.pageId.table with
    | none => simpa [outcome_table_none ht] using hr
    | some t =>
      have ht' : tables.table? t.id = some t := hb.id_eq ht ▸ ht
      have hr' := hr.deleteRow hb hfits hw ht' txn (hb.id_eq ht).symm
      obtain ⟨res, w', hout, hres⟩ := hw.deleteRow hb ht' txn (hb.id_eq ht).symm
      obtain ⟨hw', hsame⟩ := hres.resolve_right fun hlong => hlong.2.1 hfits
      rw [hout] at hr'
      simp only [outcome_table ht, Action.outcome_mapError, hout, Option.elim_some]
      cases res with
      | error e => exact hr'
      | ok h =>
        cases hdel : (s.delete t rid).1 with
        | error e =>
          rw [hdel] at hsame
          exact hsame.elim
        | ok q =>
          rw [hdel] at hsame
          obtain ⟨p, hc, -⟩ := hsame
          rw [TableStore.deleteReads_of_ok hdel] at hr' ⊢
          have hre := hr'.recache hb hw' hc
          simp only [mapError_ok]
          generalize (Pool.recache tables h).outcome w' = out at hre ⊢
          obtain ⟨_ | _, w''⟩ := out <;> exact hre

end Steps

/-- Going on with a scan fetches pages only if the rows at hand are given. -/
theorem Serves.hasNext {P : List PageId → World PageCache → Prop} (hs : Serves tables P s t)
    (hw : P log w) (sc : Scan) (hsc : sc.table = t) :
    P (log ++ if sc.current = some [] then s.readsAfter t hasRows sc.number else [])
      ((Scan.hasNext (Pool.source tables)).outcome (sc, w)).2.2 := by
  obtain ⟨fuel, hfuel⟩ : ∃ fuel, sc.pagesAhead = fuel + 1 :=
    Nat.exists_eq_succ_of_ne_zero (Nat.sub_pos_of_lt sc.number.toNat_lt).ne'
  simp only [Scan.hasNext, Action.outcome_bind, Action.outcome_get]
  cases hcurrent : sc.current with
  | none =>
    rw [hfuel, Scan.advance]
    simp only [Action.outcome_bind, Action.outcome_get, hcurrent]
    simpa using hw
  | some rows =>
    simp only [Option.some.injEq]
    by_cases hlt : sc.number.toNat + 1 < 2 ^ 32
    · have henough : 2 ^ 32 ≤ sc.pagesAhead + sc.number.toNat := by
        unfold Scan.pagesAhead UInt32.size
        omega
      obtain ⟨res, sc', w', hout, hw', -⟩ :=
        hs.advance hw sc.pagesAhead sc rows hsc hcurrent hlt henough
      rw [hout]
      exact hw'
    · -- there is no page with a greater number
      have hlast : (t.pagesIn (s.length t.id)).toNat ≤ sc.number.toNat + 1 := by
        have hlimit := (t.pagesIn (s.length t.id)).toNat_lt
        omega
      rw [TableStore.readsAfter_last hlast, ite_self, List.append_nil, hfuel, Scan.advance]
      simp only [Action.outcome_bind, Action.outcome_get, hcurrent]
      cases rows with
      | nil =>
        simp only [if_neg (show ¬ sc.number.toNat + 1 < UInt32.size from hlt)]
        exact hw
      | cons r rs => exact hw

/-- The next row is one of the page at hand after going on. -/
theorem world_next (sc : Scan) (w : World PageCache) :
    ((Scan.next (source tables)).outcome (sc, w)).2.2 =
      ((Scan.hasNext (source tables)).outcome (sc, w)).2.2 := by
  unfold Scan.next
  rw [Action.outcome_bind]
  rcases (Scan.hasNext (source tables)).outcome (sc, w) with ⟨_ | _ | _, sc', w'⟩
  · rfl
  · rfl
  · simp only [if_true, Action.outcome_bind, Action.outcome_get]
    rcases sc'.current with _ | _ | ⟨r, rows⟩ <;> rfl

theorem Serves.stepped {P : List PageId → World PageCache → Prop} {sc : Scan}
    (hs : Serves tables P s sc.table) (hw : P log w) (step : ScanStep) :
    P (log ++ stepReads s sc step) (Pool.stepped (source tables) w sc step) := by
  have hstart : ∀ sc', sc'.table = sc.table → P (log ++ s.pageReads sc.table 0)
      ((Scan.start (Pool.source tables)).outcome (sc', w)).2.2 := by
    intro sc' hsc'
    obtain ⟨w', hout, hw'⟩ := hs.pageRows hw { sc' with number := 0 } hsc' 0
    unfold Scan.start
    simp only [Action.outcome_bind, Scan.outcome_update, Action.outcome_get, Scan.outcome_inWorld,
      hout]
    cases s.pageRows sc.table 0 <;> exact hw'
  cases step with
  | start => exact hstart sc rfl
  | rewind => exact hstart { sc with current := none } rfl
  | hasNext => exact hs.hasNext hw sc rfl
  | next =>
    show P _ ((Scan.next (Pool.source tables)).outcome (sc, w)).2.2
    rw [world_next]
    exact hs.hasNext hw sc rfl
  | close =>
    rw [stepReads, List.append_nil]
    exact hw

section Runs
variable (hb : tables.Separate) (hfits : s.Fits tables)
include hb hfits

theorem Recent.request (hsmall : s.Small tables) (hw : Keeps tables s w)
    (hr : Recent capacity log w) (q : Request) :
    Recent capacity (log ++ s.requestReads tables q) (perform tables w q).2 := by
  cases q with
  | get txn id permission =>
    simp only [Pool.perform, TableStore.requestReads]
    cases ht : tables.table? id.table with
    | none =>
      rw [(quiet_keeps hb).fetch_none hw ht]
      simpa using hr
    | some t =>
      obtain ⟨res, w', hout, -, hr', -⟩ := hr.fetch hb hfits hw ht txn permission
      rw [hout]
      exact hr'
  | insert txn k r => exact hr.insert hb hfits hsmall hw txn k r
  | delete txn rid => exact hr.delete hb hfits hw txn rid
  | scan txn k =>
    simp only [Pool.perform, TableStore.requestReads]
    cases ht : tables.table? k with
    | none => simpa using hr
    | some t =>
      have hserves : Serves tables (fun log w => Keeps tables s w ∧ Recent capacity log w) s t :=
        serves_recent hb hfits (hb.id_eq ht ▸ ht)
      exact (hserves.scan_eq log ⟨hw, hr⟩ txn).2.2
  | flushTxn txn =>
    obtain ⟨r, w', hout, -, hretains, -⟩ := (quiet_keeps hb).flushTxn hw txn
    simp only [Pool.perform, hout, TableStore.requestReads, List.append_nil]
    exact hr.same hretains.source
  | flushAll =>
    obtain ⟨r, w', hout, -, hretains, -⟩ := (quiet_keeps hb).flushAll hw
    simp only [Pool.perform, hout, TableStore.requestReads, List.append_nil]
    exact hr.same hretains.source

/-- A call fetches its pages one after the other. -/
theorem Recent.act (hsmall : s.Small tables) (hw : Keeps tables s w) (hr : Recent capacity log w)
    {call : Call} (hregular : call.Regular tables) :
    Keeps tables (storeAfter tables s call) (act tables w call) ∧
      Recent capacity (log ++ fetches tables s call) (act tables w call) := by
  cases call with
  | request q => exact ⟨(hw.perform_eq hb hfits hsmall q).2, hr.request hb hfits hsmall hw q⟩
  | fetchPage txn id permission =>
    refine ⟨preserves_source hb txn id permission w hw, ?_⟩
    simp only [Pool.act, fetches]
    cases ht : tables.table? id.table with
    | none =>
      simp only [Pool.source, Action.outcome_mapError, (quiet_keeps hb).fetch_none hw ht]
      simpa using hr
    | some t =>
      obtain ⟨res, w', hout, -, hr', -⟩ := hr.source hb hfits hw ht txn permission
      rw [hout]
      exact hr'
  | flushPage id =>
    obtain ⟨r, w', hout, hw', hsource⟩ := (quiet_keeps hb).flushPage hw id
    simp only [Pool.act, hout, fetches, List.append_nil]
    exact ⟨hw', hr.same hsource⟩
  | discard id => exact hregular.elim
  | evict => exact hregular.elim
  | scanStep sc step =>
    have hserves : Serves tables (fun log w => Keeps tables s w ∧ Recent capacity log w) s
        sc.table := serves_recent hb hfits hregular
    exact hserves.stepped ⟨hw, hr⟩ step

theorem fits_storeAfter (hsmall : s.Small tables) (call : Call) :
    (storeAfter tables s call).Fits tables := by
  cases call with
  | request q => exact hfits.perform hb hsmall q
  | _ => exact hfits

/-- Files that stay short in the run of a pool stay short in the store. -/
theorem Recent.small (hw : Keeps tables s w) (hr : Recent capacity log w) (calls : List Call)
    (hregular : ∀ call ∈ calls, call.Regular tables)
    (hcounted : ∀ n, tables.Counted (afterCalls tables w (calls.take n)).disk) (n : Nat) :
    ((calls.take n).foldl (storeAfter tables) s).Small tables := by
  induction calls generalizing s log w n with
  | nil =>
    rw [List.take_nil]
    exact hw.small_iff.mpr (hcounted 0)
  | cons call calls ih =>
    have hsmall := hw.small_iff.mpr (hcounted 0)
    cases n with
    | zero => exact hsmall
    | succ n =>
      obtain ⟨hw', hr'⟩ := hr.act hb hfits hsmall hw (hregular call (by simp))
      exact ih (fits_storeAfter hb hfits hsmall call) hw' hr'
        (fun call' hmem => hregular call' (by simp [hmem])) (fun n => hcounted (n + 1)) n

theorem Recent.run (hw : Keeps tables s w) (hr : Recent capacity log w) (calls : List Call)
    (hregular : ∀ call ∈ calls, call.Regular tables)
    (hsmall : ∀ n, ((calls.take n).foldl (storeAfter tables) s).Small tables) :
    Recent capacity (log ++ trace tables s calls) (afterCalls tables w calls) := by
  induction calls generalizing s log w with
  | nil =>
    rw [trace, List.append_nil]
    exact hr
  | cons call calls ih =>
    obtain ⟨hw', hr'⟩ := hr.act hb hfits (hsmall 0) hw (hregular call (by simp))
    rw [trace, ← List.append_assoc]
    exact ih (fits_storeAfter hb hfits (hsmall 0) call) hw' hr'
      (fun call' hmem => hregular call' (by simp [hmem])) fun n => hsmall (n + 1)

end Runs

/-- A new pool stands for the files on its disk, and has fetched nothing. -/
theorem recent_fresh {c : PageCache} (hc : create capacity = .ok c) (d : Disk) :
    Keeps tables (.ofDisk tables d) (fresh d c) ∧ Recent capacity [] (fresh d c) := by
  obtain ⟨-, hempty⟩ := RecencyCache.Live.create (mapError_eq_ok.mp hc)
  obtain ⟨hkeys, hcapacity⟩ := keys_create (mapError_eq_ok.mp hc)
  refine ⟨⟨coherent_fresh hc d, ?_⟩, hcapacity, hkeys.trans List.take_nil.symm⟩
  have hbytes : ∀ (t : TableFile) (id : PageId),
      settled t (fresh d c) id = t.pageBytes d id.page := fun t id => settled_of_absent (hempty id)
  simp only [store, hbytes]
  rfl

/-- In every run of a new pool in which no page is discarded, the cached pages are the first ones of
all pages that were fetched, each of them once and the one that was fetched last first, as many as
the pool has room for. The pages that are fetched are the same for a larger pool, which therefore
has these pages cached first. The files have to stay short enough for 32 bits to count their pages,
and none may be longer at the start than an offset can be: then the disk takes every page that is
written back. -/
theorem recent_of_run {capacity capacity' : Nat} {c c' : PageCache} (hb : tables.Separate)
    (hc : create capacity = .ok c) (hc' : create capacity' = .ok c') (hle : capacity ≤ capacity')
    {d : Disk} (haddressed : tables.Addressed d) (calls : List Call)
    (hregular : ∀ call ∈ calls, call.Regular tables)
    (hcounted : ∀ n, tables.Counted (afterCalls tables (fresh d c) (calls.take n)).disk) :
    (afterCalls tables (fresh d c) calls).source.keysByRecency =
        (byLastUse (trace tables (.ofDisk tables d) calls)).take capacity ∧
      (afterCalls tables (fresh d c) calls).source.keysByRecency <+:
        (afterCalls tables (fresh d c') calls).source.keysByRecency := by
  obtain ⟨hw, hr⟩ := recent_fresh hc d
  obtain ⟨hw', hr'⟩ := recent_fresh hc' d
  have hfits := hw.fits_iff.mpr haddressed
  have hsmall := hr.small hb hfits hw calls hregular hcounted
  have hkeys := (hr.run hb hfits hw calls hregular hsmall).keys_eq
  have hkeys' := (hr'.run hb hfits hw' calls hregular hsmall).keys_eq
  rw [List.nil_append] at hkeys hkeys'
  refine ⟨hkeys, ?_⟩
  rw [hkeys, hkeys']
  exact List.take_prefix_take_left hle

/-- Calls on two tables: rows on three pages, the first of which is fetched again, a page that is
written back, and one that does not exist. -/
def visits : List Call :=
  [.request (.insert 7 1 ⟨[.integer 5], none⟩), .request (.insert 7 1 ⟨[.integer 6], none⟩),
    .request (.insert 8 2 ⟨[.integer (-1)], none⟩), .fetchPage 8 ⟨1, 0⟩ .readOnly,
    .flushPage ⟨2, 0⟩, .fetchPage 8 ⟨1, 7⟩ .readOnly]

theorem recent_of_run_visits : ∃ c c', create 1 = .ok c ∧ create 2 = .ok c' ∧
    trace .pair (.ofDisk .pair {}) visits = [⟨1, 0⟩, ⟨1, 0⟩, ⟨1, 1⟩, ⟨2, 0⟩, ⟨1, 0⟩] ∧
    (afterCalls .pair (fresh {} c) visits).source.keysByRecency =
      (byLastUse (trace .pair (.ofDisk .pair {}) visits)).take 1 ∧
    (afterCalls .pair (fresh {} c) visits).source.keysByRecency <+:
      (afterCalls .pair (fresh {} c') visits).source.keysByRecency := by
  obtain ⟨hc, haddressed, hcounted⟩ := pair_run (act .pair) 1 {} visits (by decide)
    (by decide +kernel)
  have hc' : create 2 = .ok (roomFor 2) := rfl
  refine ⟨_, _, hc, hc', by decide +kernel, recent_of_run Catalog.backed_pair.toSeparate hc hc'
    (by decide) haddressed visits ?_ hcounted⟩
  intro call hmem
  simp only [visits, List.mem_cons, List.not_mem_nil, or_false] at hmem
  rcases hmem with rfl | rfl | rfl | rfl | rfl | rfl <;> trivial

end RowStore.Pool
