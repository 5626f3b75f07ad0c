import RowStore.Proofs.PoolScan

/-! A pool simulates the table store that it stands for: request by request it gives the same
replies, and afterwards it stands for the store that the request leaves. -/
namespace RowStore.Pool

variable {tables : Catalog} {s : TableStore} {w w' : World PageCache} {id : PageId} {h : Handle}
  {p q : Page} {t : TableFile}

/-- A computation that cannot fail goes on from the state that the one before it left. -/
theorem run_bind {σ α β : Type} (x : StateM σ α) (f : α → StateM σ β) (st : σ) :
    (x >>= f).run st = (f (x.run st).1).run (x.run st).2 := rfl

theorem run_insert {k : TableId} (ht : tables.table? k = some t) (txn : TxnId) (r : Row)
    (w : World PageCache) :
    (insert tables txn k r).run w = match (t.insert (source tables) txn r).outcome w with
      | (.error e, w') => (⟨r, .error (e.map .file)⟩, w')
      | (.ok st, w') => match (recache tables st.handle).outcome w' with
        | (.error e, w'') => (⟨st.row, .error e⟩, w'')
        | (.ok (), w'') => (⟨st.row, .ok st.handle⟩, w'') := by
  have hstored : (do
      let t ← table tables k
      (t.insert (source tables) txn r).mapError .file : PoolAction Stored).outcome w =
      ((t.insert (source tables) txn r).outcome w).map
        (·.mapError (Failure.map .file)) id := by
    simp only [Action.outcome_bind, outcome_table ht, Action.outcome_mapError]
    rfl
  unfold insert
  simp only [Action.outcome] at hstored ⊢
  rw [run_bind, hstored]
  rcases (t.insert (source tables) txn r).run.run w with ⟨e | st, w'⟩
  · rfl
  · simp only [Prod.map_apply, mapError_ok, id_eq]
    rw [run_bind]
    rcases (recache tables st.handle).run.run w' with ⟨_ | _, w''⟩ <;> rfl

theorem run_insert_none {k : TableId} (ht : tables.table? k = none) (txn : TxnId) (r : Row)
    (w : World PageCache) : (insert tables txn k r).run w =
      (⟨r, .error (.error (.access (.unknownTable k)))⟩, w) := by
  have hstored : (do
      let t ← table tables k
      (t.insert (source tables) txn r).mapError .file : PoolAction Stored).outcome w =
      (.error (.error (.access (.unknownTable k))), w) := by
    simp only [Action.outcome_bind, outcome_table_none ht]
  unfold insert
  simp only [Action.outcome] at hstored
  simp only [StateT.run_bind, hstored]
  rfl

/-- The page that a handle names, its tag apart. -/
def seen (w : World PageCache) (r : Except (Failure PoolError) Handle) :
    Except (Failure PoolError) Page := do
  match w.loaded[(← r).index]? with
  | some p => return p.mark none
  | none => .error (.fault .danglingHandle)

theorem Names.seen_eq (hn : Names w h q) : seen w (.ok h) = .ok q := by
  obtain ⟨p, hc, rfl⟩ := hn
  simp only [seen, ok_bind, hc.2]
  rfl

/-- The reply of a pool to a request, and the world after it. -/
def perform (tables : Catalog) (w : World PageCache) : Request → Reply × World PageCache
  | .get txn id permission =>
      let (r, w') := (fetch tables txn id permission).outcome w
      (.page (seen w' r), w')
  | .insert txn id r =>
      let (i, w') := (insert tables txn id r).run w
      (.stored i.row (seen w' i.result), w')
  | .delete txn rid =>
      let (r, w') := (delete tables txn rid).outcome w
      (.page (seen w' r), w')
  | .scan txn id =>
      match tables.table? id with
      | none => (.rows [] (.error (.error (.access (.unknownTable id)))), w)
      | some t =>
          let (out, w') := scan tables txn t w
          (.rows out.1 (out.2.mapError (Failure.map .file)), w')
  | .flushTxn txn =>
      let (r, w') := (flushTxn tables txn).outcome w
      (.done r, w')
  | .flushAll =>
      let (r, w') := (flushAll tables).outcome w
      (.done r, w')

/-- The store after a row found no place: as it was, or with an empty page behind the last one of a
table. -/
def Spared (tables : Catalog) (s s' : TableStore) : Prop :=
  s' = s ∨ ∃ t p, tables.table? t.id = some t ∧ s.blank t = .ok p ∧
    s.length t.id = (t.pagesIn (s.length t.id)).toNat * t.pageSize ∧ s' = s.append t p

/-- What a pool that lacks room for a page may do instead of what is asked: it fails and changes
nothing, an empty page apart that was made for a row. -/
def Refusal (tables : Catalog) (s s' : TableStore) : Request → Reply → Prop
  | .insert _ _ r, .stored row result => row = r ∧ (∃ e, result = .error e) ∧ Spared tables s s'
  | .get .., .page result => (∃ e, result = .error e) ∧ s' = s
  | .delete .., .page result => (∃ e, result = .error e) ∧ s' = s
  | .scan .., .rows .. => s' = s
  | .flushTxn _, .done result => (∃ e, result = .error e) ∧ s' = s
  | .flushAll, .done result => (∃ e, result = .error e) ∧ s' = s
  | _, _ => False

/-- A pool does to the store what the request does, or else refuses it. -/
def Follows (tables : Catalog) (s : TableStore) (q : Request) (out : Reply × World PageCache) :
    Prop :=
  out.1 = (s.perform tables q).1 ∧ Keeps tables (s.perform tables q).2 out.2 ∨
    ¬ s.Fits tables ∧ ∃ s', Refusal tables s s' q out.1 ∧ Keeps tables s' out.2

section Steps
variable (hb : tables.Separate) (hw : Keeps tables s w)
include hb hw

theorem Keeps.perform_get (txn : TxnId) (id : PageId) (permission : Permission) :
    Follows tables s (.get txn id permission) (perform tables w (.get txn id permission)) := by
  unfold Follows
  simp only [Pool.perform, TableStore.perform]
  cases ht : tables.table? id.table with
  | none =>
    rw [(quiet_keeps hb).fetch_none hw ht]
    exact .inl ⟨rfl, hw⟩
  | some t =>
    obtain ⟨r, w', hout, hw', hr⟩ := hw.fetch hb ht txn permission
    simp only [hout]
    rcases hr with ⟨h, p, rfl, hc, hread⟩ | ⟨e, rfl, ⟨e', rfl, hread⟩ | hlong⟩
    · left
      have hid := (hw'.coherent.placed_of_cached hc ht).belongs.id_eq
      rw [Names.seen_eq (q := p.mark none) ⟨p, hid.symm ▸ hc, rfl⟩, hread]
      exact ⟨rfl, hw'⟩
    · left
      rw [hread]
      exact ⟨rfl, hw'⟩
    · exact .inr ⟨hlong, s, ⟨⟨e, rfl⟩, rfl⟩, hw'⟩

theorem Keeps.perform_insert (hsmall : s.Small tables) (txn : TxnId) (k : TableId) (r : Row) :
    Follows tables s (.insert txn k r) (perform tables w (.insert txn k r)) := by
  unfold Follows
  simp only [Pool.perform, TableStore.perform]
  cases ht : tables.table? k with
  | none =>
    left
    rw [run_insert_none ht]
    exact ⟨rfl, hw⟩
  | some t =>
    have hid := hb.id_eq ht
    obtain ⟨res, w', hout, hres⟩ := hw.insertRow hb hsmall (hid ▸ ht) txn r
    simp only [run_insert ht, hout]
    rcases hres with ⟨hw', hsame⟩ | ⟨⟨e, rfl⟩, hlong, hspared⟩
    · left
      rcases hins : s.insert t r with ⟨_ | ⟨row, q⟩, s'⟩
      · rw [hins] at hsame hw'
        cases res with
        | error e =>
          obtain rfl := hsame
          exact ⟨rfl, hw'⟩
        | ok st => exact hsame.elim
      · rw [hins] at hsame hw'
        cases res with
        | error e => exact hsame.elim
        | ok st =>
          obtain ⟨rfl, p, hc, rfl⟩ := hsame
          obtain ⟨c, hre, hw'', hc', -⟩ := (quiet_keeps hb).recache hw' hc
          simp only [hre, Names.seen_eq ⟨p, hc', rfl⟩]
          exact ⟨rfl, hw''⟩
    · right
      refine ⟨hlong, ?_⟩
      rcases hspared with hw' | ⟨p, hblank, hlast, hw'⟩
      · exact ⟨s, ⟨rfl, ⟨_, rfl⟩, .inl rfl⟩, hw'⟩
      · exact ⟨_, ⟨rfl, ⟨_, rfl⟩, .inr ⟨t, p, hid ▸ ht, hblank, hlast, rfl⟩⟩, hw'⟩

theorem Keeps.perform_delete (txn : TxnId) (rid : Option RecordId) :
    Follows tables s (.delete txn rid) (perform tables w (.delete txn rid)) := by
  unfold Follows
  simp only [Pool.perform, Pool.delete]
  cases rid with
  | none => exact .inl ⟨rfl, hw⟩
  | some rid =>
    simp only [TableStore.perform, Action.outcome_bind]
    cases ht : tables.table? rid.pageId.table with
    | none =>
      rw [outcome_table_none ht]
      exact .inl ⟨rfl, hw⟩
    | some t =>
      have hid := hb.id_eq ht
      obtain ⟨res, w', hout, hres⟩ := hw.deleteRow hb (hid ▸ ht) txn hid.symm
      simp only [outcome_table ht, Action.outcome_mapError, hout]
      rcases hres with ⟨hw', hsame⟩ | ⟨⟨e, rfl⟩, hlong, hw'⟩
      · left
        rcases hdel : s.delete t rid with ⟨_ | q, s'⟩
        · rw [hdel] at hsame hw'
          cases res with
          | error e =>
            obtain rfl := hsame
            exact ⟨rfl, hw'⟩
          | ok h => exact hsame.elim
        · rw [hdel] at hsame hw'
          cases res with
          | error e => exact hsame.elim
          | ok h =>
            obtain ⟨p, hc, rfl⟩ := hsame
            obtain ⟨c, hre, hw'', hc', -⟩ := (quiet_keeps hb).recache hw' hc
            simp only [mapError_ok, hre, Action.outcome_pure, Names.seen_eq ⟨p, hc', rfl⟩, true_and]
            exact hw''
      · exact .inr ⟨hlong, s, ⟨⟨_, rfl⟩, rfl⟩, hw'⟩

theorem Keeps.perform_scan (txn : TxnId) (k : TableId) :
    Follows tables s (.scan txn k) (perform tables w (.scan txn k)) := by
  unfold Follows
  simp only [Pool.perform, TableStore.perform]
  cases ht : tables.table? k with
  | none => exact .inl ⟨rfl, hw⟩
  | some t =>
    have hw' := (quiet_keeps hb).outcome_scan hw txn t
    by_cases hfits : s.Fits tables
    · left
      simp only [hw.scan_eq hb hfits (hb.id_eq ht ▸ ht) txn, true_and]
      exact hw'
    · exact .inr ⟨hfits, s, rfl, hw'⟩

theorem Keeps.perform_flushTxn (txn : TxnId) :
    Follows tables s (.flushTxn txn) (perform tables w (.flushTxn txn)) := by
  obtain ⟨r, w', hout, hw', -, hr⟩ := (quiet_keeps hb).flushTxn hw txn
  unfold Follows
  simp only [Pool.perform, hout]
  rcases hr with rfl | ⟨⟨e, rfl⟩, hlong⟩
  · exact .inl ⟨rfl, hw'⟩
  · exact .inr ⟨hlong, s, ⟨⟨e, rfl⟩, rfl⟩, hw'⟩

theorem Keeps.perform_flushAll : Follows tables s .flushAll (perform tables w .flushAll) := by
  obtain ⟨r, w', hout, hw', -, hr⟩ := (quiet_keeps hb).flushAll hw
  unfold Follows
  simp only [Pool.perform, hout]
  rcases hr with ⟨rfl, -⟩ | ⟨⟨e, rfl⟩, hlong⟩
  · exact .inl ⟨rfl, hw'⟩
  · exact .inr ⟨hlong, s, ⟨⟨e, rfl⟩, rfl⟩, hw'⟩

/-- One request: the pool follows the store. -/
theorem Keeps.perform (hsmall : s.Small tables) (q : Request) :
    Follows tables s q (perform tables w q) := by
  cases q with
  | get txn id permission => exact hw.perform_get hb txn id permission
  | insert txn k r => exact hw.perform_insert hb hsmall txn k r
  | delete txn rid => exact hw.perform_delete hb txn rid
  | scan txn k => exact hw.perform_scan hb txn k
  | flushTxn txn => exact hw.perform_flushTxn hb txn
  | flushAll => exact hw.perform_flushAll hb

end Steps

theorem Keeps.small_iff (hw : Keeps tables s w) : s.Small tables ↔ tables.Counted w.disk := by
  unfold TableStore.Small Catalog.Counted
  apply forall₃_congr
  intro k t ht
  rw [← hw.store_eq]
  simp only [store, ht, Option.elim_some]

theorem Keeps.fits_iff (hw : Keeps tables s w) : s.Fits tables ↔ tables.Addressed w.disk := by
  unfold TableStore.Fits Catalog.Addressed
  apply forall₃_congr
  intro k t ht
  rw [← hw.store_eq]
  simp only [store, ht, Option.elim_some]

/-- A pool that has just been made, over a disk. -/
def fresh (d : Disk) (c : PageCache) : World PageCache := ⟨d, #[], c⟩

theorem coherent_fresh {capacity : Nat} {c : PageCache} (hc : create capacity = .ok c) (d : Disk) :
    Coherent tables (fresh d c) := by
  obtain ⟨hlive, hempty⟩ := RecencyCache.Live.create (mapError_eq_ok.mp hc)
  refine ⟨hlive, ?_, ?_⟩
  · intro id h hpeek
    simp [fresh, hempty] at hpeek
  · intro id p hp
    simp [cached?, fresh, hempty] at hp

/-- A pool without pages, with room for some. -/
def roomFor (capacity : Nat) : PageCache := ⟨capacity, ∅, Chain.empty, []⟩

theorem create_roomFor {capacity : Nat} (hpos : 0 < capacity) (hsmall : capacity < 2 ^ 32) :
    create capacity = .ok (roomFor capacity) := by
  have hroom : ¬ RecencyCache.addressable < (capacity + 2) * (16 + 16) := by
    unfold RecencyCache.addressable
    omega
  unfold create RecencyCache.create
  rw [if_neg hpos.ne', if_neg hroom]
  rfl

/-- A run over two tables from a new pool: no file is too long at first, and all pages are counted
after each step if both files stay short. -/
theorem pair_run {α : Type} (f : World PageCache → α → World PageCache) (capacity : Nat) (d : Disk)
    (steps : List α) (hcapacity : 0 < capacity ∧ capacity < 2 ^ 32)
    (hshort : ∀ n < steps.length + 1,
      Catalog.ShortPair ((steps.take n).foldl f (fresh d (roomFor capacity))).disk) :
    create capacity = .ok (roomFor capacity) ∧ Catalog.pair.Addressed d ∧
      ∀ n, Catalog.pair.Counted ((steps.take n).foldl f (fresh d (roomFor capacity))).disk := by
  refine ⟨create_roomFor hcapacity.1 hcapacity.2, ?_, ?_⟩
  · exact Catalog.addressed_pair (hshort 0 (Nat.succ_pos _))
  · apply Catalog.counted_pair_take
      (f := fun steps => (steps.foldl f (fresh d (roomFor capacity))).disk)
    exact hshort

/-- The replies of a pool to requests made one after the other. -/
def replies (tables : Catalog) (w : World PageCache) : List Request → List Reply
  | [] => []
  | q :: qs => (perform tables w q).1 :: replies tables (perform tables w q).2 qs

/-- The world after requests made one after the other. -/
def after (tables : Catalog) (w : World PageCache) (qs : List Request) : World PageCache :=
  qs.foldl (fun w q => (perform tables w q).2) w

end RowStore.Pool
