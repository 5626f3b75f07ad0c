import RowStore.Proofs.PoolSimulation
import RowStore.Proofs.StoreContents

/-! A pool is no more than its tables: in every run each call changes the contents of the tables as
it says, wherever the pages are, and nothing else. -/
namespace RowStore.Pool

/-- What the pages of tables hold on a disk. -/
def diskContents (tables : Catalog) (d : Disk) : Contents := fun id =>
  match tables.table? id.table with
  | none => none
  | some t =>
      if (d.fileAt t.location).length < (id.page.toNat + 1) * t.pageSize then none
      else some (Page.decode id t.schema (t.pageBytes d id.page))

/-- What the pages of tables hold for the users of a pool: a cached page holds what it holds in the
cache, any other page what its bytes on the disk say. -/
def contents (tables : Catalog) (w : World PageCache) : Contents := fun id =>
  match cached? w id with
  | some p => some (.ok (p.mark none))
  | none => diskContents tables w.disk id

/-- A step of a scan. -/
inductive ScanStep where
  | start
  | rewind
  | hasNext
  | next
  | close

/-- A call on a pool: a request, or one of those that show which pages are cached. A scan may be in
any state before its step. -/
inductive Call where
  | request (q : Request)
  | fetchPage (txn : TxnId) (id : PageId) (permission : Permission)
  | flushPage (id : PageId)
  | discard (id : PageId)
  | evict
  | scanStep (sc : Scan) (step : ScanStep)

/-- The world after a step of a scan. -/
def stepped {σ : Type} (source : PageSource σ) (w : World σ) (sc : Scan) : ScanStep → World σ
  | .start => ((Scan.start source).outcome (sc, w)).2.2
  | .rewind => ((Scan.rewind source).outcome (sc, w)).2.2
  | .hasNext => ((Scan.hasNext source).outcome (sc, w)).2.2
  | .next => ((Scan.next source).outcome (sc, w)).2.2
  | .close => (Scan.close.outcome (sc, w)).2.2

/-- The world after a call. -/
def act (tables : Catalog) (w : World PageCache) : Call → World PageCache
  | .request q => (perform tables w q).2
  | .fetchPage txn id permission => ((source tables txn id permission).outcome w).2
  | .flushPage id => ((flushPage tables id).outcome w).2
  | .discard id => ((discard id).outcome w).2
  | .evict => ((evict tables).outcome w).2
  | .scanStep sc step => stepped (source tables) w sc step

/-- The world after calls made one after the other. -/
def afterCalls (tables : Catalog) (w : World PageCache) (calls : List Call) : World PageCache :=
  calls.foldl (act tables) w

/-- What a request may do to the contents, by its reply. -/
def Effect (c c' : Contents) : Request → Reply → Prop
  | .get _ id _, .page (.ok p) => c' = c ∧ c id = some (.ok p)
  | .get .., .page (.error _) => c' = c
  | .insert _ id r, .stored row (.ok p) => ∃ rid, row = r.stamped rid ∧ rid.pageId.table = id ∧
      c' rid.pageId = some (.ok p) ∧ c.Adds c' rid row
  | .insert _ _ r, .stored row (.error _) => row = r ∧ c.Spares c'
  | .delete _ rid, .page (.ok p) => ∃ rid', rid = some rid' ∧ c' rid'.pageId = some (.ok p) ∧
      c.Removes c' rid'
  | .delete .., .page (.error _) => c' = c
  | .scan .., .rows .. => c' = c
  | .flushTxn _, .done _ => c' = c
  | .flushAll, .done _ => c' = c
  | _, _ => False

/-- What a call does to the contents: a request by its reply, and a discarded page holds again what
its bytes on the disk say. All other calls change nothing, and a page that is fetched is that of
the contents. -/
def CallEffect (tables : Catalog) (w : World PageCache) (call : Call) : Prop :=
  match call with
  | .request q =>
      Effect (contents tables w) (contents tables (act tables w call)) q (perform tables w q).1
  | .discard id => ∀ id', contents tables (act tables w call) id' =
      if id' = id then diskContents tables w.disk id else contents tables w id'
  | .fetchPage txn id permission =>
      contents tables (act tables w call) = contents tables w ∧
        ∀ h, ((source tables txn id permission).outcome w).1 = .ok h →
          ∃ p, (act tables w call).loaded[h.index]? = some p ∧
            contents tables w id = some (.ok (p.mark none))
  | _ => contents tables (act tables w call) = contents tables w

variable {tables : Catalog} {s : TableStore} {w w' : World PageCache} {id : PageId} {h : Handle}
  {p q : Page} {t : TableFile}

/-- The contents of a pool are those of the store that it stands for. -/
theorem Keeps.contents_eq (hb : tables.Separate) (hw : Keeps tables s w) :
    contents tables w = s.contents tables := by
  funext id
  unfold contents
  cases hp : cached? w id with
  | some p =>
    obtain ⟨h, hc⟩ := cached_of_cached? hp
    obtain ⟨t, ht, -⟩ := hw.coherent.placed id p hp
    exact (TableStore.contents_of_read ht (hw.read_of_cached hb ht hc)).symm
  | none =>
    unfold diskContents TableStore.contents
    cases ht : tables.table? id.table with
    | none => rfl
    | some t =>
      simp only [hw.length_eq hb ht]
      rw [← hw.store_eq, bytes_store ht, settled, hp]

theorem Keeps.sized (hw : Keeps tables s w) : s.Sized tables := by
  intro id t ht
  rw [← hw.store_eq, bytes_store ht]
  unfold settled
  have hread : (t.pageBytes w.disk id.page).length = t.pageSize := File.length_read _ _ _
  cases hp : cached? w id with
  | none => exact hread
  | some p =>
    obtain ⟨t', ht', hplaced⟩ := hw.coherent.placed id p hp
    obtain rfl := Option.some.inj (ht.symm.trans ht')
    dsimp only
    split
    · exact hplaced.belongs.encode_decode.2.1
    · exact hread

/-- What a request does to the contents of a store. -/
theorem effect_store (hb : tables.Apart) (hs : s.Sized tables) (hsmall : s.Small tables)
    (q : Request) :
    Effect (s.contents tables) ((s.perform tables q).2.contents tables) q
      (s.perform tables q).1 := by
  cases q with
  | get txn id permission =>
    simp only [TableStore.perform]
    cases ht : tables.table? id.table with
    | none => exact rfl
    | some t =>
      cases hread : s.read t id with
      | error e =>
        simp only [hread, mapError_error]
        exact rfl
      | ok p =>
        simp only [hread, mapError_ok]
        exact ⟨rfl, TableStore.contents_of_read ht hread⟩
  | insert txn k r =>
    simp only [TableStore.perform]
    cases ht : tables.table? k with
    | none => exact ⟨rfl, .refl _⟩
    | some t =>
      have hid := hb.id_eq ht
      rcases hins : s.insert t r with ⟨_ | ⟨row, p⟩, s'⟩
      · simp only [hins]
        exact ⟨rfl, TableStore.spares_insert hb hsmall (hid ▸ ht) hins⟩
      · simp only [hins]
        obtain ⟨rid, hrow, htable, hpage, hadds⟩ :=
          TableStore.adds_insert hb hs hsmall (hid ▸ ht) hins
        exact ⟨rid, hrow, htable.trans hid, hpage, hadds⟩
  | delete txn rid =>
    cases rid with
    | none => exact rfl
    | some rid =>
      simp only [TableStore.perform]
      cases ht : tables.table? rid.pageId.table with
      | none => exact rfl
      | some t =>
        rcases s.delete_cases t rid with ⟨e, hdel⟩ | ⟨p, q, hread, hfree, hdel⟩
        · simp only [hdel]
          exact rfl
        · obtain ⟨hpage, hremoves⟩ := TableStore.removes_delete hs ht hread hfree
          simp only [hdel]
          exact ⟨rid, rfl, hpage, hremoves⟩
  | scan txn k =>
    simp only [TableStore.perform]
    cases tables.table? k <;> exact rfl
  | flushTxn txn => exact rfl
  | flushAll => exact rfl

/-- A request that is refused changes no row. -/
theorem effect_of_refusal (hb : tables.Apart) {s' : TableStore} {q : Request} {reply : Reply}
    (h : Refusal tables s s' q reply) :
    Effect (s.contents tables) (s'.contents tables) q reply := by
  cases q with
  | insert txn k r =>
    cases reply with
    | stored row result =>
      obtain ⟨rfl, ⟨e, rfl⟩, rfl | ⟨t, p, ht, hblank, hlast, rfl⟩⟩ := h
      · exact ⟨rfl, .refl _⟩
      · exact ⟨rfl, TableStore.spares_append hb ht hblank hlast⟩
    | _ => exact h
  | scan txn k =>
    cases reply with
    | rows rs ending =>
      obtain rfl := h
      exact rfl
    | _ => exact h
  | get txn id permission =>
    cases reply with
    | page result =>
      obtain ⟨⟨e, rfl⟩, rfl⟩ := h
      exact rfl
    | _ => exact h
  | delete txn rid =>
    cases reply with
    | page result =>
      obtain ⟨⟨e, rfl⟩, rfl⟩ := h
      exact rfl
    | _ => exact h
  | flushTxn txn =>
    cases reply with
    | done result => exact congrArg _ h.2
    | _ => exact h
  | flushAll =>
    cases reply with
    | done result => exact congrArg _ h.2
    | _ => exact h

/-- One request, in a pool that agrees with its disk. -/
theorem Keeps.effect (hb : tables.Apart) (hw : Keeps tables s w) (hsmall : s.Small tables)
    (q : Request) :
    Effect (contents tables w) (contents tables (Pool.perform tables w q).2) q
      (Pool.perform tables w q).1 := by
  rw [hw.contents_eq hb]
  rcases hw.perform hb hsmall q with ⟨hreply, hw'⟩ | ⟨-, s', hrefusal, hw'⟩
  · rw [hreply, hw'.contents_eq hb]
    exact effect_store hb hw.sized hsmall q
  · rw [hw'.contents_eq hb]
    exact effect_of_refusal hb hrefusal

/-- A step of a scan keeps what its source of pages keeps. -/
theorem preserves_stepped {σ : Type} {source : PageSource σ} {P : World σ → Prop} {w : World σ}
    (hP : ∀ txn id permission, Action.Preserves P (source txn id permission)) (hw : P w)
    (sc : Scan) (step : ScanStep) : P (stepped source w sc step) := by
  cases step with
  | start => exact Scan.preserves_start hP (sc, w) hw
  | rewind => exact Scan.preserves_rewind hP (sc, w) hw
  | hasNext => exact Scan.preserves_hasNext hP (sc, w) hw
  | next => exact Scan.preserves_next hP (sc, w) hw
  | close => exact hw

theorem Quiet.act_scan {I : World PageCache → Prop} {F : Prop} (hI : Quiet tables I F) (hw : I w)
    (sc : Scan) (step : ScanStep) : I (stepped (source tables) w sc step) :=
  preserves_stepped hI.preserves_source hw sc step

theorem Keeps.act_flushPage (hb : tables.Separate) (hw : Keeps tables s w) (id : PageId) :
    Keeps tables s ((flushPage tables id).outcome w).2 := by
  obtain ⟨r, w', hout, hw', -⟩ := (quiet_keeps hb).flushPage hw id
  rw [hout]
  exact hw'

/-- A page that is fetched is that of the contents, which stay as they are. -/
theorem Keeps.act_fetchPage (hb : tables.Apart) (hw : Keeps tables s w) (txn : TxnId)
    (id : PageId) (permission : Permission) :
    Keeps tables s (act tables w (.fetchPage txn id permission)) ∧
      CallEffect tables w (.fetchPage txn id permission) := by
  have hw' : Keeps tables s (act tables w (.fetchPage txn id permission)) :=
    preserves_source hb txn id permission w hw
  refine ⟨hw', (hw'.contents_eq hb).trans (hw.contents_eq hb).symm, ?_⟩
  intro h hok
  cases ht : tables.table? id.table with
  | none =>
    simp only [Pool.source, Action.outcome_mapError, (quiet_keeps hb).fetch_none hw ht, mapError_error] at hok
    contradiction
  | some t =>
    obtain ⟨res, w₁, hout, -, hres⟩ := hw.source hb id ht txn permission
    rcases hres with ⟨h', p, rfl, hc, hread⟩ | ⟨e, rfl, -⟩
    · rw [hout] at hok
      obtain rfl := Except.ok.inj hok
      refine ⟨p, ?_, ?_⟩
      · simp only [act, hout]
        exact hc.2
      · rw [hw.contents_eq hb]
        exact TableStore.contents_of_read ht hread
    · rw [hout] at hok
      contradiction

/-- A discarded page leaves the cache, and all others stay in it. -/
theorem Coherent.discard (hw : Coherent tables w) (id : PageId) :
    Coherent tables { w with source := (w.source.remove id).2 } ∧
      ∀ id', cached? { w with source := (w.source.remove id).2 } id' =
        if id = id' then none else cached? w id' := by
  have hdrop := hw.toNamed.drop id
  refine ⟨⟨hdrop.live, hdrop.named, fun id' p hp => ?_⟩, hw.toNamed.cached?_drop id⟩
  rw [hw.toNamed.cached?_drop] at hp
  split at hp
  · contradiction
  · exact hw.placed id' p hp

/-- Each call keeps the pool in agreement with its disk, and does to the contents what it says. -/
theorem Coherent.step (hb : tables.Apart) (hw : Coherent tables w)
    (hcounted : tables.Counted w.disk) (call : Call) :
    Coherent tables (act tables w call) ∧ CallEffect tables w call := by
  have hkeeps := hw.keeps
  have hsmall := hkeeps.small_iff.mpr hcounted
  have hsame : Keeps tables (store tables w) (act tables w call) →
      Coherent tables (act tables w call) ∧
        contents tables (act tables w call) = contents tables w := fun hw' =>
    ⟨hw'.coherent, (hw'.contents_eq hb).trans (hkeeps.contents_eq hb).symm⟩
  cases call with
  | request q =>
    refine ⟨?_, hkeeps.effect hb hsmall q⟩
    rcases hkeeps.perform hb hsmall q with ⟨-, hw'⟩ | ⟨-, s', -, hw'⟩
    · exact hw'.coherent
    · exact hw'.coherent
  | fetchPage txn id permission =>
    obtain ⟨hw', heffect⟩ := hkeeps.act_fetchPage hb txn id permission
    exact ⟨hw'.coherent, heffect⟩
  | flushPage id => exact hsame (hkeeps.act_flushPage hb id)
  | discard id =>
    obtain ⟨hw', hcached⟩ := hw.discard id
    refine ⟨hw', fun id' => ?_⟩
    show (match cached? { w with source := (w.source.remove id).2 } id' with
      | some p => some (Except.ok (p.mark none))
      | none => diskContents tables w.disk id') = _
    rw [hcached]
    by_cases hid : id = id'
    · rw [if_pos hid, if_pos hid.symm, hid]
    · rw [if_neg hid, if_neg (Ne.symm hid)]
      rfl
  | evict =>
    obtain ⟨r, w', hout, hw', -⟩ := (quiet_keeps hb).evict hkeeps
    apply hsame
    rw [act, hout]
    exact hw'
  | scanStep sc step => exact hsame ((quiet_keeps hb).act_scan hkeeps sc step)

theorem Coherent.afterCalls (hb : tables.Apart) (hw : Coherent tables w) (calls : List Call)
    (hcounted : ∀ n, tables.Counted (afterCalls tables w (calls.take n)).disk) :
    Coherent tables (afterCalls tables w calls) := by
  induction calls generalizing w with
  | nil => exact hw
  | cons call calls ih =>
    exact ih (hw.step hb (hcounted 0) call).1 fun n => hcounted (n + 1)

/-- In every run of a new pool, over files that are never longer than 32 bits can count their pages,
each call does to the contents of the tables what it says: a row that is stored is new at the record
id that it gets, a row that is deleted is gone, and nothing else changes; whatever fails changes no
row. -/
theorem effect_of_run {capacity : Nat} {c : PageCache} (hb : tables.Backed)
    (hc : create capacity = .ok c) (d : Disk) (calls : List Call) (call : Call)
    (hcounted : ∀ n, tables.Counted (afterCalls tables (fresh d c) (calls.take n)).disk) :
    CallEffect tables (afterCalls tables (fresh d c) calls) call := by
  have hw := (coherent_fresh hc d).afterCalls hb calls hcounted
  have hend := hcounted calls.length
  rw [List.take_length] at hend
  exact (hw.step hb hend call).2

/-- Calls on a pool of one page: a full table grows, a row is lost with the page that is discarded,
and a row of a page that was written back is deleted. -/
def calls : List Call :=
  [.request (.insert 7 1 ⟨[.integer 5], none⟩), .request (.insert 7 1 ⟨[.integer 6], none⟩),
    .flushPage ⟨1, 1⟩, .request (.insert 8 2 ⟨[.integer (-1)], none⟩), .discard ⟨2, 0⟩,
    .fetchPage 8 ⟨1, 1⟩ .readOnly, .request (.delete 8 (some ⟨⟨1, 1⟩, 0⟩)), .evict]

theorem effect_of_run_calls : ∃ c, create 1 = .ok c ∧
    ∀ call, CallEffect .pair (afterCalls .pair (fresh {} c) calls) call := by
  obtain ⟨hc, -, hcounted⟩ := pair_run (act .pair) 1 {} calls (by decide)
    (by decide +kernel)
  exact ⟨_, hc, fun call => effect_of_run Catalog.backed_pair hc {} calls call hcounted⟩

end RowStore.Pool
