import RowStore.Proofs.PoolRefinement

/-! A pool always finds room for a page: at most one page goes out of the cache for it, and no error
of the cache ever reaches a caller, over whatever tables and files. -/
namespace RowStore

variable {σ ε δ α β : Type}

/-- A result that is no error but one of `E`. -/
def Confined (E : ε → Prop) (r : Except (Failure ε) α) : Prop := ∀ e, r = .error (.error e) → E e

section Confined
variable {E : ε → Prop} {D : δ → Prop}

theorem confined_ok (a : α) : Confined E (.ok a : Except (Failure ε) α) := nofun

theorem confined_fault (f : Fault) : Confined E (.error (.fault f) : Except (Failure ε) α) := nofun

theorem confined_error {e : ε} (he : E e) :
    Confined E (.error (.error e) : Except (Failure ε) α) := by
  rintro _ ⟨⟩
  exact he

theorem confined_orFault (r : Except Fault α) : Confined E (orFault r) := by
  cases r with
  | error f => exact confined_fault f
  | ok a => exact confined_ok a

/-- What stops one computation stops the one that it is part of. -/
theorem Confined.of_error {e : Failure ε} (h : Confined E (.error e : Except (Failure ε) α)) :
    Confined E (.error e : Except (Failure ε) β) := fun e' he' =>
  h e' (congrArg Except.error (Except.error.inj he'))

theorem Confined.bind {r : Except (Failure ε) α} {f : α → Except (Failure ε) β}
    (hr : Confined E r) (hf : ∀ a, Confined E (f a)) : Confined E (r >>= f) := by
  cases r with
  | error e => exact hr.of_error
  | ok a => exact hf a

theorem Confined.mapError {r : Except (Failure δ) α} {g : δ → ε} (hr : Confined D r)
    (hg : ∀ e, D e → E (g e)) : Confined E (r.mapError (Failure.map g)) := by
  rcases r with (e | f) | a
  · exact confined_error (hg e (hr e rfl))
  · exact confined_fault f
  · exact confined_ok a

theorem confined_mapError {r : Except (Failure δ) α} {g : δ → ε} (hg : ∀ e, E (g e)) :
    Confined E (r.mapError (Failure.map g)) :=
  Confined.mapError (D := fun _ => True) (fun _ _ => trivial) fun e _ => hg e

end Confined

/-- An action on tables that keeps `Q` of the source of pages, and is confined to `E`. -/
def Guards (Q : σ → Prop) (E : ε → Prop) (x : Action (World σ) ε α) : Prop :=
  ∀ w, Q w.source → Q (x.outcome w).2.source ∧ Confined E (x.outcome w).1

section Guards
variable {Q : σ → Prop} {E : ε → Prop} {D : δ → Prop}

theorem guards_pure (a : α) : Guards Q E (pure a) := fun _ hw => ⟨hw, confined_ok a⟩

theorem guards_lift {r : Except (Failure ε) α} (hr : Confined E r) : Guards Q E (Action.lift r) :=
  fun _ hw => ⟨hw, hr⟩

theorem guards_fail {e : ε} (he : E e) : Guards Q E (Action.fail e : Action (World σ) ε α) :=
  guards_lift (confined_error he)

theorem guards_set {w : World σ} (hw : Q w.source) : Guards Q E (set w) :=
  fun _ _ => ⟨hw, confined_ok _⟩

theorem guards_page (h : Handle) : Guards Q E (World.page h) := by
  intro w hw
  rw [World.outcome_page]
  cases w.loaded[h.index]? with
  | none => exact ⟨hw, confined_fault _⟩
  | some p => exact ⟨hw, confined_ok p⟩

theorem guards_setPage (h : Handle) (p : Page) : Guards Q E (World.setPage h p) :=
  fun _ hw => ⟨hw, confined_ok _⟩

theorem guards_load (p : Page) : Guards Q E (World.load p) := fun _ hw => ⟨hw, confined_ok _⟩

theorem Guards.bind {x : Action (World σ) ε α} {f : α → Action (World σ) ε β} (hx : Guards Q E x)
    (hf : ∀ a, Guards Q E (f a)) : Guards Q E (x >>= f) := by
  intro w hw
  have hres := hx w hw
  rw [Action.outcome_bind]
  generalize x.outcome w = out at hres ⊢
  obtain ⟨r, w'⟩ := out
  cases r with
  | error e => exact ⟨hres.1, hres.2.of_error⟩
  | ok a => exact hf a w' hres.1

/-- What follows on looking at the world may rely on `Q` of what was seen. -/
theorem guards_get_bind {f : World σ → Action (World σ) ε β}
    (hf : ∀ w, Q w.source → Guards Q E (f w)) : Guards Q E (get >>= f) :=
  fun w hw => hf w hw w hw

theorem Guards.mapError {x : Action (World σ) δ α} {g : δ → ε} (hx : Guards Q D x)
    (hg : ∀ e, D e → E (g e)) : Guards Q E (x.mapError g) :=
  fun w hw => ⟨(hx w hw).1, (hx w hw).2.mapError hg⟩

end Guards

/-- An error that does not come from the cache. -/
def FileError.NotCache (e : FileError) : Prop := ∀ cause, e ≠ .access (.cache cause)

/-- An error of a pool that does not come from its cache, nor passes on one that does. -/
def PoolError.NotCache (e : PoolError) : Prop := e.toFileError.NotCache

namespace TableFile
variable {Q : σ → Prop} {source : PageSource σ} {t : TableFile} {d : Disk}

theorem confined_checkTable (t : TableFile) (id : PageId) :
    Confined FileError.NotCache (t.checkTable id) := by
  unfold checkTable
  split
  · exact confined_ok _
  · exact confined_error nofun

theorem confined_readPage (t : TableFile) (d : Disk) (id : PageId) :
    Confined FileError.NotCache (t.readPage d id) := by
  refine (confined_checkTable t id).bind fun _ => (confined_orFault _).bind fun stop => ?_
  split
  · exact confined_error nofun
  · exact confined_mapError nofun

theorem confined_writePage (t : TableFile) (d : Disk) (p : Page) :
    Confined FileError.NotCache (t.writePage d p) := by
  refine (confined_checkTable t p.id).bind fun _ => (confined_orFault _).bind fun data =>
    (confined_orFault _).bind fun offset => ?_
  rcases d.write t.location offset data with e | d'
  · exact confined_error nofun
  · exact confined_ok d'

theorem guards_insertInto (h : Handle) (txn : TxnId) (r : Row) :
    Guards Q FileError.NotCache (insertInto h txn r) := by
  refine (guards_page h).bind fun p => (guards_lift ?_).bind fun (rid, p) =>
    (guards_setPage h _).bind fun _ => guards_pure _
  rcases p.insert r with e | stored
  · exact confined_error nofun
  · exact confined_ok stored

section Source
variable (hsource : ∀ txn id permission, Guards Q FileError.NotCache (source txn id permission))
include hsource

theorem guards_insertFrom (txn : TxnId) (r : Row) (count : Nat) (number : UInt32) :
    Guards Q FileError.NotCache (t.insertFrom source txn r count number) := by
  induction count generalizing number with
  | zero => exact guards_pure none
  | succ count ih =>
    refine (hsource _ _ _).bind fun h => (guards_page h).bind fun p => ?_
    split
    · exact (guards_insertInto h txn r).bind fun stored => guards_pure _
    · exact ih (number + 1)

theorem guards_insertAppended (txn : TxnId) (r : Row) (number : UInt32) :
    Guards Q FileError.NotCache (t.insertAppended source txn r number) := by
  refine guards_get_bind fun w hw => (guards_lift ?_).bind fun d => Guards.bind (guards_set hw)
    fun _ => (hsource _ _ _).bind fun h => guards_insertInto h txn r
  exact (confined_orFault _).bind fun p => confined_writePage t w.disk p

theorem guards_insert (txn : TxnId) (r : Row) :
    Guards Q FileError.NotCache (t.insert source txn r) := by
  unfold insert
  split
  · refine guards_get_bind fun w _ => (guards_insertFrom hsource txn r _ 0).bind fun found => ?_
    cases found with
    | some stored => exact guards_pure stored
    | none => exact guards_insertAppended hsource txn r _
  · exact guards_fail nofun

theorem guards_delete (txn : TxnId) (rid : Option RecordId) :
    Guards Q FileError.NotCache (t.delete source txn rid) := by
  unfold delete
  cases rid with
  | none => exact guards_fail nofun
  | some rid =>
    refine guards_get_bind fun w _ => ?_
    dsimp only
    split
    · refine (hsource _ _ _).bind fun h => (guards_page h).bind fun p => (guards_lift ?_).bind
        fun p => (guards_setPage h _).bind fun _ => guards_pure h
      rcases p.delete (some rid) with e | q
      · exact confined_error nofun
      · exact confined_ok q
    · exact guards_fail nofun

end Source
end TableFile

namespace Pool
variable {tables : Catalog} {Q : PageCache → Prop} {w w' : World PageCache} {capacity : Nat}

theorem guards_table (k : TableId) : Guards Q PoolError.NotCache (table tables k) := by
  unfold table
  cases tables.table? k with
  | none => exact guards_fail nofun
  | some t => exact guards_pure t

/-- Writing a page back leaves the cache alone. -/
theorem guards_writeBack (tables : Catalog) (h : Handle) :
    Guards Q PoolError.NotCache (writeBack tables h) := by
  refine (guards_page h).bind fun p => ?_
  split
  · refine (guards_table _).bind fun t => guards_get_bind fun w hw => (guards_lift ?_).bind fun d =>
      Guards.bind (guards_set hw) fun _ => guards_setPage h _
    exact (TableFile.confined_writePage t w.disk p).mapError fun e he => he
  · exact guards_pure _

theorem guards_flushThose (P : Page → Bool) (hs : List Handle) :
    Guards Q PoolError.NotCache (flushThose tables P hs) := by
  induction hs with
  | nil => exact guards_pure _
  | cons h hs ih =>
    refine (guards_page h).bind fun p => ?_
    split
    · exact (guards_writeBack tables h).bind fun _ => ih
    · exact ih

/-- A cache that works, with room for `capacity` pages. -/
structure Bounded (capacity : Nat) (c : PageCache) : Prop where
  live : c.Live
  capacity_eq : c.capacity = capacity

namespace Bounded
variable {c c' : PageCache} {id : PageId}

theorem get (h : Bounded capacity c) {h' : Handle} (hpeek : c.peek id = some h') :
    Bounded capacity (c.get id).2 :=
  ⟨(h.live.peek_get id).2.1, (h.live.keys_get hpeek).2.trans h.capacity_eq⟩

theorem remove (h : Bounded capacity c) (id : PageId) : Bounded capacity (c.remove id).2 :=
  ⟨(h.live.peek_remove id).1, (h.live.keys_remove id).2.trans h.capacity_eq⟩

/-- A page can be put into a cache that has it, or has room. -/
theorem put (h : Bounded capacity c) (id : PageId) (h' : Handle)
    (hroom : c.contains id ∨ c.isFull = false) :
    ∃ old c', c.put id h' = .ok (old, c') ∧ Bounded capacity c' := by
  obtain ⟨old, c', hput, hlive, -⟩ := h.live.peek_put id h' hroom
  exact ⟨old, c', hput, hlive, (h.live.keys_put hput).2.trans h.capacity_eq⟩

end Bounded

/-- The loop that makes room, as long as it takes: how many pages it drops, and what comes of it. -/
inductive Drops (tables : Catalog) :
    World PageCache → Nat → Except (Failure PoolError) Unit × World PageCache → Prop where
  | room {w : World PageCache} (hroom : w.source.isFull = false) : Drops tables w 0 (.ok (), w)
  | failed {w w' : World PageCache} {e : Failure PoolError} (hfull : w.source.isFull)
      (hevict : (evict tables).outcome w = (.error e, w')) : Drops tables w 0 (.error e, w')
  | next {w w' : World PageCache} {n : Nat}
      {out : Except (Failure PoolError) Unit × World PageCache}
      (hfull : w.source.isFull) (hevict : (evict tables).outcome w = (.ok (), w'))
      (rest : Drops tables w' n out) : Drops tables w (n + 1) out

theorem Drops.unique {n n' : Nat} {out out' : Except (Failure PoolError) Unit × World PageCache}
    (h : Drops tables w n out) (h' : Drops tables w n' out') : n' = n ∧ out' = out := by
  induction h generalizing n' with
  | room hroom =>
    cases h' with
    | room => exact ⟨rfl, rfl⟩
    | failed hfull => simp [hroom] at hfull
    | next hfull => simp [hroom] at hfull
  | failed hfull hevict =>
    cases h' with
    | room hroom => simp [hroom] at hfull
    | failed _ hevict' => exact ⟨rfl, hevict'.symm.trans hevict⟩
    | next _ hevict' => cases hevict'.symm.trans hevict
  | next hfull hevict _ ih =>
    cases h' with
    | room hroom => simp [hroom] at hfull
    | failed _ hevict' => cases hevict'.symm.trans hevict
    | next _ hevict' rest' =>
      obtain ⟨-, rfl⟩ := Prod.mk.inj (hevict'.symm.trans hevict)
      obtain ⟨rfl, rfl⟩ := ih rest'
      exact ⟨rfl, rfl⟩

/-- Dropping a page makes room. -/
theorem Bounded.evict (hw : Bounded capacity w.source) {out}
    (hout : (Pool.evict tables).outcome w = out) :
    Bounded capacity out.2.source ∧ Confined PoolError.NotCache out.1 ∧
      (out.1 = .ok () → out.2.source.isFull = false) := by
  subst hout
  unfold Pool.evict
  simp only [Action.outcome_bind, outcome_getCache]
  rcases hw.live.candidate_cases with ⟨hnone, hroom⟩ | ⟨id, h, hsome, hpeek, hroom⟩
  · rw [hnone]
    exact ⟨hw, confined_ok _, fun _ => hroom⟩
  · simp only [hsome, hpeek, Action.outcome_bind, outcome_getCache]
    obtain ⟨hsource, hconfined⟩ := guards_writeBack (Q := (· = w.source)) tables h w rfl
    generalize (writeBack tables h).outcome w = out at hsource hconfined ⊢
    obtain ⟨e | _, w'⟩ := out
    · exact ⟨hsource ▸ hw, hconfined, fun hok => by cases hok⟩
    · dsimp only at hsource
      simp only [outcome_setCache, hsource]
      exact ⟨hw.remove id, confined_ok _, fun _ => hroom⟩

/-- The loop that makes room ends after it has dropped one page at most, and if it does not fail,
there is room. -/
theorem Bounded.makeRoom (tables : Catalog) (hw : Bounded capacity w.source) {fuel : Nat}
    (hfuel : w.source.isFull → 0 < fuel) {out : Except (Failure PoolError) Unit × World PageCache}
    (hout : (Pool.makeRoom tables fuel).outcome w = out) :
    Bounded capacity out.2.source ∧ Confined PoolError.NotCache out.1 ∧
      (out.1 = .ok () → out.2.source.isFull = false) ∧ ∃ n ≤ 1, Drops tables w n out := by
  subst hout
  cases hfull : w.source.isFull with
  | false =>
    rw [makeRoom_of_room hfull]
    exact ⟨hw, confined_ok _, fun _ => hfull, 0, Nat.zero_le _, .room hfull⟩
  | true =>
    obtain ⟨fuel, rfl⟩ := Nat.exists_eq_succ_of_ne_zero (hfuel hfull).ne'
    rcases hevict : (Pool.evict tables).outcome w with ⟨e | _, w'⟩
    · obtain ⟨hw', hconfined, -⟩ := hw.evict hevict
      simp only [Pool.makeRoom, Action.outcome_bind, outcome_getCache, hfull, if_true, hevict]
      exact ⟨hw', hconfined, (fun hok => by cases hok), 0, Nat.zero_le _, .failed hfull hevict⟩
    · obtain ⟨hw', -, hroom⟩ := hw.evict hevict
      have hroom' := hroom rfl
      simp only [Pool.makeRoom, Action.outcome_bind, outcome_getCache, hfull, if_true, hevict,
        makeRoom_of_room hroom']
      exact ⟨hw', confined_ok _, fun _ => hroom', 1, le_refl _, .next hfull hevict (.room hroom')⟩

/-- Where a page is cached already, none is dropped for it. -/
theorem Bounded.cachePage_of_cached (tables : Catalog) (hw : Bounded capacity w.source)
    {id : PageId} (h : Handle) (hold : w.source.contains id) :
    ∃ c, (Pool.cachePage tables id h).outcome w = (.ok (), { w with source := c }) ∧
      Bounded capacity c ∧ ∀ id', c.contains id' = w.source.contains id' := by
  obtain ⟨c, hout, hlive, hpeek, -, hcapacity⟩ := outcome_cachePage tables hw.live hold h
  refine ⟨c, hout, ⟨hlive, hcapacity.trans hw.capacity_eq⟩, fun id' => ?_⟩
  rw [hlive.contains_eq, hw.live.contains_eq, hpeek]
  split
  · next heq => rw [← heq, ← hw.live.contains_eq, hold, Option.isSome_some]
  · rfl

theorem guards_cachePage (id : PageId) (h : Handle) :
    Guards (Bounded capacity) PoolError.NotCache (cachePage tables id h) := by
  intro w hw
  cases hold : w.source.contains id with
  | true =>
    obtain ⟨c, hout, hc, -⟩ := hw.cachePage_of_cached tables h hold
    rw [hout]
    exact ⟨hc, confined_ok _⟩
  | false =>
    obtain ⟨hw', hconfined, hroom, -⟩ :=
      hw.makeRoom tables hw.live.length_pos_of_full rfl
    unfold cachePage
    simp only [Action.outcome_bind, outcome_getCache, hold, Bool.not_false, if_true]
    generalize (makeRoom tables w.source.length).outcome w = out at hw' hconfined hroom ⊢
    obtain ⟨e | _, w'⟩ := out
    · exact ⟨hw', hconfined⟩
    · obtain ⟨old, c, hput, hc⟩ := hw'.put id h (.inr (hroom rfl))
      simp only [hput, mapError_ok, Action.outcome_lift, outcome_setCache]
      exact ⟨hc, confined_ok _⟩

theorem guards_recache (tables : Catalog) (h : Handle) :
    Guards (Bounded capacity) PoolError.NotCache (recache tables h) :=
  (guards_page h).bind fun p => guards_cachePage p.id h

theorem guards_fetch (txn : TxnId) (id : PageId) (permission : Permission) :
    Guards (Bounded capacity) PoolError.NotCache (fetch tables txn id permission) := by
  intro w hw
  unfold fetch
  simp only [Action.outcome_bind, outcome_getCache]
  rcases hget : w.source.get id with ⟨_ | h, c⟩
  · refine Guards.bind (guards_table _) (fun t => guards_get_bind fun w' _ => Guards.bind
      (guards_lift ?_) fun p => (guards_load p).bind fun h => (guards_cachePage id h).bind fun _ =>
        guards_pure h) w hw
    exact (TableFile.confined_readPage t w'.disk id).mapError fun e he => he
  · have hpeek := (hw.live.peek_get id).1
    rw [hget] at hpeek
    have hc := hw.get hpeek.symm
    rw [hget] at hc
    exact ⟨hc, confined_ok h⟩

theorem guards_source (txn : TxnId) (id : PageId) (permission : Permission) :
    Guards (Bounded capacity) FileError.NotCache (source tables txn id permission) :=
  (guards_fetch txn id permission).mapError fun _ he => he

theorem guards_delete (txn : TxnId) (rid : Option RecordId) :
    Guards (Bounded capacity) PoolError.NotCache (delete tables txn rid) := by
  unfold delete
  cases rid with
  | none => exact guards_fail nofun
  | some rid =>
    refine (guards_table _).bind fun t => Guards.bind ?_ fun h =>
      (guards_recache tables h).bind fun _ => guards_pure h
    exact (TableFile.guards_delete guards_source txn _).mapError fun _ he => he

/-- Storing a row keeps the cache, and fails only with errors that do not come from it. -/
theorem Bounded.insert (hw : Bounded capacity w.source) (txn : TxnId) (k : TableId) (r : Row) :
    Bounded capacity ((Pool.insert tables txn k r).run w).2.source ∧
      Confined PoolError.NotCache ((Pool.insert tables txn k r).run w).1.result := by
  cases ht : tables.table? k with
  | none =>
    rw [run_insert_none ht]
    exact ⟨hw, confined_error nofun⟩
  | some t =>
    rw [run_insert ht]
    obtain ⟨hw', hconfined⟩ := TableFile.guards_insert guards_source (t := t) txn r w hw
    generalize (t.insert (source tables) txn r).outcome w = out at hw' hconfined ⊢
    obtain ⟨e | st, w'⟩ := out
    · refine ⟨hw', ?_⟩
      dsimp only at hconfined ⊢
      exact (hconfined.mapError (E := PoolError.NotCache) (g := PoolError.file)
        fun _ he => he).of_error
    · obtain ⟨hw'', hconfined'⟩ := guards_recache tables st.handle w' hw'
      dsimp only
      generalize (recache tables st.handle).outcome w' = out at hw'' hconfined' ⊢
      obtain ⟨e | _, w''⟩ := out
      · refine ⟨hw'', ?_⟩
        dsimp only at hconfined' ⊢
        exact hconfined'.of_error
      · exact ⟨hw'', confined_ok _⟩

theorem preserves_bounded (txn : TxnId) (id : PageId) (permission : Permission) :
    Action.Preserves (fun w : World PageCache => Bounded capacity w.source)
      (source tables txn id permission) := fun w hw => (guards_source txn id permission w hw).1

/-- Every call keeps the cache. -/
theorem Bounded.act (hw : Bounded capacity w.source) (call : Call) :
    Bounded capacity (Pool.act tables w call).source := by
  cases call with
  | request q =>
    cases q with
    | get txn id permission => exact (guards_fetch txn id permission w hw).1
    | insert txn k r => exact (hw.insert txn k r).1
    | delete txn rid => exact (guards_delete txn rid w hw).1
    | scan txn k =>
      simp only [Pool.act, Pool.perform]
      cases tables.table? k with
      | none => exact hw
      | some t => exact preserves_scan preserves_bounded hw txn t
    | flushTxn txn => exact (guards_flushThose _ _ w hw).1
    | flushAll => exact (guards_flushThose _ _ w hw).1
  | fetchPage txn id permission => exact (guards_source txn id permission w hw).1
  | flushPage id =>
    simp only [Pool.act, Pool.flushPage, Action.outcome_bind, outcome_getCache]
    cases w.source.peek id with
    | none => exact hw
    | some h => exact (guards_writeBack tables h w hw).1
  | discard id => exact hw.remove id
  | evict => exact (hw.evict rfl).1
  | scanStep sc step => exact preserves_stepped preserves_bounded hw sc step

theorem Bounded.afterCalls (hw : Bounded capacity w.source) (calls : List Call) :
    Bounded capacity (Pool.afterCalls tables w calls).source := by
  induction calls generalizing w with
  | nil => exact hw
  | cons call calls ih => exact ih (hw.act call)

/-- A pool that finds room for every page: it has at most `capacity` pages. A full cache has a page
to drop, and the loop that makes room has exactly one run, in which it drops at most one; the
bounded loop comes to the same, and a page can be put into the cache then. No page is dropped for
one that is cached already. No page that is fetched, no row that is stored or deleted meets an error
of the cache. -/
structure FindsRoom (tables : Catalog) (capacity : Nat) (w : World PageCache) : Prop where
  length_le : w.source.length ≤ capacity
  candidate : w.source.isFull → ∃ id h, w.source.candidate = some id ∧ w.source.peek id = some h
  loop : ∃ n ≤ 1, ∃ out, (∀ m out', Drops tables w m out' ↔ m = n ∧ out' = out) ∧
    (makeRoom tables w.source.length).outcome w = out ∧
      (out.1 = .ok () → ∀ id h, ∃ old c, out.2.source.put id h = .ok (old, c))
  cached : ∀ id h, w.source.contains id → ∃ c,
    (cachePage tables id h).outcome w = (.ok (), { w with source := c }) ∧
      ∀ id', c.contains id' = w.source.contains id'
  cachePage_error : ∀ id h e, ((cachePage tables id h).outcome w).1 = .error (.error e) → e.NotCache
  fetch_error : ∀ txn id permission e,
    ((fetch tables txn id permission).outcome w).1 = .error (.error e) → e.NotCache
  insert_error : ∀ txn k r e,
    ((insert tables txn k r).run w).1.result = .error (.error e) → e.NotCache
  delete_error : ∀ txn rid e,
    ((delete tables txn rid).outcome w).1 = .error (.error e) → e.NotCache

theorem Bounded.findsRoom (hw : Bounded capacity w.source) : FindsRoom tables capacity w where
  length_le := hw.live.length_le.trans hw.capacity_eq.le
  candidate hfull := by
    rcases hw.live.candidate_cases with ⟨-, hroom⟩ | ⟨id, h, hsome, hpeek, -⟩
    · simp [hroom] at hfull
    · exact ⟨id, h, hsome, hpeek⟩
  loop := by
    obtain ⟨hw', -, hroom, n, hn, hdrops⟩ :=
      hw.makeRoom tables hw.live.length_pos_of_full rfl
    refine ⟨n, hn, _, fun m out' => ⟨hdrops.unique, ?_⟩, rfl, fun hok id h => ?_⟩
    · rintro ⟨rfl, rfl⟩
      exact hdrops
    · obtain ⟨old, c, hput, -⟩ := hw'.put id h (.inr (hroom hok))
      exact ⟨old, c, hput⟩
  cached id h hold := by
    obtain ⟨c, hout, -, hsame⟩ := hw.cachePage_of_cached tables h hold
    exact ⟨c, hout, hsame⟩
  cachePage_error id h := (guards_cachePage id h w hw).2
  fetch_error txn id permission := (guards_fetch txn id permission w hw).2
  insert_error txn k r := (hw.insert txn k r).2
  delete_error txn rid := (guards_delete txn rid w hw).2

/-- In every run of a pool, over whatever tables and files, the pool finds room for every page. -/
theorem finds_room_of_run {capacity : Nat} {c : PageCache} (tables : Catalog)
    (hc : create capacity = .ok c) (d : Disk) (calls : List Call) :
    FindsRoom tables capacity (afterCalls tables (fresh d c) calls) := by
  obtain ⟨hlive, -⟩ := RecencyCache.Live.create (mapError_eq_ok.mp hc)
  have hcapacity := (RecencyCache.keys_create (mapError_eq_ok.mp hc)).2
  have hw : Bounded capacity (fresh d c).source := ⟨hlive, hcapacity⟩
  exact (hw.afterCalls calls).findsRoom

/-- A pool of one page whose page is of a table that is full: the page has to go. -/
theorem finds_room_of_run_calls : ∃ c, create 1 = .ok c ∧
    FindsRoom .pair 1 (afterCalls .pair (fresh {} c) (calls.take 3)) ∧
    (afterCalls .pair (fresh {} c) (calls.take 3)).source.isFull ∧
    (afterCalls .pair (fresh {} c) (calls.take 3)).source.candidate = some ⟨1, 1⟩ := by
  have hc : create 1 = .ok (roomFor 1) := rfl
  exact ⟨_, hc, finds_room_of_run .pair hc {} _, by decide +kernel, by decide +kernel⟩

end Pool
end RowStore
