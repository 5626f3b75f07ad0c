import RowStore.Proofs.PageWrites

/-! All who get a page from a pool share it. For as long as a page stays in the cache there is one
handle for it, whoever asks, and what a call writes is seen under this handle by all who hold it. -/
namespace RowStore.Pool

/-- Calls on a pool, one after the other. -/
structure Run where
  tables : Catalog
  start : World PageCache
  calls : List Call

namespace Run
variable {r : Run} {m n : Nat}

/-- The world before call `n`. -/
def world (r : Run) (n : Nat) : World PageCache := afterCalls r.tables r.start (r.calls.take n)

/-- The caches that the pool goes through in call `n`. -/
def trail (r : Run) (n : Nat) : List PageCache :=
  match r.calls[n]? with
  | some call => Pool.trail r.tables (r.world n) call
  | none => []

/-- Call `n` gives back a page under a handle. -/
def Returns (r : Run) (n : Nat) (id : PageId) (h : Handle) : Prop :=
  ∃ call, r.calls[n]? = some call ∧ returned? r.tables (r.world n) call = some (id, h)

/-- Call `n` has written a row, or deleted one. -/
def Writes (r : Run) (n : Nat) (x : Written) : Prop :=
  ∃ call, r.calls[n]? = some call ∧ written? r.tables (r.world n) call = some x

/-- A page stays in the cache from before call `m` until before call `n`. -/
structure Resident (r : Run) (id : PageId) (m n : Nat) : Prop where
  le : m ≤ n
  cached : (r.world m).source.contains id
  stays : ∀ k, m ≤ k → k < n → ∀ c ∈ r.trail k, c.contains id

theorem world_succ {call : Call} (hcall : r.calls[n]? = some call) :
    r.world (n + 1) = act r.tables (r.world n) call := by
  have htake : r.calls.take (n + 1) = r.calls.take n ++ [call] := by
    rw [List.take_add_one, hcall]
    rfl
  rw [world, htake, afterCalls_concat, world]

theorem world_succ_of_end (hend : r.calls[n]? = none) : r.world (n + 1) = r.world n := by
  have hle := List.getElem?_eq_none_iff.mp hend
  rw [world, world, List.take_of_length_le hle, List.take_of_length_le (Nat.le_succ_of_le hle)]

theorem orderly (hstart : Orderly r.start) (n : Nat) : Orderly (r.world n) := by
  induction n with
  | zero => exact hstart
  | succ n ih =>
    cases hcall : r.calls[n]? with
    | none => rwa [world_succ_of_end hcall]
    | some call =>
      rw [world_succ hcall]
      exact (ih.carries r.tables call).orderly

/-- The caches of a call, from the one before it to the one after it. -/
theorem chain (hw : Orderly (r.world n)) :
    ((r.world n).source :: r.trail n).IsChain KeepsHandles ∧
      ((r.world n).source :: r.trail n).getLast? = some (r.world (n + 1)).source ∧
      ∀ c ∈ r.trail n, c.Live ∧ OneToOne c := by
  unfold trail
  cases hcall : r.calls[n]? with
  | none =>
    rw [world_succ_of_end hcall]
    exact ⟨.singleton _, rfl, nofun⟩
  | some call =>
    obtain ⟨hchain, hlast, hcaches⟩ := hw.toNamed.asked r.tables call
    have hcarries := hw.carries r.tables call
    rw [world_succ hcall]
    simp only [Pool.trail, ← List.cons_append]
    refine ⟨List.isChain_append.mpr ⟨hchain, .singleton _, fun c hc c' hc' => ?_⟩,
      List.getLast?_concat, fun c hc => ?_⟩
    · obtain rfl := Option.some.inj (hlast.symm.trans hc)
      obtain rfl := Option.some.inj hc'
      exact hcarries.keepsHandles
    · rcases List.mem_append.mp hc with hc | hc
      · exact hcaches c hc
      · rw [List.mem_singleton.mp hc]
        exact ⟨hcarries.orderly.live, hcarries.orderly.toNamed.oneToOne⟩

/-- A page that is in all caches of a chain has one handle in them. -/
theorem peek_of_chain {cs : List PageCache} {c l : PageCache} {id : PageId} {h : Handle}
    (hchain : (c :: cs).IsChain KeepsHandles) (hcaches : ∀ c ∈ cs, c.Live ∧ OneToOne c)
    (hin : ∀ c ∈ cs, c.contains id) (hpeek : c.peek id = some h)
    (hlast : (c :: cs).getLast? = some l) : l.peek id = some h := by
  induction cs generalizing c with
  | nil => exact Option.some.inj hlast ▸ hpeek
  | cons c' cs ih =>
    obtain ⟨hkeeps, hrest⟩ := List.isChain_cons_cons.mp hchain
    have hlive := (hcaches c' (by simp)).1
    have hthere := hin c' (by simp)
    rw [hlive.contains_eq, Option.isSome_iff_exists] at hthere
    obtain ⟨h', hpeek'⟩ := hthere
    obtain rfl := hkeeps id h h' hpeek hpeek'
    refine ih hrest (fun c hc => hcaches c (by simp [hc])) (fun c hc => hin c (by simp [hc]))
      hpeek' ?_
    rwa [List.getLast?_cons_cons] at hlast

/-- As long as a page stays in the cache, it stays there under one handle. -/
theorem Resident.peek_eq {id : PageId} (hres : r.Resident id m n) (hstart : Orderly r.start) :
    (r.world n).source.peek id = (r.world m).source.peek id := by
  obtain ⟨hle, hcached, hstays⟩ := hres
  rw [(orderly hstart m).live.contains_eq, Option.isSome_iff_exists] at hcached
  obtain ⟨h, hpeek⟩ := hcached
  rw [hpeek]
  induction n, hle using Nat.le_induction with
  | base => exact hpeek
  | succ n hle ih =>
    obtain ⟨hchain, hlast, hcaches⟩ := chain (orderly hstart n)
    have hpeek' := ih fun k hk hkn => hstays k hk (Nat.lt_succ_of_lt hkn)
    exact peek_of_chain hchain hcaches (hstays n hle (Nat.lt_succ_self n)) hpeek' hlast

/-- What a call has written is seen under its handle as long as the page stays in the cache and
nothing else is written in its place. -/
theorem Resident.shows {x : Written} (hx : r.Writes n x)
    (hres : r.Resident x.rid.pageId (n + 1) m) (hstart : Orderly r.start)
    (hsince : ∀ i y, n < i → i < m → r.Writes i y → y.rid ≠ x.rid) :
    ∃ p, Cached (r.world m) x.rid.pageId x.handle p ∧ x.Shows p := by
  obtain ⟨call, hcall, hx⟩ := hx
  obtain ⟨⟨q, hc, hshows⟩, -⟩ := (orderly hstart n).cached_of_written hx
  rw [← world_succ hcall] at hc
  obtain ⟨hle, hcached, hstays⟩ := hres
  induction m, hle using Nat.le_induction with
  | base => exact ⟨q, hc, hshows⟩
  | succ m hle ih =>
    obtain ⟨p, hp, hshows'⟩ := ih (fun i y hi him => hsince i y hi (Nat.lt_succ_of_lt him))
      fun k hk hkm => hstays k hk (Nat.lt_succ_of_lt hkm)
    have hpeek := (Resident.peek_eq ⟨Nat.le_succ_of_le hle, hcached, hstays⟩ hstart).trans hc.1
    cases hnext : r.calls[m]? with
    | none =>
      rw [world_succ_of_end hnext]
      exact ⟨p, hp, hshows'⟩
    | some call' =>
      have hw := orderly hstart m
      rw [world_succ hnext] at hpeek ⊢
      obtain ⟨q', hq', hmark | ⟨y, hy, hrewritten⟩⟩ := (hw.carries r.tables call').kept hp hpeek
      · exact ⟨q', hq', hshows'.of_mark hmark⟩
      · refine ⟨q', hq', hrewritten.shows_other (hw.sound _ p hp.2) (hw.own _ p hp.cached?_eq)
          (fun _ => rid_of_written hx) ?_ hshows'⟩
        exact hsince m y hle (Nat.lt_succ_self m) ⟨call', hnext, hy⟩

/-- What a call has written stays in its place until something else is written there, wherever the
page is, unless the page is discarded. -/
theorem row?_of_writes {x : Written} (hx : r.Writes n x) (hstart : Orderly r.start)
    (heffect : ∀ i call, CallEffect r.tables (r.world i) call) (hlt : n < m)
    (hsince : ∀ i y, n < i → i < m → r.Writes i y → y.rid ≠ x.rid)
    (hkept : ∀ i, n < i → i < m → r.calls[i]? ≠ some (.discard x.rid.pageId)) :
    (contents r.tables (r.world m)).row? x.rid = x.row := by
  obtain ⟨call, hcall, hx⟩ := hx
  induction m, hlt using Nat.le_induction with
  | base =>
    have hnot : call ≠ .discard x.rid.pageId := by
      rintro rfl
      cases hx
    rw [world_succ hcall, (orderly hstart n).row?_act (heffect n call) hnot, hx]
    exact if_pos rfl
  | succ m hlt ih =>
    have ih := ih (fun i y hi him => hsince i y hi (Nat.lt_succ_of_lt him))
      fun i hi him => hkept i hi (Nat.lt_succ_of_lt him)
    cases hnext : r.calls[m]? with
    | none => rwa [world_succ_of_end hnext]
    | some call' =>
      have hnot : call' ≠ .discard x.rid.pageId := by
        rintro rfl
        exact hkept m hlt (Nat.lt_succ_self m) hnext
      rw [world_succ hnext, (orderly hstart m).row?_act (heffect m call') hnot]
      cases hy : written? r.tables (r.world m) call' with
      | none => exact ih
      | some y =>
        have hne := hsince m y hlt (Nat.lt_succ_self m) ⟨call', hnext, hy⟩
        exact (if_neg hne).trans ih

/-- In a run of a pool, all who get a page share it. In each cache on the way pages and handles are
one to one. What a call gives back is cached under its handle; for as long as the page stays in the
cache, this is the only handle that it has. A call that stores or deletes a row gives back the page
that it has written, which comes first in the order of use then, and the change is seen under every
handle that is given out while the page stays in the cache. Where tables have their files for
themselves, it is seen by all who get the page later, unless the page was discarded. -/
structure SharesHandles (r : Run) : Prop where
  one_to_one : ∀ n, OneToOne (r.world n).source ∧ ∀ c ∈ r.trail n, OneToOne c
  cached : ∀ {n id h}, r.Returns n id h → ∃ p, Cached (r.world (n + 1)) id h p ∧ p.id = id
  resident : ∀ {id m n}, r.Resident id m n →
    (r.world n).source.peek id = (r.world m).source.peek id
  same : ∀ {id m n h h'}, r.Returns m id h → r.Returns n id h' → r.Resident id (m + 1) (n + 1) →
    h' = h
  inserted : ∀ {n txn k row stored h}, r.calls[n]? = some (.request (.insert txn k row)) →
    ((insert r.tables txn k row).run (r.world n)).1 = ⟨stored, .ok h⟩ →
      ∃ rid, r.Writes n ⟨h, rid, some stored⟩
  deleted : ∀ {n txn rid h}, r.calls[n]? = some (.request (.delete txn rid)) →
    ((delete r.tables txn rid).outcome (r.world n)).1 = .ok h →
      ∃ rid', rid = some rid' ∧ r.Writes n ⟨h, rid', none⟩
  first : ∀ {n x}, r.Writes n x → r.Returns n x.rid.pageId x.handle ∧
    (r.world (n + 1)).source.keysByRecency.head? = some x.rid.pageId
  seen : ∀ {k n m x h}, r.Writes n x → (∀ i y, n < i → i < m → r.Writes i y → y.rid ≠ x.rid) →
    r.Returns k x.rid.pageId h → r.Resident x.rid.pageId (k + 1) m →
      r.Resident x.rid.pageId (n + 1) m → ∃ p, (r.world m).loaded[h.index]? = some p ∧ x.Shows p
  seen_later : r.tables.Apart → (∀ n, r.tables.Counted (r.world n).disk) → ∀ {n m x h},
    r.Writes n x → n < m → (∀ i y, n < i → i ≤ m → r.Writes i y → y.rid ≠ x.rid) →
      (∀ i, n < i → i < m → r.calls[i]? ≠ some (.discard x.rid.pageId)) →
        r.Returns m x.rid.pageId h → ∃ p, (r.world (m + 1)).loaded[h.index]? = some p ∧ x.Shows p

theorem exists_cached_of_returns (hstart : Orderly r.start) {id : PageId} {h : Handle}
    (hreturns : r.Returns n id h) : ∃ p, Cached (r.world (n + 1)) id h p := by
  obtain ⟨call, hcall, hreturned⟩ := hreturns
  rw [world_succ hcall]
  exact (orderly hstart n).cached_of_returned hreturned

/-- Where tables have their files for themselves, each call of a run from a coherent world does to
the contents what it says. -/
theorem callEffect (hb : r.tables.Apart) (hcoherent : Coherent r.tables r.start)
    (hcounted : ∀ n, r.tables.Counted (r.world n).disk) (n : Nat) (call : Call) :
    CallEffect r.tables (r.world n) call := by
  refine ((hcoherent.afterCalls hb (r.calls.take n) fun k => ?_).step hb (hcounted n) call).2
  rw [List.take_take]
  exact hcounted _

end Run

theorem Written.shows_of_row {x : Written} {p : Page} (hrow : p.row? x.rid.slot.toNat = x.row) :
    x.Shows p := by
  unfold Written.Shows
  cases hr : x.row with
  | none => exact hrow.trans hr
  | some r => exact Page.mem_rows.mpr ⟨_, hrow.trans hr⟩

theorem Run.sharesHandles {r : Run} (hstart : Orderly r.start)
    (hcoherent : Coherent r.tables r.start) : r.SharesHandles where
  one_to_one n := ⟨(orderly hstart n).toNamed.oneToOne,
    fun c hc => ((chain (orderly hstart n)).2.2 c hc).2⟩
  cached {n id h} hreturns := by
    obtain ⟨p, hc⟩ := exists_cached_of_returns hstart hreturns
    exact ⟨p, hc, (orderly hstart (n + 1)).own id p hc.cached?_eq⟩
  resident hres := hres.peek_eq hstart
  same hreturns hreturns' hres := by
    obtain ⟨p, hc⟩ := exists_cached_of_returns hstart hreturns
    obtain ⟨p', hc'⟩ := exists_cached_of_returns hstart hreturns'
    exact Option.some.inj (hc'.1.symm.trans ((hres.peek_eq hstart).trans hc.1))
  inserted hcall hok := by
    obtain ⟨rid, hwritten⟩ := (orderly hstart _).written_of_inserted hok
    exact ⟨rid, _, hcall, hwritten⟩
  deleted {n txn rid h} hcall hok := by
    cases rid with
    | none => cases hok
    | some rid => exact ⟨rid, rfl, _, hcall, by simp only [written?, hok, Option.map_some]⟩
  first := by
    rintro n x ⟨call, hcall, hx⟩
    refine ⟨⟨call, hcall, returned?_of_written hx⟩, ?_⟩
    rw [world_succ hcall]
    exact ((orderly hstart n).cached_of_written hx).2
  seen {k n m x h} hx hsince hreturns hres hres' := by
    obtain ⟨p, hc, hshows⟩ := hres'.shows hx hstart hsince
    obtain ⟨p', hc'⟩ := exists_cached_of_returns hstart hreturns
    obtain rfl := Option.some.inj (hc.1.symm.trans ((hres.peek_eq hstart).trans hc'.1))
    exact ⟨p, hc.2, hshows⟩
  seen_later hb hcounted {n m x h} hx hlt hsince hkept hreturns := by
    obtain ⟨p, hc⟩ := exists_cached_of_returns hstart hreturns
    obtain ⟨call, hcall, hreturned⟩ := hreturns
    have hrow := row?_of_writes hx hstart (callEffect hb hcoherent hcounted)
      (Nat.lt_succ_of_lt hlt) (fun i y hi him => hsince i y hi (Nat.lt_succ_iff.mp him))
      fun i hi him hdiscard => by
        rcases Nat.lt_succ_iff_lt_or_eq.mp him with him | rfl
        · exact hkept i hi him hdiscard
        · obtain rfl := Option.some.inj (hcall.symm.trans hdiscard)
          cases hreturned
    have hpage : contents r.tables (r.world (m + 1)) x.rid.pageId = some (.ok (p.mark none)) := by
      simp only [contents, hc.cached?_eq]
    refine ⟨p, hc.2, Written.shows_of_row ?_⟩
    rw [← hrow]
    exact (Contents.row?_of_page hpage x.rid.slot).symm

/-- In every run of a pool, over whatever tables and files, all who get a page share it. -/
theorem sharesHandles_of_run {capacity : Nat} {c : PageCache} (tables : Catalog)
    (hc : create capacity = .ok c) (d : Disk) (calls : List Call) :
    Run.SharesHandles ⟨tables, fresh d c, calls⟩ := by
  have hcoherent : Coherent tables (fresh d c) := coherent_fresh hc d
  have hsound : AllSound (fresh d c) := fun i p hp => by cases hp
  exact Run.sharesHandles ⟨hcoherent.toNamed, hsound⟩ hcoherent

/-- Calls on a pool of one page: a row is stored and deleted again, then a page of another table
takes the room. -/
def twoStays : List Call :=
  [.request (.insert 7 1 ⟨[.integer 5], none⟩), .request (.get 8 ⟨1, 0⟩ .readOnly),
    .request (.delete 8 (some ⟨⟨1, 0⟩, 0⟩)), .fetchPage 8 ⟨1, 0⟩ .readOnly,
    .request (.insert 7 2 ⟨[.integer (-1)], none⟩), .request (.get 8 ⟨1, 0⟩ .readOnly)]

theorem sharesHandles_of_run_twoStays : ∃ c, create 1 = .ok c ∧
    let r : Run := ⟨.pair, fresh {} c, twoStays⟩
    r.SharesHandles ∧ r.Resident ⟨1, 0⟩ 1 4 ∧ r.Returns 0 ⟨1, 0⟩ ⟨0⟩ ∧ r.Returns 3 ⟨1, 0⟩ ⟨0⟩ ∧
      r.Writes 2 ⟨⟨0⟩, ⟨⟨1, 0⟩, 0⟩, none⟩ ∧ r.Returns 5 ⟨1, 0⟩ ⟨2⟩ ∧ ¬ r.Resident ⟨1, 0⟩ 1 6 ∧
      ∃ p, (r.world 6).loaded[2]? = some p ∧ p.row? 0 = none := by
  obtain ⟨hc, -, hcounted⟩ := pair_run (act .pair) 1 {} twoStays (by decide)
    (by decide +kernel)
  refine ⟨_, hc, ?_⟩
  intro r
  have hshares : r.SharesHandles := sharesHandles_of_run .pair hc {} twoStays
  have hreturns : r.Returns 5 ⟨1, 0⟩ ⟨2⟩ := ⟨_, rfl, by decide +kernel⟩
  have hwrites : r.Writes 2 ⟨⟨0⟩, ⟨⟨1, 0⟩, 0⟩, none⟩ := ⟨_, rfl, by decide +kernel⟩
  have hstays : ∀ k < 4, 1 ≤ k → ∀ c ∈ r.trail k, c.contains ⟨1, 0⟩ := by decide +kernel
  have hgone : ∃ c ∈ r.trail 4, c.contains ⟨1, 0⟩ = false := by decide +kernel
  have hother : ∀ i < 6, 2 < i → ((twoStays[i]?.bind (written? .pair (r.world i))).map (·.rid)) ≠
      some ⟨⟨1, 0⟩, 0⟩ := by decide +kernel
  refine ⟨hshares, ⟨by decide, by decide +kernel, fun k hk hk' => hstays k hk' hk⟩,
    ⟨_, rfl, by decide +kernel⟩, ⟨_, rfl, by decide +kernel⟩, hwrites, hreturns, ?_, ?_⟩
  · rintro ⟨-, -, hres⟩
    obtain ⟨c, hc, hout⟩ := hgone
    cases hout.symm.trans (hres 4 (by decide) (by decide) c hc)
  · refine hshares.seen_later Catalog.backed_pair hcounted hwrites (by decide) ?_ ?_ hreturns
    · rintro i y hi him ⟨call, hcall, hy⟩ hrid
      refine hother i (Nat.lt_succ_of_le him) hi ?_
      have hcall : twoStays[i]? = some call := hcall
      rw [hcall, Option.bind_some, hy, Option.map_some, hrid]
    · intro i _ _ hdiscard
      have hmem := List.mem_of_getElem? hdiscard
      simp [r, twoStays] at hmem

end RowStore.Pool
