import RowStore.Proofs.DirtyTags
import RowStore.Proofs.SourceViews

/-! The handles in the caches that a pool goes through. A page that stays in the cache keeps its
handle, and a page that comes in gets one that no page has had before, so that at all times pages
and handles are one to one. What a call asks for is recorded to see the caches between its requests.
-/
namespace RowStore

namespace Pool

/-- Each page is in the cache once, and each handle is there for one page. -/
structure OneToOne (c : PageCache) : Prop where
  pages : c.keysByRecency.Nodup
  handles : c.values.Nodup
  page_of_handle : ∀ {id id' h}, c.peek id = some h → c.peek id' = some h → id = id'

/-- A page that is in both caches has the same handle in both. -/
def KeepsHandles (c c' : PageCache) : Prop :=
  ∀ id h h', c.peek id = some h → c'.peek id = some h' → h' = h

/-- A cache that has lost pages at most. -/
structure Thins (c c' : PageCache) : Prop where
  live : c'.Live
  kept : ∀ id, c'.peek id = c.peek id ∨ c'.peek id = none

variable {tables : Catalog} {w₀ w w' : World PageCache} {id : PageId} {h : Handle} {p q : Page}
  {t : TableFile} {c c₀ c' : PageCache}

theorem Named.oneToOne (hw : Named w) : OneToOne w.source where
  pages := hw.live.nodup_keys
  handles := hw.live.nodup_values fun _ _ _ hpeek hpeek' => hw.id_eq_of_index hpeek hpeek' rfl
  page_of_handle hpeek hpeek' := hw.id_eq_of_index hpeek hpeek' rfl

theorem keepsHandles_of_peek (hpeek : ∀ id, c'.peek id = c.peek id) : KeepsHandles c c' :=
  fun id _ _ hc hc' => Option.some.inj ((hc'.symm.trans (hpeek id)).trans hc)

theorem Thins.keepsHandles (h : Thins c c') : KeepsHandles c c' := by
  intro id h₁ h₂ hpeek hpeek'
  rcases h.kept id with hsame | hgone
  · exact Option.some.inj (hpeek'.symm.trans (hsame.trans hpeek))
  · cases hgone.symm.trans hpeek'

section Making
variable (hw : Thins c w.source)
include hw

/-- Dropping a page takes no other page out of the cache, and brings none in. -/
theorem thins_evict (tables : Catalog) : Thins c ((evict tables).outcome w).2.source := by
  unfold evict
  simp only [Action.outcome_bind, outcome_getCache]
  rcases hw.live.candidate_cases with ⟨hnone, -⟩ | ⟨id, h, hsome, hpeek, -⟩
  · rw [hnone]
    exact hw
  · have hwritten := (guards_writeBack tables h w hw).1
    simp only [hsome, hpeek, Action.outcome_bind, outcome_getCache]
    generalize (writeBack tables h).outcome w = out at hwritten ⊢
    obtain ⟨e | _, w'⟩ := out
    · exact hwritten
    · obtain ⟨hlive, hremoved⟩ := hwritten.live.peek_remove id
      refine ⟨hlive, fun id' => ?_⟩
      simp only [outcome_setCache, hremoved]
      split
      · exact .inr rfl
      · exact hwritten.kept id'

theorem thins_makeRoom (tables : Catalog) (fuel : Nat) :
    Thins c ((makeRoom tables fuel).outcome w).2.source := by
  induction fuel generalizing w with
  | zero => exact hw
  | succ fuel ih =>
    cases hfull : w.source.isFull with
    | false =>
      rw [makeRoom_of_room hfull]
      exact hw
    | true =>
      have hevicted := thins_evict hw tables
      simp only [makeRoom, Action.outcome_bind, outcome_getCache, hfull, if_true]
      generalize (evict tables).outcome w = out at hevicted ⊢
      obtain ⟨e | _, w'⟩ := out
      · exact hevicted
      · exact ih hevicted

end Making

/-- A request for a page changes no handle of a page that stays. A page is put into the cache only
where it was not there, so that none goes and comes back. -/
theorem keepsHandles_source (hlive : w.source.Live) (txn : TxnId) (id : PageId)
    (permission : Permission) :
    KeepsHandles w.source ((source tables txn id permission).outcome w).2.source := by
  have hrefl : Thins w.source w.source := ⟨hlive, fun _ => .inl rfl⟩
  obtain ⟨hvalue, -, hpeek⟩ := hlive.peek_get id
  unfold source fetch
  simp only [Action.outcome_mapError, Action.outcome_bind, outcome_getCache]
  rcases hget : w.source.get id with ⟨_ | h, c⟩
  · rw [hget] at hvalue
    have habs : w.source.peek id = none := hvalue.symm
    cases ht : tables.table? id.table with
    | none =>
      simp only [Action.outcome_bind, outcome_table_none ht]
      exact hrefl.keepsHandles
    | some t =>
      simp only [Action.outcome_bind, outcome_table ht, Action.outcome_get, Action.outcome_lift]
      cases hread : t.readPage w.disk id with
      | error e => exact hrefl.keepsHandles
      | ok p =>
        have hnew : w.source.contains id = false := by
          rw [hlive.contains_eq, habs]
          rfl
        have hloaded : Thins w.source { w with loaded := w.loaded.push p }.source := hrefl
        have hroom := thins_makeRoom hloaded tables w.source.length
        obtain ⟨-, -, hfull, -⟩ := Bounded.makeRoom tables
          (w := { w with loaded := w.loaded.push p }) ⟨hlive, rfl⟩ hlive.length_pos_of_full rfl
        simp only [mapError_ok, World.outcome_load, cachePage, Action.outcome_bind,
          outcome_getCache, hnew, Bool.not_false, if_true]
        generalize (makeRoom tables w.source.length).outcome
          { w with loaded := w.loaded.push p } = out at hroom hfull ⊢
        obtain ⟨e | _, w'⟩ := out
        · exact hroom.keepsHandles
        · obtain ⟨old, c', hput, -, hpeek'⟩ :=
            hroom.live.peek_put id ⟨w.loaded.size⟩ (.inr (hfull rfl))
          simp only [hput, mapError_ok, Action.outcome_lift, outcome_setCache, Action.outcome_pure]
          intro id' h h' hold hin
          by_cases hid : id = id'
          · cases habs.symm.trans (hid ▸ hold)
          · rw [hpeek', if_neg hid] at hin
            exact hroom.keepsHandles id' h h' hold hin
  · rw [hget] at hpeek
    exact keepsHandles_of_peek hpeek

/-! ### The loaded pages -/

/-- All loaded pages are sound. -/
def AllSound (w : World PageCache) : Prop := ∀ (i : Nat) (p : Page), w.loaded[i]? = some p → p.Sound

/-- Handles in the cache that name loaded pages with the ids that they are cached for, and no loaded
page that is broken. -/
structure Orderly (w : World PageCache) : Prop extends Named w where
  sound : AllSound w

/-- The page at an index, before pages were written back. -/
theorem Retains.page (hr : Retains w w') {i : Nat} (hq : w'.loaded[i]? = some q) :
    ∃ p, w.loaded[i]? = some p ∧ q.mark none = p.mark none := by
  have hpages := hr.pages i
  rw [hq] at hpages
  obtain ⟨p, hp, hmark⟩ := Option.map_eq_some_iff.mp hpages.symm
  exact ⟨p, hp, hmark.symm⟩

theorem AllSound.retain (hr : Retains w w') (hw : AllSound w) : AllSound w' := by
  intro i q hq
  obtain ⟨p, hp, hmark⟩ := hr.page hq
  have hsound : (q.mark none).Sound := hmark ▸ (hw i p hp).mark none
  exact hsound.mark q.dirtiedBy

theorem Named.retain (hr : Retains w w') (hw : Named w) : Named w' := by
  refine ⟨hr.source ▸ hw.live, fun id h hpeek => ?_, fun id q hq => ?_⟩
  · obtain ⟨p, hc⟩ := hw.exists_cached (hr.source ▸ hpeek)
    have hpages := hr.pages h.index
    rw [hc.2] at hpages
    obtain ⟨q, hq, -⟩ := Option.map_eq_some_iff.mp hpages
    exact (Array.getElem?_eq_some_iff.mp hq).1
  · obtain ⟨h, hc⟩ := cached_of_cached? hq
    obtain ⟨p, hp, hmark⟩ := hr.page hc.2
    have hold : Cached w id h p := ⟨hr.source ▸ hc.1, hp⟩
    have hid : (q.mark none).id = (p.mark none).id := congrArg Page.id hmark
    exact hid.trans (hw.own id p hold.cached?_eq)

theorem Orderly.retain (hr : Retains w w') (hw : Orderly w) : Orderly w' :=
  ⟨hw.toNamed.retain hr, hw.sound.retain hr⟩

theorem retains_writeBack (tables : Catalog) (h : Handle) (w : World PageCache) :
    Retains w ((writeBack tables h).outcome w).2 := by
  cases hload : w.loaded[h.index]? with
  | none =>
    simp only [writeBack, Action.outcome_bind, World.outcome_page, hload]
    exact .refl w
  | some p =>
    rcases outcome_writeBack tables hload with ⟨e, hout⟩ | ⟨d, hout⟩
    · rw [hout]
      exact .refl w
    · rw [hout]
      refine ⟨rfl, fun i => ?_⟩
      by_cases hi : h.index = i
      · subst hi
        simp only [Array.getElem?_setIfInBounds_self_of_lt (Array.getElem?_eq_some_iff.mp hload).1,
          hload]
        rfl
      · simp only [Array.getElem?_setIfInBounds_ne hi]

theorem retains_flushThose (tables : Catalog) (P : Page → Bool) (hs : List Handle)
    (w : World PageCache) : Retains w ((flushThose tables P hs).outcome w).2 := by
  induction hs generalizing w with
  | nil => exact .refl w
  | cons h hs ih =>
    simp only [flushThose, Action.outcome_bind, World.outcome_page]
    cases hload : w.loaded[h.index]? with
    | none => exact .refl w
    | some p =>
      by_cases hP : P p
      · have hhead := retains_writeBack tables h w
        simp only [if_pos hP, Action.outcome_bind]
        generalize (writeBack tables h).outcome w = out at hhead ⊢
        obtain ⟨e | _, w'⟩ := out
        · exact hhead
        · exact hhead.trans (ih w')
      · simp only [if_neg hP]
        exact ih w

theorem sound_of_readPage {d : Disk} (hread : t.readPage d id = .ok p) : p.Sound := by
  obtain ⟨_, -, hread⟩ := bind_eq_ok.mp hread
  obtain ⟨stop, -, hread⟩ := bind_eq_ok.mp hread
  split at hread
  · contradiction
  · exact (Page.sound_of_decode (mapError_eq_ok.mp hread)).1

section Sound
open RowStore.Action

theorem preserves_sound_evict (tables : Catalog) : Preserves AllSound (evict tables) := by
  refine Preserves.bind (fun _ hw => hw) fun c => ?_
  split
  · exact preserves_pure _
  · refine Preserves.bind (fun _ hw => hw) fun c => ?_
    dsimp only
    split
    · exact Preserves.bind (fun w hw => hw.retain (retains_writeBack tables _ w)) fun _ _ hw => hw
    · exact fun _ hw => hw

theorem preserves_sound_makeRoom (tables : Catalog) (fuel : Nat) :
    Preserves AllSound (makeRoom tables fuel) := by
  induction fuel with
  | zero => exact preserves_pure _
  | succ fuel ih =>
    refine Preserves.bind (fun _ hw => hw) fun c => ?_
    split
    · exact (preserves_sound_evict tables).bind fun _ => ih
    · exact preserves_pure _

theorem preserves_sound_cachePage (tables : Catalog) (id : PageId) (h : Handle) :
    Preserves AllSound (cachePage tables id h) := by
  refine Preserves.bind (fun _ hw => hw) fun c => ?_
  dsimp only
  split
  · exact (preserves_sound_makeRoom tables _).bind fun _ => Preserves.bind (fun _ hw => hw)
      fun _ => Preserves.bind (fun _ hw => hw) fun _ _ hw => hw
  · exact Preserves.bind (fun _ hw => hw) fun _ => Preserves.bind (fun _ hw => hw)
      fun _ _ hw => hw

/-- A page that is read is sound. -/
theorem preserves_sound_fetch (txn : TxnId) (id : PageId) (permission : Permission) :
    Preserves AllSound (fetch tables txn id permission) := by
  intro w hw
  unfold fetch
  simp only [outcome_bind, outcome_getCache]
  rcases w.source.get id with ⟨_ | h, c⟩
  · cases ht : tables.table? id.table with
    | none =>
      simp only [outcome_bind, outcome_table_none ht]
      exact hw
    | some t =>
      simp only [outcome_bind, outcome_table ht, outcome_get, outcome_lift]
      cases hread : t.readPage w.disk id with
      | error e => exact hw
      | ok p =>
        have hloaded : AllSound { w with loaded := w.loaded.push p } := by
          intro i q hq
          rw [Array.getElem?_push] at hq
          split at hq
          · exact Option.some.inj hq ▸ sound_of_readPage hread
          · exact hw i q hq
        have hcached := preserves_sound_cachePage tables id ⟨w.loaded.size⟩ _ hloaded
        simp only [mapError_ok, World.outcome_load]
        generalize (cachePage tables id ⟨w.loaded.size⟩).outcome
          { w with loaded := w.loaded.push p } = out at hcached ⊢
        obtain ⟨e | _, w'⟩ := out
        · exact hcached
        · exact hcached
  · exact hw

end Sound

/-! ### The caches between the requests of a call -/

section Asking
variable {σ τ : Type}

/-- The part of a call that asks for pages, with any source of pages. Where a row is stored or
deleted, its page is put into the cache once more afterwards. -/
def ask (tables : Catalog) (source : PageSource σ) (w : World σ) : Call → World σ
  | .request (.get txn id permission) => ((source txn id permission).outcome w).2
  | .request (.insert txn k r) => match tables.table? k with
      | none => w
      | some t => ((t.insert source txn r).outcome w).2
  | .request (.delete txn (some rid)) => match tables.table? rid.pageId.table with
      | none => w
      | some t => ((t.delete source txn (some rid)).outcome w).2
  | .request (.scan txn k) => match tables.table? k with
      | none => w
      | some t => scanned source txn t w
  | .fetchPage txn id permission => ((source txn id permission).outcome w).2
  | .scanStep sc step => stepped source w sc step
  | _ => w

variable {f : τ → σ} {source : PageSource τ} {plain : PageSource σ}

theorem view_scanned (hsource : source.Views f plain) (txn : TxnId) (t : TableFile)
    (w : World τ) : scanned plain txn t (w.view f) = (scanned source txn t w).view f := by
  have hstart := Scan.views_start hsource (t.scan txn, w)
  unfold scanned
  rw [show (t.scan txn, w.view f) = Scan.view f (t.scan txn, w) from rfl, hstart]
  rcases (Scan.start source).outcome (t.scan txn, w) with ⟨e | _, st⟩
  · rfl
  · exact congrArg (·.2.2) (Scan.view_drain hsource (st.1.pagesAhead + 1) st)

theorem view_stepped (hsource : source.Views f plain) (w : World τ) (sc : Scan)
    (step : ScanStep) : stepped plain (w.view f) sc step = (stepped source w sc step).view f := by
  cases step with
  | start => exact congrArg (·.2.2) (Scan.views_start hsource (sc, w))
  | rewind => exact congrArg (·.2.2) (Scan.views_rewind hsource (sc, w))
  | hasNext => exact congrArg (·.2.2) (Scan.views_hasNext hsource (sc, w))
  | next => exact congrArg (·.2.2) (Scan.views_next hsource (sc, w))
  | close => rfl

theorem view_ask (hsource : source.Views f plain) (tables : Catalog) (w : World τ) (call : Call) :
    ask tables plain (w.view f) call = (ask tables source w call).view f := by
  match call with
  | .request (.get txn id permission) => exact congrArg Prod.snd (hsource txn id permission w)
  | .request (.insert txn k r) =>
    simp only [ask]
    cases tables.table? k with
    | none => rfl
    | some t => exact congrArg Prod.snd (TableFile.views_insert hsource t txn r w)
  | .request (.delete txn none) => rfl
  | .request (.delete txn (some rid)) =>
    simp only [ask]
    cases tables.table? rid.pageId.table with
    | none => rfl
    | some t => exact congrArg Prod.snd (TableFile.views_delete hsource t txn (some rid) w)
  | .request (.scan txn k) =>
    simp only [ask]
    cases tables.table? k with
    | none => rfl
    | some t => exact view_scanned hsource txn t w
  | .request (.flushTxn _) => rfl
  | .request .flushAll => rfl
  | .fetchPage txn id permission => exact congrArg Prod.snd (hsource txn id permission w)
  | .flushPage _ => rfl
  | .discard _ => rfl
  | .evict => rfl
  | .scanStep sc step => exact view_stepped hsource w sc step

end Asking

/-- The caches that the requests of a call leave, one after the other. -/
def asked (tables : Catalog) (w : World PageCache) (call : Call) : List PageCache :=
  (ask tables (source tables).recorded (w.view fun c => (c, [])) call).source.2

/-- The caches that a pool goes through in a call, up to the one that the call leaves. -/
def trail (tables : Catalog) (w : World PageCache) (call : Call) : List PageCache :=
  asked tables w call ++ [(act tables w call).source]

/-- What the requests of a call have left so far: each cache keeps the handles of the one before
it, and is one to one. -/
structure Trodden (c₀ : PageCache) (w : World (PageCache × List PageCache)) : Prop where
  named : Named (w.view Prod.fst)
  chain : (c₀ :: w.source.2).IsChain KeepsHandles
  last : (c₀ :: w.source.2).getLast? = some w.source.1
  caches : ∀ c ∈ w.source.2, c.Live ∧ OneToOne c

theorem preserves_trodden (txn : TxnId) (id : PageId) (permission : Permission) :
    Action.Preserves (Trodden c₀) ((source tables).recorded txn id permission) := by
  intro w hw
  have hnamed := (rested_source tables hw.named txn id permission rfl).1.toNamed
  have hkeeps : KeepsHandles w.source.1
      ((source tables txn id permission).outcome (w.view Prod.fst)).2.source :=
    keepsHandles_source hw.named.live txn id permission
  rw [outcome_recorded]
  generalize (source tables txn id permission).outcome (w.view Prod.fst) = out at hnamed hkeeps ⊢
  obtain ⟨r, w'⟩ := out
  refine ⟨hnamed, ?_, ?_, ?_⟩
  · show (c₀ :: w.source.2 ++ [w'.source]).IsChain KeepsHandles
    refine List.isChain_append.mpr ⟨hw.chain, .singleton _, fun c hc c' hc' => ?_⟩
    obtain rfl := Option.some.inj (hw.last.symm.trans hc)
    obtain rfl := Option.some.inj hc'
    exact hkeeps
  · show (c₀ :: w.source.2 ++ [w'.source]).getLast? = some w'.source
    rw [List.getLast?_concat]
  · intro c hc
    rcases List.mem_append.mp hc with hc | hc
    · exact hw.caches c hc
    · rw [List.mem_singleton.mp hc]
      exact ⟨hnamed.live, hnamed.oneToOne⟩

theorem Trodden.onDisk {w : World (PageCache × List PageCache)} (hw : Trodden c₀ w) (d : Disk) :
    Trodden c₀ { w with disk := d } :=
  ⟨(Rested.onDisk hw.named d).toNamed, hw.chain, hw.last, hw.caches⟩

/-- The requests of a call leave such caches. That it changes a page in the end makes no difference to
them. -/
theorem Trodden.ask {w : World (PageCache × List PageCache)} (hw : Trodden c₀ w)
    (tables : Catalog) (call : Call) :
    ∃ w₁, Trodden c₀ w₁ ∧ (Pool.ask tables (source tables).recorded w call).source = w₁.source := by
  have hP : ∀ txn id permission,
      Action.Preserves (Trodden c₀) ((source tables).recorded txn id permission) :=
    preserves_trodden
  match call with
  | .request (.get txn id permission) => exact ⟨_, hP txn id permission w hw, rfl⟩
  | .request (.insert txn k r) =>
    simp only [Pool.ask]
    cases tables.table? k with
    | none => exact ⟨w, hw, rfl⟩
    | some t =>
      have hsettles := TableFile.settles_insert hP (fun d hw => hw.onDisk d) hw t txn r
      dsimp only
      generalize (t.insert (source tables).recorded txn r).outcome w = out at hsettles ⊢
      obtain ⟨e | st, w'⟩ := out
      · exact ⟨w', hsettles, rfl⟩
      · obtain ⟨id, p, w₁, rid, q, -, hhanded, -, -, rfl⟩ := hsettles
        exact ⟨w₁, hhanded.holds, rfl⟩
  | .request (.delete txn none) => exact ⟨w, hw, rfl⟩
  | .request (.delete txn (some rid)) =>
    simp only [Pool.ask]
    cases tables.table? rid.pageId.table with
    | none => exact ⟨w, hw, rfl⟩
    | some t =>
      have hdeletes := TableFile.deletes_delete hP hw t txn (some rid)
      dsimp only
      generalize (t.delete (source tables).recorded txn (some rid)).outcome w = out
        at hdeletes ⊢
      obtain ⟨e | h, w'⟩ := out
      · exact ⟨w', hdeletes, rfl⟩
      · obtain ⟨rid', p, w₁, q, -, hhanded, -, rfl⟩ := hdeletes
        exact ⟨w₁, hhanded.holds, rfl⟩
  | .request (.scan txn k) =>
    simp only [Pool.ask]
    cases tables.table? k with
    | none => exact ⟨w, hw, rfl⟩
    | some t => exact ⟨_, preserves_scanned hP hw txn t, rfl⟩
  | .request (.flushTxn _) => exact ⟨w, hw, rfl⟩
  | .request .flushAll => exact ⟨w, hw, rfl⟩
  | .fetchPage txn id permission => exact ⟨_, hP txn id permission w hw, rfl⟩
  | .flushPage _ => exact ⟨w, hw, rfl⟩
  | .discard _ => exact ⟨w, hw, rfl⟩
  | .evict => exact ⟨w, hw, rfl⟩
  | .scanStep sc step => exact ⟨_, preserves_stepped hP hw sc step, rfl⟩

/-- The caches that the requests of a call leave, down to the last one. -/
theorem Named.asked (hw : Named w) (tables : Catalog) (call : Call) :
    (w.source :: Pool.asked tables w call).IsChain KeepsHandles ∧
      (w.source :: Pool.asked tables w call).getLast? =
        some (Pool.ask tables (source tables) w call).source ∧
      ∀ c ∈ Pool.asked tables w call, c.Live ∧ OneToOne c := by
  have hstart : Trodden w.source (w.view fun c => (c, [])) := ⟨hw, .singleton _, rfl, nofun⟩
  obtain ⟨w₁, htrodden, hsource⟩ := hstart.ask tables call
  have hview := view_ask (views_recorded (source tables)) tables (w.view fun c => (c, [])) call
  have hlast := htrodden.last
  rw [← hsource] at hlast
  have hasked : Pool.asked tables w call = w₁.source.2 := congrArg Prod.snd hsource
  rw [hasked]
  refine ⟨htrodden.chain, ?_, htrodden.caches⟩
  rw [← hasked]
  refine hlast.trans (congrArg some ?_)
  exact (congrArg World.source hview).symm

end Pool
end RowStore
