import RowStore.Proofs.CacheOrder
import RowStore.Proofs.PoolSteps

/-! What a pool does by itself: it uses and loads pages, brings them into the cache and out of it, and
writes them back. Whatever property of a pool these single steps keep, its actions keep; and they
keep the pages in the order of their last use. -/
namespace RowStore.Pool

/-- A property of pools that is kept by what a pool does by itself. `F` is what is wrong where a
page cannot be written back. -/
structure Quiet (tables : Catalog) (I : World PageCache → Prop) (F : Prop) : Prop where
  registered : tables.Registered
  named : ∀ {w}, I w → Named w
  housed : ∀ {w id p}, I w → cached? w id = some p → ∃ t, tables.table? id.table = some t ∧
    p.Belongs id t.schema t.pageSize ∧
      ((id.page.toNat + 1) * t.pageSize ≤ File.maxOffset ∨ F)
  promote : ∀ {w c}, I w → c.Live → (∀ id, c.peek id = w.source.peek id) →
    I { w with source := c }
  load : ∀ {w} p, I w → I { w with loaded := w.loaded.push p }
  drop : ∀ {w id}, I w → (∀ p, cached? w id = some p → p.dirtiedBy = none) →
    I { w with source := (w.source.remove id).2 }
  /-- A page may enter the cache that was read at some time before. -/
  adopt : ∀ {w₀ w c id h p t}, I w₀ → tables.table? id.table = some t →
    t.readPage w₀.disk id = .ok p → w₀.source.peek id = none → I w → w.source.peek id = none →
      w.loaded[h.index]? = some p → c.Live →
        (∀ id', c.peek id' = if id = id' then some h else w.source.peek id') →
          I { w with source := c }
  write : ∀ {w id h p t}, I w → tables.table? id.table = some t → Cached w id h p → p.isDirty →
    I { w with
      disk := t.putBytes w.disk id.page p.image
      loaded := w.loaded.setIfInBounds h.index (p.mark none) }

variable {tables : Catalog} {I : World PageCache → Prop} {F : Prop} {w w' : World PageCache}
  {id : PageId} {h : Handle} {p q : Page} {t : TableFile}

@[simp] theorem outcome_getCache (w : World PageCache) :
    getCache.outcome w = (.ok w.source, w) := rfl

@[simp] theorem outcome_setCache (c : PageCache) (w : World PageCache) :
    (setCache c).outcome w = (.ok (), { w with source := c }) := rfl

theorem outcome_table {k : TableId} (ht : tables.table? k = some t) (w : World PageCache) :
    (table tables k).outcome w = (.ok t, w) := by
  simp [table, ht]

theorem outcome_table_none {k : TableId} (ht : tables.table? k = none) (w : World PageCache) :
    (table tables k).outcome w = (.error (.error (.access (.unknownTable k))), w) := by
  simp [table, ht]

/-- Writing a page back leaves the cache and all other pages alone. -/
theorem Quiet.writeBack (hI : Quiet tables I F) (hw : I w) (hc : Cached w id h p) :
    ∃ r w', (writeBack tables h).outcome w = (r, w') ∧ I w' ∧ w'.source = w.source ∧
      (∀ i, i ≠ h.index → w'.loaded[i]? = w.loaded[i]?) ∧
      (r = .ok () ∧ Cached w' id h (p.mark none) ∨ ∃ e, r = .error e ∧ w' = w ∧ F) := by
  obtain ⟨t, ht, hp, hfits⟩ := hI.housed hw hc.cached?_eq
  have hopened := hI.registered id.table t ht
  unfold Pool.writeBack
  simp only [Action.outcome_bind, World.outcome_page, hc.2]
  cases hd : p.dirtiedBy with
  | none =>
    have hclean : p.isDirty = false := by simp [Page.isDirty, hd]
    refine ⟨.ok (), w, by simp [hclean], hw, rfl, fun _ _ => rfl, .inl ⟨rfl, ?_⟩⟩
    rw [Page.mark_of_clean hd]
    exact hc
  | some txn =>
    have hdirty : p.isDirty := by simp [Page.isDirty, hd]
    simp only [hdirty, if_true, Action.outcome_bind, hp.id_eq, outcome_table ht,
      Action.outcome_get, Action.outcome_lift]
    cases hwrite : t.writePage w.disk p with
    | error e =>
      have hlong : F := hfits.resolve_left fun hfits => by
        rw [TableFile.writePage_of_fits hp hopened.size_pos hopened.id_eq.symm hfits] at hwrite
        contradiction
      exact ⟨_, w, rfl, hw, rfl, fun _ _ => rfl, .inr ⟨_, rfl, rfl, hlong⟩⟩
    | ok d =>
      obtain ⟨rfl, -⟩ :=
        TableFile.putBytes_of_writePage hp hopened.size_pos hopened.id_eq.symm hwrite
      refine ⟨_, _, rfl, hI.write hw ht hc hdirty, rfl, ?_, .inl ⟨rfl, hc.1, ?_⟩⟩
      · intro i hi
        exact Array.getElem?_setIfInBounds_ne (Ne.symm hi)
      · simp [(hI.named hw).named id h hc.1]

/-- What a step leaves alone that only drops pages: ids that are not cached, and loaded pages that
have no handle in the cache. -/
structure Spares (w w' : World PageCache) : Prop where
  absent : ∀ id, w.source.peek id = none → w'.source.peek id = none
  other : ∀ i, (∀ id h, w.source.peek id = some h → h.index ≠ i) → w'.loaded[i]? = w.loaded[i]?
  capacity : w'.source.capacity = w.source.capacity

theorem Spares.refl (w : World PageCache) : Spares w w := ⟨fun _ h => h, fun _ _ => rfl, rfl⟩

/-- The page that goes is the one that has not been used for the longest time. -/
theorem Quiet.evict (hI : Quiet tables I F) (hw : I w) :
    ∃ r w', (evict tables).outcome w = (r, w') ∧ I w' ∧ Spares w w' ∧
      (r = .ok () ∧ w'.source.isFull = false ∧
        w'.source.keysByRecency = w.source.keysByRecency.dropLast ∨ (∃ e, r = .error e) ∧ F) := by
  have hlive := (hI.named hw).live
  unfold Pool.evict
  simp only [Action.outcome_bind, outcome_getCache]
  rcases hlive.candidate_cases with ⟨hnone, hroom⟩ | ⟨id, h, hsome, hpeek, hroom⟩
  · have hempty : w.source.keysByRecency = [] :=
      List.getLast?_eq_none_iff.mp (hlive.candidate_eq.symm.trans hnone)
    rw [hnone]
    exact ⟨_, w, rfl, hw, .refl w, .inl ⟨rfl, hroom, by rw [hempty]; rfl⟩⟩
  · obtain ⟨p, hc⟩ := (hI.named hw).exists_cached hpeek
    obtain ⟨r, w', hout, hw', hsource, hloaded, hr⟩ := hI.writeBack hw hc
    simp only [hsome, hpeek, Action.outcome_bind, outcome_getCache, hout]
    rcases hr with ⟨rfl, hc'⟩ | ⟨e, rfl, rfl, hlong⟩
    · have hclean : ∀ q, cached? w' id = some q → q.dirtiedBy = none := by
        intro q hq
        rw [← Option.some.inj (hc'.cached?_eq.symm.trans hq)]
        rfl
      obtain ⟨-, hremoved⟩ := hlive.peek_remove id
      refine ⟨_, _, rfl, hI.drop hw' hclean, ⟨?_, ?_, ?_⟩, .inl ⟨rfl, ?_, ?_⟩⟩
      · intro id' hid'
        simp only [hsource, hremoved, hid', ite_self]
      · intro i hi
        exact hloaded i (hi id h hpeek).symm
      · simp only [hsource, (hlive.keys_remove id).2]
      · simp only [hsource, hroom]
      · simp only [hsource, hlive.keys_remove_candidate hsome]
    · exact ⟨_, _, rfl, hw, .refl _, .inr ⟨⟨e, rfl⟩, hlong⟩⟩

theorem makeRoom_of_room (hroom : w.source.isFull = false) (fuel : Nat) :
    (makeRoom tables fuel).outcome w = (.ok (), w) := by
  cases fuel with
  | zero => rfl
  | succ fuel => simp [makeRoom, hroom]

/-- One page is dropped at most: as long as there is fuel for it, there is room afterwards. -/
theorem Quiet.makeRoom (hI : Quiet tables I F) (hw : I w) {fuel : Nat}
    (hfuel : w.source.isFull → 0 < fuel) :
    ∃ r w', (makeRoom tables fuel).outcome w = (r, w') ∧ I w' ∧ Spares w w' ∧
      (r = .ok () ∧ w'.source.isFull = false ∧
        w'.source.keysByRecency = w.source.keysByRecency.take (w.source.capacity - 1) ∨
          (∃ e, r = .error e) ∧ F) := by
  have hlive := (hI.named hw).live
  have hbound := hlive.length_keys_le
  cases hfull : w.source.isFull with
  | false =>
    have hroom := hfull
    rw [hlive.isFull_eq, decide_eq_false_iff_not, not_le] at hroom
    exact ⟨_, w, makeRoom_of_room hfull fuel, hw, .refl w,
      .inl ⟨rfl, hfull, (List.take_of_length_le (Nat.le_sub_one_of_lt hroom)).symm⟩⟩
  | true =>
    have hlength := hfull
    rw [hlive.isFull_eq, decide_eq_true_eq] at hlength
    obtain ⟨fuel, rfl⟩ := Nat.exists_eq_succ_of_ne_zero (hfuel hfull).ne'
    obtain ⟨r, w', hout, hw', hspares, hr⟩ := hI.evict hw
    simp only [Pool.makeRoom, Action.outcome_bind, outcome_getCache, hfull, if_true, hout]
    rcases hr with ⟨rfl, hroom, hkeys⟩ | ⟨⟨e, rfl⟩, hlong⟩
    · refine ⟨_, _, makeRoom_of_room hroom fuel, hw', hspares, .inl ⟨rfl, hroom, ?_⟩⟩
      rw [hkeys, List.dropLast_eq_take, le_antisymm hbound hlength]
    · exact ⟨_, _, rfl, hw', hspares, .inr ⟨⟨e, rfl⟩, hlong⟩⟩

/-- A page has been used: it comes first in the order of use, and where there was no room for it
the last page is gone. -/
def Uses (w w' : World PageCache) (id : PageId) : Prop :=
  w'.source.capacity = w.source.capacity ∧
    w'.source.keysByRecency =
      (RecencyCache.touch w.source.keysByRecency id).take w.source.capacity

/-- A page that was read from the disk and loaded enters the cache, once there is room. -/
theorem Quiet.cachePage (hI : Quiet tables I F) (hw : I w) (ht : tables.table? id.table = some t)
    (hread : t.readPage w.disk id = .ok p) (habs : w.source.peek id = none)
    (hload : w.loaded[h.index]? = some p)
    (hfresh : ∀ id' h', w.source.peek id' = some h' → h'.index ≠ h.index) :
    ∃ r w', (cachePage tables id h).outcome w = (r, w') ∧ I w' ∧
      (r = .ok () ∧ Cached w' id h p ∧ Uses w w' id ∨ (∃ e, r = .error e) ∧ F) := by
  have hlive := (hI.named hw).live
  have hnew : w.source.contains id = false := by
    rw [hlive.contains_eq, habs]
    rfl
  obtain ⟨r, w', hout, hw', hspares, hr⟩ := hI.makeRoom hw hlive.length_pos_of_full
  unfold Pool.cachePage
  simp only [Action.outcome_bind, outcome_getCache, hnew, Bool.not_false, if_true, hout]
  rcases hr with ⟨rfl, hroom, hkeys⟩ | ⟨⟨e, rfl⟩, hlong⟩
  · have habs' := hspares.absent id habs
    have hload' : w'.loaded[h.index]? = some p := (hspares.other _ hfresh).trans hload
    have hlive' := (hI.named hw').live
    obtain ⟨old, c, hput, hlive₁, hpeek⟩ := hlive'.peek_put id h (.inr hroom)
    obtain ⟨hkeys₁, hcapacity₁⟩ := hlive'.keys_put hput
    simp only [hput, mapError_ok, Action.outcome_lift, outcome_setCache]
    refine ⟨_, _, rfl, hI.adopt hw ht hread habs hw' habs' hload' hlive₁ hpeek,
      .inl ⟨rfl, ⟨by rw [hpeek, if_pos rfl], hload'⟩, hcapacity₁.trans hspares.capacity, ?_⟩⟩
    have hnot : id ∉ w.source.keysByRecency := by simp [hlive.mem_keys, habs]
    have hnot' : id ∉ w.source.keysByRecency.take (w.source.capacity - 1) :=
      fun hmem => hnot (List.mem_of_mem_take hmem)
    rw [hkeys₁, hkeys, RecencyCache.touch_of_not_mem hnot', RecencyCache.touch_of_not_mem hnot,
      List.take_cons hlive.capacity_pos]
  · exact ⟨_, _, rfl, hw', .inr ⟨⟨e, rfl⟩, hlong⟩⟩

/-- A page that is cached is put there again, under any handle, without making room. -/
theorem outcome_cachePage (tables : Catalog) (hlive : w.source.Live) (hold : w.source.contains id)
    (h : Handle) :
    ∃ c, (cachePage tables id h).outcome w = (.ok (), { w with source := c }) ∧ c.Live ∧
      (∀ id', c.peek id' = if id = id' then some h else w.source.peek id') ∧
        c.keysByRecency = RecencyCache.touch w.source.keysByRecency id ∧
          c.capacity = w.source.capacity := by
  obtain ⟨old, c, hput, hlive', hpeek⟩ := hlive.peek_put id h (.inl hold)
  exact ⟨c, by simp [cachePage, hold, hput], hlive', hpeek, hlive.keys_put hput⟩

/-- The page that a handle in the cache names keeps this handle, and comes first. -/
theorem Named.outcome_recache (tables : Catalog) (hw : Named w) (hc : Cached w id h p) :
    ∃ c, (recache tables h).outcome w = (.ok (), { w with source := c }) ∧ c.Live ∧
      (∀ id', c.peek id' = w.source.peek id') ∧
        c.keysByRecency = RecencyCache.touch w.source.keysByRecency id ∧
          c.capacity = w.source.capacity := by
  have hold : w.source.contains id := by
    rw [hw.live.contains_eq, hc.1]
    rfl
  obtain ⟨c, hout, hlive, hpeek, hkeys⟩ := outcome_cachePage tables hw.live hold h
  refine ⟨c, ?_, hlive, fun id' => ?_, hkeys⟩
  · rw [← hout]
    simp [recache, hc.2, hw.own id p hc.cached?_eq]
  · rw [hpeek]
    split
    · next heq => rw [← heq, hc.1]
    · rfl

/-- A page that is cached stays cached under its handle, and comes first. -/
theorem Quiet.recache (hI : Quiet tables I F) (hw : I w) (hc : Cached w id h p) :
    ∃ c, (recache tables h).outcome w = (.ok (), { w with source := c }) ∧
      I { w with source := c } ∧ Cached { w with source := c } id h p ∧
        c.keysByRecency = RecencyCache.touch w.source.keysByRecency id ∧
          c.capacity = w.source.capacity := by
  obtain ⟨c, hout, hlive, hpeek, hkeys⟩ := (hI.named hw).outcome_recache tables hc
  exact ⟨c, hout, hI.promote hw hlive hpeek, ⟨(hpeek id).trans hc.1, hc.2⟩, hkeys⟩

/-- A page that is fetched is cached, and used, and was read if it was not cached before; or else it
cannot be read, and all is as it was, or no room could be made for it. -/
theorem Quiet.fetch (hI : Quiet tables I F) (hw : I w) (ht : tables.table? id.table = some t)
    (txn : TxnId) (permission : Permission) :
    ∃ r w', (fetch tables txn id permission).outcome w = (r, w') ∧ I w' ∧
      ((∃ h p, r = .ok h ∧ Cached w' id h p ∧ Uses w w' id ∧
          (w.source.peek id = none → t.readPage w.disk id = .ok p)) ∨
        (∃ e, r = .error (e.map .file) ∧ t.readPage w.disk id = .error e ∧
          w.source.peek id = none ∧ w' = w) ∨ (∃ e, r = .error e) ∧ F) := by
  have hlive := (hI.named hw).live
  obtain ⟨hvalue, hlive', hpeek⟩ := hlive.peek_get id
  unfold Pool.fetch
  simp only [Action.outcome_bind, outcome_getCache]
  rcases hget : w.source.get id with ⟨found, c⟩
  simp only [hget] at hvalue hlive' hpeek
  cases found with
  | some h =>
    have hw' := hI.promote hw hlive' hpeek
    have hc : w.source.peek id = some h := hvalue.symm
    obtain ⟨hkeys, hcapacity⟩ := hlive.keys_get hc
    obtain ⟨p, hcached⟩ := (hI.named hw').exists_cached ((hpeek id).trans hc)
    rw [hget] at hkeys hcapacity
    have hmem : id ∈ w.source.keysByRecency := by simp [hlive.mem_keys, hc]
    have hkept := List.take_of_length_le (RecencyCache.length_touch_le hmem hlive.length_keys_le)
    refine ⟨_, _, rfl, hw', .inl ⟨h, p, rfl, hcached, ⟨hcapacity, hkeys.trans hkept.symm⟩, ?_⟩⟩
    intro habs
    exact absurd (hc.symm.trans habs) nofun
  | none =>
    have habs := hvalue.symm
    simp only [Action.outcome_bind, outcome_table ht, Action.outcome_get, Action.outcome_lift,
      World.outcome_load]
    cases hread : t.readPage w.disk id with
    | error e => exact ⟨_, w, rfl, hw, .inr (.inl ⟨e, rfl, rfl, habs, rfl⟩)⟩
    | ok p =>
      have hfresh : ∀ id' h', w.source.peek id' = some h' → h'.index ≠ w.loaded.size :=
        fun id' h' hp => ((hI.named hw).named id' h' hp).ne
      obtain ⟨r, w', hout, hw', hr⟩ := hI.cachePage (hI.load p hw) ht (h := ⟨w.loaded.size⟩)
        hread habs (by simp) hfresh
      simp only [mapError_ok, hout]
      rcases hr with ⟨rfl, hc, huses⟩ | ⟨⟨e, rfl⟩, hlong⟩
      · exact ⟨_, w', rfl, hw', .inl ⟨_, p, rfl, hc, huses, fun _ => rfl⟩⟩
      · exact ⟨_, w', rfl, hw', .inr (.inr ⟨⟨e, rfl⟩, hlong⟩)⟩

theorem outcome_fetch_none (ht : tables.table? id.table = none) (hget : (w.source.get id).1 = none)
    (txn : TxnId) (permission : Permission) :
    (fetch tables txn id permission).outcome w =
      (.error (.error (.access (.unknownTable id.table))), w) := by
  unfold fetch
  simp only [Action.outcome_bind, outcome_getCache]
  rcases hfound : w.source.get id with ⟨found, c⟩
  rw [hfound] at hget
  simp only at hget
  subst hget
  simp only [Action.outcome_bind, outcome_table_none ht]

/-- A page of no table is never cached. -/
theorem Quiet.fetch_none (hI : Quiet tables I F) (hw : I w) (ht : tables.table? id.table = none)
    (txn : TxnId) (permission : Permission) :
    (Pool.fetch tables txn id permission).outcome w =
      (.error (.error (.access (.unknownTable id.table))), w) := by
  refine outcome_fetch_none ht ?_ txn permission
  rw [((hI.named hw).live.peek_get id).1]
  cases hpeek : w.source.peek id with
  | none => rfl
  | some h =>
    obtain ⟨p, hc⟩ := (hI.named hw).exists_cached hpeek
    obtain ⟨t, ht', -⟩ := hI.housed hw hc.cached?_eq
    simp [ht] at ht'

/-- What writing pages back leaves alone: the cache, and all loaded pages up to their tags. -/
structure Retains (w w' : World PageCache) : Prop where
  source : w'.source = w.source
  pages : ∀ i : Nat, w'.loaded[i]?.map (·.mark none) = w.loaded[i]?.map (·.mark none)

theorem Retains.refl (w : World PageCache) : Retains w w := ⟨rfl, fun _ => rfl⟩

theorem Retains.trans {w₁ : World PageCache} (h : Retains w w₁) (h' : Retains w₁ w') :
    Retains w w' :=
  ⟨h'.source.trans h.source, fun i => (h'.pages i).trans (h.pages i)⟩

/-- The same pages are cached as before, up to their tags. -/
theorem Retains.cached? (h : Retains w w') (id : PageId) :
    (Pool.cached? w' id).map (·.mark none) = (Pool.cached? w id).map (·.mark none) := by
  unfold Pool.cached?
  rw [h.source]
  cases w.source.peek id with
  | none => rfl
  | some h' => exact h.pages h'.index

/-- Writing pages back retains them all. Each page is unchanged since then, or as it was; those that
were asked for and are as they were do not satisfy the condition. -/
theorem Quiet.flushThose (hI : Quiet tables I F) (P : Page → Bool) (hs : List Handle) (hw : I w)
    (hcached : ∀ h ∈ hs, ∃ id, w.source.peek id = some h) :
    ∃ r w', (flushThose tables P hs).outcome w = (r, w') ∧ I w' ∧ Retains w w' ∧
      (r = .ok () ∧ (∀ id h p, Cached w' id h p →
          p.dirtiedBy = none ∨ Cached w id h p ∧ (h ∈ hs → P p = false)) ∨
        (∃ e, r = .error e) ∧ F) := by
  induction hs generalizing w with
  | nil => exact ⟨_, w, rfl, hw, .refl w, .inl ⟨rfl, fun id h p hc => .inr ⟨hc, by simp⟩⟩⟩
  | cons h hs ih =>
    obtain ⟨id, hpeek⟩ := hcached h (by simp)
    obtain ⟨p, hc⟩ := (hI.named hw).exists_cached hpeek
    unfold Pool.flushThose
    simp only [Action.outcome_bind, World.outcome_page, hc.2]
    by_cases hP : P p
    · obtain ⟨r, w₁, hout, hw₁, hsource, hloaded, hr⟩ := hI.writeBack hw hc
      simp only [if_pos hP, Action.outcome_bind, hout]
      rcases hr with ⟨rfl, hc₁⟩ | ⟨e, rfl, rfl, hlong⟩
      · have hretains : Retains w w₁ := by
          refine ⟨hsource, fun i => ?_⟩
          by_cases hindex : i = h.index
          · rw [hindex, hc₁.2, hc.2]
            rfl
          · rw [hloaded i hindex]
        obtain ⟨r, w', hrest, hw', hretains', hr⟩ := ih hw₁ fun g hg => by
          rw [hsource]
          exact hcached g (by simp [hg])
        refine ⟨r, w', hrest, hw', hretains.trans hretains',
          hr.imp_left fun ⟨hok, hclean⟩ => ⟨hok, ?_⟩⟩
        intro id' g p' hc'
        rcases hclean id' g p' hc' with hnone | ⟨hg, hrest⟩
        · exact .inl hnone
        · by_cases hindex : g.index = h.index
          · left
            have hpage := hg.2
            rw [hindex, hc₁.2] at hpage
            rw [← Option.some.inj hpage]
            rfl
          · right
            refine ⟨⟨hsource ▸ hg.1, (hloaded _ hindex).symm.trans hg.2⟩, fun hmem => ?_⟩
            rcases List.mem_cons.mp hmem with rfl | hmem
            · exact absurd rfl hindex
            · exact hrest hmem
      · exact ⟨_, _, rfl, hw, .refl _, .inr ⟨⟨e, rfl⟩, hlong⟩⟩
    · simp only [if_neg hP]
      obtain ⟨r, w', hrest, hw', hretains, hr⟩ := ih hw fun g hg => hcached g (by simp [hg])
      refine ⟨r, w', hrest, hw', hretains, hr.imp_left fun ⟨hok, hclean⟩ => ⟨hok, ?_⟩⟩
      intro id' g p' hc'
      refine (hclean id' g p' hc').imp_right fun ⟨hg, hrest⟩ => ⟨hg, fun hmem => ?_⟩
      rcases List.mem_cons.mp hmem with rfl | hmem
      · rw [Option.some.inj (hg.2.symm.trans hc.2)]
        exact Bool.eq_false_iff.mpr hP
      · exact hrest hmem

theorem Quiet.flushTxn (hI : Quiet tables I F) (hw : I w) (txn : TxnId) :
    ∃ r w', (flushTxn tables txn).outcome w = (r, w') ∧ I w' ∧ Retains w w' ∧
      (r = .ok () ∨ (∃ e, r = .error e) ∧ F) := by
  obtain ⟨r, w', hout, hw', hretains, hr⟩ := hI.flushThose (·.dirtiedBy == some txn)
    (cachedPages w.source) hw fun _ hmem => (hI.named hw).live.mem_values.mp hmem
  exact ⟨r, w', hout, hw', hretains, hr.imp_left And.left⟩

/-- Once all pages are written back, no cached page has changed. -/
theorem Quiet.flushAll (hI : Quiet tables I F) (hw : I w) :
    ∃ r w', (flushAll tables).outcome w = (r, w') ∧ I w' ∧ Retains w w' ∧
      (r = .ok () ∧ (∀ id p, cached? w' id = some p → p.dirtiedBy = none) ∨
        (∃ e, r = .error e) ∧ F) := by
  have hlive := (hI.named hw).live
  obtain ⟨r, w', hout, hw', hretains, hr⟩ := hI.flushThose (fun _ => true)
    (cachedPages w.source) hw fun _ hmem => hlive.mem_values.mp hmem
  refine ⟨r, w', hout, hw', hretains, hr.imp_left fun ⟨hok, hclean⟩ => ⟨hok, ?_⟩⟩
  intro id p hp
  obtain ⟨h, hc⟩ := cached_of_cached? hp
  rcases hclean id h p hc with hnone | ⟨hold, hasked⟩
  · exact hnone
  · have hmem : h ∈ cachedPages w.source := hlive.mem_values.mpr ⟨id, hold.1⟩
    exact absurd (hasked hmem) (by simp)

theorem Quiet.flushPage (hI : Quiet tables I F) (hw : I w) (id : PageId) :
    ∃ r w', (flushPage tables id).outcome w = (r, w') ∧ I w' ∧ w'.source = w.source := by
  unfold Pool.flushPage
  simp only [Action.outcome_bind, outcome_getCache]
  cases hpeek : w.source.peek id with
  | none => exact ⟨_, w, rfl, hw, rfl⟩
  | some h =>
    obtain ⟨p, hc⟩ := (hI.named hw).exists_cached hpeek
    obtain ⟨r, w', hout, hw', hsource, -⟩ := hI.writeBack hw hc
    exact ⟨r, w', hout, hw', hsource⟩

end RowStore.Pool
