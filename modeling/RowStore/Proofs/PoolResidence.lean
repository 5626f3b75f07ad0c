import RowStore.Proofs.FirstFit
import RowStore.Proofs.PoolRoom
import RowStore.Proofs.TableRequests

/-! Which pages a pool still has since some time, and with which tags. What a pool does by itself
leaves a cached page as it is or puts it out of the cache, with its tag cleared; a page that comes
in has no tag. Storing or deleting a row changes one cached page besides. -/
namespace RowStore.Pool

/-- No handle in the cache names the loaded page at an index. -/
def Loose (w : World PageCache) (i : Nat) : Prop :=
  ∀ id h, w.source.peek id = some h → h.index ≠ i

/-- A pool that has brought pages in and put pages out since `w₀`, and changed none. -/
structure Rested (w₀ w : World PageCache) : Prop extends Named w where
  size_le : w₀.loaded.size ≤ w.loaded.size
  cached : ∀ {id h p}, Cached w id h p →
    Cached w₀ id h p ∨ w₀.loaded.size ≤ h.index ∧ p.dirtiedBy = none
  kept : ∀ {id h p}, Cached w₀ id h p →
    Cached w id h p ∨ Loose w h.index ∧ w.loaded[h.index]? = some (p.mark none)
  loose : ∀ {i}, i < w₀.loaded.size → Loose w₀ i → w.loaded[i]? = w₀.loaded[i]?

variable {tables : Catalog} {w₀ w w' : World PageCache} {id : PageId} {h : Handle} {p q : Page}
  {t : TableFile} {c : PageCache}

theorem Cached.lt_size (hc : Cached w id h p) : h.index < w.loaded.size :=
  (Array.getElem?_eq_some_iff.mp hc.2).1

theorem Loose.not_cached {i : Nat} (hloose : Loose w i) (hc : Cached w id h p) : h.index ≠ i :=
  hloose id h hc.1

namespace Rested

theorem refl (hw : Named w) : Rested w w :=
  ⟨hw, le_refl _, .inl, .inl, fun _ _ => rfl⟩

/-- A page that was loaded by then and not cached is not cached since. -/
theorem loose_of_loose (hw : Rested w₀ w) {i : Nat} (hi : i < w₀.loaded.size)
    (hloose : Loose w₀ i) : Loose w i := by
  rintro id h hpeek rfl
  obtain ⟨p, hc⟩ := hw.exists_cached hpeek
  rcases hw.cached hc with hc₀ | ⟨hle, -⟩
  · exact hloose.not_cached hc₀ rfl
  · exact absurd hi (not_lt.mpr hle)

theorem trans {w₁ : World PageCache} (h₁ : Rested w₀ w₁) (h₂ : Rested w₁ w) : Rested w₀ w where
  toNamed := h₂.toNamed
  size_le := h₁.size_le.trans h₂.size_le
  cached hc := by
    rcases h₂.cached hc with hc₁ | ⟨hle, hclean⟩
    · exact h₁.cached hc₁
    · exact .inr ⟨h₁.size_le.trans hle, hclean⟩
  kept {id h p} hc := by
    rcases h₁.kept hc with hc₁ | ⟨hloose, hload⟩
    · exact h₂.kept hc₁
    · have hlt := (Array.getElem?_eq_some_iff.mp hload).1
      exact .inr ⟨h₂.loose_of_loose hlt hloose, (h₂.loose hlt hloose).trans hload⟩
  loose hi hloose := by
    have hi₁ := hi.trans_le h₁.size_le
    rw [h₂.loose hi₁ (h₁.loose_of_loose hi hloose), h₁.loose hi hloose]

section Steps
variable (hw : Named w)
include hw

theorem promote (hlive : c.Live) (hpeek : ∀ id, c.peek id = w.source.peek id) :
    Rested w { w with source := c } where
  toNamed := hw.promote hlive hpeek
  size_le := le_refl _
  cached hc := .inl ⟨(hpeek _).symm.trans hc.1, hc.2⟩
  kept hc := .inl ⟨(hpeek _).trans hc.1, hc.2⟩
  loose _ _ := rfl

theorem load (p : Page) : Rested w { w with loaded := w.loaded.push p } := by
  have hsame : ∀ i < w.loaded.size, (w.loaded.push p)[i]? = w.loaded[i]? := fun i hi => by
    rw [Array.getElem?_push_lt hi, Array.getElem?_eq_getElem hi]
  refine ⟨hw.load p, by simp, fun hc => .inl ⟨hc.1, ?_⟩, fun hc => .inl ⟨hc.1, ?_⟩, fun hi _ =>
    hsame _ hi⟩
  · rw [← hc.2]
    exact (hsame _ (hw.named _ _ hc.1)).symm
  · rw [← hc.2]
    exact hsame _ hc.lt_size

theorem onDisk (d : Disk) : Rested w { w with disk := d } :=
  ⟨⟨hw.live, hw.named, hw.own⟩, le_refl _, .inl, .inl, fun _ _ => rfl⟩

/-- A page may be put out of the cache, with its tag cleared. -/
theorem dismiss (hc : Cached w id h p) (d : Disk) :
    Rested w { w with
      disk := d
      loaded := w.loaded.setIfInBounds h.index (p.mark none)
      source := (w.source.remove id).2 } := by
  have hgone := (hw.live.peek_remove id).2
  have hother : ∀ {id' h'}, id ≠ id' → w.source.peek id' = some h' → h.index ≠ h'.index :=
    fun hne hpeek hindex => hne (hw.id_eq_of_index hc.1 hpeek hindex)
  have hnamed := (hw.set (q := p.mark none) hc (hw.own id p hc.cached?_eq) d).drop id
  refine ⟨hnamed, by simp, ?_, ?_, ?_⟩
  · rintro id' h' q ⟨hpeek, hload⟩
    dsimp only at hpeek hload
    rw [hgone] at hpeek
    split at hpeek
    · cases hpeek
    · next hne =>
      rw [Array.getElem?_setIfInBounds_ne (hother hne hpeek)] at hload
      exact .inl ⟨hpeek, hload⟩
  · intro id' h' q hc'
    by_cases hid : id = id'
    · subst hid
      obtain rfl := Option.some.inj (hc.1.symm.trans hc'.1)
      obtain rfl := Option.some.inj (hc.2.symm.trans hc'.2)
      refine .inr ⟨fun id' h' hpeek => ?_, by simp [hc.lt_size]⟩
      dsimp only at hpeek
      rw [hgone] at hpeek
      split at hpeek
      · cases hpeek
      · next hne => exact (hother hne hpeek).symm
    · refine .inl ⟨?_, ?_⟩
      · dsimp only
        rw [hgone, if_neg hid, hc'.1]
      · dsimp only
        rw [Array.getElem?_setIfInBounds_ne (hother hid hc'.1), hc'.2]
  · intro i _ hloose
    exact Array.getElem?_setIfInBounds_ne (hloose id h hc.1)

end Steps

/-- A page that was read since may enter the cache. -/
theorem adopt (hw : Rested w₀ w) (hnew : w₀.loaded.size ≤ h.index)
    (hload : w.loaded[h.index]? = some p) (hclean : p.dirtiedBy = none) (hid : p.id = id)
    (habs : w.source.peek id = none) (hlive : c.Live)
    (hpeek : ∀ id', c.peek id' = if id = id' then some h else w.source.peek id') :
    Rested w₀ { w with source := c } where
  toNamed := hw.toNamed.adopt hload hid hlive hpeek
  size_le := hw.size_le
  cached {id' h' q} hc := by
    have hpeek' := hc.1
    dsimp only at hpeek'
    rw [hpeek] at hpeek'
    split at hpeek'
    · obtain rfl := Option.some.inj hpeek'
      obtain rfl := Option.some.inj (hload.symm.trans hc.2)
      exact .inr ⟨hnew, hclean⟩
    · exact hw.cached ⟨hpeek', hc.2⟩
  kept {id' h' q} hc := by
    rcases hw.kept hc with hc' | ⟨hloose, hload'⟩
    · left
      refine ⟨?_, hc'.2⟩
      dsimp only
      rw [hpeek, if_neg, hc'.1]
      rintro rfl
      cases habs.symm.trans hc'.1
    · refine .inr ⟨fun id₁ h₁ hpeek₁ => ?_, hload'⟩
      dsimp only at hpeek₁
      rw [hpeek] at hpeek₁
      split at hpeek₁
      · obtain rfl := Option.some.inj hpeek₁
        exact (hc.lt_size.trans_le hnew).ne'
      · exact hloose id₁ h₁ hpeek₁
  loose := hw.loose

end Rested

/-- Writing a page back fails and changes nothing, or clears the tag of the page. -/
theorem outcome_writeBack (tables : Catalog) (hload : w.loaded[h.index]? = some p) :
    (∃ e, (writeBack tables h).outcome w = (.error e, w)) ∨
      ∃ d, (writeBack tables h).outcome w = (.ok (), { w with
        disk := d
        loaded := w.loaded.setIfInBounds h.index (p.mark none) }) := by
  unfold writeBack
  simp only [Action.outcome_bind, World.outcome_page, hload]
  cases hd : p.dirtiedBy with
  | none =>
    have hclean : p.isDirty = false := by simp [Page.isDirty, hd]
    have hsame : w.loaded.setIfInBounds h.index (p.mark none) = w.loaded := by
      rw [Page.mark_of_clean hd]
      apply Array.ext_getElem?
      intro i
      rw [Array.getElem?_setIfInBounds]
      split
      · next heq => rw [← heq, hload, if_pos (Array.getElem?_eq_some_iff.mp hload).1]
      · rfl
    exact .inr ⟨w.disk, by rw [hsame]; simp [hclean]⟩
  | some txn =>
    have hdirty : p.isDirty := by simp [Page.isDirty, hd]
    simp only [hdirty, if_true, Action.outcome_bind]
    cases ht : tables.table? p.id.table with
    | none =>
      rw [outcome_table_none ht]
      exact .inl ⟨_, rfl⟩
    | some t =>
      simp only [outcome_table ht, Action.outcome_get, Action.outcome_lift]
      cases t.writePage w.disk p with
      | error e => exact .inl ⟨_, rfl⟩
      | ok d => exact .inr ⟨d, rfl⟩

/-- A page that is not asked for stays as it is while others are written back. -/
theorem loaded_flushThose (tables : Catalog) {P : Page → Bool} {i : Nat} (hs : List Handle)
    (hload : w.loaded[i]? = some p) (hP : P p = false) :
    ((flushThose tables P hs).outcome w).2.loaded[i]? = some p := by
  induction hs generalizing w with
  | nil => exact hload
  | cons h hs ih =>
    unfold flushThose
    simp only [Action.outcome_bind, World.outcome_page]
    cases hq : w.loaded[h.index]? with
    | none => exact hload
    | some q =>
      by_cases hPq : P q
      · have hne : h.index ≠ i := by
          rintro rfl
          obtain rfl := Option.some.inj (hload.symm.trans hq)
          simp [hP] at hPq
        simp only [if_pos hPq, Action.outcome_bind]
        rcases outcome_writeBack tables hq with ⟨e, hout⟩ | ⟨d, hout⟩
        · rw [hout]
          exact hload
        · rw [hout]
          exact ih ((Array.getElem?_setIfInBounds_ne hne).trans hload)
      · simp only [if_neg hPq]
        exact ih hload

/-- Room is made without bringing a page in. -/
theorem rested_evict (tables : Catalog) (hw : Named w) : Rested w ((evict tables).outcome w).2 ∧
    ∀ id, w.source.peek id = none → ((evict tables).outcome w).2.source.peek id = none := by
  unfold evict
  simp only [Action.outcome_bind, outcome_getCache]
  rcases hw.live.candidate_cases with ⟨hnone, -⟩ | ⟨id, h, hsome, hpeek, -⟩
  · rw [hnone]
    exact ⟨.refl hw, fun _ habs => habs⟩
  · obtain ⟨p, hc⟩ := hw.exists_cached hpeek
    simp only [hsome, hpeek, Action.outcome_bind, outcome_getCache]
    rcases outcome_writeBack tables hc.2 with ⟨e, hout⟩ | ⟨d, hout⟩
    · rw [hout]
      exact ⟨.refl hw, fun _ habs => habs⟩
    · rw [hout]
      refine ⟨Rested.dismiss hw hc d, fun id' habs => ?_⟩
      simp only [outcome_setCache]
      rw [(hw.live.peek_remove id).2, habs, ite_self]

theorem rested_makeRoom (tables : Catalog) (hw : Named w) (fuel : Nat) :
    Rested w ((makeRoom tables fuel).outcome w).2 ∧ ∀ id, w.source.peek id = none →
      ((makeRoom tables fuel).outcome w).2.source.peek id = none := by
  induction fuel generalizing w with
  | zero => exact ⟨.refl hw, fun _ habs => habs⟩
  | succ fuel ih =>
    cases hfull : w.source.isFull with
    | false =>
      rw [makeRoom_of_room hfull]
      exact ⟨.refl hw, fun _ habs => habs⟩
    | true =>
      obtain ⟨hevicted, habsent⟩ := rested_evict tables hw
      simp only [makeRoom, Action.outcome_bind, outcome_getCache, hfull, if_true]
      generalize (evict tables).outcome w = out at hevicted habsent ⊢
      obtain ⟨e | _, w'⟩ := out
      · exact ⟨hevicted, habsent⟩
      · obtain ⟨hrest, habsent'⟩ := ih hevicted.toNamed
        exact ⟨hevicted.trans hrest, fun id habs => habsent' id (habsent id habs)⟩

theorem clean_of_readPage {d : Disk} (hread : t.readPage d id = .ok p) :
    p.id = id ∧ p.dirtiedBy = none := by
  obtain ⟨_, -, hread⟩ := bind_eq_ok.mp hread
  obtain ⟨stop, -, hread⟩ := bind_eq_ok.mp hread
  split at hread
  · contradiction
  · obtain ⟨-, hid, -, -, hclean⟩ := Page.sound_of_decode (mapError_eq_ok.mp hread)
    exact ⟨hid, hclean⟩

/-- Fetching a page changes none; the page that is fetched is cached. -/
theorem rested_fetch (tables : Catalog) (hw : Named w) (txn : TxnId) (id : PageId)
    (permission : Permission) {out : Except (Failure PoolError) Handle × World PageCache}
    (hout : (fetch tables txn id permission).outcome w = out) :
    Rested w out.2 ∧ ∀ h, out.1 = .ok h → ∃ p, Cached out.2 id h p := by
  subst hout
  obtain ⟨hvalue, hlive', hpeek⟩ := hw.live.peek_get id
  unfold fetch
  simp only [Action.outcome_bind, outcome_getCache]
  rcases hget : w.source.get id with ⟨_ | h, c⟩
  · rw [hget] at hvalue
    have habs : w.source.peek id = none := hvalue.symm
    cases ht : tables.table? id.table with
    | none =>
      simp only [Action.outcome_bind, outcome_table_none ht]
      exact ⟨.refl hw, fun _ hok => by cases hok⟩
    | some t =>
      simp only [Action.outcome_bind, outcome_table ht, Action.outcome_get, Action.outcome_lift]
      cases hread : t.readPage w.disk id with
      | error e => exact ⟨.refl hw, fun _ hok => by cases hok⟩
      | ok p =>
        obtain ⟨hid, hclean⟩ := clean_of_readPage hread
        have hloaded := Rested.load hw p
        -- room is made once the page is loaded, and before it enters the cache
        obtain ⟨hroom, habsent⟩ := rested_makeRoom tables hloaded.toNamed w.source.length
        obtain ⟨-, -, hfull, -⟩ := Bounded.makeRoom tables
          (w := { w with loaded := w.loaded.push p }) ⟨hw.live, rfl⟩ hw.live.length_pos_of_full rfl
        have hnew : w.source.contains id = false := by
          rw [hw.live.contains_eq, habs]
          rfl
        simp only [mapError_ok, World.outcome_load, cachePage, Action.outcome_bind,
          outcome_getCache, hnew, Bool.not_false, if_true]
        generalize (makeRoom tables w.source.length).outcome
          { w with loaded := w.loaded.push p } = out at hroom habsent hfull ⊢
        obtain ⟨e | _, w'⟩ := out
        · exact ⟨hloaded.trans hroom, fun _ hok => by cases hok⟩
        · have hload : w'.loaded[w.loaded.size]? = some p := by
            have hloose : Loose { w with loaded := w.loaded.push p } w.loaded.size :=
              fun id' h' hp => (hw.named id' h' hp).ne
            rw [hroom.loose (by simp) hloose]
            simp
          obtain ⟨old, c', hput, hlive, hpeek'⟩ :=
            hroom.live.peek_put id ⟨w.loaded.size⟩ (.inr (hfull rfl))
          simp only [hput, mapError_ok, Action.outcome_lift, outcome_setCache]
          refine ⟨(hloaded.trans hroom).adopt (le_refl _) hload hclean hid (habsent id habs) hlive
            hpeek', ?_⟩
          rintro h' ⟨⟩
          exact ⟨p, (hpeek' id).trans (if_pos rfl), hload⟩
  · rw [hget] at hvalue hlive' hpeek
    have hrested : Rested w { w with source := c } := .promote hw hlive' hpeek
    refine ⟨hrested, ?_⟩
    rintro h' ⟨⟩
    exact hrested.exists_cached ((hpeek id).trans hvalue.symm)

theorem rested_source (tables : Catalog) (hw : Named w) (txn : TxnId) (id : PageId)
    (permission : Permission) {out : Except (Failure FileError) Handle × World PageCache}
    (hout : (source tables txn id permission).outcome w = out) :
    Rested w out.2 ∧ ∀ h, out.1 = .ok h → ∃ p, Cached out.2 id h p := by
  subst hout
  obtain ⟨hrested, hcached⟩ := rested_fetch tables hw txn id permission rfl
  exact ⟨hrested, fun h hok => hcached h (mapError_eq_ok.mp hok)⟩

theorem preserves_rested (txn : TxnId) (id : PageId) (permission : Permission) :
    Action.Preserves (Rested w₀) (source tables txn id permission) := fun _ hw =>
  hw.trans (rested_source tables hw.toNamed txn id permission rfl).1

/-- A pool that since `w₀` has changed one page besides, for `txn`; a handle in the cache names it.
-/
structure Altered (w₀ : World PageCache) (txn : TxnId) (id : PageId) (h : Handle)
    (w : World PageCache) : Prop extends Named w where
  page : ∃ p, Cached w id h p ∧ p.dirtiedBy = some txn
  others : ∀ {id' h' p}, id' ≠ id → Cached w id' h' p →
    Cached w₀ id' h' p ∨ w₀.loaded.size ≤ h'.index ∧ p.dirtiedBy = none

theorem Rested.alter (hw : Rested w₀ w) (hc : Cached w id h p) (hid : q.id = id) (txn : TxnId) :
    Altered w₀ txn id h
      { w with loaded := w.loaded.setIfInBounds h.index (q.mark (some txn)) } where
  toNamed := hw.toNamed.set hc (q := q.mark (some txn)) hid w.disk
  page := ⟨q.mark (some txn), ⟨hc.1, by simp [hc.lt_size]⟩, rfl⟩
  others {id' h' p'} hne hc' := by
    have hindex : h.index ≠ h'.index := fun e => hne (hw.id_eq_of_index hc.1 hc'.1 e).symm
    refine hw.cached ⟨hc'.1, ?_⟩
    rw [← hc'.2]
    exact (Array.getElem?_setIfInBounds_ne hindex).symm

theorem Altered.promote {txn : TxnId} (hw : Altered w₀ txn id h w) (hlive : c.Live)
    (hpeek : ∀ id, c.peek id = w.source.peek id) : Altered w₀ txn id h { w with source := c } where
  toNamed := hw.toNamed.promote hlive hpeek
  page := by
    obtain ⟨p, hc, htag⟩ := hw.page
    exact ⟨p, ⟨(hpeek id).trans hc.1, hc.2⟩, htag⟩
  others hne hc := hw.others hne ⟨(hpeek _).symm.trans hc.1, hc.2⟩

/-- What comes of storing a row: the page that it is on was changed, or it failed and changed none.
-/
def Stores (w₀ : World PageCache) (txn : TxnId) :
    Except (Failure FileError) Stored × World PageCache → Prop
  | (.ok st, w) => ∃ rid, st.row.rid = some rid ∧ Altered w₀ txn rid.pageId st.handle w
  | (.error _, w) => Rested w₀ w

/-- A page that the pool hands out is cached. -/
theorem cached_of_handed {P : World PageCache → Prop} (hP : ∀ {w}, P w → Named w) {txn : TxnId}
    (hhanded : TableFile.Handed (source tables) P txn id h p w) : Cached w id h p := by
  obtain ⟨w₀, hw₀, hout⟩ := hhanded.given
  obtain ⟨q, hc⟩ := (rested_source tables (hP hw₀) txn id .readWrite hout).2 h rfl
  exact ⟨hc.1, hhanded.page⟩

theorem stores_insert (tables : Catalog) (hw : Named w) (t : TableFile) (txn : TxnId) (r : Row) :
    Stores w txn ((t.insert (source tables) txn r).outcome w) := by
  have hsettles : t.Settles (source tables) (Rested w) txn r
      ((t.insert (source tables) txn r).outcome w) :=
    TableFile.settles_insert preserves_rested (fun d hw' => hw'.trans (.onDisk hw'.toNamed d))
      (.refl hw) t txn r
  generalize (t.insert (source tables) txn r).outcome w = out at hsettles ⊢
  obtain ⟨e | st, w'⟩ := out
  · exact hsettles
  · obtain ⟨id, p, w₁, rid, q, -, hhanded, hi, hrow, rfl⟩ := hsettles
    have hc := cached_of_handed Rested.toNamed hhanded
    obtain ⟨-, slot, -, rfl, rfl⟩ := Page.insert_eq_ok.mp hi
    have hid := hhanded.holds.own id p hc.cached?_eq
    refine ⟨p.recordId slot, by rw [hrow]; rfl, ?_⟩
    rw [Page.recordId, hid]
    exact hhanded.holds.alter (q := p.fill slot (r.stamped ⟨id, UInt32.ofNat slot⟩)) hc hid txn

/-- Deleting a row changes the page that it is on, or it fails and changes none. -/
theorem alters_delete (tables : Catalog) (hw : Named w) (t : TableFile) (txn : TxnId)
    (rid : RecordId) :
    match (t.delete (source tables) txn (some rid)).outcome w with
      | (.ok h, w') => Altered w txn rid.pageId h w'
      | (.error _, w') => Rested w w' := by
  have hdeletes : TableFile.Deletes (source tables) (Rested w) txn (some rid)
      ((t.delete (source tables) txn (some rid)).outcome w) :=
    TableFile.deletes_delete preserves_rested (.refl hw) t txn (some rid)
  generalize (t.delete (source tables) txn (some rid)).outcome w = out at hdeletes ⊢
  obtain ⟨e | h, w'⟩ := out
  · exact hdeletes
  · obtain ⟨rid, p, w₁, q, ⟨⟩, hhanded, hdel, rfl⟩ := hdeletes
    have hc := cached_of_handed Rested.toNamed hhanded
    obtain ⟨rid', -, -, -, rfl⟩ := Page.delete_eq_ok.mp hdel
    have hid := hhanded.holds.own rid.pageId p hc.cached?_eq
    exact hhanded.holds.alter (q := p.vacate rid'.slot.toNat) hc hid txn

end RowStore.Pool
