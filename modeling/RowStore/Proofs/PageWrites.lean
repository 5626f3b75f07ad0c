import RowStore.Proofs.PageHandles
import RowStore.Proofs.ScanSteps

/-! What calls write. A call that stores or deletes a row changes one slot of one page, gives back
the handle of this page, and leaves it in the cache under this handle, first in the order of use.
Whatever else a call does, the pages that stay in the cache keep their handles and their rows. -/
namespace RowStore.Pool

/-- What a call has put into the place of a record id, a row or nothing, and the handle of the page
that it gives back. -/
structure Written where
  handle : Handle
  rid : RecordId
  row : Option Row
  deriving DecidableEq

/-- What a call has written, if it is one to store or to delete a row and succeeds. -/
def written? (tables : Catalog) (w : World PageCache) : Call → Option Written
  | .request (.insert txn k r) =>
      match ((insert tables txn k r).run w).1 with
      | ⟨row, .ok h⟩ => row.rid.map fun rid => ⟨h, rid, some row⟩
      | ⟨_, .error _⟩ => none
  | .request (.delete txn rid) =>
      match ((delete tables txn rid).outcome w).1 with
      | .ok h => rid.map fun rid => ⟨h, rid, none⟩
      | .error _ => none
  | _ => none

/-- The page that a call gives back, and its handle: the page that was asked for, or the one that a
row was stored on or deleted from. -/
def returned? (tables : Catalog) (w : World PageCache) : Call → Option (PageId × Handle)
  | .request (.get txn id permission) =>
      match ((fetch tables txn id permission).outcome w).1 with
      | .ok h => some (id, h)
      | .error _ => none
  | .fetchPage txn id permission =>
      match ((source tables txn id permission).outcome w).1 with
      | .ok h => some (id, h)
      | .error _ => none
  | call => (written? tables w call).map fun x => (x.rid.pageId, x.handle)

/-- A page shows what was written: the row is on it, or the slot is free. -/
def Written.Shows (x : Written) (p : Page) : Prop :=
  match x.row with
  | some r => r ∈ p.rows
  | none => p.row? x.rid.slot.toNat = none

/-- A page on which one slot has changed, that of the record id. -/
structure Rewritten (x : Written) (p q : Page) : Prop where
  sound : q.Sound
  id_eq : q.id = p.id
  row : ∀ r, x.row = some r → r.rid = some x.rid
  slot : ∃ slot, p.recordId slot = x.rid ∧ (x.row = none → slot = x.rid.slot.toNat) ∧
    ∀ i, q.row? i = if slot = i then x.row else p.row? i

variable {tables : Catalog} {w w' w₁ : World PageCache} {id : PageId} {h : Handle} {p q : Page}
  {t : TableFile} {c : PageCache} {call : Call} {x y : Written} {txn : TxnId}

theorem Rewritten.shows (hx : Rewritten x p q) : x.Shows q := by
  obtain ⟨slot, -, hslot, hrows⟩ := hx.slot
  unfold Written.Shows
  cases hrow : x.row with
  | none => exact (hrows _).trans (by rw [if_pos (hslot hrow), hrow])
  | some r => exact Page.mem_rows.mpr ⟨slot, by rw [hrows, if_pos rfl, hrow]⟩

/-- What is written in one place leaves to be seen what was written in another one. -/
theorem Rewritten.shows_other (hy : Rewritten y p q) (hp : p.Sound) (hid : p.id = x.rid.pageId)
    (hrow : ∀ r, x.row = some r → r.rid = some x.rid) (hne : y.rid ≠ x.rid) (hx : x.Shows p) :
    x.Shows q := by
  obtain ⟨slot, hslot, -, hrows⟩ := hy.slot
  unfold Written.Shows at hx ⊢
  cases hr : x.row with
  | none =>
    rw [hr] at hx
    refine (hrows _).trans ((if_neg ?_).trans hx)
    rintro rfl
    apply hne
    rw [← hslot, Page.recordId, UInt32.ofNat_toNat, hid]
  | some r =>
    rw [hr] at hx
    obtain ⟨i, hi⟩ := Page.mem_rows.mp hx
    refine Page.mem_rows.mpr ⟨i, (hrows i).trans ((if_neg ?_).trans hi)⟩
    rintro rfl
    have hplace := (hp.stored slot r hi).2.symm.trans (hrow r hr)
    exact hne (hslot.symm.trans (Option.some.inj hplace))

/-- The tag of a page does not show. -/
theorem Written.Shows.of_mark (hmark : q.mark none = p.mark none) (hx : x.Shows p) : x.Shows q := by
  have hsame : x.Shows (q.mark none) := by
    rw [hmark]
    exact hx
  exact hsame

/-- A page that is cached under the handle that it had is as it was: it was not read again, since
its handle is older than all pages that were. -/
theorem Rested.cached_of_peek (hw : Rested w w') (hc : Cached w id h p)
    (hpeek : w'.source.peek id = some h) : Cached w' id h p := by
  obtain ⟨q, hc'⟩ := hw.toNamed.exists_cached hpeek
  rcases hw.cached hc' with hc₀ | ⟨hle, -⟩
  · exact Option.some.inj (hc₀.2.symm.trans hc.2) ▸ hc'
  · exact absurd hc.lt_size (not_lt.mpr hle)

/-- A cached page is rewritten, after pages have come in and others have gone. -/
inductive Rewrites (w : World PageCache) (x : Written) : World PageCache → Prop where
  | rewrite {w₁ : World PageCache} {p q : Page} (hrested : Rested w w₁) (hsound : AllSound w₁)
      (hc : Cached w₁ x.rid.pageId x.handle p) (hx : Rewritten x p q) :
      Rewrites w x { w₁ with loaded := w₁.loaded.setIfInBounds x.handle.index q }

theorem Rewritten.of_insert {rid : RecordId} {r : Row} (hp : p.Sound)
    (hi : p.insert r = .ok (rid, q)) (h : Handle) (tag : Option TxnId) :
    Rewritten ⟨h, rid, some (r.stamped rid)⟩ p (q.mark tag) := by
  have hq := hp.insert hi
  obtain ⟨-, slot, hfree, rfl, rfl⟩ := Page.insert_eq_ok.mp hi
  have hslot : slot < p.slots.size := by
    rw [hp.slots]
    exact (Page.firstFree?_eq_some hfree).1
  refine ⟨hq.mark tag, rfl, fun r' hr' => ?_, slot, rfl, nofun, fun i => Page.row?_fill hslot _ i⟩
  rw [← Option.some.inj hr']
  rfl

theorem Rewritten.of_delete {rid : RecordId} (hp : p.Sound) (hd : p.delete (some rid) = .ok q)
    (h : Handle) (tag : Option TxnId) : Rewritten ⟨h, rid, none⟩ p (q.mark tag) := by
  have hq := hp.delete hd
  obtain ⟨rid', hrid, hid, -, rfl⟩ := Page.delete_eq_ok.mp hd
  obtain rfl := Option.some.inj hrid
  refine ⟨hq.mark tag, rfl, nofun, rid.slot.toNat, ?_, fun _ => rfl, Page.row?_vacate p _⟩
  rw [Page.recordId, UInt32.ofNat_toNat, ← hid]

namespace Rewrites

theorem orderly (hw : Rewrites w x w') : Orderly w' := by
  obtain ⟨hrested, hsound, hc, hx⟩ := hw
  have hid := hx.id_eq.trans (hrested.own _ _ hc.cached?_eq)
  refine ⟨hrested.toNamed.set hc hid _, fun i p' hp' => ?_⟩
  dsimp only at hp'
  rw [Array.getElem?_setIfInBounds] at hp'
  split at hp'
  · split at hp'
    · exact Option.some.inj hp' ▸ hx.sound
    · cases hp'
  · exact hsound i p' hp'

theorem cached (hw : Rewrites w x w') :
    ∃ q, Cached w' x.rid.pageId x.handle q ∧ x.Shows q := by
  obtain ⟨-, -, hc, hx⟩ := hw
  exact ⟨_, ⟨hc.1, by simp [hc.lt_size]⟩, hx.shows⟩

/-- Of the pages that stay in the cache, one is rewritten, and the others are as they were. -/
theorem kept (hw : Rewrites w x w') (hc : Cached w id h p) (hpeek : w'.source.peek id = some h) :
    ∃ q, Cached w' id h q ∧ (q.mark none = p.mark none ∨ Rewritten x p q) := by
  obtain @⟨w₁, p₁, q₁, hrested, -, hc₁, hx⟩ := hw
  have hc' : Cached w₁ id h p := hrested.cached_of_peek hc hpeek
  by_cases hindex : x.handle.index = h.index
  · obtain rfl := hrested.toNamed.id_eq_of_index hc₁.1 hc'.1 hindex
    obtain rfl := Option.some.inj (hc₁.1.symm.trans hc'.1)
    obtain rfl := Option.some.inj (hc₁.2.symm.trans hc'.2)
    exact ⟨q₁, ⟨hpeek, by simp [hc₁.lt_size]⟩, .inr hx⟩
  · exact ⟨p, ⟨hpeek, (Array.getElem?_setIfInBounds_ne hindex).trans hc'.2⟩, .inl rfl⟩

end Rewrites

/-- What requests for pages keep: pages have come in since and others have gone, and all are sound.
-/
theorem preserves_fetched (w : World PageCache) (txn : TxnId) (id : PageId)
    (permission : Permission) :
    Action.Preserves (fun w' => Rested w w' ∧ AllSound w') (source tables txn id permission) :=
  fun w' hw' => ⟨preserves_rested txn id permission w' hw'.1,
    preserves_sound_fetch txn id permission w' hw'.2⟩

/-- A row that is stored rewrites a page. -/
theorem Orderly.rewrites_insert (hw : Orderly w) (tables : Catalog) (t : TableFile) (txn : TxnId)
    (r : Row) :
    match (t.insert (source tables) txn r).outcome w with
      | (.error _, w') => Rested w w' ∧ AllSound w'
      | (.ok st, w') => ∃ rid, st.row.rid = some rid ∧
          Rewrites w ⟨st.handle, rid, some st.row⟩ w' := by
  have hsettles : t.Settles (source tables) (fun w' => Rested w w' ∧ AllSound w') txn r
      ((t.insert (source tables) txn r).outcome w) :=
    TableFile.settles_insert (preserves_fetched w)
      (fun d hw' => ⟨hw'.1.trans (.onDisk hw'.1.toNamed d), hw'.2⟩)
      ⟨.refl hw.toNamed, hw.sound⟩ t txn r
  generalize (t.insert (source tables) txn r).outcome w = out at hsettles ⊢
  obtain ⟨e | ⟨h, row⟩, w'⟩ := out
  · exact hsettles
  · obtain ⟨id, p, w₁, rid, q, -, hhanded, hi, rfl, rfl⟩ := hsettles
    obtain ⟨hrested, hsound⟩ := hhanded.holds
    have hc := cached_of_handed (fun hw' => hw'.1.toNamed) hhanded
    have hid : rid.pageId = id := by
      obtain ⟨-, slot, -, rfl, -⟩ := Page.insert_eq_ok.mp hi
      exact hrested.own id p hc.cached?_eq
    subst hid
    exact ⟨rid, rfl, .rewrite hrested hsound hc (.of_insert (hsound _ p hc.2) hi h (some txn))⟩

/-- A row that is deleted rewrites the page of its record id. -/
theorem Orderly.rewrites_delete (hw : Orderly w) (tables : Catalog) (t : TableFile) (txn : TxnId)
    (rid : RecordId) :
    match (t.delete (source tables) txn (some rid)).outcome w with
      | (.error _, w') => Rested w w' ∧ AllSound w'
      | (.ok h, w') => Rewrites w ⟨h, rid, none⟩ w' := by
  have hdeletes : TableFile.Deletes (source tables) (fun w' => Rested w w' ∧ AllSound w') txn
      (some rid) ((t.delete (source tables) txn (some rid)).outcome w) :=
    TableFile.deletes_delete (preserves_fetched w) ⟨.refl hw.toNamed, hw.sound⟩ t txn (some rid)
  generalize (t.delete (source tables) txn (some rid)).outcome w = out at hdeletes ⊢
  obtain ⟨e | h, w'⟩ := out
  · exact hdeletes
  · obtain ⟨rid, p, w₁, q, ⟨⟩, hhanded, hdel, rfl⟩ := hdeletes
    obtain ⟨hrested, hsound⟩ := hhanded.holds
    have hc := cached_of_handed (fun hw' => hw'.1.toNamed) hhanded
    exact .rewrite hrested hsound hc (.of_delete (hsound _ p hc.2) hdel h (some txn))

/-- The page that was rewritten is put into the cache once more. -/
theorem Rewrites.outcome_recache (tables : Catalog) (hw : Rewrites w x w') :
    ∃ c, (recache tables x.handle).outcome w' = (.ok (), { w' with source := c }) ∧ c.Live ∧
      (∀ id, c.peek id = w'.source.peek id) ∧ c.keysByRecency.head? = some x.rid.pageId := by
  obtain ⟨q, hc, -⟩ := hw.cached
  obtain ⟨c, hout, hlive, hpeek, hkeys, -⟩ := hw.orderly.toNamed.outcome_recache tables hc
  exact ⟨c, hout, hlive, hpeek, by rw [hkeys]; rfl⟩

/-- A call to store or to delete a row has failed, and has asked for pages at most; or it has
rewritten the page that it gives back, and this page is cached, first in the order of use. -/
inductive WriteOutcome (tables : Catalog) (w : World PageCache) (call : Call) : Prop where
  | failed (hnone : written? tables w call = none) (hrested : Rested w (act tables w call))
      (hsound : AllSound (act tables w call))
      (hact : act tables w call = ask tables (source tables) w call)
  | done {x : Written} {c : PageCache} (hx : written? tables w call = some x)
      (hrewrites : Rewrites w x (ask tables (source tables) w call)) (hlive : c.Live)
      (hpeek : ∀ id, c.peek id = (ask tables (source tables) w call).source.peek id)
      (hfirst : c.keysByRecency.head? = some x.rid.pageId)
      (hact : act tables w call = { ask tables (source tables) w call with source := c })

theorem outcome_delete {rid : RecordId} (ht : tables.table? rid.pageId.table = some t)
    (txn : TxnId) (w : World PageCache) :
    (delete tables txn (some rid)).outcome w =
      match (t.delete (source tables) txn (some rid)).outcome w with
      | (.error e, w') => (.error (e.map .file), w')
      | (.ok h, w') => match (recache tables h).outcome w' with
        | (.error e, w'') => (.error e, w'')
        | (.ok (), w'') => (.ok h, w'') := by
  simp only [delete, Action.outcome_bind, outcome_table ht, Action.outcome_mapError]
  rcases (t.delete (source tables) txn (some rid)).outcome w with ⟨e | h, w'⟩
  · rfl
  · simp only [mapError_ok]
    rcases (recache tables h).outcome w' with ⟨e | _, w''⟩ <;> rfl

theorem WriteOutcome.of_failed (hnone : written? tables w call = none)
    (hask : ask tables (source tables) w call = w') (hact : act tables w call = w')
    (hw' : Rested w w' ∧ AllSound w') : WriteOutcome tables w call :=
  .failed hnone (hact.symm ▸ hw'.1) (hact.symm ▸ hw'.2) (hact.trans hask.symm)

theorem Rewrites.writeOutcome (hw : Rewrites w x w')
    (hask : ask tables (source tables) w call = w')
    (hact : act tables w call = ((recache tables x.handle).outcome w').2)
    (hx : ∀ w'', (recache tables x.handle).outcome w' = (.ok (), w'') →
      written? tables w call = some x) : WriteOutcome tables w call := by
  obtain ⟨c, hrecache, hlive, hpeek, hfirst⟩ := hw.outcome_recache tables
  subst hask
  exact .done (hx _ hrecache) hw hlive hpeek hfirst (hact.trans (congrArg Prod.snd hrecache))

theorem Orderly.writeOutcome_insert (hw : Orderly w) (tables : Catalog) (txn : TxnId)
    (k : TableId) (r : Row) : WriteOutcome tables w (.request (.insert txn k r)) := by
  cases ht : tables.table? k with
  | none =>
    refine .of_failed ?_ ?_ ?_ ⟨.refl hw.toNamed, hw.sound⟩ <;>
      simp only [written?, act, perform, ask, run_insert_none ht, ht]
  | some t =>
    have hrewrites := hw.rewrites_insert tables t txn r
    rcases hout : (t.insert (source tables) txn r).outcome w with ⟨e | st, w'⟩
    · rw [hout] at hrewrites
      refine .of_failed ?_ ?_ ?_ hrewrites <;>
        simp only [written?, act, perform, ask, run_insert ht, ht, hout]
    · rw [hout] at hrewrites
      obtain ⟨rid, hrid, hrewrites⟩ := hrewrites
      refine hrewrites.writeOutcome ?_ ?_ fun w'' hrecache => ?_
      · simp only [ask, ht, hout]
      · simp only [act, perform, run_insert ht, hout]
        rcases (recache tables st.handle).outcome w' with ⟨e | _, w''⟩ <;> rfl
      · simp only [written?, run_insert ht, hout, hrecache, hrid, Option.map_some]

theorem Orderly.writeOutcome_delete (hw : Orderly w) (tables : Catalog) (txn : TxnId)
    (rid : RecordId) : WriteOutcome tables w (.request (.delete txn (some rid))) := by
  cases ht : tables.table? rid.pageId.table with
  | none =>
    refine .of_failed ?_ ?_ ?_ ⟨.refl hw.toNamed, hw.sound⟩ <;>
      simp only [written?, act, perform, ask, delete, Action.outcome_bind, outcome_table_none ht,
        ht]
  | some t =>
    have hrewrites := hw.rewrites_delete tables t txn rid
    rcases hout : (t.delete (source tables) txn (some rid)).outcome w with ⟨e | h, w'⟩
    · rw [hout] at hrewrites
      refine .of_failed ?_ ?_ ?_ hrewrites <;>
        simp only [written?, act, perform, ask, outcome_delete ht, ht, hout]
    · rw [hout] at hrewrites
      refine Rewrites.writeOutcome hrewrites ?_ ?_ fun w'' hrecache => ?_
      · simp only [ask, ht, hout]
      · simp only [act, perform, outcome_delete ht, hout]
        rcases (recache tables h).outcome w' with ⟨e | _, w''⟩ <;> rfl
      · simp only [written?, outcome_delete ht, hout, hrecache, Option.map_some]

theorem Orderly.writeOutcome (hw : Orderly w) (tables : Catalog) (hcall : call.Writes) :
    WriteOutcome tables w call := by
  match call, hcall with
  | .request (.insert txn k r), _ => exact hw.writeOutcome_insert tables txn k r
  | .request (.delete txn none), _ => exact .failed rfl (.refl hw.toNamed) hw.sound rfl
  | .request (.delete txn (some rid)), _ => exact hw.writeOutcome_delete tables txn rid

/-- What a call does to the pages in the cache: it may rewrite one of them, and none of those that
stay gets another handle. -/
structure Carries (tables : Catalog) (w : World PageCache) (call : Call) : Prop where
  orderly : Orderly (act tables w call)
  keepsHandles : KeepsHandles (ask tables (source tables) w call).source (act tables w call).source
  kept : ∀ {id h p}, Cached w id h p → (act tables w call).source.peek id = some h →
    ∃ q, Cached (act tables w call) id h q ∧
      (q.mark none = p.mark none ∨ ∃ x, written? tables w call = some x ∧ Rewritten x p q)

theorem carries_of_rested (hrested : Rested w (act tables w call))
    (hsound : AllSound (act tables w call))
    (hkeeps : KeepsHandles (ask tables (source tables) w call).source (act tables w call).source) :
    Carries tables w call where
  orderly := ⟨hrested.toNamed, hsound⟩
  keepsHandles := hkeeps
  kept hc hpeek := ⟨_, hrested.cached_of_peek hc hpeek, .inl rfl⟩

theorem WriteOutcome.carries (houtcome : WriteOutcome tables w call) : Carries tables w call := by
  cases houtcome with
  | failed _ hrested hsound hact =>
    exact carries_of_rested hrested hsound (hact ▸ keepsHandles_of_peek fun _ => rfl)
  | @done x c hx hrewrites hlive hpeek _ hact =>
    have horderly := hrewrites.orderly
    refine ⟨hact ▸ ⟨horderly.toNamed.promote hlive hpeek, horderly.sound⟩,
      hact ▸ keepsHandles_of_peek hpeek, fun {id h p} hc hin => ?_⟩
    rw [hact] at hin ⊢
    obtain ⟨q, hq, hkept⟩ := hrewrites.kept hc ((hpeek id).symm.trans hin)
    exact ⟨q, ⟨hin, hq.2⟩, hkept.imp_right fun hrewritten => ⟨x, hx, hrewritten⟩⟩

/-- Pages that are written back stay in the cache, up to their tags. -/
theorem carries_of_retains (hw : Orderly w) (hretains : Retains w (act tables w call))
    (hask : ask tables (source tables) w call = w) : Carries tables w call where
  orderly := hw.retain hretains
  keepsHandles := by
    rw [hask, hretains.source]
    exact keepsHandles_of_peek fun _ => rfl
  kept {id h p} hc hpeek := by
    obtain ⟨q, hq⟩ := (hw.retain hretains).toNamed.exists_cached hpeek
    obtain ⟨p', hp', hmark⟩ := hretains.page hq.2
    obtain rfl := Option.some.inj (hc.2.symm.trans hp')
    exact ⟨q, hq, .inl hmark⟩

/-- A page that is discarded leaves the cache. -/
theorem carries_discard (hw : Orderly w) (tables : Catalog) (id : PageId) :
    Carries tables w (.discard id) where
  orderly := ⟨hw.toNamed.drop id, hw.sound⟩
  keepsHandles := by
    have hthins : Thins w.source (w.source.remove id).2 := by
      obtain ⟨hlive, hremoved⟩ := hw.live.peek_remove id
      refine ⟨hlive, fun id' => ?_⟩
      rw [hremoved]
      split
      · exact .inr rfl
      · exact .inl rfl
    exact hthins.keepsHandles
  kept hc hpeek := ⟨_, ⟨hpeek, hc.2⟩, .inl rfl⟩

theorem Orderly.carries (hw : Orderly w) (tables : Catalog) (call : Call) :
    Carries tables w call := by
  have hfetched : ∀ txn id permission, Action.Preserves
      (fun w' => Rested w w' ∧ AllSound w') (source tables txn id permission) :=
    preserves_fetched w
  have hstart : Rested w w ∧ AllSound w := ⟨.refl hw.toNamed, hw.sound⟩
  have hasks : ∀ {call}, act tables w call = ask tables (source tables) w call →
      Rested w (act tables w call) ∧ AllSound (act tables w call) → Carries tables w call :=
    fun hact hkept => carries_of_rested hkept.1 hkept.2 (hact ▸ keepsHandles_of_peek fun _ => rfl)
  have hwrites : ∀ {call : Call}, call.Writes → Carries tables w call :=
    fun hcall => (hw.writeOutcome tables hcall).carries
  cases call with
  | request q =>
    cases q with
    | get txn id permission => exact hasks rfl (hfetched txn id permission w hstart)
    | insert txn k r => exact hwrites trivial
    | delete txn rid => exact hwrites trivial
    | scan txn k =>
      cases ht : tables.table? k with
      | none =>
        exact hasks (by simp only [act, perform, ask, ht]) (by simpa only [act, perform, ht])
      | some t =>
        have hact : act tables w (.request (.scan txn k)) = (scan tables txn t w).2 := by
          simp only [act, perform, ht]
        refine hasks ?_ (hact ▸ preserves_scan hfetched hstart txn t)
        simp only [hact, ask, ht, scanned_source]
    | flushTxn txn => exact carries_of_retains hw (retains_flushThose tables _ _ w) rfl
    | flushAll => exact carries_of_retains hw (retains_flushThose tables _ _ w) rfl
  | fetchPage txn id permission => exact hasks rfl (hfetched txn id permission w hstart)
  | flushPage id =>
    refine carries_of_retains hw ?_ rfl
    simp only [act, flushPage, Action.outcome_bind, outcome_getCache]
    cases w.source.peek id with
    | none => exact .refl w
    | some h => exact retains_writeBack tables h w
  | discard id => exact carries_discard hw tables id
  | evict =>
    exact carries_of_rested (rested_evict tables hw.toNamed).1
      (preserves_sound_evict tables w hw.sound)
      (thins_evict ⟨hw.live, fun _ => .inl rfl⟩ tables).keepsHandles
  | scanStep sc step =>
    exact hasks rfl (preserves_stepped hfetched hstart sc step)

/-- A row that was written carries its record id. -/
theorem rid_of_written (hx : written? tables w call = some x) {r : Row} (hr : x.row = some r) :
    r.rid = some x.rid := by
  match call with
  | .request (.insert txn k r') =>
    simp only [written?] at hx
    split at hx
    · obtain ⟨rid, hrid, rfl⟩ := Option.map_eq_some_iff.mp hx
      exact Option.some.inj hr ▸ hrid
    · cases hx
  | .request (.delete txn rid) =>
    simp only [written?] at hx
    split at hx
    · obtain ⟨rid', -, rfl⟩ := Option.map_eq_some_iff.mp hx
      cases hr
    · cases hx

/-- The page that was written is cached under the handle that the call gives back, and comes first.
-/
theorem Orderly.cached_of_written (hw : Orderly w) (hx : written? tables w call = some x) :
    (∃ q, Cached (act tables w call) x.rid.pageId x.handle q ∧ x.Shows q) ∧
      (act tables w call).source.keysByRecency.head? = some x.rid.pageId := by
  have hcall : call.Writes := by
    match call with
    | .request (.insert ..) => trivial
    | .request (.delete ..) => trivial
  cases hw.writeOutcome tables hcall with
  | failed hnone => cases hnone.symm.trans hx
  | @done x' c hx' hrewrites hlive hpeek hfirst hact =>
    obtain rfl := Option.some.inj (hx'.symm.trans hx)
    obtain ⟨q, hc, hshows⟩ := hrewrites.cached
    rw [hact]
    exact ⟨⟨q, ⟨(hpeek _).trans hc.1, hc.2⟩, hshows⟩, hfirst⟩

theorem returned?_of_written (hx : written? tables w call = some x) :
    returned? tables w call = some (x.rid.pageId, x.handle) := by
  match call with
  | .request (.insert ..) => exact congrArg (Option.map _) hx
  | .request (.delete ..) => exact congrArg (Option.map _) hx

/-- The page that a call gives back is cached under the handle that it comes with. -/
theorem Orderly.cached_of_returned (hw : Orderly w)
    (hreturned : returned? tables w call = some (id, h)) :
    ∃ p, Cached (act tables w call) id h p := by
  have hwritten : ∀ {call : Call},
      (written? tables w call).map (fun x => (x.rid.pageId, x.handle)) = some (id, h) →
        ∃ p, Cached (act tables w call) id h p := by
    intro call heq
    obtain ⟨x, hx, hpage⟩ := Option.map_eq_some_iff.mp heq
    obtain ⟨rfl, rfl⟩ := Prod.mk.inj hpage
    obtain ⟨⟨q, hc, -⟩, -⟩ := hw.cached_of_written hx
    exact ⟨q, hc⟩
  match call with
  | .request (.get txn id' permission) =>
    obtain ⟨-, hcached⟩ := rested_fetch tables hw.toNamed txn id' permission rfl
    simp only [returned?] at hreturned
    split at hreturned
    · next h' hok =>
      obtain ⟨rfl, rfl⟩ := Prod.mk.inj (Option.some.inj hreturned)
      exact hcached h' hok
    · cases hreturned
  | .fetchPage txn id' permission =>
    obtain ⟨-, hcached⟩ := rested_source tables hw.toNamed txn id' permission rfl
    simp only [returned?] at hreturned
    split at hreturned
    · next h' hok =>
      obtain ⟨rfl, rfl⟩ := Prod.mk.inj (Option.some.inj hreturned)
      exact hcached h' hok
    · cases hreturned
  | .request (.insert ..) => exact hwritten hreturned
  | .request (.delete ..) => exact hwritten hreturned

/-- A row that is stored was written. -/
theorem Orderly.written_of_inserted (hw : Orderly w) {k : TableId} {r row : Row}
    (hok : ((insert tables txn k r).run w).1 = ⟨row, .ok h⟩) :
    ∃ rid, written? tables w (.request (.insert txn k r)) = some ⟨h, rid, some row⟩ := by
  cases ht : tables.table? k with
  | none =>
    rw [run_insert_none ht] at hok
    cases hok
  | some t =>
    have hrewrites := hw.rewrites_insert tables t txn r
    simp only [written?, hok]
    rw [run_insert ht] at hok
    generalize (t.insert (source tables) txn r).outcome w = out at hrewrites hok
    obtain ⟨e | st, w'⟩ := out
    · cases hok
    · obtain ⟨rid, hrid, hrewrites⟩ := hrewrites
      obtain ⟨c, hrecache, -⟩ := hrewrites.outcome_recache tables
      dsimp only at hrecache hok
      rw [hrecache] at hok
      cases hok
      exact ⟨rid, by rw [hrid]; rfl⟩

/-- A page in the cache is seen under its handle. -/
theorem Cached.seen_eq (hc : Cached w id h p) : seen w (.ok h) = .ok (p.mark none) := by
  simp only [seen, ok_bind, hc.2]
  rfl

/-- What a call does to the rows: one is written, or none is. -/
theorem Orderly.row?_act (hw : Orderly w) (heffect : CallEffect tables w call) {rid : RecordId}
    (hkept : call ≠ .discard rid.pageId) :
    (contents tables (act tables w call)).row? rid = match written? tables w call with
      | some y => if y.rid = rid then y.row else (contents tables w).row? rid
      | none => (contents tables w).row? rid := by
  have hsame : ∀ {call : Call}, contents tables (act tables w call) = contents tables w →
      (contents tables (act tables w call)).row? rid = (contents tables w).row? rid :=
    fun heq => by rw [heq]
  match call with
  | .request (.insert txn k r) =>
    have heffect : Effect (contents tables w) (contents tables ((insert tables txn k r).run w).2)
        (.insert txn k r) (.stored ((insert tables txn k r).run w).1.row
          (seen ((insert tables txn k r).run w).2 ((insert tables txn k r).run w).1.result)) :=
      heffect
    show (contents tables ((insert tables txn k r).run w).2).row? rid = _
    rcases hout : (insert tables txn k r).run w with ⟨⟨row, e | h⟩, w'⟩
    · rw [hout] at heffect
      simp only [written?, hout]
      exact heffect.2.rows rid
    · obtain ⟨rid', hwritten⟩ := hw.written_of_inserted (congrArg Prod.fst hout)
      obtain ⟨⟨q, hc, -⟩, -⟩ := hw.cached_of_written hwritten
      have hact : act tables w (.request (.insert txn k r)) = w' := congrArg Prod.snd hout
      rw [hact] at hc
      rw [hout] at heffect
      dsimp only at heffect
      rw [hc.seen_eq] at heffect
      obtain ⟨rid₁, rfl, -, -, hadds⟩ := heffect
      obtain rfl := Option.some.inj (rid_of_written hwritten rfl : some rid₁ = some rid')
      rw [hwritten]
      simp only [hadds.rows rid, eq_comm]
  | .request (.delete txn none) => exact hsame heffect
  | .request (.delete txn (some rid')) =>
    have heffect : Effect (contents tables w)
        (contents tables ((delete tables txn (some rid')).outcome w).2) (.delete txn (some rid'))
        (.page (seen ((delete tables txn (some rid')).outcome w).2
          ((delete tables txn (some rid')).outcome w).1)) := heffect
    show (contents tables ((delete tables txn (some rid')).outcome w).2).row? rid = _
    rcases hout : (delete tables txn (some rid')).outcome w with ⟨e | h, w'⟩
    · rw [hout] at heffect
      simp only [written?, hout]
      exact congrArg (·.row? rid) heffect
    · have hwritten : written? tables w (.request (.delete txn (some rid'))) =
          some ⟨h, rid', none⟩ := by simp only [written?, hout, Option.map_some]
      obtain ⟨⟨q, hc, -⟩, -⟩ := hw.cached_of_written hwritten
      have hact : act tables w (.request (.delete txn (some rid'))) = w' := congrArg Prod.snd hout
      rw [hact] at hc
      rw [hout] at heffect
      dsimp only at heffect
      rw [hc.seen_eq] at heffect
      obtain ⟨rid₁, hrid, -, hremoves⟩ := heffect
      obtain rfl := Option.some.inj hrid
      rw [hwritten]
      simp only [hremoves.rows rid, eq_comm]
  | .discard id =>
    have hother : rid.pageId ≠ id := fun heq => hkept (by rw [heq])
    have hpage := heffect rid.pageId
    rw [if_neg hother] at hpage
    simp only [Contents.row?, hpage, written?]
  | .request (.get txn id permission) =>
    have heffect : Effect (contents tables w) (contents tables (act tables w _)) _
        (.page (seen ((fetch tables txn id permission).outcome w).2
          ((fetch tables txn id permission).outcome w).1)) := heffect
    generalize seen ((fetch tables txn id permission).outcome w).2
      ((fetch tables txn id permission).outcome w).1 = reply at heffect
    obtain e | p := reply
    · exact hsame heffect
    · exact hsame heffect.1
  | .request (.scan txn k) =>
    simp only [CallEffect, perform] at heffect
    split at heffect
    · exact hsame heffect
    · exact hsame heffect
  | .request (.flushTxn txn) => exact hsame heffect
  | .request .flushAll => exact hsame heffect
  | .fetchPage txn id permission => exact hsame heffect.1
  | .flushPage id => exact hsame heffect
  | .evict => exact hsame heffect
  | .scanStep sc step => exact hsame heffect

end RowStore.Pool
