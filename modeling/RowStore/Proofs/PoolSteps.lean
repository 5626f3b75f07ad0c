import RowStore.Proofs.PoolCoherence

/-! The single steps of a pool: a page is loaded, enters the cache, changes, is written, or leaves
the cache. Each keeps the pool coherent, and the table store says what it changes. -/
namespace RowStore.Pool

variable {tables : Catalog} {s : TableStore} {w w' : World PageCache} {id : PageId} {h : Handle}
  {p q : Page} {t : TableFile} {c : PageCache}

section View
variable (hw : Named w)

/-- The order of use says nothing about pages. -/
theorem cached?_promote (hpeek : ∀ id, c.peek id = w.source.peek id) (id : PageId) :
    cached? { w with source := c } id = cached? w id := by
  simp only [cached?, hpeek]

include hw in
theorem Named.cached?_load (p : Page) (id : PageId) :
    cached? { w with loaded := w.loaded.push p } id = cached? w id := by
  unfold cached?
  cases hp : w.source.peek id with
  | none => rfl
  | some h => simp [Array.getElem?_push_lt (hw.named id h hp), hw.named id h hp]

include hw in
/-- A page that leaves the cache leaves the others there. -/
theorem Named.cached?_drop (id id' : PageId) :
    cached? { w with source := (w.source.remove id).2 } id' =
      if id = id' then none else cached? w id' := by
  unfold cached?
  rw [(hw.live.peek_remove id).2]
  split <;> rfl

/-- A loaded page that enters the cache leaves the others there. -/
theorem cached?_adopt (hload : w.loaded[h.index]? = some p)
    (hpeek : ∀ id', c.peek id' = if id = id' then some h else w.source.peek id') (id' : PageId) :
    cached? { w with source := c } id' = if id = id' then some p else cached? w id' := by
  unfold cached?
  rw [hpeek]
  split
  · exact hload
  · rfl

include hw in
/-- Setting a page changes what is cached for its id, and nothing else. -/
theorem Named.cached?_set (hc : Cached w id h p) (q : Page) (d : Disk) (id' : PageId) :
    cached? { w with disk := d, loaded := w.loaded.setIfInBounds h.index q } id' =
      if id = id' then some q else cached? w id' := by
  unfold cached?
  split
  · next heq => simp [← heq, hc.1, hw.named id h hc.1]
  · next hne =>
    cases hp : w.source.peek id' with
    | none => rfl
    | some h' =>
      have hindex : h.index ≠ h'.index := fun e => hne (hw.id_eq_of_index hc.1 hp e)
      simp [Array.getElem?_setIfInBounds_ne hindex]

end View

section Named
variable (hw : Named w)
include hw

theorem Named.promote (hlive : c.Live) (hpeek : ∀ id, c.peek id = w.source.peek id) :
    Named { w with source := c } :=
  ⟨hlive, fun id h hp => hw.named id h ((hpeek id).symm.trans hp),
    fun id p hp => hw.own id p ((cached?_promote hpeek id).symm.trans hp)⟩

theorem Named.load (p : Page) : Named { w with loaded := w.loaded.push p } := by
  refine ⟨hw.live, fun id h hp => ?_, fun id q hq => hw.own id q ((hw.cached?_load p id).symm.trans hq)⟩
  simp only [Array.size_push]
  exact (hw.named id h hp).trans (Nat.lt_succ_self _)

theorem Named.drop (id : PageId) : Named { w with source := (w.source.remove id).2 } := by
  obtain ⟨hlive, hpeek⟩ := hw.live.peek_remove id
  refine ⟨hlive, fun id' h hp => ?_, fun id' p hp => ?_⟩
  · rw [hpeek] at hp
    split at hp
    · contradiction
    · exact hw.named id' h hp
  · rw [hw.cached?_drop] at hp
    split at hp
    · contradiction
    · exact hw.own id' p hp

theorem Named.adopt (hload : w.loaded[h.index]? = some p) (hid : p.id = id) (hlive : c.Live)
    (hpeek : ∀ id', c.peek id' = if id = id' then some h else w.source.peek id') :
    Named { w with source := c } := by
  refine ⟨hlive, fun id' h' hp => ?_, fun id' q hq => ?_⟩
  · rw [hpeek] at hp
    split at hp
    · exact Option.some.inj hp ▸ (Array.getElem?_eq_some_iff.mp hload).1
    · exact hw.named id' h' hp
  · rw [cached?_adopt hload hpeek] at hq
    split at hq
    · next heq => exact Option.some.inj hq ▸ heq ▸ hid
    · exact hw.own id' q hq

theorem Named.set (hc : Cached w id h p) (hid : q.id = id) (d : Disk) :
    Named { w with disk := d, loaded := w.loaded.setIfInBounds h.index q } := by
  refine ⟨hw.live, fun id' h' hp => ?_, fun id' q' hq => ?_⟩
  · rw [Array.size_setIfInBounds]
    exact hw.named id' h' hp
  · rw [hw.cached?_set hc] at hq
    split at hq
    · next heq => exact Option.some.inj hq ▸ heq ▸ hid
    · exact hw.own id' q' hq

end Named

theorem Keeps.promote (hw : Keeps tables s w) (hlive : c.Live)
    (hpeek : ∀ id, c.peek id = w.source.peek id) : Keeps tables s { w with source := c } :=
  hw.of_view (hw.coherent.toNamed.promote hlive hpeek).live
    (hw.coherent.toNamed.promote hlive hpeek).named rfl fun id => .inl (cached?_promote hpeek id)

/-- A page that is loaded has a handle that no other page in the cache has. -/
theorem Keeps.load (hw : Keeps tables s w) (p : Page) :
    Keeps tables s { w with loaded := w.loaded.push p } :=
  hw.of_view hw.coherent.live (hw.coherent.toNamed.load p).named rfl
    fun id => .inl (hw.coherent.toNamed.cached?_load p id)

/-- A page that is as on the disk may leave the cache. -/
theorem Keeps.drop (hw : Keeps tables s w) (hclean : ∀ p, cached? w id = some p → p.dirtiedBy = none) :
    Keeps tables s { w with source := (w.source.remove id).2 } := by
  have hnamed := hw.coherent.toNamed
  refine hw.of_view (hnamed.drop id).live (hnamed.drop id).named rfl fun id' => ?_
  rw [hnamed.cached?_drop]
  by_cases hid : id = id'
  · subst hid
    exact .inr ⟨hclean, by simp⟩
  · exact .inl (if_neg hid)

/-- A page that was read from the disk may enter the cache under its handle. -/
theorem Keeps.adopt (hw : Keeps tables s w) (hload : w.loaded[h.index]? = some p)
    (hclean : p.dirtiedBy = none) (ht : tables.table? id.table = some t)
    (hplaced : Placed t w.disk id p) (habs : w.source.peek id = none) (hlive : c.Live)
    (hpeek : ∀ id', c.peek id' = if id = id' then some h else w.source.peek id') :
    Keeps tables s { w with source := c } ∧ Cached { w with source := c } id h p := by
  have hnamed := hw.coherent.toNamed.adopt hload hplaced.belongs.id_eq hlive hpeek
  refine ⟨hw.of_view hlive hnamed.named rfl fun id' => ?_, by rw [hpeek, if_pos rfl], hload⟩
  rw [cached?_adopt hload hpeek]
  by_cases hid : id = id'
  · subst hid
    rw [if_pos rfl, cached?_of_absent habs]
    refine .inr ⟨by simp, fun q hq => ?_⟩
    rw [← Option.some.inj hq]
    exact ⟨hclean, t, ht, hplaced⟩
  · exact .inl (if_neg hid)

/-- A page that changes in the cache changes in the store. -/
theorem Keeps.setPage (hw : Keeps tables s w) (hc : Cached w id h p)
    (ht : tables.table? id.table = some t) (hq : q.Belongs id t.schema t.pageSize)
    (hdirty : q.isDirty) :
    Keeps tables (s.setPage q) { w with loaded := w.loaded.setIfInBounds h.index q } ∧
      Cached { w with loaded := w.loaded.setIfInBounds h.index q } id h q := by
  have hview := hw.coherent.toNamed.cached?_set hc q w.disk
  have hnamed := hw.coherent.toNamed.set hc hq.id_eq w.disk
  have hplaced := hw.coherent.placed_of_cached hc ht
  refine ⟨⟨⟨hnamed.live, hnamed.named, ?_⟩, ?_⟩, ?_⟩
  · intro id' p' hp'
    rw [hview] at hp'
    split at hp'
    · next heq =>
      obtain rfl := Option.some.inj hp'
      refine ⟨t, heq ▸ ht, heq ▸ ⟨hq, hplaced.reached, hplaced.whole, fun hclean => ?_⟩⟩
      simp [Page.isDirty, hclean] at hdirty
    · exact hw.coherent.placed id' p' hp'
  · rw [← hw.store_eq]
    apply TableStore.ext
    · rfl
    · funext id'
      cases ht' : tables.table? id'.table with
      | none =>
        have hne : id' ≠ id := by
          rintro rfl
          simp [ht] at ht'
        simp [store, TableStore.setPage, hq.id_eq, ht', hne]
      | some t' =>
        simp only [store, TableStore.setPage, hq.id_eq, ht', Option.elim_some, Function.update_apply]
        split
        · next heq => exact settled_of_dirty (by rw [hview, if_pos heq.symm]) hdirty
        · next hne => exact settled_congr (by rw [hview, if_neg (Ne.symm hne)]) rfl
    · rfl
  · exact ⟨hc.1, by simp [hw.coherent.named id h hc.1]⟩

section Writing
variable (hb : tables.Separate) (ht : tables.table? id.table = some t) {data : Bytes}
  (hdata : data.length = t.pageSize) {id' : PageId} {t' : TableFile}

include hb ht hdata in
/-- Writing a page changes the bytes of this page only. -/
theorem pageBytes_put (d : Disk) (ht' : tables.table? id'.table = some t') :
    t'.pageBytes (t.putBytes d id.page data) id'.page =
      if id = id' then data else t'.pageBytes d id'.page := by
  obtain ⟨k, n⟩ := id
  obtain ⟨k', n'⟩ := id'
  by_cases hk : k = k'
  · subst hk
    obtain rfl := Option.some.inj (ht.symm.trans ht')
    by_cases hn : n = n'
    · subst hn
      rw [if_pos rfl]
      exact TableFile.pageBytes_putBytes_self (hb.location_ne ht) hdata
    · rw [if_neg (by simpa using hn)]
      exact TableFile.pageBytes_putBytes_of_ne (hb.location_ne ht) hdata hn
  · have hloc : t'.location ≠ t.location := fun e => hk (hb.distinct _ _ _ _ ht' ht e).symm
    rw [if_neg (by simp [hk]), TableFile.pageBytes, TableFile.fileAt_putBytes_of_ne hloc]
    rfl

include hb ht hdata in
theorem length_put (d : Disk) {k : TableId} (ht' : tables.table? k = some t') :
    ((t.putBytes d id.page data).fileAt t'.location).length =
      if id.table = k then
        max (d.fileAt t.location).length (id.page.toNat * t.pageSize + t.pageSize)
      else (d.fileAt t'.location).length := by
  split
  · next hk =>
    obtain rfl := Option.some.inj (ht.symm.trans (hk ▸ ht'))
    exact TableFile.length_putBytes (hb.location_ne ht) (hb.size_pos ht) hdata
  · next hk =>
    have hloc : t'.location ≠ t.location := fun e => hk (hb.distinct _ _ _ _ ht' ht e).symm
    rw [TableFile.fileAt_putBytes_of_ne hloc]

include ht in
theorem fileAt_put (d : Disk) {l : Location} (hl : tables.locates l = false) :
    (t.putBytes d id.page data).fileAt l = d.fileAt l := by
  apply TableFile.fileAt_putBytes_of_ne
  rintro rfl
  simp [Catalog.locates_eq_true.mpr ⟨_, t, ht, rfl⟩] at hl

include hb ht hdata in
/-- A page in its place stays there when another one is written. -/
theorem Placed.put {d : Disk} (hp : Placed t' d id' p) (ht' : tables.table? id'.table = some t')
    (hne : id ≠ id') : Placed t' (t.putBytes d id.page data) id' p := by
  refine ⟨hp.belongs, hp.reached, ?_, ?_⟩
  · rw [length_put hb ht hdata d ht']
    split
    · next hk =>
      obtain rfl := Option.some.inj (ht.symm.trans (hk ▸ ht'))
      exact hp.whole.trans (le_max_left _ _)
    · exact hp.whole
  · rw [pageBytes_put hb ht hdata d ht', if_neg hne]
    exact hp.clean

include hb ht in
/-- A page that is written back stands for the same bytes, now on the disk. -/
theorem Keeps.written (hw : Keeps tables s w) (hc : Cached w id h p) (hdirty : p.isDirty) :
    Keeps tables s { w with
      disk := t.putBytes w.disk id.page p.image
      loaded := w.loaded.setIfInBounds h.index (p.mark none) } := by
  have hplaced := hw.coherent.placed_of_cached hc ht
  obtain ⟨-, himage, hdecode⟩ := hplaced.belongs.encode_decode
  have hview := hw.coherent.toNamed.cached?_set hc (p.mark none) (t.putBytes w.disk id.page p.image)
  have hnamed := hw.coherent.toNamed.set hc (hplaced.belongs.mark none).id_eq
    (t.putBytes w.disk id.page p.image)
  have hwhole := hplaced.whole
  rw [Nat.succ_mul] at hwhole
  refine hw.of_same ⟨hnamed.live, hnamed.named, ?_⟩ ?_ ?_
    fun l hl => fileAt_put ht w.disk hl
  · intro id' p' hp'
    rw [hview] at hp'
    split at hp'
    · next heq =>
      subst heq
      obtain rfl := Option.some.inj hp'
      refine ⟨t, ht, hplaced.belongs.mark none, hplaced.reached, ?_, fun _ => ?_⟩
      · rw [length_put hb ht himage w.disk ht, if_pos rfl]
        exact hplaced.whole.trans (le_max_left _ _)
      · rw [pageBytes_put hb ht himage w.disk ht, if_pos rfl]
        exact hdecode
    · next hne =>
      obtain ⟨t', ht', hp⟩ := hw.coherent.placed id' p' hp'
      exact ⟨t', ht', hp.put hb ht himage ht' hne⟩
  · intro k t' ht'
    rw [length_put hb ht himage w.disk ht']
    split
    · next hk =>
      obtain rfl := Option.some.inj (ht.symm.trans (hk ▸ ht'))
      exact max_eq_left hwhole
    · rfl
  · intro id' t' ht'
    have hbytes := pageBytes_put hb ht himage w.disk ht'
    by_cases hne : id = id'
    · subst hne
      obtain rfl := Option.some.inj (ht.symm.trans ht')
      rw [settled_of_clean (by rw [hview, if_pos rfl]) rfl, settled_of_dirty hc.cached?_eq hdirty,
        hbytes, if_pos rfl]
    · exact settled_congr (by rw [hview, if_neg hne]) (by rw [hbytes, if_neg hne])

include hb ht in
/-- A page behind the last one of its table is not cached. -/
theorem Coherent.cached?_behind (hw : Coherent tables w)
    (hlast : (w.disk.fileAt t.location).length = id.page.toNat * t.pageSize) :
    cached? w id = none := by
  by_contra hsome
  obtain ⟨q, hq⟩ := Option.ne_none_iff_exists'.mp hsome
  obtain ⟨h, hc⟩ := cached_of_cached? hq
  have hwhole := (hw.placed_of_cached hc ht).whole
  have hpos := hb.size_pos ht
  rw [hlast, Nat.succ_mul] at hwhole
  omega

include hb ht in
/-- The store has a page more once a page is written behind the last one. -/
theorem store_append (hp : p.Belongs id t.schema t.pageSize) (habs : cached? w id = none)
    (hlast : (w.disk.fileAt t.location).length = id.page.toNat * t.pageSize) :
    store tables { w with disk := t.putBytes w.disk id.page p.image } =
      (store tables w).append t p := by
  obtain ⟨-, himage, -⟩ := hp.encode_decode
  have hid := hb.id_eq ht
  apply TableStore.ext
  · funext k
    cases ht' : tables.table? k with
    | none =>
      have hne : k ≠ id.table := by
        rintro rfl
        simp [ht] at ht'
      simp [store, TableStore.append, hid, ht', hne]
    | some t' =>
      simp only [store, TableStore.append, hid, ht', ht, Option.elim_some,
        Function.update_apply, length_put hb ht himage w.disk ht', hlast]
      grind
  · funext id'
    cases ht' : tables.table? id'.table with
    | none =>
      have hne : id' ≠ id := by
        rintro rfl
        simp [ht] at ht'
      simp [store, TableStore.append, TableStore.setPage, hp.id_eq, ht', hne]
    | some t' =>
      have hbytes := pageBytes_put hb ht himage w.disk ht'
      simp only [store, TableStore.append, TableStore.setPage, hp.id_eq, ht', Option.elim_some,
        Function.update_apply]
      split
      · next heq =>
        subst heq
        have hsame : cached? { w with disk := t.putBytes w.disk id'.page p.image } id' = none :=
          habs
        rw [settled, hsame, hbytes, if_pos rfl]
      · next hne => exact settled_congr rfl (by rw [hbytes, if_neg (Ne.symm hne)])
  · funext l
    cases hl : tables.locates l with
    | false => simp [store, TableStore.append, TableStore.setPage, hl, fileAt_put ht w.disk hl]
    | true => simp [store, TableStore.append, TableStore.setPage, hl]

variable (id) in
include hb ht in
/-- A page that is written behind the last one of its table is new in the store. -/
theorem Keeps.append (hw : Keeps tables s w) (hp : p.Belongs id t.schema t.pageSize)
    (hlast : (w.disk.fileAt t.location).length = id.page.toNat * t.pageSize) :
    Keeps tables (s.append t p) { w with disk := t.putBytes w.disk id.page p.image } := by
  obtain ⟨-, himage, -⟩ := hp.encode_decode
  have habs := hw.coherent.cached?_behind hb ht hlast
  refine ⟨⟨hw.coherent.live, hw.coherent.named, ?_⟩, ?_⟩
  · intro id' p' hp'
    have hold : cached? w id' = some p' := hp'
    obtain ⟨t', ht', hplaced⟩ := hw.coherent.placed id' p' hold
    refine ⟨t', ht', hplaced.put hb ht himage ht' ?_⟩
    rintro rfl
    simp [habs] at hold
  · rw [store_append hb ht hp habs hlast, hw.store_eq]

end Writing

end RowStore.Pool
