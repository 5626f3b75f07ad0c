import RowStore.Proofs.TableIsolation
import RowStore.Proofs.WriteBounds

/-! Flushing writes back just the pages that it is asked to write back, in whatever order the cache
lists its pages. Pages of tables with a file each lie apart from each other, so that no write
touches what another one has written. -/
namespace RowStore

namespace TableFile
variable {t : TableFile} {d d' : Disk} {number n m : UInt32} {i : Nat}

/-- The offsets of the bytes of a page. -/
def place (t : TableFile) (number : UInt32) : Set Nat :=
  Set.Ico (number.toNat * t.pageSize) ((number.toNat + 1) * t.pageSize)

theorem notMem_place (hne : n ≠ m) (hi : i ∈ t.place n) : i ∉ t.place m := by
  have hapart := pages_apart (fun e => hne (UInt32.toNat_inj.mp e)) t.pageSize
  rintro ⟨hle, hlt⟩
  obtain ⟨hle', hlt'⟩ := hi
  rw [Nat.succ_mul] at hlt hlt'
  omega

theorem pageBytes_congr (h : ∀ i ∈ t.place number,
    (d'.fileAt t.location).byteAt i = (d.fileAt t.location).byteAt i) :
    t.pageBytes d' number = t.pageBytes d number := by
  unfold pageBytes
  rw [File.read_eq_map, File.read_eq_map]
  refine List.map_congr_left fun i hi => h _ ⟨Nat.le_add_right _ _, ?_⟩
  rw [Nat.succ_mul]
  exact Nat.add_lt_add_left (List.mem_range.mp hi) _

theorem byteAt_of_pageBytes (h : t.pageBytes d' number = t.pageBytes d number)
    (hi : i ∈ t.place number) :
    (d'.fileAt t.location).byteAt i = (d.fileAt t.location).byteAt i := by
  obtain ⟨hle, hlt⟩ := hi
  rw [Nat.succ_mul] at hlt
  have hbyte := congrArg (·[i - number.toNat * t.pageSize]?) h
  simp only [pageBytes] at hbyte
  rw [File.getElem?_read _ (by omega), File.getElem?_read _ (by omega),
    Nat.add_sub_cancel' hle] at hbyte
  exact Option.some.inj hbyte

end TableFile

namespace Pool

/-- A way to list the handles of a cache, each once, in an order of its own. -/
structure Listing where
  handles : PageCache → List Handle
  perm : ∀ c, (handles c).Perm (cachedPages c)

/-- Writes those cached pages back that satisfy `P`, in the order of a listing. -/
def flushBy (tables : Catalog) (o : Listing) (P : Page → Bool) : PoolAction Unit := do
  flushThose tables P (o.handles (← getCache))

/-- Flushes for one transaction after the other, each time in an order of its own. -/
def flushTxns (tables : Catalog) : List (Listing × TxnId) → PoolAction Unit
  | [] => return ()
  | (o, txn) :: rounds => do
      flushBy tables o (·.dirtiedBy == some txn)
      flushTxns tables rounds

/-- The cached pages that have changed and satisfy `P`. -/
def changedPages (P : PageId → Page → Prop) (w : World PageCache) : Set PageId :=
  {id | ∃ p, cached? w id = some p ∧ p.isDirty ∧ P id p}

/-- The pages of `A` were written back, and nothing else has changed: they have lost their tags, and
their bytes are on the disk. All other loaded pages, the cache with its order, the lengths of all
files and all bytes outside the pages of `A` are as they were. -/
structure WrittenBack (tables : Catalog) (A : Set PageId) (w w' : World PageCache) : Prop where
  source : w'.source = w.source
  written : ∀ id ∈ A, ∀ h p, Cached w id h p → w'.loaded[h.index]? = some (p.mark none) ∧
    ∃ t, tables.table? id.table = some t ∧ t.pageBytes w'.disk id.page = p.image
  loaded : ∀ i, (∀ id ∈ A, ∀ h, w.source.peek id = some h → h.index ≠ i) →
    w'.loaded[i]? = w.loaded[i]?
  length : ∀ l, (w'.disk.fileAt l).length = (w.disk.fileAt l).length
  bytes : ∀ l i, (∀ id ∈ A, ∀ t, tables.table? id.table = some t → t.location = l →
    i ∉ t.place id.page) → (w'.disk.fileAt l).byteAt i = (w.disk.fileAt l).byteAt i

/-- Two states with the same cache, the same loaded pages and tags, and the same bytes in all
files. -/
structure Same (w w' : World PageCache) : Prop where
  source : w'.source = w.source
  loaded : w'.loaded = w.loaded
  files : ∀ l, (w'.disk.fileAt l).contents = (w.disk.fileAt l).contents

variable {tables : Catalog} {A : Set PageId} {P Q : PageId → Page → Prop}
  {w w₁ w₂ w' : World PageCache} {id : PageId} {h : Handle} {p : Page} {t : TableFile}

theorem WrittenBack.none (w : World PageCache) : WrittenBack tables ∅ w w :=
  ⟨rfl, nofun, fun _ _ => rfl, fun _ => rfl, fun _ _ _ => rfl⟩

/-- Which pages were written back says what came of it. -/
theorem WrittenBack.same (hw : Named w) (h₁ : WrittenBack tables A w w₁)
    (h₂ : WrittenBack tables A w w₂) (hA : ∀ id ∈ A, ∃ p, cached? w id = some p) : Same w₁ w₂ := by
  refine ⟨h₂.source.trans h₁.source.symm, Array.ext_getElem? fun i => ?_, fun l => ?_⟩
  · by_cases hi : ∃ id ∈ A, ∃ h, w.source.peek id = some h ∧ h.index = i
    · obtain ⟨id, hid, h, hpeek, rfl⟩ := hi
      obtain ⟨p, hc⟩ := hw.exists_cached hpeek
      rw [(h₁.written id hid h p hc).1, (h₂.written id hid h p hc).1]
    · push Not at hi
      rw [h₁.loaded i hi, h₂.loaded i hi]
  · refine File.contents_congr (by rw [h₁.length, h₂.length]) fun i _ => ?_
    by_cases hi : ∃ id ∈ A, ∃ t, tables.table? id.table = some t ∧ t.location = l ∧
        i ∈ t.place id.page
    · obtain ⟨id, hid, t, ht, rfl, hplace⟩ := hi
      obtain ⟨p, hp⟩ := hA id hid
      obtain ⟨h, hc⟩ := cached_of_cached? hp
      obtain ⟨-, t₁, ht₁, hbytes₁⟩ := h₁.written id hid h p hc
      obtain ⟨-, t₂, ht₂, hbytes₂⟩ := h₂.written id hid h p hc
      obtain rfl := Option.some.inj (ht₁.symm.trans ht)
      obtain rfl := Option.some.inj (ht₂.symm.trans ht)
      exact TableFile.byteAt_of_pageBytes (hbytes₂.trans hbytes₁.symm) hplace
    · push Not at hi
      rw [h₁.bytes l i hi, h₂.bytes l i hi]

/-- A page that is not written back stays as it is in the cache. -/
theorem WrittenBack.cached_iff (hw : Named w) (h₁ : WrittenBack tables A w w₁) (hid : id ∉ A) :
    Cached w₁ id h p ↔ Cached w id h p := by
  unfold Cached
  rw [h₁.source, and_congr_right_iff]
  intro hpeek
  rw [h₁.loaded]
  rintro id' hid' h' hpeek' hindex
  exact hid (hw.id_eq_of_index hpeek' hpeek hindex ▸ hid')

/-- The bytes of a page that is not written back stay on the disk: all other pages are in other
files or in other places. -/
theorem WrittenBack.pageBytes_eq (hb : tables.Separate) (h₁ : WrittenBack tables A w w₁)
    (ht : tables.table? id.table = some t) (hid : id ∉ A) :
    t.pageBytes w₁.disk id.page = t.pageBytes w.disk id.page := by
  refine TableFile.pageBytes_congr fun i hi => h₁.bytes _ i fun id' hid' t' ht' hloc => ?_
  have htable := hb.distinct _ _ _ _ ht' ht hloc
  have hpage : id.page ≠ id'.page := by
    intro hpage
    obtain ⟨table, page⟩ := id
    obtain rfl : (⟨table, page⟩ : PageId) = id' := by cases id'; simp_all
    exact hid hid'
  obtain rfl := Option.some.inj (ht'.symm.trans (htable ▸ ht))
  exact TableFile.notMem_place hpage hi

theorem mem_changedPages :
    id ∈ changedPages P w ↔ ∃ h p, Cached w id h p ∧ p.isDirty ∧ P id p := by
  constructor
  · rintro ⟨p, hp, hchanged⟩
    obtain ⟨h, hc⟩ := cached_of_cached? hp
    exact ⟨h, p, hc, hchanged⟩
  · rintro ⟨h, p, hc, hchanged⟩
    exact ⟨p, hc.cached?_eq, hchanged⟩

theorem changedPages_congr (h : ∀ id p, cached? w id = some p → p.isDirty → (P id p ↔ Q id p)) :
    changedPages P w = changedPages Q w := by
  ext id
  refine exists_congr fun p => and_congr_right fun hp => and_congr_right fun hdirty => ?_
  exact h id p hp hdirty

/-- Writing pages back that satisfy `P`, and then those that satisfy `Q` and have a tag still. -/
theorem WrittenBack.trans (hb : tables.Separate) (hw : Named w)
    (h₁ : WrittenBack tables (changedPages P w) w w₁)
    (h₂ : WrittenBack tables (changedPages Q w₁) w₁ w₂) :
    WrittenBack tables (changedPages (fun id p => P id p ∨ Q id p) w) w w₂ := by
  -- a page that was written back has no tag, so that it is not written again
  have honce : ∀ id ∈ changedPages P w, id ∉ changedPages Q w₁ := by
    rintro id hid hagain
    obtain ⟨h, p, hc, -⟩ := mem_changedPages.mp hid
    obtain ⟨h', q, hc', hdirty, -⟩ := mem_changedPages.mp hagain
    obtain rfl := Option.some.inj (hc.1.symm.trans (h₁.source ▸ hc'.1))
    obtain rfl := Option.some.inj (hc'.2.symm.trans (h₁.written id hid h p hc).1)
    cases hdirty
  have hsplit : ∀ id, id ∈ changedPages (fun id p => P id p ∨ Q id p) w ↔
      id ∈ changedPages P w ∨ id ∈ changedPages Q w₁ := by
    intro id
    by_cases hid : id ∈ changedPages P w
    · obtain ⟨p, hp, hdirty, hP⟩ := hid
      exact iff_of_true ⟨p, hp, hdirty, .inl hP⟩ (.inl ⟨p, hp, hdirty, hP⟩)
    · simp only [mem_changedPages (w := w₁), h₁.cached_iff hw hid, mem_changedPages]
      rw [mem_changedPages] at hid
      grind
  refine ⟨h₂.source.trans h₁.source, fun id hid h p hc => ?_, fun i hi => ?_,
    fun l => (h₂.length l).trans (h₁.length l), fun l i hi => ?_⟩
  · by_cases hP : id ∈ changedPages P w
    · obtain ⟨hload, t, ht, hbytes⟩ := h₁.written id hP h p hc
      refine ⟨(h₂.loaded _ fun id' hid' h' hpeek' hindex => ?_).trans hload,
        t, ht, (h₂.pageBytes_eq hb ht (honce id hP)).trans hbytes⟩
      have hsame := hw.id_eq_of_index (h₁.source ▸ hpeek') hc.1 hindex
      exact honce id hP (hsame ▸ hid')
    · exact h₂.written id (((hsplit id).mp hid).resolve_left hP) h p
        ((h₁.cached_iff hw hP).mpr hc)
  · rw [h₂.loaded i fun id hid h hpeek => hi id ((hsplit id).mpr (.inr hid)) h (h₁.source ▸ hpeek),
      h₁.loaded i fun id hid => hi id ((hsplit id).mpr (.inl hid))]
  · rw [h₂.bytes l i fun id hid => hi id ((hsplit id).mpr (.inr hid)),
      h₁.bytes l i fun id hid => hi id ((hsplit id).mpr (.inl hid))]

/-- Writing one cached page back. -/
theorem Sheltered.writtenBack (hb : tables.Registered) (hw : Sheltered tables w)
    (hc : Cached w id h p) : ∃ w', (writeBack tables h).outcome w = (.ok (), w') ∧
      Sheltered tables w' ∧ WrittenBack tables (changedPages (fun id' _ => id' = id) w) w w' := by
  obtain ⟨t, ht, hhoused⟩ := hw.housed id p hc.cached?_eq
  have hopened := hb id.table t ht
  have hbelongs := hhoused.belongs
  unfold writeBack
  simp only [Action.outcome_bind, World.outcome_page, hc.2]
  by_cases hdirty : p.isDirty
  · have hfits := hhoused.whole.trans (hw.addressed id.table t ht)
    have hwrite := TableFile.writePage_of_fits (d := w.disk) hbelongs hopened.size_pos
      hopened.id_eq.symm hfits
    simp only [hdirty, if_true, Action.outcome_bind, hbelongs.id_eq, outcome_table ht,
      Action.outcome_get, Action.outcome_lift, hwrite, mapError_ok, Action.outcome_set,
      World.outcome_setPage]
    have hnamed := hw.toNamed.set (q := p.mark none) hc hbelongs.id_eq
      (t.putBytes w.disk id.page p.image)
    have hstep : Step tables ∅ w _ := .write id p t ht hc.cached?_eq hdirty
      (hw.toNamed.cached?_set hc (p.mark none) _) rfl
    refine ⟨_, rfl, hstep.sheltered hb hw hnamed, rfl, ?_, ?_,
      hw.length_put hb ht hc.cached?_eq, ?_⟩
    · rintro id' ⟨-, -, -, rfl⟩ h' q hc'
      obtain rfl := Option.some.inj (hc.1.symm.trans hc'.1)
      obtain rfl := Option.some.inj (hc.2.symm.trans hc'.2)
      exact ⟨by simp [hw.named id' h hc.1], t, ht,
        TableFile.pageBytes_putBytes_self hopened.location_ne hbelongs.encode_decode.2.1⟩
    · intro i hi
      exact Array.getElem?_setIfInBounds_ne (hi id ⟨p, hc.cached?_eq, hdirty, rfl⟩ h hc.1)
    · intro l i hi
      by_cases hl : l = t.location
      · subst hl
        have hout := hi id ⟨p, hc.cached?_eq, hdirty, rfl⟩ t ht rfl
        rw [TableFile.byteAt_putBytes hopened.location_ne, if_neg]
        rintro ⟨hle, hlt⟩
        rw [hbelongs.encode_decode.2.1, ← Nat.succ_mul] at hlt
        exact hout ⟨hle, hlt⟩
      · rw [TableFile.fileAt_putBytes_of_ne hl]
  · have hnone : changedPages (fun id' _ => id' = id) w = ∅ := by
      rw [Set.eq_empty_iff_forall_notMem]
      rintro _ ⟨q, hq, hdirty', rfl⟩
      obtain rfl := Option.some.inj (hc.cached?_eq.symm.trans hq)
      exact hdirty hdirty'
    rw [hnone]
    exact ⟨w, by simp [hdirty], hw, .none w⟩

/-- Writing those cached pages back of a list that satisfy `P`. -/
theorem Sheltered.flushThose (hb : tables.Separate) {P : Page → Bool} (hw : Sheltered tables w)
    (hs : List Handle) (hcached : ∀ h ∈ hs, ∃ id, w.source.peek id = some h) :
    ∃ w', (flushThose tables P hs).outcome w = (.ok (), w') ∧ Sheltered tables w' ∧
      WrittenBack tables
        (changedPages (fun id p => (∃ h ∈ hs, w.source.peek id = some h) ∧ P p) w) w w' := by
  induction hs generalizing w with
  | nil =>
    have hnone : changedPages (fun id p => (∃ h ∈ [], w.source.peek id = some h) ∧ P p) w = ∅ := by
      simp [changedPages]
    rw [hnone]
    exact ⟨w, rfl, hw, .none w⟩
  | cons h hs ih =>
    obtain ⟨id, hpeek⟩ := hcached h (by simp)
    obtain ⟨p, hc⟩ := hw.toNamed.exists_cached hpeek
    have hmem : ∀ id', (∃ h' ∈ h :: hs, w.source.peek id' = some h') ↔
        id' = id ∨ ∃ h' ∈ hs, w.source.peek id' = some h' := by
      intro id'
      rw [List.exists_mem_cons_iff]
      refine or_congr_left ⟨fun hpeek' => ?_, fun heq => heq ▸ hpeek⟩
      exact hw.toNamed.id_eq_of_index hpeek' hpeek rfl
    have hpage : ∀ q, cached? w id = some q → q = p := fun q hq =>
      Option.some.inj (hq.symm.trans hc.cached?_eq)
    have hrest : ∀ h' ∈ hs, ∃ id, w.source.peek id = some h' := fun h' hh' =>
      hcached h' (by simp [hh'])
    simp only [Pool.flushThose, Action.outcome_bind, World.outcome_page, hc.2, hmem, or_and_right]
    by_cases hP : P p
    · obtain ⟨w₁, hhead, hw₁, hwritten⟩ := hw.writtenBack hb.registered hc
      obtain ⟨w₂, htail, hw₂, hwritten₂⟩ := ih hw₁ (hwritten.source ▸ hrest)
      have hboth := hwritten.trans hb hw.toNamed hwritten₂
      rw [hwritten.source] at hboth
      refine ⟨w₂, ?_, hw₂, (changedPages_congr fun id' q hq _ => ?_) ▸ hboth⟩
      · simp only [hP, if_true, Action.outcome_bind, hhead]
        exact htail
      · have hhere : id' = id → P q := by
          rintro rfl
          rwa [hpage q hq]
        rw [and_iff_left_of_imp hhere]
    · obtain ⟨w₂, htail, hw₂, hwritten₂⟩ := ih hw hrest
      refine ⟨w₂, ?_, hw₂, (changedPages_congr fun id' q hq _ => ?_) ▸ hwritten₂⟩
      · rw [if_neg hP]
        exact htail
      · have hhere : ¬ (id' = id ∧ P q) := by
          rintro ⟨rfl, hP'⟩
          exact hP (hpage q hq ▸ hP')
        rw [or_iff_right hhere]

theorem Sheltered.flushBy (hb : tables.Separate) (hw : Sheltered tables w) (o : Listing)
    (P : Page → Bool) : ∃ w', (flushBy tables o P).outcome w = (.ok (), w') ∧
      Sheltered tables w' ∧ WrittenBack tables (changedPages (fun _ p => P p) w) w w' := by
  have hmem : ∀ h, h ∈ o.handles w.source ↔ ∃ id, w.source.peek id = some h := fun h => by
    rw [(o.perm w.source).mem_iff]
    exact hw.live.mem_values
  obtain ⟨w', hout, hw', hwritten⟩ :=
    hw.flushThose hb (P := P) (o.handles w.source) fun h hh => (hmem h).mp hh
  refine ⟨w', ?_, hw', (changedPages_congr fun id p hp _ => and_iff_right ?_) ▸ hwritten⟩
  · simp only [Pool.flushBy, Action.outcome_bind, outcome_getCache, hout]
  · obtain ⟨h, hpeek, -⟩ := cached_of_cached? hp
    exact ⟨h, (hmem h).mpr ⟨id, hpeek⟩, hpeek⟩

/-- Flushing for several transactions writes the pages of all of them back. -/
theorem Sheltered.flushTxns (hb : tables.Separate) (hw : Sheltered tables w)
    (rounds : List (Listing × TxnId)) :
    ∃ w', (flushTxns tables rounds).outcome w = (.ok (), w') ∧ WrittenBack tables
      (changedPages (fun _ p => ∃ r ∈ rounds, p.dirtiedBy = some r.2) w) w w' := by
  induction rounds generalizing w with
  | nil =>
    have hnone : changedPages (fun _ p => ∃ r ∈ ([] : List (Listing × TxnId)),
        p.dirtiedBy = some r.2) w = ∅ := by simp [changedPages]
    rw [hnone]
    exact ⟨w, rfl, .none w⟩
  | cons r rounds ih =>
    obtain ⟨w₁, hround, hw₁, hwritten⟩ := hw.flushBy hb r.1 (·.dirtiedBy == some r.2)
    obtain ⟨w₂, hrest, hwritten₂⟩ := ih hw₁
    have hboth := hwritten.trans hb hw.toNamed hwritten₂
    refine ⟨w₂, ?_, (changedPages_congr fun id p _ _ => ?_) ▸ hboth⟩
    · simp only [Pool.flushTxns, Action.outcome_bind, hround]
      exact hrest
    · rw [List.exists_mem_cons_iff, beq_iff_eq]

/-- The cached pages that a transaction has changed last. -/
def taggedPages (txn : TxnId) (w : World PageCache) : Set PageId :=
  {id | ∃ p, cached? w id = some p ∧ p.dirtiedBy = some txn}

def dirtyPages (w : World PageCache) : Set PageId := {id | ∃ p, cached? w id = some p ∧ p.isDirty}

/-- A flush succeeds, and writes back just the pages of `A`. -/
def Flushes (tables : Catalog) (A : Set PageId) (w : World PageCache) (x : PoolAction Unit) :
    Prop :=
  ∃ w', x.outcome w = (.ok (), w') ∧ WrittenBack tables A w w'

/-- Two flushes succeed and come to the same. -/
def Alike (w : World PageCache) (x y : PoolAction Unit) : Prop :=
  ∃ w₁ w₂, x.outcome w = (.ok (), w₁) ∧ y.outcome w = (.ok (), w₂) ∧ Same w₁ w₂

/-- All flushes of a pool are exact, and the order in which the cache lists its pages makes no
difference to them. -/
structure FlushesExactly (tables : Catalog) (w : World PageCache) : Prop where
  txn : ∀ txn, Flushes tables (taggedPages txn w) w (flushTxn tables txn)
  all : Flushes tables (dirtyPages w) w (flushAll tables)
  txn_anyOrder : ∀ o o' txn, Alike w (flushBy tables o (·.dirtiedBy == some txn))
    (flushBy tables o' (·.dirtiedBy == some txn))
  all_anyOrder : ∀ o o', Alike w (flushBy tables o fun _ => true) (flushBy tables o' fun _ => true)
  byTxns : ∀ rounds : List (Listing × TxnId),
    (∀ txn, (taggedPages txn w).Nonempty → txn ∈ rounds.map (·.2)) →
      Alike w (flushAll tables) (flushTxns tables rounds)

/-- The order in which the model's cache lists its pages. -/
def asListed : Listing := ⟨cachedPages, fun _ => .refl _⟩

theorem flushTxn_eq_flushBy (txn : TxnId) :
    flushTxn tables txn = flushBy tables asListed (·.dirtiedBy == some txn) := rfl

theorem flushAll_eq_flushBy : flushAll tables = flushBy tables asListed fun _ => true := rfl

theorem Flushes.alike {x y : PoolAction Unit} (hw : Sheltered tables w) (hx : Flushes tables A w x)
    (hy : Flushes tables A w y) (hA : A ⊆ dirtyPages w) : Alike w x y := by
  obtain ⟨w₁, hx, hw₁⟩ := hx
  obtain ⟨w₂, hy, hw₂⟩ := hy
  refine ⟨w₁, w₂, hx, hy, hw₁.same hw.toNamed hw₂ fun id hid => ?_⟩
  obtain ⟨p, hp, -⟩ := hA hid
  exact ⟨p, hp⟩

theorem Sheltered.flushesExactly (hb : tables.Separate) (hw : Sheltered tables w) :
    FlushesExactly tables w := by
  have htagged : ∀ txn, taggedPages txn w ⊆ dirtyPages w := by
    rintro txn id ⟨p, hp, htag⟩
    exact ⟨p, hp, by simp [Page.isDirty, htag]⟩
  have htxn : ∀ o txn, Flushes tables (taggedPages txn w) w
      (Pool.flushBy tables o (·.dirtiedBy == some txn)) := by
    intro o txn
    obtain ⟨w', hout, -, hwritten⟩ := hw.flushBy hb o (·.dirtiedBy == some txn)
    refine ⟨w', hout, ?_⟩
    convert hwritten using 1
    ext id
    refine exists_congr fun p => and_congr_right fun _ => ?_
    simp only [beq_iff_eq, iff_and_self]
    intro htag
    simp [Page.isDirty, htag]
  have hall : ∀ o, Flushes tables (dirtyPages w) w (Pool.flushBy tables o fun _ => true) := by
    intro o
    obtain ⟨w', hout, -, hwritten⟩ := hw.flushBy hb o fun _ => true
    refine ⟨w', hout, ?_⟩
    convert hwritten using 1
    ext id
    exact exists_congr fun p => and_congr_right fun _ => (and_iff_left rfl).symm
  refine ⟨htxn asListed, hall asListed,
    fun o o' txn => (htxn o txn).alike hw (htxn o' txn) (htagged txn),
    fun o o' => (hall o).alike hw (hall o') subset_rfl, fun rounds hrounds => ?_⟩
  refine (hall asListed).alike hw ?_ subset_rfl
  obtain ⟨w', hout, hwritten⟩ := hw.flushTxns hb rounds
  refine ⟨w', hout, ?_⟩
  convert hwritten using 1
  ext id
  refine exists_congr fun p => and_congr_right fun hp => ⟨fun hdirty => ⟨hdirty, ?_⟩, And.left⟩
  obtain ⟨txn, htag⟩ := Option.isSome_iff_exists.mp hdirty
  obtain ⟨r, hr, rfl⟩ := List.mem_map.mp (hrounds txn ⟨id, p, hp, htag⟩)
  exact ⟨r, hr, htag⟩

/-- In every state that a pool comes to, over tables with a file each, flushing for a transaction
writes back just the pages with its tag, and flushing all of them just those with any tag. Neither
depends on the order of the cached pages, and flushing for all transactions that have tagged a page,
in any order, is the same as flushing all pages. -/
theorem flushesExactly_of_run {capacity : Nat} {c : PageCache} (hb : tables.Separate)
    (hc : create capacity = .ok c) {d : Disk} (haddressed : tables.Addressed d)
    (calls : List Call) : FlushesExactly tables (afterCalls tables (fresh d c) calls) :=
  ((sheltered_fresh hc haddressed).afterCalls hb.registered calls).after.flushesExactly hb

/-- Two transactions change the pages of two tables; the pages that were changed first make room. -/
def twoWriters : List Call :=
  [.request (.insert 7 1 ⟨[.integer 5], none⟩), .request (.insert 8 1 ⟨[.integer 6], none⟩),
    .request (.insert 8 2 ⟨[.integer (-1)], none⟩), .request (.insert 7 2 ⟨[.integer (-2)], none⟩)]

theorem flushesExactly_of_run_twoWriters : ∃ c, create 2 = .ok c ∧
    ⟨2, 1⟩ ∈ taggedPages 7 (afterCalls .pair (fresh {} c) twoWriters) ∧
    ⟨2, 0⟩ ∈ taggedPages 8 (afterCalls .pair (fresh {} c) twoWriters) ∧
    FlushesExactly .pair (afterCalls .pair (fresh {} c) twoWriters) := by
  obtain ⟨hc, haddressed, -⟩ := pair_run (act .pair) 2 {} twoWriters (by decide)
    (by decide +kernel)
  have hfirst : (cached? (afterCalls .pair (fresh {} (roomFor 2)) twoWriters)
      ⟨2, 1⟩).bind (·.dirtiedBy) = some 7 := by decide +kernel
  have hsecond : (cached? (afterCalls .pair (fresh {} (roomFor 2)) twoWriters)
      ⟨2, 0⟩).bind (·.dirtiedBy) = some 8 := by decide +kernel
  exact ⟨_, hc, Option.bind_eq_some_iff.mp hfirst, Option.bind_eq_some_iff.mp hsecond,
    flushesExactly_of_run Catalog.backed_pair.toSeparate hc haddressed twoWriters⟩

end Pool
end RowStore
