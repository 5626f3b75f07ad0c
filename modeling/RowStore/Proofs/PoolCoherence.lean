import RowStore.Proofs.CacheContents
import RowStore.Proofs.TablePages
import RowStore.Proofs.TableStore

/-! When a pool and the disk under it agree, and which table store they stand for. A cached page
that has changed stands for its image, any other page for its bytes on the disk. -/
namespace RowStore.Pool

/-- The page that is cached for an id. -/
def cached? (w : World PageCache) (id : PageId) : Option Page :=
  (w.source.peek id).bind fun h => w.loaded[h.index]?

/-- The bytes that a page has once it is written back. -/
def settled (t : TableFile) (w : World PageCache) (id : PageId) : Bytes :=
  match cached? w id with
  | some p => if p.isDirty then p.image else t.pageBytes w.disk id.page
  | none => t.pageBytes w.disk id.page

/-- The table store that a pool and its disk stand for. -/
def store (tables : Catalog) (w : World PageCache) : TableStore where
  length k := (tables.table? k).elim 0 fun t => (w.disk.fileAt t.location).length
  bytes id := (tables.table? id.table).elim [] fun t => settled t w id
  elsewhere l := if tables.locates l then none else some (w.disk.fileAt l)

/-- A page in its place: it lies in its file whole, at offsets of 64 bits, and unless it has changed
it is what its bytes on the disk say. -/
structure Placed (t : TableFile) (d : Disk) (id : PageId) (p : Page) : Prop where
  belongs : p.Belongs id t.schema t.pageSize
  reached : (id.page.toNat + 1) * t.pageSize < wordLimit
  whole : (id.page.toNat + 1) * t.pageSize ≤ (d.fileAt t.location).length
  clean : p.dirtiedBy = none → Page.decode id t.schema (t.pageBytes d id.page) = .ok p

/-- Every handle in the cache names a loaded page, which has the id that it is cached for. -/
structure Named (w : World PageCache) : Prop where
  live : w.source.Live
  named : ∀ id h, w.source.peek id = some h → h.index < w.loaded.size
  own : ∀ id p, cached? w id = some p → p.id = id

/-- Every handle in the cache names a page of a table in its place. -/
structure Coherent (tables : Catalog) (w : World PageCache) : Prop where
  live : w.source.Live
  named : ∀ id h, w.source.peek id = some h → h.index < w.loaded.size
  placed : ∀ id p, cached? w id = some p →
    ∃ t, tables.table? id.table = some t ∧ Placed t w.disk id p

/-- A pool that agrees with its disk and stands for a table store. -/
structure Keeps (tables : Catalog) (s : TableStore) (w : World PageCache) : Prop where
  coherent : Coherent tables w
  store_eq : store tables w = s

/-- A handle in the cache, and the page that it names. -/
def Cached (w : World PageCache) (id : PageId) (h : Handle) (p : Page) : Prop :=
  w.source.peek id = some h ∧ w.loaded[h.index]? = some p

variable {tables : Catalog} {s : TableStore} {w w' : World PageCache} {id : PageId} {h : Handle}
  {p q : Page} {t : TableFile}

/-- A pool that agrees with its disk stands for the store that its pages make. -/
theorem Coherent.keeps (hw : Coherent tables w) : Keeps tables (store tables w) w := ⟨hw, rfl⟩

theorem Cached.cached?_eq (hc : Cached w id h p) : cached? w id = some p := by
  rw [cached?, hc.1, Option.bind_some, hc.2]

theorem cached_of_cached? (hp : cached? w id = some p) : ∃ h, Cached w id h p := by
  obtain ⟨h, hpeek, hload⟩ := Option.bind_eq_some_iff.mp hp
  exact ⟨h, hpeek, hload⟩

theorem cached?_of_absent (hpeek : w.source.peek id = none) : cached? w id = none := by
  rw [cached?, hpeek]
  rfl

theorem Named.exists_cached (hw : Named w) (hpeek : w.source.peek id = some h) :
    ∃ p, Cached w id h p :=
  ⟨_, hpeek, Array.getElem?_eq_getElem (hw.named id h hpeek)⟩

/-- Different pages have different handles. -/
theorem Named.id_eq_of_index (hw : Named w) {id' : PageId} {h' : Handle}
    (hpeek : w.source.peek id = some h) (hpeek' : w.source.peek id' = some h')
    (hindex : h.index = h'.index) : id = id' := by
  obtain ⟨p, hc⟩ := hw.exists_cached hpeek
  have hc' : Cached w id' h' p := ⟨hpeek', hindex ▸ hc.2⟩
  rw [← hw.own id p hc.cached?_eq, hw.own id' p hc'.cached?_eq]

theorem Coherent.toNamed (hw : Coherent tables w) : Named w := by
  refine ⟨hw.live, hw.named, fun id p hp => ?_⟩
  obtain ⟨t, -, hplaced⟩ := hw.placed id p hp
  exact hplaced.belongs.id_eq

theorem Coherent.exists_cached (hw : Coherent tables w) (hpeek : w.source.peek id = some h) :
    ∃ p, Cached w id h p := hw.toNamed.exists_cached hpeek

theorem Coherent.placed_of_cached (hw : Coherent tables w) (hc : Cached w id h p)
    (ht : tables.table? id.table = some t) : Placed t w.disk id p := by
  obtain ⟨t', ht', hplaced⟩ := hw.placed id p hc.cached?_eq
  exact Option.some.inj (ht.symm.trans ht') ▸ hplaced

section Table
variable (hb : tables.Separate) {k : TableId} (ht : tables.table? k = some t)
include hb ht

theorem length_store : (store tables w).length t.id = (w.disk.fileAt t.location).length := by
  simp only [store, hb.id_eq ht, ht, Option.elim_some]

theorem Keeps.length_eq (hw : Keeps tables s w) :
    s.length t.id = (w.disk.fileAt t.location).length := by
  rw [← hw.store_eq, length_store hb ht]

theorem Keeps.pageCount_eq (hw : Keeps tables s w) :
    t.pageCount w.disk = t.pagesIn (s.length t.id) := by
  rw [hw.length_eq hb ht]
  rfl

end Table

section Reading
variable (hb : tables.Separate) (ht : tables.table? id.table = some t)

theorem settled_of_absent (hpeek : w.source.peek id = none) :
    settled t w id = t.pageBytes w.disk id.page := by
  rw [settled, cached?_of_absent hpeek]

include ht in
theorem bytes_store : (store tables w).bytes id = settled t w id := by
  simp only [store, ht, Option.elim_some]

include hb ht in
/-- The page in the cache is the page of the store. -/
theorem Keeps.read_of_cached (hw : Keeps tables s w) (hc : Cached w id h p) :
    s.read t id = .ok (p.mark none) := by
  have hplaced := hw.coherent.placed_of_cached hc ht
  refine TableStore.read_eq_ok.mpr ⟨hplaced.reached, hw.length_eq hb ht ▸ hplaced.whole, ?_⟩
  rw [← hw.store_eq, bytes_store ht, settled, hc.cached?_eq]
  cases hd : p.dirtiedBy with
  | none => simp [Page.isDirty, hd, hplaced.clean hd, Page.mark_of_clean hd]
  | some txn => simp [Page.isDirty, hd, hplaced.belongs.encode_decode.2.2]

include hb ht in
/-- A page that is not cached is read from the disk. -/
theorem Keeps.read_of_absent (hw : Keeps tables s w) (hpeek : w.source.peek id = none) :
    s.read t id = t.readPage w.disk id := by
  rw [TableFile.readPage_eq (hb.id_eq ht).symm, TableStore.read,
    hw.length_eq hb ht, ← hw.store_eq, bytes_store ht, settled_of_absent hpeek]

end Reading

theorem settled_of_clean (hp : cached? w id = some p) (hclean : p.dirtiedBy = none) :
    settled t w id = t.pageBytes w.disk id.page := by
  simp [settled, hp, Page.isDirty, hclean]

theorem settled_of_dirty (hp : cached? w id = some p) (hdirty : p.isDirty) :
    settled t w id = p.image := by
  simp [settled, hp, hdirty]

theorem settled_of_unchanged (hclean : ∀ p, cached? w id = some p → p.dirtiedBy = none) :
    settled t w id = t.pageBytes w.disk id.page := by
  cases hp : cached? w id with
  | none => rw [settled, hp]
  | some p => exact settled_of_clean hp (hclean p hp)

theorem settled_congr (hc : cached? w' id = cached? w id)
    (hbytes : t.pageBytes w'.disk id.page = t.pageBytes w.disk id.page) :
    settled t w' id = settled t w id := by
  rw [settled, settled, hc, hbytes]

/-- A step that leaves the files as long as they were and all bytes where they count stands for
the same store. -/
theorem Keeps.of_same (hw : Keeps tables s w) (hw' : Coherent tables w')
    (hlength : ∀ k t, tables.table? k = some t →
      (w'.disk.fileAt t.location).length = (w.disk.fileAt t.location).length)
    (hbytes : ∀ id t, tables.table? id.table = some t → settled t w' id = settled t w id)
    (helse : ∀ l, tables.locates l = false → w'.disk.fileAt l = w.disk.fileAt l) :
    Keeps tables s w' := by
  refine ⟨hw', Eq.trans ?_ hw.store_eq⟩
  apply TableStore.ext
  · funext k
    cases ht : tables.table? k with
    | none => simp [store, ht]
    | some t => simp [store, ht, hlength k t ht]
  · funext id
    cases ht : tables.table? id.table with
    | none => simp [store, ht]
    | some t => simp [store, ht, hbytes id t ht]
  · funext l
    cases hl : tables.locates l with
    | false => simp [store, hl, helse l hl]
    | true => simp [store, hl]

/-- Changes of the cache and of loaded pages alone stand for the same store if every page that is
dropped, or comes in, is as on the disk. -/
theorem Keeps.of_view (hw : Keeps tables s w) (hlive : w'.source.Live)
    (hnamed : ∀ id h, w'.source.peek id = some h → h.index < w'.loaded.size)
    (hdisk : w'.disk = w.disk)
    (hview : ∀ id, cached? w' id = cached? w id ∨
      (∀ p, cached? w id = some p → p.dirtiedBy = none) ∧
      ∀ p, cached? w' id = some p → p.dirtiedBy = none ∧
        ∃ t, tables.table? id.table = some t ∧ Placed t w.disk id p) :
    Keeps tables s w' := by
  refine hw.of_same ⟨hlive, hnamed, ?_⟩ (fun _ _ _ => by rw [hdisk]) ?_ fun _ _ => by rw [hdisk]
  · intro id p hp
    rw [hdisk]
    rcases hview id with heq | ⟨-, hin⟩
    · exact hw.coherent.placed id p (heq ▸ hp)
    · exact (hin p hp).2
  · intro id t _
    rcases hview id with heq | ⟨hout, hin⟩
    · exact settled_congr heq (by rw [hdisk])
    · rw [settled_of_unchanged fun p hp => (hin p hp).1, settled_of_unchanged hout, hdisk]

end RowStore.Pool
