import RowStore.Proofs.PoolSteps

/-! Pools over any catalog, also one in which tables share a file. Whatever such a pool does is a
chain of a few kinds of steps, and each step keeps every cached page within the file of its table. -/
namespace RowStore

namespace TableFile
variable {t : TableFile} {d : Disk} {number : UInt32} {data : Bytes}

/-- Writing a page makes no file shorter. -/
theorem length_le_putBytes (hloc : t.location ≠ []) (hpos : 0 < t.pageSize)
    (hdata : data.length = t.pageSize) (l : Location) :
    (d.fileAt l).length ≤ ((t.putBytes d number data).fileAt l).length := by
  by_cases hl : l = t.location
  · rw [hl, length_putBytes hloc hpos hdata]
    exact le_max_left _ _
  · rw [fileAt_putBytes_of_ne hl]

/-- Writing a page that lies in its file whole leaves all files as long as they are. -/
theorem length_putBytes_of_whole (hloc : t.location ≠ []) (hpos : 0 < t.pageSize)
    (hdata : data.length = t.pageSize)
    (hwhole : (number.toNat + 1) * t.pageSize ≤ (d.fileAt t.location).length) (l : Location) :
    ((t.putBytes d number data).fileAt l).length = (d.fileAt l).length := by
  by_cases hl : l = t.location
  · rw [Nat.succ_mul] at hwhole
    rw [hl, length_putBytes hloc hpos hdata, max_eq_left hwhole]
  · rw [fileAt_putBytes_of_ne hl]

end TableFile

/-- A table whose file is that of no other table. -/
structure Catalog.Owns (c : Catalog) (k : TableId) (t : TableFile) : Prop where
  table : c.table? k = some t
  alone : ∀ k' t', c.table? k' = some t' → t'.location = t.location → k' = k

namespace Pool

/-- A page that lies in the file of its table whole. -/
structure Housed (t : TableFile) (d : Disk) (id : PageId) (p : Page) : Prop where
  belongs : p.Belongs id t.schema t.pageSize
  whole : (id.page.toNat + 1) * t.pageSize ≤ (d.fileAt t.location).length

/-- Every page in the cache is one of a table and lies in its file, and no file is longer than an
offset can be. -/
structure Sheltered (tables : Catalog) (w : World PageCache) : Prop where
  live : w.source.Live
  named : ∀ id h, w.source.peek id = some h → h.index < w.loaded.size
  housed : ∀ id p, cached? w id = some p →
    ∃ t, tables.table? id.table = some t ∧ Housed t w.disk id p
  addressed : tables.Addressed w.disk

/-- A single step of a pool, where rows are stored and deleted and changes are thrown away only in
tables of `A`: pages are loaded or used, a page leaves or enters the cache, changes, or is written,
or an empty page comes behind the last one of a table. A page that enters the cache is as on the
disk if no other table can have changed its bytes since it was read. -/
inductive Step (tables : Catalog) (A : Set TableId) (w w' : World PageCache) : Prop where
  | keep (hview : ∀ id, cached? w' id = cached? w id) (hdisk : w'.disk = w.disk)
  | drop (id : PageId) (hdrop : id.table ∈ A ∨ ∀ p, cached? w id = some p → p.dirtiedBy = none)
      (hview : ∀ id', cached? w' id' = if id = id' then none else cached? w id')
      (hdisk : w'.disk = w.disk)
  | adopt (id : PageId) (p : Page) (t : TableFile) (ht : tables.table? id.table = some t)
      (hhoused : Housed t w.disk id p) (hclean : p.dirtiedBy = none)
      (hread : tables.Owns id.table t →
        Page.decode id t.schema (t.pageBytes w.disk id.page) = .ok p)
      (habs : cached? w id = none)
      (hview : ∀ id', cached? w' id' = if id = id' then some p else cached? w id')
      (hdisk : w'.disk = w.disk)
  | change (id : PageId) (p q : Page) (t : TableFile) (hA : id.table ∈ A)
      (ht : tables.table? id.table = some t) (hold : cached? w id = some p)
      (hq : q.Belongs id t.schema t.pageSize) (hdirty : q.isDirty)
      (hview : ∀ id', cached? w' id' = if id = id' then some q else cached? w id')
      (hdisk : w'.disk = w.disk)
  | write (id : PageId) (p : Page) (t : TableFile) (ht : tables.table? id.table = some t)
      (hold : cached? w id = some p) (hdirty : p.isDirty)
      (hview : ∀ id', cached? w' id' = if id = id' then some (p.mark none) else cached? w id')
      (hdisk : w'.disk = t.putBytes w.disk id.page p.image)
  | extend (t : TableFile) (p : Page) (hA : t.id ∈ A) (ht : tables.table? t.id = some t)
      (hempty : Page.empty ⟨t.id, t.pageCount w.disk⟩ t.schema t.pageSize = .ok p)
      (hlast : ceilDiv (w.disk.fileAt t.location).length t.pageSize < 2 ^ 32 →
        (w.disk.fileAt t.location).length = (t.pageCount w.disk).toNat * t.pageSize)
      (hend : (t.pageCount w.disk).toNat * t.pageSize + t.pageSize ≤ File.maxOffset)
      (hview : ∀ id, cached? w' id = cached? w id)
      (hdisk : w'.disk = t.putBytes w.disk (t.pageCount w.disk) p.image)

/-- A pool comes from one state to another by steps; it is sheltered all the way. -/
inductive Leads (tables : Catalog) (A : Set TableId) (w : World PageCache) :
    World PageCache → Prop where
  | refl (hw : Sheltered tables w) : Leads tables A w w
  | tail {w₁ w' : World PageCache} (h : Leads tables A w w₁) (hstep : Step tables A w₁ w')
      (hw : Sheltered tables w') : Leads tables A w w'

variable {tables : Catalog} {A B : Set TableId} {w w₁ w' : World PageCache} {id : PageId}
  {h : Handle} {p q : Page} {t : TableFile} {d d' : Disk}

theorem Housed.mono (hp : Housed t d id p)
    (hlength : (d.fileAt t.location).length ≤ (d'.fileAt t.location).length) :
    Housed t d' id p := ⟨hp.belongs, hp.whole.trans hlength⟩

theorem Sheltered.toNamed (hw : Sheltered tables w) : Named w := by
  refine ⟨hw.live, hw.named, fun id p hp => ?_⟩
  obtain ⟨t, -, hhoused⟩ := hw.housed id p hp
  exact hhoused.belongs.id_eq

theorem Sheltered.housed_of_cached (hw : Sheltered tables w) (hp : cached? w id = some p)
    (ht : tables.table? id.table = some t) : Housed t w.disk id p := by
  obtain ⟨t', ht', hhoused⟩ := hw.housed id p hp
  exact Option.some.inj (ht.symm.trans ht') ▸ hhoused

theorem housed_of_readPage (hid : id.table = t.id) (hread : t.readPage d id = .ok p) :
    Housed t d id p ∧ Page.decode id t.schema (t.pageBytes d id.page) = .ok p := by
  rw [TableFile.readPage_eq hid] at hread
  obtain ⟨stop, hstop, hread⟩ := bind_eq_ok.mp hread
  obtain ⟨-, rfl⟩ := checkedWord_eq_ok.mp (orFault_eq_ok.mp hstop)
  split at hread
  · contradiction
  · next hwhole =>
    have hdecode := mapError_eq_ok.mp hread
    exact ⟨⟨Page.belongs_of_made (.inr ⟨_, File.length_read _ _ _, hdecode⟩), not_lt.mp hwhole⟩,
      hdecode⟩

/-- A cached page that is written back leaves all files as long as they are. -/
theorem Sheltered.length_put (hb : tables.Registered) (hw : Sheltered tables w)
    (ht : tables.table? id.table = some t) (hp : cached? w id = some p) (l : Location) :
    ((t.putBytes w.disk id.page p.image).fileAt l).length = (w.disk.fileAt l).length := by
  have hopened := hb id.table t ht
  have hhoused := hw.housed_of_cached hp ht
  exact TableFile.length_putBytes_of_whole hopened.location_ne hopened.size_pos
    hhoused.belongs.encode_decode.2.1 hhoused.whole l

theorem Step.mono (hAB : A ⊆ B) (h : Step tables A w w') : Step tables B w w' := by
  cases h with
  | keep hview hdisk => exact .keep hview hdisk
  | drop id hdrop hview hdisk => exact .drop id (hdrop.imp_left fun hA => hAB hA) hview hdisk
  | adopt id p t ht hhoused hclean hread habs hview hdisk =>
    exact .adopt id p t ht hhoused hclean hread habs hview hdisk
  | change id p q t hA ht hold hq hdirty hview hdisk =>
    exact .change id p q t (hAB hA) ht hold hq hdirty hview hdisk
  | write id p t ht hold hdirty hview hdisk => exact .write id p t ht hold hdirty hview hdisk
  | extend t p hA ht hempty hlast hend hview hdisk =>
    exact .extend t p (hAB hA) ht hempty hlast hend hview hdisk

/-- No step makes a file shorter. -/
theorem Step.length_le (hb : tables.Registered) (hw : Sheltered tables w)
    (h : Step tables A w w') (l : Location) :
    (w.disk.fileAt l).length ≤ (w'.disk.fileAt l).length := by
  cases h with
  | write id p t ht hold _ _ hdisk => rw [hdisk, hw.length_put hb ht hold]
  | extend t p _ ht hempty _ _ _ hdisk =>
    have hopened := hb t.id t ht
    rw [hdisk]
    exact TableFile.length_le_putBytes hopened.location_ne hopened.size_pos
      (Page.belongs_of_made (.inl hempty)).encode_decode.2.1 l
  | keep _ hdisk => rw [hdisk]
  | drop _ _ _ hdisk => rw [hdisk]
  | adopt _ _ _ _ _ _ _ _ _ hdisk => rw [hdisk]
  | change _ _ _ _ _ _ _ _ _ _ hdisk => rw [hdisk]

/-- Files get longer only by new pages of tables of `A`. -/
theorem Step.length_eq (hb : tables.Registered) (hw : Sheltered tables w)
    (h : Step tables A w w') {l : Location}
    (hl : ∀ k t, tables.table? k = some t → t.location = l → k ∉ A) :
    (w'.disk.fileAt l).length = (w.disk.fileAt l).length := by
  cases h with
  | write id p t ht hold _ _ hdisk => rw [hdisk, hw.length_put hb ht hold]
  | extend t p hA ht _ _ _ _ hdisk =>
    have hne : l ≠ t.location := fun e => hl t.id t ht e.symm hA
    rw [hdisk, TableFile.fileAt_putBytes_of_ne hne]
  | keep _ hdisk => rw [hdisk]
  | drop _ _ _ hdisk => rw [hdisk]
  | adopt _ _ _ _ _ _ _ _ _ hdisk => rw [hdisk]
  | change _ _ _ _ _ _ _ _ _ _ hdisk => rw [hdisk]

/-- After a step every cached page lies in its file, if it did so before. -/
theorem Step.housed (hb : tables.Registered) (hw : Sheltered tables w) (h : Step tables A w w')
    (hp : cached? w' id = some p) : ∃ t, tables.table? id.table = some t ∧ Housed t w'.disk id p := by
  have hlength := h.length_le hb hw
  have hkept : cached? w id = some p →
      ∃ t, tables.table? id.table = some t ∧ Housed t w'.disk id p := by
    intro hold
    obtain ⟨t, ht, hhoused⟩ := hw.housed id p hold
    exact ⟨t, ht, hhoused.mono (hlength _)⟩
  cases h with
  | keep hview _ => exact hkept ((hview id).symm.trans hp)
  | extend t p _ _ _ _ _ hview _ => exact hkept ((hview id).symm.trans hp)
  | drop id' _ hview _ =>
    rw [hview] at hp
    split at hp
    · contradiction
    · exact hkept hp
  | adopt id' q t ht hhoused _ _ _ hview _ =>
    rw [hview] at hp
    split at hp
    · next hid =>
      obtain rfl := Option.some.inj hp
      subst hid
      exact ⟨t, ht, hhoused.mono (hlength _)⟩
    · exact hkept hp
  | change id' q q' t _ ht hold hq _ hview _ =>
    rw [hview] at hp
    split at hp
    · next hid =>
      obtain rfl := Option.some.inj hp
      subst hid
      exact ⟨t, ht, hq, (hw.housed_of_cached hold ht).whole.trans (hlength _)⟩
    · exact hkept hp
  | write id' q t ht hold _ hview _ =>
    rw [hview] at hp
    split at hp
    · next hid =>
      obtain rfl := Option.some.inj hp
      subst hid
      have hhoused := (hw.housed_of_cached hold ht).mono (hlength t.location)
      exact ⟨t, ht, hhoused.belongs.mark none, hhoused.whole⟩
    · exact hkept hp

theorem Step.addressed (hb : tables.Registered) (hw : Sheltered tables w)
    (h : Step tables A w w') : tables.Addressed w'.disk := by
  intro k t' ht'
  have hold := hw.addressed k t' ht'
  cases h with
  | write id p t ht hp _ _ hdisk =>
    rw [hdisk, hw.length_put hb ht hp]
    exact hold
  | extend t p _ ht hempty _ hend _ hdisk =>
    have hopened := hb t.id t ht
    rw [hdisk]
    by_cases hl : t'.location = t.location
    · rw [hl] at hold
      rw [hl, TableFile.length_putBytes hopened.location_ne hopened.size_pos
        (Page.belongs_of_made (.inl hempty)).encode_decode.2.1]
      exact max_le hold hend
    · rw [TableFile.fileAt_putBytes_of_ne hl]
      exact hold
  | keep _ hdisk => exact hdisk ▸ hold
  | drop _ _ _ hdisk => exact hdisk ▸ hold
  | adopt _ _ _ _ _ _ _ _ _ hdisk => exact hdisk ▸ hold
  | change _ _ _ _ _ _ _ _ _ _ hdisk => exact hdisk ▸ hold

theorem Step.sheltered (hb : tables.Registered) (hw : Sheltered tables w) (hnamed : Named w')
    (h : Step tables A w w') : Sheltered tables w' :=
  ⟨hnamed.live, hnamed.named, fun _ _ hp => h.housed hb hw hp, h.addressed hb hw⟩

theorem Leads.after (h : Leads tables A w w') : Sheltered tables w' := by
  cases h with
  | refl hw => exact hw
  | tail _ _ hw => exact hw

theorem Leads.trans (h : Leads tables A w w₁) (h' : Leads tables A w₁ w') :
    Leads tables A w w' := by
  induction h' with
  | refl _ => exact h
  | tail _ hstep hw ih => exact ih.tail hstep hw

theorem Leads.mono (hAB : A ⊆ B) (h : Leads tables A w w') : Leads tables B w w' := by
  induction h with
  | refl hw => exact .refl hw
  | tail _ hstep hw ih => exact ih.tail (hstep.mono hAB) hw

theorem Leads.of_empty (h : Leads tables ∅ w w') : Leads tables A w w' :=
  h.mono (Set.empty_subset A)

theorem Sheltered.step (hb : tables.Registered) (hw : Sheltered tables w) (hnamed : Named w')
    (h : Step tables A w w') : Leads tables A w w' :=
  (Leads.refl hw).tail h (h.sheltered hb hw hnamed)

theorem Leads.length_le (hb : tables.Registered) (h : Leads tables A w w') (l : Location) :
    (w.disk.fileAt l).length ≤ (w'.disk.fileAt l).length := by
  induction h with
  | refl _ => exact le_refl _
  | tail h hstep _ ih => exact ih.trans (hstep.length_le hb h.after l)

/-- As long as no table gets a new page, all files stay as long as they are. -/
theorem Leads.length_eq (hb : tables.Registered) (h : Leads tables A w w') {l : Location}
    (hl : ∀ k t, tables.table? k = some t → t.location = l → k ∉ A) :
    (w'.disk.fileAt l).length = (w.disk.fileAt l).length := by
  induction h with
  | refl _ => rfl
  | tail h hstep _ ih => rw [hstep.length_eq hb h.after hl, ih]

theorem Leads.pageCount_eq (hb : tables.Registered) (h : Leads tables ∅ w w') (t : TableFile) :
    t.pageCount w'.disk = t.pageCount w.disk := by
  rw [TableFile.pageCount, h.length_eq hb fun _ _ _ _ => Set.notMem_empty _]
  rfl

end Pool
end RowStore
