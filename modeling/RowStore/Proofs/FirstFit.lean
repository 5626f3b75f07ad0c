import RowStore.Proofs.PageAcceptance
import RowStore.Proofs.TableGrowth
import RowStore.Proofs.TableIsolation

/-! Where a row goes: into the lowest free slot of the first page that has one, as long as all pages
up to there can be read, and into the first slot of a new page if all pages are full. A table that
has its file for itself is searched in this way in every run of a pool, whatever other tables do. -/
namespace RowStore

namespace Page
variable {p : Page} {slot : Nat}

/-- A page all of whose slots are taken. -/
def Full (p : Page) : Prop := ∀ slot < p.layout.slotCount, p.isUsed slot = true

/-- The lowest free slot of a page. -/
structure LowestFree (p : Page) (slot : Nat) : Prop where
  lt : slot < p.layout.slotCount
  free : p.isUsed slot = false
  below : ∀ i < slot, p.isUsed i = true

theorem firstFree?_eq_some_iff : p.firstFree? = some slot ↔ p.LowestFree slot := by
  constructor
  · intro h
    obtain ⟨hlt, hfree, hbelow⟩ := firstFree?_eq_some h
    exact ⟨hlt, hfree, hbelow⟩
  · intro h
    refine List.find?_range_eq_some.mpr ⟨?_, List.mem_range.mpr h.lt, ?_⟩
    · simp [h.free]
    · intro i hi
      simp [h.below i hi]

theorem hasFree_eq_false_iff : p.hasFree = false ↔ p.Full := by
  unfold hasFree
  constructor
  · intro h slot hs
    exact firstFree?_eq_none (Option.isSome_eq_false_iff.mp h |> Option.isNone_iff_eq_none.mp) hs
  · intro hfull
    cases h : p.firstFree? with
    | none => rfl
    | some slot =>
      obtain ⟨hlt, hfree, -⟩ := firstFree?_eq_some h
      rw [hfull slot hlt] at hfree
      contradiction

theorem exists_lowestFree (h : ¬ p.Full) : ∃ slot, p.LowestFree slot := by
  rw [← hasFree_eq_false_iff, hasFree, Option.isSome_eq_false_iff, Option.isNone_iff_eq_none] at h
  obtain ⟨slot, hslot⟩ := Option.ne_none_iff_exists'.mp h
  exact ⟨slot, firstFree?_eq_some_iff.mp hslot⟩

/-- A tag frees no slot. -/
theorem LowestFree.of_mark {txn : Option TxnId} (h : (p.mark txn).LowestFree slot) :
    p.LowestFree slot := ⟨h.lt, h.free, h.below⟩

end Page

namespace Contents

/-- The first `count` pages of a table can be read and are full. -/
def FullBelow (c : Contents) (k : TableId) (count : Nat) : Prop :=
  ∀ i : UInt32, i.toNat < count → ∃ p, c ⟨k, i⟩ = some (.ok p) ∧ p.Full

/-- Either all pages are full, or there is a first one that is not. -/
theorem exists_first_not_full (c : Contents) (k : TableId) (count : UInt32) :
    c.FullBelow k count.toNat ∨ ∃ i < count, c.FullBelow k i.toNat ∧
      ¬ ∃ p, c ⟨k, i⟩ = some (.ok p) ∧ p.Full := by
  classical
  by_cases hall : c.FullBelow k count.toNat
  · exact .inl hall
  · right
    have hsome : ∃ n, ∃ i : UInt32, i.toNat = n ∧ n < count.toNat ∧
        ¬ ∃ p, c ⟨k, i⟩ = some (.ok p) ∧ p.Full := by
      unfold FullBelow at hall
      push Not at hall
      obtain ⟨i, hi, hnot⟩ := hall
      exact ⟨i.toNat, i, rfl, hi, fun ⟨p, hp, hfull⟩ => hnot p hp hfull⟩
    obtain ⟨i, hi, hlt, hnot⟩ := Nat.find_spec hsome
    refine ⟨i, UInt32.lt_iff_toNat_lt.mpr (hi ▸ hlt), fun j hj => ?_, hnot⟩
    by_contra hj'
    exact Nat.find_min hsome (hi ▸ hj) ⟨j, rfl, (hi ▸ hj).trans hlt, hj'⟩

end Contents

namespace TableFile
variable {σ : Type} {t : TableFile} {source : PageSource σ} {txn : TxnId} {r : Row}

/-- A page that a file has the beginning of ends at an offset that fits a word. -/
theorem Opened.reached_of_counted {k : TableId} {size length : Nat} {number : UInt32}
    (ht : t.Opened k size) (hlong : length ≤ File.maxOffset) (hlt : number < t.pagesIn length) :
    (number.toNat + 1) * t.pageSize < wordLimit := by
  obtain ⟨l, hl, -⟩ := ht.room
  obtain ⟨hsize, -⟩ := Layout.make_eq_ok.mp hl
  have hcount : number.toNat < ceilDiv length t.pageSize :=
    (UInt32.lt_iff_toNat_lt.mp hlt).trans_le (Nat.mod_le _ _)
  have hmul := Nat.mul_le_of_le_div _ _ _ (Nat.succ_le_of_lt hcount)
  rw [Nat.succ_mul] at hmul
  have hpos := ht.size_pos
  have hmax : File.maxOffset + wordLimit / 8 < wordLimit := by decide
  rw [Nat.succ_mul]
  omega

/-- A row that fits goes where the search leads, or else to a new page. -/
theorem outcome_insert (hconf : t.schema.conforms r.values) (w : World σ) :
    (t.insert source txn r).outcome w =
      match (t.insertFrom source txn r (t.pageCount w.disk).toNat 0).outcome w with
      | (.error e, w') => (.error e, w')
      | (.ok (some st), w') => (.ok st, w')
      | (.ok none, w') => (t.insertAppended source txn r (t.pageCount w.disk)).outcome w' := by
  unfold insert
  simp only [if_pos hconf, Action.outcome_bind, Action.outcome_get]
  rcases (t.insertFrom source txn r (t.pageCount w.disk).toNat 0).outcome w with ⟨_ | _ | _, w'⟩ <;> rfl

end TableFile

namespace TableStore
variable {tables : Catalog} {s : TableStore} {t : TableFile} {p : Page}

/-- Full pages are passed over. -/
theorem firstWithRoom_skip {i : Nat} {number : UInt32} (rest : Nat)
    (h : ∀ j < i, ∃ p, s.read t ⟨t.id, number + UInt32.ofNat j⟩ = .ok p ∧ p.hasFree = false) :
    s.firstWithRoom t (i + rest) number = s.firstWithRoom t rest (number + UInt32.ofNat i) := by
  induction i generalizing number with
  | zero => simp
  | succ i ih =>
    obtain ⟨p, hp, hfull⟩ := h 0 i.succ_pos
    have hp : s.read t ⟨t.id, number⟩ = .ok p := by simpa using hp
    rw [Nat.succ_add_eq_add_succ, Nat.add_succ, firstWithRoom, hp, ok_bind, hfull,
      if_neg Bool.false_ne_true, ih fun j hj => succ_add_ofNat number j ▸ h (j + 1) (by omega),
      succ_add_ofNat]

/-- A page that is counted is read as what it holds; one that is cut short is out of range. -/
theorem read_eq_contents (ht : tables.table? t.id = some t) (hopened : t.Opened t.id t.pageSize)
    (hlength : s.length t.id ≤ File.maxOffset) {number : UInt32}
    (hlt : number < t.pagesIn (s.length t.id)) :
    s.read t ⟨t.id, number⟩ = match s.contents tables ⟨t.id, number⟩ with
      | none => .error (.error (.outOfRange ⟨t.id, number⟩ (t.pagesIn (s.length t.id))))
      | some content => content.mapError (Failure.map .page) := by
  have hstop := hopened.reached_of_counted hlength hlt
  unfold read contents
  simp only [ht, checkedWord_of_lt hstop, orFault_ok, ok_bind]
  split <;> rfl

end TableStore

namespace Pool
variable {tables : Catalog} {w₀ w w₁ w' : World PageCache} {k : TableId} {id : PageId} {h : Handle}
  {p q : Page} {t : TableFile} {txn : TxnId} {r : Row} {slot : Nat}

/-- A row is stored at a record id: it is given back with that id, and its page is cached, has been
used last, has changed by the transaction, and has the row in its slot. -/
structure Lands (txn : TxnId) (r : Row) (rid : RecordId) (out : Insertion × World PageCache) :
    Prop where
  row : out.1.row = r.stamped rid
  page : ∃ h p, out.1.result = .ok h ∧ Cached out.2 rid.pageId h p ∧ p.dirtiedBy = some txn ∧
    p.row? rid.slot.toNat = some (r.stamped rid)
  latest : out.2.source.keysByRecency.head? = some rid.pageId

section Owned
variable (hb : tables.Registered) (howns : tables.Owns t.id t) (hf : UpToDate t.id t w₀)
include hb howns hf

/-- The search goes as it goes in the table as it was at first, up to the page that gets the row. -/
theorem Leads.insertFrom (txn : TxnId) (r : Row) (count : Nat) (number : UInt32)
    (hcount : number.toNat + count ≤ (t.pageCount w₀.disk).toNat) (hw : Leads tables ∅ w₀ w) :
    ∃ w', Leads tables ∅ w₀ w' ∧ match (store tables w₀).firstWithRoom t count number with
      | .error e => (t.insertFrom (Pool.source tables) txn r count number).outcome w = (.error e, w')
      | .ok none => (t.insertFrom (Pool.source tables) txn r count number).outcome w = (.ok none, w')
      | .ok (some q) => ∃ h, Names w' h q ∧ ∀ st v,
          (TableFile.insertInto h txn r).outcome w' = (.ok st, v) →
            (t.insertFrom (Pool.source tables) txn r count number).outcome w =
              (.ok (some st), v) := by
  induction count generalizing number w with
  | zero => exact ⟨w, hw, rfl⟩
  | succ count ih =>
    have hlt : number < t.pageCount w₀.disk := UInt32.lt_iff_toNat_lt.mpr (by omega)
    unfold TableFile.insertFrom TableStore.firstWithRoom
    obtain ⟨res, w₁, hout, hw₁, ⟨h, p, rfl, hc, hread⟩ | ⟨e, rfl, hread⟩⟩ :=
      hw.source hb howns hf hlt txn .readWrite
    · simp only [Action.outcome_bind, hout, hread, ok_bind, World.outcome_page, hc.2]
      have hsame : (p.mark none).hasFree = p.hasFree := rfl
      rw [hsame]
      by_cases hfree : p.hasFree
      · rw [if_pos hfree, if_pos hfree]
        have hid := (hw₁.after.housed_of_cached hc.cached?_eq howns.table).belongs.id_eq
        refine ⟨w₁, hw₁, h, ⟨p, ?_, rfl⟩, ?_⟩
        · exact hid.symm ▸ hc
        · intro st v hinto
          rw [Action.outcome_bind, hinto]
          rfl
      · rw [if_neg hfree, if_neg hfree]
        have hnext : (number + 1).toNat = number.toNat + 1 :=
          TableStore.toNat_succ (by have := (t.pageCount w₀.disk).toNat_lt; omega)
        exact ih (number + 1) (by omega) hw₁
    · simp only [Action.outcome_bind, hout, hread, error_bind]
      exact ⟨w₁, hw₁, rfl⟩

omit hf in
/-- A table whose pages 32 bits can count holds for its users what its store has. -/
theorem Sheltered.contents_eq (hw : Sheltered tables w) (hf : UpToDate t.id t w)
    (hsmall : ceilDiv (w.disk.fileAt t.location).length t.pageSize < 2 ^ 32) (number : UInt32) :
    contents tables w ⟨t.id, number⟩ = (store tables w).contents tables ⟨t.id, number⟩ := by
  have hlength := length_owned howns w
  have ht : tables.table? (PageId.mk t.id number).table = some t := howns.table
  unfold contents
  cases hp : cached? w ⟨t.id, number⟩ with
  | some p =>
    have hwhole := (hw.housed_of_cached hp ht).whole
    have hcounted := TableFile.lt_pagesIn_of_whole (hb t.id t howns.table).size_pos hsmall hwhole
    exact (TableStore.contents_of_read ht (hw.read_of_cached howns hf hcounted hp)).symm
  | none =>
    unfold diskContents TableStore.contents
    simp only [ht, hlength, bytes_store ht]
    rw [settled, hp]

end Owned

/-- A page that is cached gets the row in its lowest free slot, and the row lands there. -/
theorem Sheltered.lands (hb : tables.Registered) (hw₁ : Sheltered tables w₁) (txn : TxnId)
    (ht : tables.table? id.table = some t) (hc : Cached w₁ id h p)
    (hslots : p.layout.slotCount ≤ 2 ^ 32) (hconf : t.schema.conforms r.values)
    (hslot : p.LowestFree slot)
    (hout : ∀ st v, (TableFile.insertInto h txn r).outcome w₁ = (.ok st, v) →
      (t.insert (Pool.source tables) txn r).outcome w = (.ok st, v)) :
    (UInt32.ofNat slot).toNat = slot ∧
      Lands txn r ⟨id, UInt32.ofNat slot⟩ ((Pool.insert tables txn id.table r).run w) ∧
        ((Pool.insert tables txn id.table r).run w).2.disk = w₁.disk := by
  have hbelongs := (hw₁.housed_of_cached hc.cached?_eq ht).belongs
  have hnumber : (UInt32.ofNat slot).toNat = slot :=
    UInt32.toNat_ofNat_of_lt' (hslot.lt.trans_le hslots)
  have hrid : p.recordId slot = ⟨id, UInt32.ofNat slot⟩ := by rw [Page.recordId, hbelongs.id_eq]
  have hins : p.insert r =
      .ok (⟨id, UInt32.ofNat slot⟩, p.fill slot (r.stamped ⟨id, UInt32.ofNat slot⟩)) :=
    Page.insert_eq_ok.mpr ⟨hbelongs.schema_eq ▸ hconf, slot, Page.firstFree?_eq_some_iff.mpr hslot,
      hrid.symm, rfl⟩
  obtain ⟨hleads, hc₂⟩ := hw₁.setPage hb hc
    (q := (p.fill slot (r.stamped ⟨id, UInt32.ofNat slot⟩)).mark (some txn))
    (fun t _ hp => (hp.insert hins).mark (some txn)) rfl
  have hinto : (TableFile.insertInto h txn r).outcome w₁ =
      (.ok ⟨h, r.stamped ⟨id, UInt32.ofNat slot⟩⟩, { w₁ with
        loaded := w₁.loaded.setIfInBounds h.index
          ((p.fill slot (r.stamped ⟨id, UInt32.ofNat slot⟩)).mark (some txn)) }) := by
    unfold TableFile.insertInto
    simp only [Action.outcome_bind, World.outcome_page, hc.2, Action.outcome_lift, hins, mapError_ok]
    rfl
  obtain ⟨c, hre, -, hc₃, hkeys, -⟩ := (quiet_leads hb).recache (.refl hleads.after) hc₂
  rw [run_insert ht, hout _ _ hinto]
  simp only [hre]
  refine ⟨hnumber, ⟨rfl, ⟨h, _, rfl, hc₃, rfl, ?_⟩, ?_⟩, trivial⟩
  · have hslots' : slot < p.slots.size := hbelongs.sound.slots ▸ hslot.lt
    change (p.fill slot _).row? (UInt32.ofNat slot).toNat = _
    rw [hnumber, Page.row?_fill hslots', if_pos rfl]
  · rw [hkeys]
    rfl

/-- Nothing is stored: the table holds what it held, in a file of the same length. -/
structure Untouched (tables : Catalog) (t : TableFile) (w w' : World PageCache) : Prop where
  contents : ∀ number, contents tables w' ⟨t.id, number⟩ = contents tables w ⟨t.id, number⟩
  length : (w'.disk.fileAt t.location).length = (w.disk.fileAt t.location).length

/-- What comes of a row that fits the columns. Pages are as they are for the users of the pool: as
in the cache, or else as on the disk. -/
structure FirstFit (tables : Catalog) (t : TableFile) (txn : TxnId) (r : Row)
    (w : World PageCache) (out : Insertion × World PageCache) : Prop where
  /-- A page is the first one with a free slot, and all up to it can be read. -/
  within : ∀ (i : UInt32) p slot, (contents tables w).FullBelow t.id i.toNat →
    contents tables w ⟨t.id, i⟩ = some (.ok p) → p.LowestFree slot →
      (UInt32.ofNat slot).toNat = slot ∧ Lands txn r ⟨⟨t.id, i⟩, UInt32.ofNat slot⟩ out ∧
        (out.2.disk.fileAt t.location).length = (w.disk.fileAt t.location).length
  /-- All pages can be read and are full, and the file can grow by a page. -/
  grown : (contents tables w).FullBelow t.id (t.pageCount w.disk).toNat →
    ((t.pageCount w.disk).toNat + 1) * t.pageSize ≤ File.maxOffset →
      Lands txn r ⟨⟨t.id, t.pageCount w.disk⟩, 0⟩ out ∧
        (out.2.disk.fileAt t.location).length = ((t.pageCount w.disk).toNat + 1) * t.pageSize ∧
          (w.disk.fileAt t.location).length = (t.pageCount w.disk).toNat * t.pageSize
  /-- All pages can be read and are full, and the disk has no offsets for another page. -/
  refused : (contents tables w).FullBelow t.id (t.pageCount w.disk).toNat →
    File.maxOffset < ((t.pageCount w.disk).toNat + 1) * t.pageSize →
      out.1 = ⟨r, .error (.error (.file (.disk .tooLarge)))⟩ ∧ Untouched tables t w out.2
  /-- The first page that is not full is corrupt. -/
  corrupt : ∀ (i : UInt32) e, (contents tables w).FullBelow t.id i.toNat →
    contents tables w ⟨t.id, i⟩ = some (.error e) →
      ∃ slot cause, e = .error (.corrupt ⟨t.id, i⟩ slot cause) ∧
        out.1 = ⟨r, .error (.error (.file (.page (.corrupt ⟨t.id, i⟩ slot cause))))⟩ ∧
          Untouched tables t w out.2
  /-- The first page that is not full is cut short by the end of the file. -/
  cutShort : ∀ i < t.pageCount w.disk, (contents tables w).FullBelow t.id i.toNat →
    contents tables w ⟨t.id, i⟩ = none →
      out.1 = ⟨r, .error (.error (.file (.outOfRange ⟨t.id, i⟩ (t.pageCount w.disk))))⟩ ∧
        Untouched tables t w out.2
  /-- There are no other errors. -/
  errors : ∀ e, out.1.result = .error e → e = .error (.file (.disk .tooLarge)) ∨
    (∃ i slot cause, e = .error (.file (.page (.corrupt ⟨t.id, i⟩ slot cause)))) ∨
      ∃ i, e = .error (.file (.outOfRange ⟨t.id, i⟩ (t.pageCount w.disk)))

/-- A page that cannot be decoded is corrupt. -/
theorem contents_error (hb : tables.Registered) (ht : tables.table? t.id = some t) {i : UInt32}
    {e : Failure PageError} (h : contents tables w ⟨t.id, i⟩ = some (.error e)) :
    ∃ slot cause, e = .error (.corrupt ⟨t.id, i⟩ slot cause) := by
  unfold contents diskContents at h
  simp only [ht] at h
  split at h
  · exact absurd (Option.some.inj h) nofun
  · split at h
    · contradiction
    · exact (hb t.id t ht).corrupt_of_decode (Option.some.inj h)

section Sheltered
variable (hb : tables.Registered) (howns : tables.Owns t.id t) (hw : Sheltered tables w)
  (hf : UpToDate t.id t w)
  (hsmall : ceilDiv (w.disk.fileAt t.location).length t.pageSize < 2 ^ 32)
include hb howns hw hf hsmall

theorem Sheltered.read_eq_contents {number : UInt32} (hlt : number < t.pageCount w.disk) :
    (store tables w).read t ⟨t.id, number⟩ = match contents tables w ⟨t.id, number⟩ with
      | none => .error (.error (.outOfRange ⟨t.id, number⟩ (t.pageCount w.disk)))
      | some content => content.mapError (Failure.map .page) := by
  have hlength := length_owned howns w
  have hopened := hb t.id t howns.table
  rw [hw.contents_eq hb howns hf hsmall, TableStore.read_eq_contents howns.table
    ⟨rfl, rfl, hopened.location_ne, hopened.room⟩ (hlength ▸ hw.addressed t.id t howns.table)
    (hlength ▸ hlt), hlength]
  rfl

/-- While pages are only brought in and dropped, nothing is stored. -/
theorem Leads.untouched (h : Leads tables ∅ w w') : Untouched tables t w w' := by
  have hlength : (w'.disk.fileAt t.location).length = (w.disk.fileAt t.location).length :=
    h.length_eq hb fun _ _ _ _ => Set.notMem_empty _
  refine ⟨fun number => ?_, hlength⟩
  have hsmall' : ceilDiv (w'.disk.fileAt t.location).length t.pageSize < 2 ^ 32 :=
    hlength.symm ▸ hsmall
  obtain ⟨hsame, hbytes⟩ := h.alike hb howns (Set.notMem_empty t.id)
  rw [hw.contents_eq hb howns hf hsmall,
    h.after.contents_eq hb howns (h.upToDate hb howns hf) hsmall']
  unfold TableStore.contents
  simp only [howns.table, hsame, hbytes]

/-- Full pages are passed over. -/
theorem Sheltered.search_eq {i : Nat} (rest : Nat)
    (hcount : i + rest = (t.pageCount w.disk).toNat)
    (hfull : (contents tables w).FullBelow t.id i) :
    (store tables w).firstWithRoom t (t.pageCount w.disk).toNat 0 =
      (store tables w).firstWithRoom t rest (UInt32.ofNat i) := by
  have hlt := (t.pageCount w.disk).toNat_lt
  rw [← hcount, TableStore.firstWithRoom_skip, UInt32.zero_add]
  intro j hj
  have hj' : j < 2 ^ 32 := by omega
  have hnumber : (0 + UInt32.ofNat j).toNat = j := by
    rw [UInt32.zero_add]
    exact UInt32.toNat_ofNat_of_lt' hj'
  obtain ⟨p, hp, hall⟩ := hfull (0 + UInt32.ofNat j) (by omega)
  refine ⟨p, ?_, Page.hasFree_eq_false_iff.mpr hall⟩
  rw [hw.read_eq_contents hb howns hf hsmall (UInt32.lt_iff_toNat_lt.mpr (by omega)), hp]
  rfl

/-- A page that holds anything is counted. -/
theorem Sheltered.lt_of_contents {i : UInt32} (h : contents tables w ⟨t.id, i⟩ ≠ none) :
    i < t.pageCount w.disk := by
  rw [hw.contents_eq hb howns hf hsmall] at h
  unfold TableStore.contents at h
  simp only [howns.table, length_owned howns] at h
  split at h
  · contradiction
  · next hwhole =>
    exact TableFile.lt_pagesIn_of_whole (hb t.id t howns.table).size_pos hsmall (not_lt.mp hwhole)

/-- The search comes to a page if all pages before it are full. -/
theorem Sheltered.search_at {i : UInt32} (hlt : i < t.pageCount w.disk)
    (hfull : (contents tables w).FullBelow t.id i.toNat) :
    ∃ rest, (store tables w).firstWithRoom t (t.pageCount w.disk).toNat 0 = (do
      let p ← (store tables w).read t ⟨t.id, i⟩
      if p.hasFree then return some p
      else (store tables w).firstWithRoom t rest (i + 1)) := by
  have hcount := UInt32.lt_iff_toNat_lt.mp hlt
  refine ⟨(t.pageCount w.disk).toNat - (i.toNat + 1), ?_⟩
  rw [hw.search_eq hb howns hf hsmall ((t.pageCount w.disk).toNat - (i.toNat + 1) + 1) (by omega)
    hfull, UInt32.ofNat_toNat, TableStore.firstWithRoom]

/-- The first page with a free slot gets the row. -/
theorem Sheltered.insert_within (txn : TxnId) (hconf : t.schema.conforms r.values)
    (hslots : ∀ l, Layout.make t.pageSize t.schema.width = .ok l → l.slotCount ≤ 2 ^ 32)
    (i : UInt32) (p : Page) (slot : Nat) (hfull : (contents tables w).FullBelow t.id i.toNat)
    (hpage : contents tables w ⟨t.id, i⟩ = some (.ok p)) (hslot : p.LowestFree slot) :
    (UInt32.ofNat slot).toNat = slot ∧
      Lands txn r ⟨⟨t.id, i⟩, UInt32.ofNat slot⟩ ((Pool.insert tables txn t.id r).run w) ∧
        (((Pool.insert tables txn t.id r).run w).2.disk.fileAt t.location).length =
          (w.disk.fileAt t.location).length := by
  have ht : tables.table? (PageId.mk t.id i).table = some t := howns.table
  have hlt := hw.lt_of_contents hb howns hf hsmall (by rw [hpage]; exact Option.some_ne_none _)
  have hread : (store tables w).read t ⟨t.id, i⟩ = .ok p := by
    rw [hw.read_eq_contents hb howns hf hsmall hlt, hpage]
    rfl
  have hfree : p.hasFree = true := by
    rw [Page.hasFree, Page.firstFree?_eq_some_iff.mpr hslot]
    rfl
  obtain ⟨rest, hsearch⟩ := hw.search_at hb howns hf hsmall hlt hfull
  rw [hread, ok_bind, if_pos hfree] at hsearch
  obtain ⟨w₁, hw₁, hinsert⟩ := (Leads.refl hw).insertFrom hb howns hf txn r
    (t.pageCount w.disk).toNat 0 (by simp)
  rw [hsearch] at hinsert
  obtain ⟨h, ⟨p', hc, rfl⟩, hinto⟩ := hinsert
  have hid : (p'.mark none).id = ⟨t.id, i⟩ :=
    (Page.sound_of_decode (TableStore.read_eq_ok.mp hread).2.2).2.1
  rw [hid] at hc
  have hbelongs := (hw₁.after.housed_of_cached hc.cached?_eq ht).belongs
  have hlayout := hbelongs.sound.layout
  rw [hbelongs.size_eq, hbelongs.schema_eq] at hlayout
  obtain ⟨hnumber, hlands, hdisk⟩ := hw₁.after.lands (w := w) hb txn ht hc
    (hslots _ hlayout) hconf hslot.of_mark fun st v hst => by
      rw [TableFile.outcome_insert hconf, hinto st v hst]
  refine ⟨hnumber, hlands, ?_⟩
  rw [hdisk]
  exact hw₁.length_eq hb fun _ _ _ _ => Set.notMem_empty _

/-- A page that cannot be read stops the search if all pages before it are full. -/
theorem Sheltered.insert_unreadable (hconf : t.schema.conforms r.values) {i : UInt32}
    (hlt : i < t.pageCount w.disk) (hfull : (contents tables w).FullBelow t.id i.toNat)
    {e : Failure FileError} (hread : (store tables w).read t ⟨t.id, i⟩ = .error e) :
    ((Pool.insert tables txn t.id r).run w).1 = ⟨r, .error (e.map .file)⟩ ∧
      Untouched tables t w ((Pool.insert tables txn t.id r).run w).2 := by
  obtain ⟨rest, hsearch⟩ := hw.search_at hb howns hf hsmall hlt hfull
  rw [hread, error_bind] at hsearch
  obtain ⟨w₁, hw₁, hinsert⟩ := (Leads.refl hw).insertFrom hb howns hf txn r
    (t.pageCount w.disk).toNat 0 (by simp)
  rw [hsearch] at hinsert
  rw [run_insert howns.table, TableFile.outcome_insert hconf, hinsert]
  exact ⟨rfl, hw₁.untouched hb howns hw hf hsmall⟩

/-- Where all pages are full, the search ends without a page. -/
theorem Sheltered.search_none (txn : TxnId) (hconf : t.schema.conforms r.values)
    (hfull : (contents tables w).FullBelow t.id (t.pageCount w.disk).toNat) :
    (w.disk.fileAt t.location).length = (t.pageCount w.disk).toNat * t.pageSize ∧
      ∃ w₁, Leads tables ∅ w w₁ ∧ (t.insert (Pool.source tables) txn r).outcome w =
        (t.insertAppended (Pool.source tables) txn r (t.pageCount w.disk)).outcome w₁ := by
  have hlength := length_owned howns w
  have hnone : (store tables w).firstWithRoom t (t.pageCount w.disk).toNat 0 = .ok none := by
    rw [hw.search_eq hb howns hf hsmall 0 (Nat.add_zero _) hfull]
    rfl
  have hlast : (store tables w).length t.id =
      (t.pagesIn ((store tables w).length t.id)).toNat * t.pageSize := by
    apply TableStore.length_of_firstWithRoom (hb t.id t howns.table).size_pos
    · rwa [hlength]
    · rw [hlength]
      exact hnone
  rw [hlength] at hlast
  obtain ⟨w₁, hw₁, hinsert⟩ := (Leads.refl hw).insertFrom hb howns hf txn r
    (t.pageCount w.disk).toNat 0 (by simp)
  rw [hnone] at hinsert
  refine ⟨hlast, w₁, hw₁, ?_⟩
  rw [TableFile.outcome_insert hconf, hinsert]

/-- Without a free slot the row is refused if the file cannot grow. -/
theorem Sheltered.insert_refused (txn : TxnId) (hconf : t.schema.conforms r.values)
    (hfull : (contents tables w).FullBelow t.id (t.pageCount w.disk).toNat)
    (hend : File.maxOffset < ((t.pageCount w.disk).toNat + 1) * t.pageSize) :
    ((Pool.insert tables txn t.id r).run w).1 =
        ⟨r, .error (.error (.file (.disk .tooLarge)))⟩ ∧
      Untouched tables t w ((Pool.insert tables txn t.id r).run w).2 := by
  have hopened := hb t.id t howns.table
  have hlength := length_owned howns w
  obtain ⟨l, hl, -⟩ := hopened.room
  obtain ⟨hlast, w₁, hw₁, hinsert⟩ := hw.search_none hb howns hf hsmall txn hconf hfull
  have hblank : (store tables w).blank t = .error (.error (.disk .tooLarge)) := by
    apply TableStore.blank_of_no_room hl
    · rw [hlength]
      exact hlast ▸ hw.addressed t.id t howns.table
    · rw [hlength]
      exact hend
  have hwrite : (do
      let p ← orFault (Page.empty ⟨t.id, t.pageCount w.disk⟩ t.schema t.pageSize)
      t.writePage w₁.disk p) = .error (.error (.disk .tooLarge)) := by
    have := writeBlank_eq hopened.size_pos (store tables w) w₁.disk
    rw [hblank, hlength] at this
    exact this
  have happend : (t.insertAppended (Pool.source tables) txn r (t.pageCount w.disk)).outcome w₁ =
      (.error (.error (.disk .tooLarge)), w₁) := by
    unfold TableFile.insertAppended
    simp only [Action.outcome_bind, Action.outcome_get, Action.outcome_lift, hwrite]
  rw [run_insert howns.table, hinsert, happend]
  exact ⟨rfl, hw₁.untouched hb howns hw hf hsmall⟩

omit hb howns hw hf hsmall in
/-- An empty page that was written behind the last one is not cached yet, and is fetched as it was
written. -/
theorem Sheltered.fetch_blank (hb : tables.Registered) (hw : Sheltered tables w)
    (ht : tables.table? t.id = some t)
    (hempty : Page.empty ⟨t.id, t.pageCount w.disk⟩ t.schema t.pageSize = .ok p)
    (hlast : (w.disk.fileAt t.location).length = (t.pageCount w.disk).toNat * t.pageSize)
    (hend : ((t.pageCount w.disk).toNat + 1) * t.pageSize ≤ File.maxOffset) (txn : TxnId) :
    ∃ h w', (Pool.source tables txn ⟨t.id, t.pageCount w.disk⟩ .readWrite).outcome
        { w with disk := t.putBytes w.disk (t.pageCount w.disk) p.image } = (.ok h, w') ∧
      Sheltered tables w' ∧ Cached w' ⟨t.id, t.pageCount w.disk⟩ h p ∧
        (w'.disk.fileAt t.location).length = ((t.pageCount w.disk).toNat + 1) * t.pageSize := by
  have hopened := hb t.id t ht
  have hpos := hopened.size_pos
  have ht' : tables.table? (PageId.mk t.id (t.pageCount w.disk)).table = some t := ht
  have hclean : p.dirtiedBy = none := by
    obtain ⟨l, -, rfl⟩ := Page.empty_eq_ok hempty
    rfl
  obtain ⟨-, himage, hdecode⟩ := (Page.belongs_of_made (.inl hempty)).encode_decode
  have hextend : Leads tables {t.id} w
      { w with disk := t.putBytes w.disk (t.pageCount w.disk) p.image } :=
    hw.step hb ⟨hw.live, hw.named, hw.toNamed.own⟩ (.extend t p rfl ht hempty (fun _ => hlast)
      (by rwa [← Nat.succ_mul]) (fun _ => rfl) rfl)
  have hlength : ((t.putBytes w.disk (t.pageCount w.disk) p.image).fileAt t.location).length =
      ((t.pageCount w.disk).toNat + 1) * t.pageSize := by
    rw [TableFile.length_putBytes hopened.location_ne hpos himage, hlast, Nat.succ_mul]
    exact max_eq_right (Nat.le_add_right _ _)
  have habs : w.source.peek ⟨t.id, t.pageCount w.disk⟩ = none := by
    by_contra hsome
    obtain ⟨h, hpeek⟩ := Option.ne_none_iff_exists'.mp hsome
    obtain ⟨q, hc⟩ := hw.toNamed.exists_cached hpeek
    have hwhole : ((t.pageCount w.disk).toNat + 1) * t.pageSize ≤ _ :=
      (hw.housed_of_cached hc.cached?_eq ht').whole
    rw [hlast, Nat.succ_mul] at hwhole
    omega
  have hread : t.readPage (t.putBytes w.disk (t.pageCount w.disk) p.image)
      ⟨t.id, t.pageCount w.disk⟩ = .ok p := by
    have hstop : ((t.pageCount w.disk).toNat + 1) * t.pageSize < wordLimit :=
      hend.trans_lt (by decide)
    rw [TableFile.readPage_eq rfl, checkedWord_of_lt hstop, orFault_ok, ok_bind, hlength,
      if_neg (lt_irrefl _), TableFile.pageBytes_putBytes_self hopened.location_ne himage, hdecode,
      Page.mark_of_clean hclean, mapError_ok]
  obtain ⟨res, w', hout, hw', hres⟩ := (quiet_leads hb).fetch (.refl hextend.after) ht' txn .readWrite
  rcases hres with ⟨h, q, rfl, hc, -, hq⟩ | ⟨e, -, he, -⟩ | ⟨-, hfalse⟩
  · obtain rfl := Except.ok.inj (hread.symm.trans (hq habs))
    refine ⟨h, w', ?_, hw'.after, hc, ?_⟩
    · simp only [Pool.source, Action.outcome_mapError, hout, mapError_ok]
    · rw [← hlength]
      exact hw'.length_eq hb fun _ _ _ _ => Set.notMem_empty _
  · cases hread.symm.trans he
  · exact hfalse.elim

/-- Without a free slot the row goes into the first slot of a new page. -/
theorem Sheltered.insert_grown (txn : TxnId) (hconf : t.schema.conforms r.values)
    (hslots : ∀ l, Layout.make t.pageSize t.schema.width = .ok l → l.slotCount ≤ 2 ^ 32)
    (hfull : (contents tables w).FullBelow t.id (t.pageCount w.disk).toNat)
    (hend : ((t.pageCount w.disk).toNat + 1) * t.pageSize ≤ File.maxOffset) :
    Lands txn r ⟨⟨t.id, t.pageCount w.disk⟩, 0⟩ ((Pool.insert tables txn t.id r).run w) ∧
      (((Pool.insert tables txn t.id r).run w).2.disk.fileAt t.location).length =
          ((t.pageCount w.disk).toNat + 1) * t.pageSize ∧
        (w.disk.fileAt t.location).length = (t.pageCount w.disk).toNat * t.pageSize := by
  have hopened := hb t.id t howns.table
  have hlength := length_owned howns w
  have ht : tables.table? (PageId.mk t.id (t.pageCount w.disk)).table = some t := howns.table
  obtain ⟨l, hl, hroom⟩ := hopened.room
  obtain ⟨hlast, w₁, hw₁, hinsert⟩ := hw.search_none hb howns hf hsmall txn hconf hfull
  have hlength₁ : (w₁.disk.fileAt t.location).length = (w.disk.fileAt t.location).length :=
    hw₁.length_eq hb fun _ _ _ _ => Set.notMem_empty _
  have hcount : t.pageCount w₁.disk = t.pageCount w.disk := hw₁.pageCount_eq hb t
  obtain ⟨p, hblank⟩ := TableStore.blank_of_room (s := store tables w) hl
    (by rw [hlength]; exact hend)
  have hempty : Page.empty ⟨t.id, t.pageCount w.disk⟩ t.schema t.pageSize = .ok p := by
    have := (TableStore.blank_eq_ok hblank).1
    rw [hlength] at this
    exact this
  have hwrite : (do
      let p ← orFault (Page.empty ⟨t.id, t.pageCount w.disk⟩ t.schema t.pageSize)
      t.writePage w₁.disk p) = .ok (t.putBytes w₁.disk (t.pageCount w.disk) p.image) := by
    have := writeBlank_eq hopened.size_pos (store tables w) w₁.disk
    rw [hblank, hlength] at this
    exact this
  obtain ⟨h, w₂, hout, hw₂, hc, hlength₂⟩ := hw₁.after.fetch_blank hb howns.table
    (hcount ▸ hempty) (by rw [hlength₁, hcount, hlast]) (hcount ▸ hend) txn
  rw [hcount] at hout hc hlength₂
  have hbelongs := Page.belongs_of_made (.inl hempty)
  have hlayout := hbelongs.sound.layout
  rw [hbelongs.size_eq, hbelongs.schema_eq] at hlayout
  have hslot : p.LowestFree 0 := Page.firstFree?_eq_some_iff.mp
    (hbelongs.sound.firstFree?_of_blank (Except.ok.inj (hl.symm.trans hlayout) ▸ hroom)
      fun slot => TableStore.row?_empty hempty slot)
  obtain ⟨-, hlands, hdisk⟩ := hw₂.lands (w := w) hb txn ht hc (hslots _ hlayout) hconf
    hslot fun st v hst => by
      rw [hinsert, TableFile.insertAppended]
      simp only [Action.outcome_bind, Action.outcome_get, Action.outcome_lift, hwrite,
        Action.outcome_set, hout, hst]
  exact ⟨hlands, hdisk ▸ hlength₂, hlast⟩

/-- A row that fits goes into the first free slot that the table has. -/
theorem Sheltered.firstFit (hconf : t.schema.conforms r.values)
    (hslots : ∀ l, Layout.make t.pageSize t.schema.width = .ok l → l.slotCount ≤ 2 ^ 32) :
    FirstFit tables t txn r w ((Pool.insert tables txn t.id r).run w) := by
  have hwithin := hw.insert_within hb howns hf hsmall txn hconf hslots
  have hgrown := hw.insert_grown hb howns hf hsmall txn hconf hslots
  have hrefused := hw.insert_refused hb howns hf hsmall txn hconf
  have hcorrupt : ∀ (i : UInt32) e, (contents tables w).FullBelow t.id i.toNat →
      contents tables w ⟨t.id, i⟩ = some (.error e) →
        ∃ slot cause, e = .error (.corrupt ⟨t.id, i⟩ slot cause) ∧
          ((Pool.insert tables txn t.id r).run w).1 =
            ⟨r, .error (.error (.file (.page (.corrupt ⟨t.id, i⟩ slot cause))))⟩ ∧
              Untouched tables t w ((Pool.insert tables txn t.id r).run w).2 := by
    intro i e hfull hpage
    have hlt := hw.lt_of_contents hb howns hf hsmall (by rw [hpage]; exact Option.some_ne_none _)
    obtain ⟨slot, cause, rfl⟩ := contents_error hb howns.table hpage
    have hread := hw.read_eq_contents hb howns hf hsmall hlt
    rw [hpage] at hread
    exact ⟨slot, cause, rfl, hw.insert_unreadable hb howns hf hsmall hconf hlt hfull hread⟩
  have hcut : ∀ i < t.pageCount w.disk, (contents tables w).FullBelow t.id i.toNat →
      contents tables w ⟨t.id, i⟩ = none →
        ((Pool.insert tables txn t.id r).run w).1 =
          ⟨r, .error (.error (.file (.outOfRange ⟨t.id, i⟩ (t.pageCount w.disk))))⟩ ∧
            Untouched tables t w ((Pool.insert tables txn t.id r).run w).2 := by
    intro i hlt hfull hpage
    have hread := hw.read_eq_contents hb howns hf hsmall hlt
    rw [hpage] at hread
    exact hw.insert_unreadable hb howns hf hsmall hconf hlt hfull hread
  refine ⟨hwithin, hgrown, hrefused, hcorrupt, hcut, fun e he => ?_⟩
  rcases (contents tables w).exists_first_not_full t.id (t.pageCount w.disk) with
    hfull | ⟨i, hlt, hfull, hnot⟩
  · rcases Nat.lt_or_ge File.maxOffset (((t.pageCount w.disk).toNat + 1) * t.pageSize) with hend | hend
    · rw [(hrefused hfull hend).1] at he
      exact .inl (Except.error.inj he).symm
    · obtain ⟨h, p, hok, -⟩ := (hgrown hfull hend).1.page
      exact absurd (hok.symm.trans he) nofun
  · cases hpage : contents tables w ⟨t.id, i⟩ with
    | none =>
      rw [(hcut i hlt hfull hpage).1] at he
      exact .inr (.inr ⟨i, (Except.error.inj he).symm⟩)
    | some content =>
      cases content with
      | error e' =>
        obtain ⟨slot, cause, -, hout, -⟩ := hcorrupt i e' hfull hpage
        rw [hout] at he
        exact .inr (.inl ⟨i, slot, cause, (Except.error.inj he).symm⟩)
      | ok p =>
        obtain ⟨slot, hslot⟩ := Page.exists_lowestFree fun hall => hnot ⟨p, hpage, hall⟩
        obtain ⟨h, q, hok, -⟩ := (hwithin i p slot hfull hpage hslot).2.1.page
        exact absurd (hok.symm.trans he) nofun

end Sheltered

/-- In every run of a pool, a row that fits the columns of a table with a file for itself goes into
the lowest free slot of the first page that has one, or into the first slot of a new page if there
is none; if a page before that cannot be read, nothing is stored. -/
theorem insert_first_fit {capacity : Nat} {c : PageCache} (hb : tables.Registered)
    (howns : tables.Owns k t) (hc : create capacity = .ok c) {d : Disk}
    (haddressed : tables.Addressed d) (calls : List Call)
    (hsmall : ceilDiv ((afterCalls tables (fresh d c) calls).disk.fileAt t.location).length
      t.pageSize < 2 ^ 32)
    (hslots : ∀ l, Layout.make t.pageSize t.schema.width = .ok l → l.slotCount ≤ 2 ^ 32)
    (txn : TxnId) (hconf : t.schema.conforms r.values) :
    FirstFit tables t txn r (afterCalls tables (fresh d c) calls)
      ((Pool.insert tables txn k r).run (afterCalls tables (fresh d c) calls)) := by
  obtain rfl := (hb k t howns.table).id_eq
  have hrun := (sheltered_fresh hc haddressed).afterCalls hb calls
  have hf := hrun.upToDate hb howns (upToDate_fresh hc d t.id t)
  exact hrun.after.firstFit hb howns hf hsmall hconf hslots

/-- Two rows on a page each, of which the first one is deleted. -/
def freed : List Call :=
  [.request (.insert 7 1 ⟨[.integer 5], none⟩), .request (.insert 7 1 ⟨[.integer 6], none⟩),
    .request (.delete 7 (some ⟨⟨1, 0⟩, 0⟩))]

/-- The slot that was freed is the first one to be used again, also by a pool of one page. -/
theorem insert_first_fit_freed : ∃ c, create 1 = .ok c ∧
    ((Pool.insert .pair 8 1 ⟨[.integer 7], none⟩).run
      (afterCalls .pair (fresh {} c) freed)).1.row = ⟨[.integer 7], some ⟨⟨1, 0⟩, 0⟩⟩ ∧
    FirstFit .pair .numbers 8 ⟨[.integer 7], none⟩ (afterCalls .pair (fresh {} c) freed)
      ((Pool.insert .pair 8 1 ⟨[.integer 7], none⟩).run (afterCalls .pair (fresh {} c) freed)) := by
  obtain ⟨hc, haddressed, hcounted⟩ := pair_run (act .pair) 1 {} freed (by decide)
    (by decide +kernel)
  have howns : Catalog.pair.Owns 1 .numbers := by
    refine ⟨rfl, fun k t ht hloc => ?_⟩
    rcases Catalog.table?_pair ht with ⟨rfl, rfl⟩ | ⟨rfl, rfl⟩
    · rfl
    · contradiction
  refine ⟨_, hc, by decide +kernel, ?_⟩
  exact insert_first_fit Catalog.backed_pair.registered howns hc haddressed freed
    (hcounted freed.length 1 _ rfl) (Catalog.backed_pair.slotCount_le 1 _ · rfl) 8 rfl

end Pool
end RowStore
