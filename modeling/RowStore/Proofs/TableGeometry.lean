import RowStore.Proofs.PageAcceptance
import RowStore.Proofs.TableWrites
import RowStore.Proofs.CommandRuns

/-! How far the arithmetic of a table goes: for which page sizes a table can be opened at all, its
slots are numbered without loss, and the places of its pages are offsets that fit a word. -/
namespace RowStore

theorem checkedWord_of_le {n : Nat} (h : wordLimit ≤ n) : checkedWord n = .error .overflow :=
  if_neg (not_lt.mpr h)

namespace Layout

theorem make_eq_error {pageSize slotWidth : Nat} {f : Fault} :
    make pageSize slotWidth = .error f ↔
      ¬ (pageSize * 8 < wordLimit ∧ slotWidth * 8 + 1 < wordLimit) ∧ f = .overflow := by
  unfold make checkedWord
  by_cases hp : pageSize * 8 < wordLimit
  · by_cases hs : slotWidth * 8 + 1 < wordLimit
    · simp [hp, hs, pure, Except.pure]
    · simp [hp, hs, eq_comm]
  · simp [hp, eq_comm]

end Layout

namespace TableFile

variable {t : TableFile} {d d' : Disk} {id : PageId} {p : Page} {k : TableId} {size : Nat}
  {path : Path} {schema : Schema}

/-- The slots of a page of the table have numbers, and different slots have different record ids. -/
def NumbersSlots (t : TableFile) : Prop :=
  ∀ (id : PageId) (p : Page), id.table = t.id → p.Belongs id t.schema t.pageSize →
    (∀ slot < p.layout.slotCount, (p.recordId slot).slot.toNat = slot) ∧
      ∀ i < p.layout.slotCount, ∀ j < p.layout.slotCount, p.recordId i = p.recordId j → i = j

/-- A page of the table, in its file or not, is read without a fault, and if it ends behind the end
of the file it is out of range. -/
def ReadsAt (t : TableFile) (number : UInt32) : Prop :=
  ∀ d : Disk, (∀ f, t.readPage d ⟨t.id, number⟩ ≠ .error (.fault f)) ∧
    ((d.fileAt t.location).length < (number.toNat + 1) * t.pageSize →
      t.readPage d ⟨t.id, number⟩ = .error (.error (.outOfRange ⟨t.id, number⟩ (t.pageCount d))))

/-- A page of the table, of whatever size it is, is written without a fault. -/
def WritesAt (t : TableFile) (number : UInt32) : Prop :=
  ∀ (d : Disk) (p : Page), p.id = ⟨t.id, number⟩ → p.Sound →
    ∀ f, t.writePage d p ≠ .error (.fault f)

/-- For which tables slots are numbered without loss, and which pages have places that fit a word. -/
structure Reaches (t : TableFile) : Prop where
  slots : t.NumbersSlots ↔ t.pageSize * 8 / (t.schema.width * 8 + 1) ≤ 2 ^ 32
  read : ∀ number, t.ReadsAt number ↔ (number.toNat + 1) * t.pageSize < wordLimit
  write : ∀ number, t.WritesAt number ↔ number.toNat * t.pageSize < wordLimit
  reads : (∀ number, t.ReadsAt number) ↔ t.pageSize < 2 ^ 32
  writes : (∀ number, t.WritesAt number) ↔ t.pageSize ≤ 2 ^ 32 + 1

/-- Opening a table stops with a fault just if a page or a slot has more bits than a word counts. -/
theorem openAt_eq_fault {pageSize : Nat} {f : Fault} :
    openAt path k schema pageSize d = .error (.fault f) ↔
      ¬ (pageSize * 8 < wordLimit ∧ schema.width * 8 + 1 < wordLimit) ∧ f = .overflow := by
  rw [← Layout.make_eq_error]
  unfold openAt
  cases hmake : Layout.make pageSize schema.width with
  | error f' => simp [orFault, Except.mapError]
  | ok l =>
    refine iff_of_false (fun h => ?_) nofun
    simp only [orFault_ok, ok_bind] at h
    split at h
    · cases h
    · cases hopen : d.openFile path with
      | error e => simp [hopen, Except.mapError] at h
      | ok opened => simp [hopen, pure, Except.pure] at h

theorem openAt_eq_ok {pageSize : Nat} (h : openAt path k schema pageSize d = .ok (t, d')) :
    t.id = k ∧ t.schema = schema ∧ t.pageSize = pageSize := by
  obtain ⟨l, -, h⟩ := bind_eq_ok.mp h
  split at h
  · contradiction
  · obtain ⟨⟨location, d''⟩, -, h⟩ := bind_eq_ok.mp h
    obtain ⟨rfl, -⟩ := Prod.mk.inj (Except.ok.inj h)
    exact ⟨rfl, rfl, rfl⟩

/-- A page whose end does not fit a word is read with a fault, whatever the file holds. -/
theorem readPage_of_overflow (hid : id.table = t.id)
    (h : wordLimit ≤ (id.page.toNat + 1) * t.pageSize) :
    t.readPage d id = .error (.fault .overflow) := by
  rw [readPage_eq hid, checkedWord_of_le h]
  rfl

/-- A page whose end fits a word is read without a fault. -/
theorem Opened.readPage_ne_fault (ht : t.Opened k size) (hid : id.table = t.id)
    (h : (id.page.toNat + 1) * t.pageSize < wordLimit) (f : Fault) :
    t.readPage d id ≠ .error (.fault f) := by
  intro hfault
  rcases le_or_gt ((id.page.toNat + 1) * t.pageSize) (d.fileAt t.location).length with hwhole | hshort
  · rw [readPage_of_whole hid h hwhole] at hfault
    cases hdecode : Page.decode id t.schema (t.pageBytes d id.page) with
    | ok p => simp [hdecode] at hfault
    | error e =>
      obtain ⟨slot, cause, rfl⟩ := ht.corrupt_of_decode hdecode
      simp [hdecode, Except.mapError, Failure.map] at hfault
  · rw [readPage_of_behind hid h hshort] at hfault
    cases hfault

/-- A page whose place begins beyond all words is written with a fault. -/
theorem writePage_of_overflow (hid : p.id.table = t.id) (hp : p.Sound)
    (h : wordLimit ≤ p.id.page.toNat * t.pageSize) :
    t.writePage d p = .error (.fault .overflow) := by
  unfold writePage checkTable
  rw [if_pos hid, hp.encode_eq_image, checkedWord_of_le h]
  rfl

theorem writePage_ne_fault (hid : p.id.table = t.id) (hp : p.Sound)
    (h : p.id.page.toNat * t.pageSize < wordLimit) (f : Fault) :
    t.writePage d p ≠ .error (.fault f) := by
  unfold writePage checkTable
  rw [if_pos hid, hp.encode_eq_image, checkedWord_of_lt h]
  simp only [orFault_ok, ok_bind]
  cases d.write t.location (p.id.page.toNat * t.pageSize) p.image with
  | ok d' => nofun
  | error e => nofun

theorem slotCount_eq (hp : p.Belongs id t.schema t.pageSize) :
    p.layout.slotCount = t.pageSize * 8 / (t.schema.width * 8 + 1) := by
  obtain ⟨-, -, hl⟩ := Layout.make_eq_ok.mp hp.sound.layout
  rw [hl, hp.size_eq, hp.schema_eq]

section Opened
variable (ht : t.Opened k size)
include ht

theorem Opened.exists_empty (id : PageId) : ∃ p, Page.empty id t.schema t.pageSize = .ok p := by
  obtain ⟨l, hl, -⟩ := ht.room
  exact Page.exists_empty id hl

/-- Slots are numbered by 32 bits. -/
theorem Opened.numbersSlots_iff :
    t.NumbersSlots ↔ t.pageSize * 8 / (t.schema.width * 8 + 1) ≤ 2 ^ 32 := by
  constructor
  · intro h
    obtain ⟨p, hp⟩ := ht.exists_empty ⟨t.id, 0⟩
    have hbelongs := Page.belongs_of_made (.inl hp)
    by_contra hmany
    rw [← slotCount_eq hbelongs, not_le] at hmany
    -- the slots 0 and 2³² of the page have the same record id
    have hsame : p.recordId 0 = p.recordId (2 ^ 32) := rfl
    have := (h _ p rfl hbelongs).2 0 (by omega) (2 ^ 32) hmany hsame
    norm_num at this
  · intro hfits id p _ hp
    rw [← slotCount_eq hp] at hfits
    have hnumber : ∀ slot < p.layout.slotCount, (p.recordId slot).slot.toNat = slot :=
      fun slot hs => UInt32.toNat_ofNat_of_lt' (hs.trans_le hfits)
    refine ⟨hnumber, fun i hi j hj heq => ?_⟩
    rw [← hnumber i hi, heq, hnumber j hj]

theorem Opened.readsAt_iff (number : UInt32) :
    t.ReadsAt number ↔ (number.toNat + 1) * t.pageSize < wordLimit := by
  constructor
  · intro h
    by_contra hword
    exact (h {}).1 .overflow (readPage_of_overflow rfl (not_lt.mp hword))
  · intro hword d
    exact ⟨ht.readPage_ne_fault rfl hword, fun hbehind => readPage_of_behind rfl hword hbehind⟩

theorem Opened.writesAt_iff (number : UInt32) :
    t.WritesAt number ↔ number.toNat * t.pageSize < wordLimit := by
  constructor
  · intro h
    obtain ⟨p, hp⟩ := ht.exists_empty ⟨t.id, number⟩
    have hbelongs := Page.belongs_of_made (.inl hp)
    have hid := hbelongs.id_eq
    by_contra hword
    rw [not_lt] at hword
    exact h {} p hid hbelongs.sound .overflow
      (writePage_of_overflow (by rw [hid]) hbelongs.sound (by rw [hid]; exact hword))
  · intro hword d p hid hp
    exact writePage_ne_fault (by rw [hid]) hp (by rw [hid]; exact hword)

/-- The page with the largest number decides for all pages. -/
theorem Opened.reaches : t.Reaches where
  slots := ht.numbersSlots_iff
  read := ht.readsAt_iff
  write := ht.writesAt_iff
  reads := by
    have hlast : UInt32.toNat 0xFFFFFFFF = 2 ^ 32 - 1 := rfl
    constructor
    · intro h
      have hword := (ht.readsAt_iff _).mp (h 0xFFFFFFFF)
      rw [hlast] at hword
      unfold wordLimit at hword
      omega
    · intro hsize number
      exact (ht.readsAt_iff number).mpr (reached_of_size_lt hsize number)
  writes := by
    have hlast : UInt32.toNat 0xFFFFFFFF = 2 ^ 32 - 1 := rfl
    constructor
    · intro h
      have hword := (ht.writesAt_iff _).mp (h 0xFFFFFFFF)
      rw [hlast] at hword
      unfold wordLimit at hword
      omega
    · intro hsize number
      have hnumber : number.toNat ≤ 2 ^ 32 - 1 := Nat.le_pred_of_lt number.toNat_lt
      refine (ht.writesAt_iff number).mpr ?_
      exact (Nat.mul_le_mul hnumber hsize).trans_lt (by norm_num [wordLimit])

end Opened

/-- A table can be opened without a fault just if the bits of a page and of a slot can be counted. Of
a table that has been opened, slots are numbered without loss just if a page has at most 2³² of them,
and the places of all its pages fit a word just if a page has less than 2³² bytes; writes, which do
not look for the end of a page, can do with two sizes more. -/
theorem openAt_reaches (path : Path) (id : TableId) (schema : Schema) (pageSize : Nat) (d : Disk) :
    ((∀ f, openAt path id schema pageSize d ≠ .error (.fault f)) ↔
      pageSize * 8 < wordLimit ∧ schema.width * 8 + 1 < wordLimit) ∧
    ∀ t d', openAt path id schema pageSize d = .ok (t, d') →
      t.schema = schema ∧ t.pageSize = pageSize ∧ t.Reaches := by
  constructor
  · constructor
    · intro h
      by_contra hbits
      exact h .overflow (openAt_eq_fault.mpr ⟨hbits, rfl⟩)
    · intro hbits f hfault
      exact (openAt_eq_fault.mp hfault).1 hbits
  · intro t d' hopen
    have ht := opened_of_openAt hopen
    obtain ⟨-, hschema, hsize⟩ := openAt_eq_ok hopen
    exact ⟨hschema, hsize, ht.reaches⟩

/-- On a disk with nothing on it the file is made. -/
theorem openFile_blank : ({} : Disk).openFile ⟨"a"⟩ = .ok (["a"], ({} : Disk).setFile ["a"] {}) := by
  rfl

/-- Of a table of small pages all arithmetic is exact. -/
theorem openAt_reaches_numbers : ∃ t d', openAt ⟨"a"⟩ 1 numbers.schema 9 {} = .ok (t, d') ∧
    t.NumbersSlots ∧ (∀ number, t.ReadsAt number) ∧ ∀ number, t.WritesAt number := by
  have hopen : openAt ⟨"a"⟩ 1 numbers.schema 9 {} = .ok (numbers, ({} : Disk).setFile ["a"] {}) :=
    openAt_of_openFile 1 rfl (by decide) openFile_blank
  obtain ⟨-, -, hreaches⟩ := (openAt_reaches ⟨"a"⟩ 1 numbers.schema 9 {}).2 _ _ hopen
  exact ⟨_, _, hopen, hreaches.slots.mpr (by decide), hreaches.reads.mpr (by decide),
    hreaches.writes.mpr (by decide)⟩

/-- A page of 2⁶¹ bytes has more bits than a word counts, and its table is not refused but opened
with a fault. A table with pages of 2³² bytes is opened, but a read of its last page stops with a
fault; so does a write of a page in the middle if pages have 2³³ bytes; and of pages of 2³⁶ bytes,
not all slots have record ids of their own. -/
theorem openAt_overflows :
    openAt ⟨"a"⟩ 1 numbers.schema (2 ^ 61) {} = .error (.fault .overflow) ∧
    (∃ t d', openAt ⟨"a"⟩ 1 numbers.schema (2 ^ 32) {} = .ok (t, d') ∧
      (d'.fileAt t.location).length = 0 ∧
        t.readPage d' ⟨1, 0xFFFFFFFF⟩ = .error (.fault .overflow)) ∧
    (∃ t d' p, openAt ⟨"a"⟩ 1 numbers.schema (2 ^ 33) {} = .ok (t, d') ∧
      Page.empty ⟨1, 0x80000000⟩ numbers.schema 9 = .ok p ∧
        t.writePage d' p = .error (.fault .overflow)) ∧
    ∃ t d', openAt ⟨"a"⟩ 1 numbers.schema (2 ^ 36) {} = .ok (t, d') ∧ ¬ t.NumbersSlots := by
  refine ⟨openAt_eq_fault.mpr ⟨by decide, rfl⟩, ?_, ?_, ?_⟩
  · exact ⟨_, _, openAt_of_openFile 1 rfl (by decide) openFile_blank, by decide,
      readPage_of_overflow rfl (by decide)⟩
  · obtain ⟨p, hp⟩ : ∃ p, Page.empty ⟨1, 0x80000000⟩ numbers.schema 9 = .ok p := ⟨_, rfl⟩
    have hbelongs := Page.belongs_of_made (.inl hp)
    have hid : p.id = ⟨1, 0x80000000⟩ := hbelongs.id_eq
    exact ⟨_, _, p, openAt_of_openFile 1 rfl (by decide) openFile_blank, hp,
      writePage_of_overflow (by rw [hid]) hbelongs.sound (by rw [hid]; decide)⟩
  · have hopen : openAt ⟨"a"⟩ 1 numbers.schema (2 ^ 36) {} =
        .ok (⟨1, ⟨"a"⟩, ["a"], numbers.schema, 2 ^ 36⟩, ({} : Disk).setFile ["a"] {}) :=
      openAt_of_openFile 1 rfl (by decide) openFile_blank
    exact ⟨_, _, hopen, fun h => absurd ((opened_of_openAt hopen).numbersSlots_iff.mp h) (by decide)⟩

end TableFile
end RowStore
