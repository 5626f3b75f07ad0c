import RowStore.Proofs.CatalogInvariant
import RowStore.Proofs.FileBytes
import RowStore.Proofs.PageAcceptance

/-! The pages of tables on a disk: what a read of one finds, and what a write of one changes. -/
namespace RowStore

namespace Catalog

/-- Whether a file is that of a table. -/
def locates (c : Catalog) (l : Location) : Bool := c.tables.toList.any fun e => e.2.location == l

theorem locates_eq_true {c : Catalog} {l : Location} :
    c.locates l ↔ ∃ k t, c.table? k = some t ∧ t.location = l := by
  simp only [locates, List.any_eq_true, beq_iff_eq, Prod.exists, table?,
    Std.TreeMap.mem_toList_iff_getElem?_eq_some]

variable {c : Catalog} {k : TableId} {t : TableFile}

theorem Separate.id_eq (h : c.Separate) (ht : c.table? k = some t) : t.id = k :=
  (h.registered k t ht).id_eq

theorem Separate.location_ne (h : c.Separate) (ht : c.table? k = some t) : t.location ≠ [] :=
  (h.registered k t ht).location_ne

theorem Separate.size_pos (h : c.Separate) (ht : c.table? k = some t) : 0 < t.pageSize :=
  (h.registered k t ht).size_pos

/-- Every table's file has less pages than 32 bits can count. -/
def Counted (c : Catalog) (d : Disk) : Prop :=
  ∀ k t, c.table? k = some t → ceilDiv (d.fileAt t.location).length t.pageSize < 2 ^ 32

/-- No table's file is longer than an offset can be. -/
def Addressed (c : Catalog) (d : Disk) : Prop :=
  ∀ k t, c.table? k = some t → (d.fileAt t.location).length ≤ File.maxOffset

/-- The bytes of each file of the two tables are less than 32 bits can count. -/
def ShortPair (d : Disk) : Prop :=
  (d.fileAt ["a"]).length < 2 ^ 32 ∧ (d.fileAt ["b"]).length < 2 ^ 32

instance (d : Disk) : Decidable (ShortPair d) := inferInstanceAs (Decidable (_ ∧ _))

theorem length_lt_of_shortPair {d : Disk} (h : ShortPair d) (ht : pair.table? k = some t) :
    t.pageSize = 9 ∧ (d.fileAt t.location).length < 2 ^ 32 := by
  rcases table?_pair ht with ⟨rfl, rfl⟩ | ⟨rfl, rfl⟩
  · exact ⟨rfl, h.1⟩
  · exact ⟨rfl, h.2⟩

theorem addressed_pair {d : Disk} (h : ShortPair d) : pair.Addressed d := by
  intro k t ht
  have hshort := (length_lt_of_shortPair h ht).2
  unfold File.maxOffset
  omega

theorem counted_pair {d : Disk} (h : ShortPair d) : pair.Counted d := by
  intro k t ht
  obtain ⟨hsize, hshort⟩ := length_lt_of_shortPair h ht
  rw [hsize]
  unfold ceilDiv
  omega

/-- Along a run both files stay short if they are so after each of its steps. -/
theorem counted_pair_take {α : Type} {f : List α → Disk} {steps : List α}
    (h : ∀ n < steps.length + 1, ShortPair (f (steps.take n))) (n : Nat) :
    pair.Counted (f (steps.take n)) := by
  rw [List.take_eq_take_min]
  exact counted_pair (h _ (Nat.lt_succ_of_le (Nat.min_le_right n steps.length)))

end Catalog

/-- Two pages of one size lie beside each other. -/
theorem pages_apart {n m : Nat} (h : n ≠ m) (size : Nat) :
    n * size + size ≤ m * size ∨ m * size + size ≤ n * size := by
  rcases Nat.lt_or_gt_of_ne h with h | h
  · left
    rw [← Nat.succ_mul]
    exact Nat.mul_le_mul_right size h
  · right
    rw [← Nat.succ_mul]
    exact Nat.mul_le_mul_right size h

namespace TableFile

/-- The bytes of a page in the file of its table. -/
def pageBytes (t : TableFile) (d : Disk) (number : UInt32) : Bytes :=
  (d.fileAt t.location).read (number.toNat * t.pageSize) t.pageSize

/-- The disk with the bytes of a page in its place. -/
def putBytes (t : TableFile) (d : Disk) (number : UInt32) (data : Bytes) : Disk :=
  d.setFile t.location ((d.fileAt t.location).write (number.toNat * t.pageSize) data)

variable {t : TableFile} {d : Disk} {id : PageId}

theorem readPage_eq (hid : id.table = t.id) :
    t.readPage d id = (do
      let stop ← orFault (checkedWord ((id.page.toNat + 1) * t.pageSize))
      if (d.fileAt t.location).length < stop then
        .error (.error (.outOfRange id (t.pagesIn (d.fileAt t.location).length)))
      else (Page.decode id t.schema (t.pageBytes d id.page)).mapError (Failure.map .page)) := by
  unfold readPage checkTable
  rw [if_pos hid]
  rfl

/-- The bytes of a page of a table that are no page are corrupt. -/
theorem Opened.corrupt_of_decode {k : TableId} {size : Nat} (ht : t.Opened k size) {number : UInt32}
    {e : Failure PageError} (h : Page.decode id t.schema (t.pageBytes d number) = .error e) :
    ∃ slot cause, e = .error (.corrupt id slot cause) := by
  obtain ⟨l, hl, -⟩ := ht.room
  have hlength : (t.pageBytes d number).length = t.pageSize := File.length_read _ _ _
  rw [← hlength] at hl
  obtain ⟨_, _, _, _, -, rfl⟩ := (Page.decode_eq_error hl).mp h
  exact ⟨_, _, rfl⟩

/-- A page is written if it ends at an offset that a file can have. -/
theorem writePage_eq {p : Page} (hp : p.Belongs id t.schema t.pageSize) (hpos : 0 < t.pageSize)
    (hid : id.table = t.id) :
    t.writePage d p = (do
      let offset ← orFault (checkedWord (id.page.toNat * t.pageSize))
      if File.maxOffset < offset then .error (.error (.disk .invalidOffset))
      else if File.maxOffset < offset + t.pageSize then .error (.error (.disk .tooLarge))
      else .ok (t.putBytes d id.page p.image)) := by
  obtain ⟨hencode, hlength, -⟩ := hp.encode_decode
  have hne : p.image ≠ [] := List.ne_nil_of_length_pos (hlength ▸ hpos)
  unfold writePage checkTable Disk.write
  rw [hp.id_eq, if_pos hid, hencode]
  simp only [orFault_ok, ok_bind, hlength, hne, ne_eq, not_false_eq_true, true_and]
  cases hstart : checkedWord (id.page.toNat * t.pageSize) with
  | error f => rfl
  | ok offset =>
    obtain ⟨-, rfl⟩ := checkedWord_eq_ok.mp hstart
    simp only [orFault_ok, ok_bind]
    split
    · rfl
    · split <;> rfl

/-- A page is written if it ends where a file may end. -/
theorem writePage_of_fits {p : Page} (hp : p.Belongs id t.schema t.pageSize)
    (hpos : 0 < t.pageSize) (hid : id.table = t.id)
    (hfits : (id.page.toNat + 1) * t.pageSize ≤ File.maxOffset) :
    t.writePage d p = .ok (t.putBytes d id.page p.image) := by
  have hmax : File.maxOffset < wordLimit := by decide
  rw [Nat.succ_mul] at hfits
  rw [writePage_eq hp hpos hid, checkedWord_of_lt (by omega), orFault_ok, ok_bind,
    if_neg (by omega), if_neg (by omega)]

/-- A page that was written has its bytes in their place, and they end where a file may end. -/
theorem putBytes_of_writePage {p : Page} {d' : Disk} (hp : p.Belongs id t.schema t.pageSize)
    (hpos : 0 < t.pageSize) (hid : id.table = t.id) (h : t.writePage d p = .ok d') :
    d' = t.putBytes d id.page p.image ∧
      id.page.toNat * t.pageSize + t.pageSize ≤ File.maxOffset := by
  rw [writePage_eq hp hpos hid] at h
  obtain ⟨offset, hoffset, h⟩ := bind_eq_ok.mp h
  obtain ⟨-, rfl⟩ := checkedWord_eq_ok.mp (orFault_eq_ok.mp hoffset)
  split at h
  · contradiction
  · split at h
    · contradiction
    · next hend => exact ⟨(Except.ok.inj h).symm, not_lt.mp hend⟩

variable {data : Bytes} {n m : UInt32}

theorem fileAt_putBytes_of_ne {l : Location} (h : l ≠ t.location) :
    (t.putBytes d n data).fileAt l = d.fileAt l := Disk.fileAt_setFile_of_ne d h _

theorem pageBytes_putBytes_self (hloc : t.location ≠ []) (hdata : data.length = t.pageSize) :
    t.pageBytes (t.putBytes d n data) n = data := by
  unfold pageBytes putBytes
  rw [Disk.fileAt_setFile_self d hloc, ← hdata, File.read_write_same]

theorem pageBytes_putBytes_of_ne (hloc : t.location ≠ []) (hdata : data.length = t.pageSize)
    (h : n ≠ m) : t.pageBytes (t.putBytes d n data) m = t.pageBytes d m := by
  have hapart := pages_apart (fun e => h (UInt32.toNat_inj.mp e).symm : m.toNat ≠ n.toNat)
    t.pageSize
  unfold pageBytes putBytes
  rw [Disk.fileAt_setFile_self d hloc]
  exact File.read_write_beside _ (hdata.symm ▸ hapart)

theorem length_putBytes (hloc : t.location ≠ []) (hpos : 0 < t.pageSize)
    (hdata : data.length = t.pageSize) :
    ((t.putBytes d n data).fileAt t.location).length =
      max (d.fileAt t.location).length (n.toNat * t.pageSize + t.pageSize) := by
  unfold putBytes
  rw [Disk.fileAt_setFile_self d hloc,
    File.length_write _ _ (List.ne_nil_of_length_pos (hdata ▸ hpos)), hdata]

end TableFile
end RowStore
