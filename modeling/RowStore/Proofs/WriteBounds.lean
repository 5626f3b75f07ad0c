import RowStore.Proofs.TableWrites

/-! Which bytes of its table's file a page takes when it is written. The page begins at a multiple
of the table's page size, and it is as long as its own size. A page of another size therefore
reaches into the pages behind it, or leaves the file with a part of a page. -/
namespace RowStore.TableFile

variable {t : TableFile} {d d' : Disk} {id : PageId} {schema : Schema} {size : Nat} {p : Page}
  {number : UInt32} {data : Bytes} {i : Nat}

/-- What a write of a page is to change: only bytes in the place of the page, of those that the file
had, and the file consists of whole pages again. -/
structure StaysInside (t : TableFile) (number : UInt32) (d d' : Disk) : Prop where
  kept : ∀ i < (d.fileAt t.location).length,
    i < number.toNat * t.pageSize ∨ (number.toNat + 1) * t.pageSize ≤ i →
      (d'.fileAt t.location).byteAt i = (d.fileAt t.location).byteAt i
  whole : t.pageSize ∣ (d'.fileAt t.location).length

/-- A page of any size is written if it belongs to the table and ends at an offset that a file can
have. What the file holds does not matter. -/
theorem writePage_eq_ok (hp : p.Belongs id schema size) : t.writePage d p = .ok d' ↔
    (id.table = t.id ∧ id.page.toNat * t.pageSize ≤ File.maxOffset ∧
      (0 < size → id.page.toNat * t.pageSize + size ≤ File.maxOffset)) ∧
    d' = t.putBytes d id.page p.image := by
  obtain ⟨hencode, hlength, -⟩ := hp.encode_decode
  have hmax : File.maxOffset < wordLimit := by decide
  have hblank : p.image = [] ↔ size = 0 := by rw [← hlength, List.length_eq_zero_iff]
  unfold writePage checkTable Disk.write
  by_cases htable : id.table = t.id
  · rw [hp.id_eq, if_pos htable, hencode]
    simp only [orFault_ok, ok_bind, bind_eq_ok, orFault_eq_ok, checkedWord_eq_ok, mapError_eq_ok,
      hlength, hblank, ne_eq, htable, true_and]
    constructor
    · rintro ⟨offset, ⟨-, rfl⟩, h⟩
      split at h
      · contradiction
      · split at h
        · contradiction
        · exact ⟨⟨by omega, by omega⟩, (Except.ok.inj h).symm⟩
    · rintro ⟨⟨hstart, hend⟩, rfl⟩
      refine ⟨_, ⟨by omega, rfl⟩, ?_⟩
      rw [if_neg (by omega), if_neg (by omega)]
      rfl
  · simp [hp.id_eq, htable]

theorem byteAt_putBytes (hloc : t.location ≠ []) :
    ((t.putBytes d number data).fileAt t.location).byteAt i =
      if number.toNat * t.pageSize ≤ i ∧ i < number.toNat * t.pageSize + data.length then
        data.getD (i - number.toNat * t.pageSize) 0
      else (d.fileAt t.location).byteAt i := by
  rw [putBytes, Disk.fileAt_setFile_self d hloc, File.byteAt_write]

/-- A file of a table with a given length, and one byte in it. -/
def specked (t : TableFile) (length : Nat) (i : Nat) (b : UInt8) : Disk :=
  ({} : Disk).setFile t.location ⟨length, [⟨i, [b]⟩]⟩

theorem fileAt_specked (hloc : t.location ≠ []) (length i : Nat) (b : UInt8) :
    ((t.specked length i b).fileAt t.location).length = length ∧
      ((t.specked length i b).fileAt t.location).byteAt i = b := by
  rw [specked, Disk.fileAt_setFile_self _ hloc]
  exact ⟨rfl, by simp [File.byteAt, Extent.byteAt?]⟩

section Bounds
variable (hloc : t.location ≠ [])
include hloc

/-- Bytes of the size of a page stay inside its place. -/
theorem staysInside_putBytes (hpos : 0 < t.pageSize) (hdata : data.length = t.pageSize)
    (hwhole : t.pageSize ∣ (d.fileAt t.location).length) :
    t.StaysInside number d (t.putBytes d number data) := by
  constructor
  · intro i _ hout
    rw [Nat.succ_mul] at hout
    rw [byteAt_putBytes hloc, if_neg (by omega)]
  · rw [length_putBytes hloc hpos hdata, ← Nat.succ_mul]
    rcases max_choice (d.fileAt t.location).length (number.toNat.succ * t.pageSize) with h | h
    · rwa [h]
    · rw [h]
      exact Nat.dvd_mul_left _ _

/-- Bytes that are not whole pages, written at the end of a file, leave a part of a page. -/
theorem size_dvd_of_staysInside (hdata : data ≠ [])
    (h : ∀ d, t.pageSize ∣ (d.fileAt t.location).length →
      t.StaysInside number d (t.putBytes d number data)) : t.pageSize ∣ data.length := by
  obtain ⟨hlength, -⟩ := fileAt_specked hloc (number.toNat * t.pageSize) 0 0
  have hwhole := (h _ (hlength ▸ Nat.dvd_mul_left _ _)).whole
  rw [putBytes, Disk.fileAt_setFile_self _ hloc, File.length_write _ _ hdata, hlength,
    max_eq_right (Nat.le_add_right _ _)] at hwhole
  exact (Nat.dvd_add_right (Nat.dvd_mul_left _ _)).mp hwhole

/-- Bytes of more than a page change the page behind, if that had another byte there. -/
theorem length_le_of_staysInside (hpos : 0 < t.pageSize)
    (h : ∀ d, t.pageSize ∣ (d.fileAt t.location).length →
      t.StaysInside number d (t.putBytes d number data)) : data.length ≤ t.pageSize := by
  by_contra hlong
  let next := (number.toNat + 1) * t.pageSize
  have hnext : next = number.toNat * t.pageSize + t.pageSize := Nat.succ_mul _ _
  obtain ⟨hlength, hbyte⟩ := fileAt_specked hloc (next + t.pageSize) next
    (data.getD t.pageSize 0 + 1)
  have hwhole : t.pageSize ∣ next + t.pageSize := Nat.dvd_add (Nat.dvd_mul_left _ _) dvd_rfl
  have hkept := (h _ (hlength.symm ▸ hwhole)).kept next (by omega) (.inr le_rfl)
  rw [hbyte, byteAt_putBytes hloc, if_pos (by omega), hnext, Nat.add_sub_cancel_left] at hkept
  exact absurd hkept.symm (by simp)

end Bounds

variable {k : TableId} {pageSize : Nat} {start : Page}

/-- However a page was made and whatever calls it has seen, its writes stay inside its place in
every file of whole pages just if the page is of the table's page size, or of no bytes. -/
theorem staysInside_iff_size_eq (ht : t.Opened k pageSize) (hmade : Page.Made id schema size start)
    (cs : List Page.Change) (hwrites : ∃ d d', t.writePage d (start.after cs) = .ok d') :
    (∀ d d', t.pageSize ∣ (d.fileAt t.location).length →
      t.writePage d (start.after cs) = .ok d' → t.StaysInside id.page d d') ↔
    size = t.pageSize ∨ size = 0 := by
  have hpage := (Page.belongs_of_made hmade).after cs
  have hlength := hpage.encode_decode.2.1
  have hloc := ht.location_ne
  have hpos := ht.size_pos
  obtain ⟨_, _, hwrites⟩ := hwrites
  have hplace := ((writePage_eq_ok hpage).mp hwrites).1
  constructor
  · intro h
    have hputs : ∀ d, t.pageSize ∣ (d.fileAt t.location).length →
        t.StaysInside id.page d (t.putBytes d id.page (start.after cs).image) :=
      fun d hwhole => h d _ hwhole ((writePage_eq_ok hpage).mpr ⟨hplace, rfl⟩)
    rcases Nat.eq_zero_or_pos size with hzero | hsize
    · exact .inr hzero
    · -- the size is a positive multiple of the page size, and no more than one page
      have hdvd := size_dvd_of_staysInside hloc
        (List.ne_nil_of_length_pos (hlength.symm ▸ hsize)) hputs
      have hle := length_le_of_staysInside hloc hpos hputs
      rw [hlength] at hdvd hle
      exact .inl (le_antisymm hle (Nat.le_of_dvd hsize hdvd))
  · rintro hsize d d' hwhole hwrite
    obtain ⟨-, rfl⟩ := (writePage_eq_ok hpage).mp hwrite
    rcases hsize with hsize | rfl
    · exact staysInside_putBytes hloc hpos (hlength.trans hsize) hwhole
    · have hblank := List.length_eq_zero_iff.mp hlength
      rw [hblank]
      refine ⟨fun i _ _ => ?_, ?_⟩
      · rw [byteAt_putBytes hloc, if_neg (by simp)]
      · rw [putBytes, Disk.fileAt_setFile_self d hloc, File.write, if_pos rfl]
        exact hwhole

/-- A file of two pages with a row each. -/
def twoRows : Disk := numbers.putBytes oneRow 1 [1, 6, 0, 0, 0, 0, 0, 0, 0]

theorem staysInside_iff_size_eq_numbers : ∃ p d', Page.empty ⟨1, 0⟩ numbers.schema 9 = .ok p ∧
    numbers.writePage twoRows (p.after [.insert ⟨[.integer 7], none⟩]) = .ok d' ∧
      numbers.StaysInside 0 twoRows d' := by
  obtain ⟨p, hp⟩ : ∃ p, Page.empty ⟨1, 0⟩ numbers.schema 9 = .ok p := ⟨_, rfl⟩
  have hpage := (Page.belongs_of_made (.inl hp)).after [.insert ⟨[.integer 7], none⟩]
  have hwrite := (writePage_eq_ok (t := numbers) (d := twoRows) hpage).mpr
    ⟨⟨rfl, by decide, fun _ => by decide⟩, rfl⟩
  have hinside := (staysInside_iff_size_eq opened_numbers (.inl hp) _ ⟨_, _, hwrite⟩).mpr (.inl rfl)
  exact ⟨p, _, hp, hwrite, hinside _ _ (by decide) hwrite⟩

/-- A page of twice the page size, written as the first page of a table, takes the second one with
it, and the row there is lost. -/
theorem erases_second_page : numbers.Opened 1 9 ∧ numbers.pageSize = 9 ∧
    (twoRows.fileAt ["a"]).length = 2 * numbers.pageSize ∧
    ∃ p d', Page.empty ⟨1, 0⟩ numbers.schema 18 = .ok p ∧ numbers.writePage twoRows p = .ok d' ∧
      (twoRows.fileAt ["a"]).read 9 9 = [1, 6, 0, 0, 0, 0, 0, 0, 0] ∧
      (d'.fileAt ["a"]).read 9 9 = Bytes.zeros 9 ∧ ¬ numbers.StaysInside 0 twoRows d' := by
  refine ⟨opened_numbers, rfl, by decide, _, _, rfl, rfl,
    by decide, by decide, fun h => ?_⟩
  have hbyte := h.kept 9 (by decide) (.inr (by decide))
  revert hbyte
  decide

end RowStore.TableFile
