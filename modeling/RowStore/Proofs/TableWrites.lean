import RowStore.Proofs.TableGrowth

/-! What a page that is written to the file of its table leaves behind: the page itself is read again,
all other pages are as they were, and where the file had to grow up to the page there are empty pages.
Writes of different pages may change places. -/
namespace RowStore

namespace File
variable {f : File}

/-- Nothing stands behind the end of the file, so that zeros come up if the file grows. -/
def Ends (f : File) : Prop := ∀ i, f.length ≤ i → f.byteAt i = 0

theorem ends_empty : ({} : File).Ends := fun _ _ => rfl

theorem length_write_le (f : File) (offset : Nat) (bs : Bytes) :
    f.length ≤ (f.write offset bs).length := by
  by_cases hbs : bs = []
  · simp [write, hbs]
  · rw [length_write f offset hbs]
    exact le_max_left _ _

theorem Ends.write (h : f.Ends) (offset : Nat) (bs : Bytes) : (f.write offset bs).Ends := by
  intro i hi
  have hlength := (length_write_le f offset bs).trans hi
  rw [byteAt_write, if_neg, h i hlength]
  rintro ⟨hle, hlt⟩
  have hbs : bs ≠ [] := by
    rintro rfl
    simp at hlt
    omega
  rw [length_write f offset hbs] at hi
  omega

/-- Cutting a file, or filling it up with zeros, leaves nothing behind its new end. -/
theorem ends_setLength (f : File) (length : Nat) : (f.setLength length).Ends := by
  intro i hi
  suffices h : (f.setLength length).extents.findSome? (·.byteAt? i) = none by
    rw [byteAt, h]
    rfl
  rw [List.findSome?_eq_none_iff]
  intro x hx
  obtain ⟨e, -, hclip⟩ := List.mem_filterMap.mp hx
  unfold Extent.clip? at hclip
  split at hclip
  · contradiction
  · obtain rfl := Option.some.inj hclip
    apply Extent.byteAt?_eq_none
    right
    simp only [Extent.stop, List.length_take]
    have hi : length ≤ i := hi
    omega

/-- Files of one length with the same bytes have the same contents. -/
theorem contents_congr {g : File} (hlength : f.length = g.length)
    (hbytes : ∀ i < f.length, f.byteAt i = g.byteAt i) : f.contents = g.contents := by
  unfold contents
  rw [read_eq_map, read_eq_map, ← hlength]
  apply List.map_congr_left
  intro i hi
  rw [Nat.zero_add]
  exact hbytes i (List.mem_range.mp hi)

/-- Writes that do not overlap may change places. -/
theorem contents_write_comm (f : File) {a b : Nat} {xs ys : Bytes} (hxs : xs ≠ []) (hys : ys ≠ [])
    (h : a + xs.length ≤ b ∨ b + ys.length ≤ a) :
    ((f.write a xs).write b ys).contents = ((f.write b ys).write a xs).contents := by
  apply contents_congr
  · rw [length_write _ _ hys, length_write _ _ hxs, length_write _ _ hxs, length_write _ _ hys,
      max_assoc, max_assoc, max_comm (a + xs.length)]
  · intro i _
    simp only [byteAt_write]
    by_cases ha : a ≤ i ∧ i < a + xs.length
    · rw [if_neg (show ¬ (b ≤ i ∧ i < b + ys.length) by omega), if_pos ha, if_pos ha]
    · rw [if_neg ha, if_neg ha]

end File

namespace Page
variable {id : PageId} {schema : Schema} {size : Nat} {p : Page}

/-- The bytes of an empty page are zeros. -/
theorem image_empty (h : empty id schema size = .ok p) : p.image = Bytes.zeros size := by
  have hlength := (belongs_of_made (.inl h)).encode_decode.2.1
  obtain ⟨l, -, rfl⟩ := empty_eq_ok h
  rw [Bytes.zeros, List.eq_replicate_iff]
  refine ⟨hlength, fun b hb => ?_⟩
  simp only [image, Array.toList_replicate, List.map_replicate, cell, List.mem_append] at hb
  rcases hb with (hb | hb) | hb
  · exact List.eq_of_mem_replicate hb
  · obtain ⟨bs, hbs, hb⟩ := List.mem_flatten.mp hb
    rw [List.eq_of_mem_replicate hbs] at hb
    exact List.eq_of_mem_replicate hb
  · exact List.eq_of_mem_replicate hb

/-- Zeros are an empty page. -/
theorem decode_zeros (h : empty id schema size = .ok p) :
    decode id schema (Bytes.zeros size) = .ok p := by
  have hdecode := (belongs_of_made (.inl h)).encode_decode.2.2
  obtain ⟨l, -, hp⟩ := empty_eq_ok h
  rw [image_empty h, mark_of_clean (by rw [hp])] at hdecode
  exact hdecode

theorem exists_empty (id : PageId) {l : Layout} (h : Layout.make size schema.width = .ok l) :
    ∃ p, empty id schema size = .ok p := by
  unfold empty
  rw [h]
  exact ⟨_, rfl⟩

end Page

namespace TableFile
variable {t : TableFile} {d d' : Disk} {id : PageId} {p q : Page} {n : Nat}

section Reading
variable (hid : id.table = t.id) (hword : (id.page.toNat + 1) * t.pageSize < wordLimit)
include hid hword

theorem readPage_of_whole (h : (id.page.toNat + 1) * t.pageSize ≤ (d.fileAt t.location).length) :
    t.readPage d id =
      (Page.decode id t.schema (t.pageBytes d id.page)).mapError (Failure.map .page) := by
  rw [readPage_eq hid, checkedWord_of_lt hword, orFault_ok, ok_bind, if_neg (not_lt.mpr h)]

theorem readPage_of_behind (h : (d.fileAt t.location).length < (id.page.toNat + 1) * t.pageSize) :
    t.readPage d id = .error (.error (.outOfRange id (t.pageCount d))) := by
  rw [readPage_eq hid, checkedWord_of_lt hword, orFault_ok, ok_bind, if_pos h]
  rfl

end Reading

/-- Pages of less than 2³² bytes end at offsets that fit a word. -/
theorem reached_of_size_lt (hsize : t.pageSize < 2 ^ 32) (number : UInt32) :
    (number.toNat + 1) * t.pageSize < wordLimit := by
  have hnumber := number.toNat_lt
  calc (number.toNat + 1) * t.pageSize
      ≤ 2 ^ 32 * t.pageSize := Nat.mul_le_mul_right _ hnumber
    _ < 2 ^ 32 * 2 ^ 32 := Nat.mul_lt_mul_of_pos_left hsize (by norm_num)
    _ = wordLimit := by norm_num [wordLimit]

/-- What writing a page does to a file of `n` pages: the page itself is read again, as unchanged
since; each other page that was there is read as before; what comes between the old end of the file
and the page are empty pages; and what comes behind is out of range. -/
structure Wrote (t : TableFile) (n : Nat) (p : Page) (d d' : Disk) : Prop where
  page : t.readPage d' p.id = .ok (p.mark none)
  kept : ∀ number : UInt32, number ≠ p.id.page → number.toNat < n →
    t.readPage d' ⟨t.id, number⟩ = t.readPage d ⟨t.id, number⟩
  between : ∀ number : UInt32, n ≤ number.toNat → number < p.id.page →
    ∃ q, Page.empty ⟨t.id, number⟩ t.schema t.pageSize = .ok q ∧
      t.readPage d' ⟨t.id, number⟩ = .ok q
  behind : ∀ number : UInt32, n ≤ number.toNat → p.id.page < number →
    t.readPage d' ⟨t.id, number⟩ = .error (.error (.outOfRange ⟨t.id, number⟩ (t.pageCount d')))
  length : (d'.fileAt t.location).length =
    max (d.fileAt t.location).length ((p.id.page.toNat + 1) * t.pageSize)
  ends : (d'.fileAt t.location).Ends

section Writing
variable {k : TableId} {size : Nat} (ht : t.Opened k size)
  (hp : p.Belongs id t.schema t.pageSize) (hid : id.table = t.id)
include ht hp hid

theorem wrote_putBytes (hsize : t.pageSize < 2 ^ 32) (hends : (d.fileAt t.location).Ends)
    (hlength : (d.fileAt t.location).length = n * t.pageSize) :
    t.Wrote n p d (t.putBytes d id.page p.image) := by
  have hpos := ht.size_pos
  obtain ⟨-, himage, hdecode⟩ := hp.encode_decode
  have hlength' : ((t.putBytes d id.page p.image).fileAt t.location).length =
      max (n * t.pageSize) ((id.page.toNat + 1) * t.pageSize) := by
    rw [length_putBytes ht.location_ne hpos himage, hlength, Nat.succ_mul]
  have hword := reached_of_size_lt hsize
  have hwhole : ∀ {number m : Nat}, number < m → (number + 1) * t.pageSize ≤ m * t.pageSize :=
    fun h => Nat.mul_le_mul_right _ h
  have hother : ∀ number : UInt32, number ≠ id.page →
      t.pageBytes (t.putBytes d id.page p.image) number = t.pageBytes d number := fun number hne =>
    pageBytes_putBytes_of_ne ht.location_ne himage hne.symm
  refine ⟨?_, ?_, ?_, ?_, ?_, ?_⟩
  · rw [hp.id_eq, readPage_of_whole hid (hword _) (hlength' ▸ le_max_right _ _),
      pageBytes_putBytes_self ht.location_ne himage, hdecode, mapError_ok]
  · intro number hne hlt
    rw [hp.id_eq] at hne
    rw [readPage_of_whole rfl (hword _) (hlength' ▸ (hwhole hlt).trans (le_max_left _ _)),
      readPage_of_whole rfl (hword _) (hlength ▸ hwhole hlt), hother number hne]
  · intro number hle hlt
    rw [hp.id_eq] at hlt
    obtain ⟨l, hl, -⟩ := ht.room
    obtain ⟨q, hq⟩ := Page.exists_empty ⟨t.id, number⟩ hl
    have hzeros : t.pageBytes d number = Bytes.zeros t.pageSize := by
      have hstart : n * t.pageSize ≤ number.toNat * t.pageSize := Nat.mul_le_mul_right _ hle
      rw [pageBytes, File.read_eq_map, Bytes.zeros, List.eq_replicate_iff]
      refine ⟨by simp, fun b hb => ?_⟩
      obtain ⟨i, -, rfl⟩ := List.mem_map.mp hb
      exact hends _ (by omega)
    refine ⟨q, hq, ?_⟩
    rw [readPage_of_whole rfl (hword _)
      (hlength' ▸ (hwhole (UInt32.lt_iff_toNat_lt.mp hlt)).trans
        (Nat.mul_le_mul_right _ (Nat.le_succ _) |>.trans (le_max_right _ _))),
      hother number (UInt32.ne_of_lt hlt), hzeros, Page.decode_zeros hq, mapError_ok]
  · intro number hle hlt
    rw [hp.id_eq, UInt32.lt_iff_toNat_lt] at hlt
    apply readPage_of_behind rfl (hword _)
    rw [hlength', max_lt_iff]
    exact ⟨Nat.mul_lt_mul_of_pos_right (Nat.lt_succ_of_le hle) hpos,
      Nat.mul_lt_mul_of_pos_right (Nat.succ_lt_succ hlt) hpos⟩
  · rw [hlength', hlength, hp.id_eq]
  · rw [putBytes, Disk.fileAt_setFile_self d ht.location_ne]
    exact hends.write _ _

omit hid in
/-- Pages with different numbers may be written in either order. -/
theorem contents_putBytes_comm {id' : PageId} (hq : q.Belongs id' t.schema t.pageSize)
    (hne : id'.page ≠ id.page) (l : Location) :
    ((t.putBytes (t.putBytes d id.page p.image) id'.page q.image).fileAt l).contents =
      ((t.putBytes (t.putBytes d id'.page q.image) id.page p.image).fileAt l).contents := by
  have hpos := ht.size_pos
  have hxs := hp.encode_decode.2.1
  have hys := hq.encode_decode.2.1
  by_cases hl : l = t.location
  · subst hl
    simp only [putBytes, Disk.fileAt_setFile_self _ ht.location_ne]
    apply File.contents_write_comm _ (List.ne_nil_of_length_pos (hxs ▸ hpos))
      (List.ne_nil_of_length_pos (hys ▸ hpos))
    rw [hxs, hys]
    exact pages_apart (fun h => hne (UInt32.toNat_inj.mp h).symm) t.pageSize
  · simp only [fileAt_putBytes_of_ne hl]

end Writing

/-- Writing a page, whatever was done to it, is followed by reading as it should be: the page comes
back, all others are as they were or empty, and the file is as long as it has to be. Two pages with
different numbers may be written in either order. The file has to consist of whole pages of less
than 2³² bytes, and the pages that are written have to end where a file may end. -/
theorem read_after_write {k : TableId} {size : Nat} {start : Page} (ht : t.Opened k size)
    (hsize : t.pageSize < 2 ^ 32) (hends : (d.fileAt t.location).Ends)
    (hlength : (d.fileAt t.location).length = n * t.pageSize)
    (hstart : Page.Made id t.schema t.pageSize start) (hid : id.table = t.id)
    (cs : List Page.Change) (hfits : (id.page.toNat + 1) * t.pageSize ≤ File.maxOffset) :
    ∃ d', t.writePage d (start.after cs) = .ok d' ∧ t.Wrote n (start.after cs) d d' ∧
      ∀ (id' : PageId) (start' : Page) (cs' : List Page.Change),
        Page.Made id' t.schema t.pageSize start' → id'.table = t.id → id'.page ≠ id.page →
        (id'.page.toNat + 1) * t.pageSize ≤ File.maxOffset →
          ∃ d₁ d₂ d₂', t.writePage d' (start'.after cs') = .ok d₁ ∧
            t.writePage d (start'.after cs') = .ok d₂ ∧
            t.writePage d₂ (start.after cs) = .ok d₂' ∧
              ∀ l, (d₁.fileAt l).contents = (d₂'.fileAt l).contents := by
  have hp := (Page.belongs_of_made hstart).after cs
  have hpos := ht.size_pos
  refine ⟨_, writePage_of_fits hp hpos hid hfits, wrote_putBytes ht hp hid hsize hends hlength, ?_⟩
  intro id' start' cs' hstart' hid' hne hfits'
  have hq := (Page.belongs_of_made hstart').after cs'
  exact ⟨_, _, _, writePage_of_fits hq hpos hid' hfits', writePage_of_fits hq hpos hid' hfits',
    writePage_of_fits hp hpos hid hfits, contents_putBytes_comm ht hp hq hne⟩

/-- Page 2 of a table that has only page 0, and then page 5 before or after it. -/
theorem read_after_write_gap : ∃ start start' d', Page.empty ⟨1, 2⟩ numbers.schema 9 = .ok start ∧
    Page.empty ⟨1, 5⟩ numbers.schema 9 = .ok start' ∧
    numbers.writePage oneRow (start.after [.insert ⟨[.integer 7], none⟩, .mark (some 3)]) = .ok d' ∧
    numbers.Wrote 1 (start.after [.insert ⟨[.integer 7], none⟩, .mark (some 3)]) oneRow d' ∧
      ∃ d₁ d₂ d₂', numbers.writePage d' start' = .ok d₁ ∧ numbers.writePage oneRow start' = .ok d₂ ∧
        numbers.writePage d₂ (start.after [.insert ⟨[.integer 7], none⟩, .mark (some 3)]) = .ok d₂' ∧
          ∀ l, (d₁.fileAt l).contents = (d₂'.fileAt l).contents := by
  have hends : (oneRow.fileAt numbers.location).Ends := by
    rw [oneRow, putBytes, Disk.fileAt_setFile_self _ (by decide)]
    exact File.ends_empty.write _ _
  obtain ⟨start, hstart⟩ : ∃ p, Page.empty ⟨1, 2⟩ numbers.schema 9 = .ok p :=
    Page.exists_empty ⟨1, 2⟩ rfl
  obtain ⟨start', hstart'⟩ : ∃ p, Page.empty ⟨1, 5⟩ numbers.schema 9 = .ok p :=
    Page.exists_empty ⟨1, 5⟩ rfl
  obtain ⟨d', hwrite, hwrote, hcomm⟩ := read_after_write (n := 1)
    opened_numbers (by decide) hends (by decide)
    (.inl hstart) rfl [.insert ⟨[.integer 7], none⟩, .mark (some 3)] (by decide)
  exact ⟨start, start', d', hstart, hstart', hwrite, hwrote,
    hcomm ⟨1, 5⟩ start' [] (.inl hstart') rfl (by decide) (by decide)⟩

end TableFile
end RowStore
