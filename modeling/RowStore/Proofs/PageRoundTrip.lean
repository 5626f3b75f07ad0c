import RowStore.Proofs.PageInvariant

/-! The bytes of a page: encoding succeeds on every sound page, and decoding gives the page back. -/
namespace RowStore.Page

variable {p : Page}

/-- The bytes of a slot. -/
def cell (schema : Schema) : Option Row → Bytes
  | none => Bytes.zeros schema.width
  | some r => Row.fields schema.columns r.values

/-- The bytes of a page: its bitmap, its slots, and zeros up to its size. -/
def image (p : Page) : Bytes :=
  let used := p.bitmap.toList ++ (p.slots.toList.map (cell p.schema)).flatten
  used ++ Bytes.zeros (p.layout.pageSize - used.length)

theorem length_flatten_of_width {cells : List Bytes} {width : Nat}
    (h : ∀ c ∈ cells, c.length = width) : cells.flatten.length = cells.length * width := by
  induction cells with
  | nil => simp
  | cons c cells ih =>
    have hc := h c (by simp)
    have ht := ih fun c' hc' => h c' (by simp [hc'])
    rw [List.flatten_cons, List.length_append, hc, ht, List.length_cons, Nat.add_mul]
    omega

/-- In a row of cells of one width, each cell lies at its number times the width. -/
theorem take_drop_flatten {cells : List Bytes} {width : Nat} (h : ∀ c ∈ cells, c.length = width)
    {i : Nat} (hi : i < cells.length) (tail : Bytes) :
    ((cells.flatten ++ tail).drop (i * width)).take width = cells[i] := by
  induction cells generalizing i with
  | nil => simp at hi
  | cons c cells ih =>
    have hc := h c (by simp)
    rw [List.flatten_cons, List.append_assoc]
    cases i with
    | zero => simp [← hc]
    | succ i =>
      have hi' : i < cells.length := by simpa using hi
      have hskip : (i + 1) * width = c.length + i * width := by rw [hc]; ring
      rw [hskip, ← List.drop_drop, List.drop_left, List.getElem_cons_succ]
      exact ih (fun c' hc' => h c' (by simp [hc'])) hi'

namespace Sound
variable {slot : Nat}

theorem slotWidth_eq (h : p.Sound) : p.layout.slotWidth = p.schema.width := by
  rw [(Layout.make_eq_ok.mp h.layout).2.2]

theorem row_of_mem (h : p.Sound) {r : Row} (hr : some r ∈ p.slots.toList) :
    p.schema.conforms r.values := by
  obtain ⟨i, hi, hir⟩ := List.getElem_of_mem hr
  have hrow : p.row? i = some r := by
    have hi' : i < p.slots.size := by simpa using hi
    rw [row?, Array.getElem?_eq_getElem hi', ← Array.getElem_toList, hir]
    rfl
  exact (h.stored i r hrow).1

theorem length_cell (h : p.Sound) {content : Option Row} (hc : content ∈ p.slots.toList) :
    (cell p.schema content).length = p.schema.width := by
  cases content with
  | none => exact Bytes.length_zeros _
  | some r => exact Row.length_fields (Row.conforms_iff_fits.mp (h.row_of_mem hc))

theorem cell_width (h : p.Sound) :
    ∀ c ∈ p.slots.toList.map (cell p.schema), c.length = p.schema.width := by
  intro c hc
  obtain ⟨content, hmem, rfl⟩ := List.mem_map.mp hc
  exact h.length_cell hmem

theorem length_used (h : p.Sound) :
    (p.bitmap.toList ++ (p.slots.toList.map (cell p.schema)).flatten).length =
      p.layout.bitmapBytes + p.layout.slotCount * p.layout.slotWidth := by
  rw [List.length_append, length_flatten_of_width h.cell_width]
  simp [h.bitmap, h.slots, h.slotWidth_eq]

theorem encodeSlot_eq (h : p.Sound) {content : Option Row} (hc : content ∈ p.slots.toList) :
    encodeSlot p.schema p.layout.slotWidth content = .ok (cell p.schema content) := by
  cases content with
  | none =>
    rw [encodeSlot, h.slotWidth_eq]
    rfl
  | some r =>
    apply Row.encode_eq_fields (h.row_of_mem hc)
    exact (Bytes.length_zeros _).trans h.slotWidth_eq

theorem encode_eq_image (h : p.Sound) : p.encode = .ok p.image := by
  have hcells : p.slots.toList.mapM (encodeSlot p.schema p.layout.slotWidth) =
      .ok (p.slots.toList.map (cell p.schema)) := by
    rw [mapM_eq_ok, List.forall₂_map_right_iff, List.forall₂_same]
    intro content hmem
    exact h.encodeSlot_eq hmem
  unfold encode
  rw [hcells, ok_bind, Bytes.padTo, if_pos]
  · rfl
  · rw [h.length_used]
    exact Layout.room h.layout

theorem length_image (h : p.Sound) : p.image.length = p.layout.pageSize := by
  have hroom := Layout.room h.layout
  have hused := h.length_used
  simp only [image, List.length_append, Bytes.length_zeros] at hused ⊢
  omega

theorem slice_image (h : p.Sound) (hs : slot < p.slots.size) :
    Bytes.slice p.image.toArray (p.layout.bitmapBytes + slot * p.layout.slotWidth)
      (p.layout.bitmapBytes + slot * p.layout.slotWidth + p.layout.slotWidth) =
        .ok (cell p.schema p.slots[slot]) := by
  have hrange := (Layout.slotRange_eq h.layout (h.slots ▸ hs)).2
  have hdrop : p.image.drop p.layout.bitmapBytes =
      (p.slots.toList.map (cell p.schema)).flatten ++ Bytes.zeros (p.layout.pageSize -
        (p.bitmap.toList ++ (p.slots.toList.map (cell p.schema)).flatten).length) := by
    simp only [image, List.append_assoc]
    rw [← h.bitmap, ← Array.length_toList, List.drop_left]
  have hcell := take_drop_flatten h.cell_width (i := slot) (by simpa using hs)
    (Bytes.zeros (p.layout.pageSize -
      (p.bitmap.toList ++ (p.slots.toList.map (cell p.schema)).flatten).length))
  rw [Bytes.slice, if_pos ⟨by omega, by simpa [h.length_image] using hrange⟩]
  rw [← hdrop, List.drop_drop, ← h.slotWidth_eq] at hcell
  simp only [List.extract_toArray, List.extract_eq_take_drop]
  rw [show ∀ a b : Nat, a + b - a = b by omega, hcell]
  simp

/-- Decoding the bytes of a slot gives the row in it. -/
theorem decodeSlot_image (h : p.Sound) (hs : slot < p.slots.size) :
    decodeSlot p.id p.schema p.layout p.bitmap p.image.toArray slot = .ok p.slots[slot] := by
  have hslot : slot < p.layout.slotCount := h.slots ▸ hs
  have hrow : p.row? slot = p.slots[slot] := by
    rw [row?, Array.getElem?_eq_getElem hs]
    rfl
  have htaken := h.taken slot hslot
  rw [hrow] at htaken
  unfold decodeSlot
  rw [htaken]
  cases hc : p.slots[slot] with
  | none => rfl
  | some r =>
    obtain ⟨hconf, hrid⟩ := h.stored slot r (hrow.trans hc)
    have hslice := h.slice_image hs
    rw [hc] at hslice
    rw [Option.isSome_some, if_pos rfl, (Layout.slotRange_eq h.layout hslot).1]
    simp only [orFault_ok, ok_bind, hslice, cell, Row.decode_fields hconf]
    obtain ⟨values, rid⟩ := r
    simp only at hrid
    rw [hrid]
    rfl

/-- A sound page comes back from its bytes as it was, but unchanged since. -/
theorem decode_image (h : p.Sound) : decode p.id p.schema p.image = .ok (p.mark none) := by
  have hslots : (List.range p.layout.slotCount).mapM
      (decodeSlot p.id p.schema p.layout p.bitmap p.image.toArray) = .ok p.slots.toList := by
    rw [mapM_eq_ok, List.forall₂_iff_get]
    refine ⟨by simp [h.slots], ?_⟩
    intro slot hs hs'
    simp only [List.get_eq_getElem, List.getElem_range, Array.getElem_toList]
    exact h.decodeSlot_image (by simpa using hs')
  have hbits : Bytes.front p.layout.bitmapBytes p.image = .ok p.bitmap.toList := by
    simp only [image, List.append_assoc]
    exact Bytes.front_append (by simp [h.bitmap]) _
  unfold decode
  rw [h.length_image, h.layout, orFault_ok, ok_bind, hbits, orFault_ok, ok_bind]
  simp only [hslots, ok_bind, Array.toArray_toList]
  rfl

end Sound

variable {id : PageId} {schema : Schema} {size : Nat}

theorem Belongs.encode_decode (h : p.Belongs id schema size) :
    p.encode = .ok p.image ∧ p.image.length = size ∧
      decode id schema p.image = .ok (p.mark none) := by
  have hd := h.sound.decode_image
  rw [h.id_eq, h.schema_eq] at hd
  exact ⟨h.sound.encode_eq_image, h.sound.length_image.trans h.size_eq, hd⟩

/-- However a page was made and whatever calls it has seen, its bytes are as many as its size and
they decode to the page itself, tag apart: the same layout, the same bitmap with the bits behind
the last slot, and in every slot the same row with its values and its record id. -/
theorem decode_encode_after {start : Page} (h : Made id schema size start) (cs : List Change) :
    ∃ data, (start.after cs).encode = .ok data ∧ data.length = size ∧
      decode id schema data = .ok ((start.after cs).mark none) :=
  ⟨_, ((belongs_of_made h).after cs).encode_decode⟩

/-- A page of one slot whose bitmap has stray bits: its row is freed, another one is stored, and a
third one finds no room. -/
theorem decode_encode_stray_bits : ∃ start,
    decode ⟨1, 0⟩ ⟨[⟨"n", .integer⟩]⟩ [0x83, 1, 0, 0, 0, 0, 0, 0, 0] = .ok start ∧
      ∃ data, (start.after [.delete (some ⟨⟨1, 0⟩, 0⟩), .insert ⟨[.integer (-5)], none⟩,
          .insert ⟨[.integer 6], none⟩, .mark (some 9)]).encode = .ok data ∧
        data.length = 9 ∧ decode ⟨1, 0⟩ ⟨[⟨"n", .integer⟩]⟩ data =
          .ok ((start.after [.delete (some ⟨⟨1, 0⟩, 0⟩), .insert ⟨[.integer (-5)], none⟩,
            .insert ⟨[.integer 6], none⟩, .mark (some 9)]).mark none) := by
  obtain ⟨start, h⟩ : ∃ start, decode ⟨1, 0⟩ ⟨[⟨"n", .integer⟩]⟩
    [0x83, 1, 0, 0, 0, 0, 0, 0, 0] = .ok start := ⟨_, rfl⟩
  exact ⟨start, h, decode_encode_after (.inr ⟨_, rfl, h⟩) _⟩

end RowStore.Page
