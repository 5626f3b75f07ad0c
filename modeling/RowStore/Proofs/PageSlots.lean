import RowStore.Proofs.RowFields

/-! What a page knows of its slots in every state: the bitmap, the rows, their record ids and the
counts agree, the bits behind the last slot stay as they were, and the bytes of the page can be
written slot by slot. -/
namespace RowStore

namespace Bytes
variable {start m n : Nat} {before bs : Bytes}

theorem zeros_add (m n : Nat) : zeros (m + n) = zeros m ++ zeros n := List.replicate_add ..

theorem slice_zeros (h : before.length = start) :
    slice (before ++ zeros (m + n)).toArray start (start + m) = .ok (zeros m) := by
  rw [slice_append h, zeros_add]
  exact front_append (length_zeros m) _

theorem patch_zeros (h : before.length = start) (hbs : bs.length = m) :
    patch start bs (before ++ zeros (m + n)) = (before ++ bs) ++ zeros n := by
  rw [patch_append h, hbs, zeros_add, List.drop_left' (length_zeros m), List.append_assoc]

end Bytes

namespace Page
variable {p start : Page} {slot n : Nat} {done : Bytes}

/-- Writes the row in a slot over the bytes of the slot; those of a free slot stay. -/
def writeSlot (p : Page) (data : Bytes) : Option Row × Nat → Except Fault Bytes
  | (none, _) => .ok data
  | (some r, slot) => do
      let (start, stop) ← p.layout.slotRange slot
      let cell ← Bytes.slice data.toArray start stop
      let cell ← r.write p.schema cell
      return Bytes.patch start cell data

/-- Writes a page over as many zeros as it has bytes: the bitmap, and then slot after slot. -/
def write (p : Page) : Except Fault Bytes :=
  if p.bitmap.size = p.layout.bitmapBytes ∧ p.layout.bitmapBytes ≤ p.layout.pageSize then
    p.slots.toList.zipIdx.foldlM p.writeSlot
      (Bytes.patch 0 p.bitmap.toList (Bytes.zeros p.layout.pageSize))
  else .error .outOfBounds

namespace Sound

theorem width_lt (h : p.Sound) : p.schema.width < wordLimit := by
  obtain ⟨-, hwidth, -⟩ := Layout.make_eq_ok.mp h.layout
  omega

/-- Writing a slot behind what is written adds the bytes of the slot, and zeros stay behind it. -/
theorem writeSlot_eq (h : p.Sound) {content : Option Row}
    (hc : p.slots.toList[slot]? = some content)
    (hdone : done.length = p.layout.bitmapBytes + slot * p.layout.slotWidth) :
    p.writeSlot (done ++ Bytes.zeros (p.layout.slotWidth + n)) (content, slot) =
      .ok ((done ++ cell p.schema content) ++ Bytes.zeros n) := by
  have hmem := List.mem_of_getElem? hc
  have hlength := (h.length_cell hmem).trans h.slotWidth_eq.symm
  cases content with
  | none => rw [writeSlot, cell, ← h.slotWidth_eq, Bytes.zeros_add, List.append_assoc]
  | some r =>
    have hslot : slot < p.layout.slotCount := by
      rw [← h.slots, ← Array.length_toList]
      exact (List.getElem?_eq_some_iff.mp hc).1
    have hwrite : r.write p.schema (Bytes.zeros p.layout.slotWidth) =
        .ok (cell p.schema (some r)) := by
      rw [Row.write_eq h.width_lt]
      exact h.encodeSlot_eq hmem
    simp only [writeSlot, (Layout.slotRange_eq h.layout hslot).1, ok_bind,
      Bytes.slice_zeros hdone, hwrite]
    exact congrArg Except.ok (Bytes.patch_zeros hdone hlength)

/-- Writing the slots from some number on, behind the bitmap and the slots before. -/
theorem foldlM_writeSlot (h : p.Sound) {before contents : List (Option Row)}
    (hslots : p.slots.toList = before ++ contents)
    (hdone : done.length = p.layout.bitmapBytes + before.length * p.layout.slotWidth) :
    (contents.zipIdx before.length).foldlM p.writeSlot
        (done ++ Bytes.zeros (contents.length * p.layout.slotWidth + n)) =
      .ok ((done ++ (contents.map (cell p.schema)).flatten) ++ Bytes.zeros n) := by
  -- `done` is the bitmap and the slots before; each step moves one slot from `contents` to `before`
  induction contents generalizing before done with
  | nil => simp [pure, Except.pure]
  | cons content contents ih =>
    have hc : p.slots.toList[before.length]? = some content := by simp [hslots]
    have hmem : content ∈ p.slots.toList := by simp [hslots]
    have hlength : (cell p.schema content).length = p.layout.slotWidth := by
      rw [h.length_cell hmem, h.slotWidth_eq]
    have hcount : (content :: contents).length * p.layout.slotWidth + n =
        p.layout.slotWidth + (contents.length * p.layout.slotWidth + n) := by
      rw [List.length_cons]
      ring
    have hslots' : p.slots.toList = (before ++ [content]) ++ contents := by simp [hslots]
    have hdone' : (done ++ cell p.schema content).length =
        p.layout.bitmapBytes + (before ++ [content]).length * p.layout.slotWidth := by
      rw [List.length_append, hdone, hlength, List.length_append, List.length_singleton]
      ring
    have hrest := ih hslots' hdone'
    rw [List.length_append, List.length_singleton] at hrest
    rw [hcount, List.zipIdx_cons, List.foldlM_cons, h.writeSlot_eq hc hdone, ok_bind, hrest,
      List.map_cons, List.flatten_cons, List.append_assoc done]

/-- Slot by slot, a page is written as it is encoded. -/
theorem write_eq_image (h : p.Sound) : p.write = .ok p.image := by
  have hroom := Layout.room h.layout
  have hbitmap : p.bitmap.toList.length = p.layout.bitmapBytes := by simp [h.bitmap]
  have hslots : p.slots.toList.length = p.layout.slotCount := by simp [h.slots]
  obtain ⟨n, hn⟩ := Nat.exists_eq_add_of_le hroom
  have hused := h.length_used
  have hzeros : (Bytes.zeros p.layout.pageSize).drop p.layout.bitmapBytes =
      Bytes.zeros (p.slots.toList.length * p.layout.slotWidth + n) := by
    rw [Bytes.zeros, List.drop_replicate, hslots, hn]
    congr 1
    omega
  have hdone : p.bitmap.toList.length =
      p.layout.bitmapBytes + ([] : List (Option Row)).length * p.layout.slotWidth := by
    simpa using hbitmap
  rw [write, if_pos ⟨h.bitmap, by omega⟩, Bytes.patch, Nat.zero_add, hbitmap, hzeros]
  apply (h.foldlM_writeSlot rfl hdone).trans
  rw [image, hused]
  congr 3
  omega

/-- The rows come from the taken slots, one from each and in their order. -/
theorem forall₂_rows (h : p.Sound) : List.Forall₂ (fun slot r => p.row? slot = some r)
    ((List.range p.layout.slotCount).filter p.isUsed) p.rows := by
  rw [h.rows_eq]
  induction List.range p.layout.slotCount with
  | nil => exact .nil
  | cons slot slots ih =>
    have hused := h.isUsed_eq slot
    cases hrow : p.row? slot with
    | none =>
      rw [hrow] at hused
      simpa [hused, hrow] using ih
    | some r =>
      rw [hrow] at hused
      simpa [hused, hrow] using ih

end Sound

theorem hasFree_iff : p.hasFree = true ↔ 0 < p.freeCount := by
  rw [hasFree, firstFree?, List.find?_isSome, freeCount, freeSlots, List.length_filter_pos_iff]

/-- The geometry of a page, and the bits of its bitmap that belong to no slot. -/
structure SameBehind (p q : Page) : Prop where
  layout : q.layout = p.layout
  bits : ∀ i, p.layout.slotCount ≤ i → q.bitmap.get i = p.bitmap.get i

theorem Sound.sameBehind_change (h : p.Sound) (c : Change) : SameBehind p (p.change c) := by
  obtain hc | ⟨slot, r, hslot, -, hc⟩ | ⟨slot, hused, hc⟩ | ⟨txn, hc⟩ := p.change_cases c
  · rw [hc]
    exact ⟨rfl, fun _ _ => rfl⟩
  · rw [hc]
    have hlt := (firstFree?_eq_some hslot).1
    have hbit : slot / 8 < p.bitmap.size := h.bitmap ▸ Layout.bit_lt h.layout hlt
    refine ⟨rfl, fun i hi => ?_⟩
    exact (Bitmap.get_set _ hbit i).trans (by simp [(hlt.trans_le hi).ne])
  · rw [hc]
    have hlt := lt_of_isUsed hused
    refine ⟨rfl, fun i hi => ?_⟩
    exact (Bitmap.get_clear _ _ i).trans (by simp [(hlt.trans_le hi).ne])
  · rw [hc]
    exact ⟨rfl, fun _ _ => rfl⟩

section Made
variable {id : PageId} {schema : Schema} {size : Nat}

theorem Belongs.sameBehind_after (h : p.Belongs id schema size) (cs : List Change) :
    SameBehind p (p.after cs) := by
  induction cs generalizing p with
  | nil => exact ⟨rfl, fun _ _ => rfl⟩
  | cons c cs ih =>
    have hstep := h.sound.sameBehind_change c
    have hrest := ih (h.change c)
    refine ⟨hrest.layout.trans hstep.layout, fun i hi => ?_⟩
    exact (hrest.bits i (hstep.layout ▸ hi)).trans (hstep.bits i hi)

/-- A state of the page `id` that began as `start`: how its bitmap, its slots and its rows tell of
the same. -/
structure Consistent (id : PageId) (schema : Schema) (size : Nat) (start p : Page) : Prop where
  place : p.id = id ∧ p.schema = schema
  layout : Layout.make size schema.width = .ok p.layout
  header : p.bitmap.size = p.layout.bitmapBytes
  slots : p.slots.size = p.layout.slotCount
  /-- The bit of a slot is set just if there is a row in it. -/
  taken : ∀ slot < p.layout.slotCount, p.bitmap.get slot = true ↔ ∃ r, p.row? slot = some r
  /-- Rows are in slots of the page only, fit the columns, and carry the record ids of the slots. -/
  stored : ∀ slot r, p.row? slot = some r → slot < p.layout.slotCount ∧
    schema.conforms r.values ∧ ∃ rid, r.rid = some rid ∧ rid.pageId = id ∧ rid.slot.toNat = slot
  /-- The rows are listed from the taken slots, one from each, the lowest slot first. -/
  rows : ∃ slots : List Nat, slots.Pairwise (· < ·) ∧
    (∀ slot, slot ∈ slots ↔ slot < p.layout.slotCount ∧ p.bitmap.get slot = true) ∧
      List.Forall₂ (fun slot r => p.row? slot = some r) slots p.rows
  count : p.freeCount ≤ p.layout.slotCount ∧ p.rows.length = p.layout.slotCount - p.freeCount
  room : p.hasFree = true ↔ 0 < p.freeCount
  /-- The bits behind the last slot are as they were at first. -/
  behind : ∀ i, p.layout.slotCount ≤ i → p.bitmap.get i = start.bitmap.get i
  /-- The page can be encoded, at once or slot by slot, in as many bytes as its size. -/
  bytes : ∃ data, p.encode = .ok data ∧ p.write = .ok data ∧ data.length = size

/-- However a page was made, the calls that it has seen leave its parts consistent. -/
theorem consistent_after (h : Made id schema size start) (hcount : start.layout.slotCount ≤ 2 ^ 32)
    (cs : List Change) : Consistent id schema size start (start.after cs) := by
  have hafter := (belongs_of_made h).after cs
  have hbehind := (belongs_of_made h).sameBehind_after cs
  generalize start.after cs = p at hafter hbehind
  obtain ⟨hsound, rfl, rfl, rfl⟩ := hafter
  constructor
  case place => exact ⟨rfl, rfl⟩
  case layout => exact hsound.layout
  case header => exact hsound.bitmap
  case slots => exact hsound.slots
  case taken =>
    intro slot hslot
    rw [hsound.taken slot hslot, Option.isSome_iff_exists]
  case stored =>
    intro slot r hrow
    obtain ⟨hconf, hrid⟩ := hsound.stored slot r hrow
    have hslot := hsound.lt_of_row? hrow
    have hnumber : slot < 2 ^ 32 := hslot.trans_le (hbehind.layout ▸ hcount)
    exact ⟨hslot, hconf, p.recordId slot, hrid, rfl, UInt32.toNat_ofNat_of_lt' hnumber⟩
  case rows =>
    refine ⟨_, List.pairwise_lt_range.filter _, fun slot => ?_, hsound.forall₂_rows⟩
    simp [isUsed]
  case count =>
    have hlength := hsound.length_rows
    omega
  case room => exact hasFree_iff
  case behind =>
    intro i hi
    exact hbehind.bits i (hbehind.layout ▸ hi)
  case bytes => exact ⟨p.image, hsound.encode_eq_image, hsound.write_eq_image, hsound.length_image⟩

/-- A page of two slots whose bitmap has stray bits: a row is stored in its second slot, the first
one is freed, a row that does not fit is refused, and the tag is set. -/
theorem consistent_after_stray_bits : ∃ start,
    decode ⟨1, 0⟩ ⟨[⟨"flag", .boolean⟩]⟩ [0x85, 1, 0] = .ok start ∧
      start.layout.slotCount ≤ 2 ^ 32 ∧
      (start.after [.insert ⟨[.boolean true], none⟩, .delete (some ⟨⟨1, 0⟩, 0⟩),
        .insert ⟨[.integer 1], none⟩, .mark (some 9)]).encode = .ok [0x86, 0, 1] ∧
      Consistent ⟨1, 0⟩ ⟨[⟨"flag", .boolean⟩]⟩ 3 start
        (start.after [.insert ⟨[.boolean true], none⟩, .delete (some ⟨⟨1, 0⟩, 0⟩),
          .insert ⟨[.integer 1], none⟩, .mark (some 9)]) := by
  obtain ⟨start, h, hcount, hbytes⟩ : ∃ start,
      decode ⟨1, 0⟩ ⟨[⟨"flag", .boolean⟩]⟩ [0x85, 1, 0] = .ok start ∧
        start.layout.slotCount ≤ 2 ^ 32 ∧
        (start.after [.insert ⟨[.boolean true], none⟩, .delete (some ⟨⟨1, 0⟩, 0⟩),
          .insert ⟨[.integer 1], none⟩, .mark (some 9)]).encode = .ok [0x86, 0, 1] :=
    ⟨_, rfl, by decide, rfl⟩
  exact ⟨start, h, hcount, hbytes, consistent_after (.inr ⟨_, rfl, h⟩) hcount _⟩

end Made
end Page
end RowStore
