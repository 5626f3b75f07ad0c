import RowStore.Proofs.Bitmap
import RowStore.Proofs.Computation
import RowStore.Proofs.RowCodec
import RowStore.Page.Codec

/-! What holds of every page that is made or read and then changed by storing and freeing rows. -/
namespace RowStore

theorem checkedWord_eq_ok {n m : Nat} : checkedWord n = .ok m ↔ n < wordLimit ∧ n = m := by
  unfold checkedWord
  split <;> simp_all

theorem checkedWord_of_lt {n : Nat} (h : n < wordLimit) : checkedWord n = .ok n := if_pos h

namespace Layout

theorem make_eq_ok {pageSize slotWidth : Nat} {l : Layout} : make pageSize slotWidth = .ok l ↔
    pageSize * 8 < wordLimit ∧ slotWidth * 8 + 1 < wordLimit ∧
      l = ⟨pageSize, slotWidth, pageSize * 8 / (slotWidth * 8 + 1),
        ceilDiv (pageSize * 8 / (slotWidth * 8 + 1)) 8⟩ := by
  unfold make
  simp only [bind_eq_ok, checkedWord_eq_ok]
  constructor
  · rintro ⟨_, ⟨hp, rfl⟩, _, ⟨hs, rfl⟩, hl⟩
    exact ⟨hp, hs, (Except.ok.inj hl).symm⟩
  · rintro ⟨hp, hs, rfl⟩
    exact ⟨_, ⟨hp, rfl⟩, _, ⟨hs, rfl⟩, rfl⟩

/-- The bitmap and the slots have room in the page. -/
theorem room {pageSize slotWidth : Nat} {l : Layout} (h : make pageSize slotWidth = .ok l) :
    l.bitmapBytes + l.slotCount * l.slotWidth ≤ l.pageSize := by
  obtain ⟨-, -, rfl⟩ := make_eq_ok.mp h
  have hdiv := Nat.div_mul_le_self (pageSize * 8) (slotWidth * 8 + 1)
  simp only [ceilDiv]
  generalize pageSize * 8 / (slotWidth * 8 + 1) = n at hdiv ⊢
  have hbits : n * (slotWidth * 8 + 1) = 8 * (n * slotWidth) + n := by ring
  omega

theorem slotRange_eq {pageSize slotWidth : Nat} {l : Layout} (h : make pageSize slotWidth = .ok l)
    {slot : Nat} (hs : slot < l.slotCount) : l.slotRange slot =
      .ok (l.bitmapBytes + slot * l.slotWidth, l.bitmapBytes + slot * l.slotWidth + l.slotWidth) ∧
        l.bitmapBytes + slot * l.slotWidth + l.slotWidth ≤ l.pageSize := by
  have hroom := room h
  have hmul : (slot + 1) * l.slotWidth ≤ l.slotCount * l.slotWidth := Nat.mul_le_mul_right _ hs
  rw [Nat.add_mul, Nat.one_mul] at hmul
  obtain ⟨hp, -, hl⟩ := make_eq_ok.mp h
  have hsize : l.pageSize = pageSize := by rw [hl]
  have hfits : l.bitmapBytes + slot * l.slotWidth + l.slotWidth ≤ l.pageSize := by omega
  refine ⟨?_, hfits⟩
  unfold slotRange slotOffset
  rw [checkedWord_of_lt (by omega), ok_bind, checkedWord_of_lt (by omega)]
  rfl

/-- The bit of a slot is in the bitmap. -/
theorem bit_lt {pageSize slotWidth : Nat} {l : Layout} (h : make pageSize slotWidth = .ok l)
    {slot : Nat} (hs : slot < l.slotCount) : slot / 8 < l.bitmapBytes := by
  obtain ⟨-, -, rfl⟩ := make_eq_ok.mp h
  simp only [ceilDiv] at hs ⊢
  omega

end Layout

namespace Page

/-- A page as all its operations keep it: its parts have the sizes of its layout, its bits say
which slots are taken, and the rows fit the columns and carry their own places. -/
structure Sound (p : Page) : Prop where
  layout : Layout.make p.layout.pageSize p.schema.width = .ok p.layout
  bitmap : p.bitmap.size = p.layout.bitmapBytes
  slots : p.slots.size = p.layout.slotCount
  taken : ∀ slot < p.layout.slotCount, p.bitmap.get slot = (p.row? slot).isSome
  stored : ∀ slot r, p.row? slot = some r →
    p.schema.conforms r.values ∧ r.rid = some (p.recordId slot)

/-- The page with a row in a slot. -/
def fill (p : Page) (slot : Nat) (r : Row) : Page :=
  { p with bitmap := p.bitmap.set slot, slots := p.slots.setIfInBounds slot (some r) }

/-- The page with a slot freed. -/
def vacate (p : Page) (slot : Nat) : Page :=
  { p with bitmap := p.bitmap.clear slot, slots := p.slots.setIfInBounds slot none }

variable {p q : Page} {slot : Nat} {r : Row}

theorem mark_of_clean (h : p.dirtiedBy = none) : p.mark none = p := by
  rw [mark, ← h]

theorem row?_fill (h : slot < p.slots.size) (r : Row) (i : Nat) :
    (p.fill slot r).row? i = if slot = i then some r else p.row? i := by
  simp only [row?, fill, Array.getElem?_setIfInBounds]
  split <;> simp_all

theorem row?_vacate (p : Page) (slot i : Nat) :
    (p.vacate slot).row? i = if slot = i then none else p.row? i := by
  simp only [row?, vacate, Array.getElem?_setIfInBounds]
  split
  · split <;> rfl
  · rfl

theorem lt_size_of_row? (h : p.row? slot = some r) : slot < p.slots.size := by
  by_contra hout
  simp [row?, hout] at h

theorem Sound.isUsed_eq (h : p.Sound) (slot : Nat) : p.isUsed slot = (p.row? slot).isSome := by
  unfold isUsed
  by_cases hs : slot < p.layout.slotCount
  · simp [hs, h.taken slot hs]
  · have hnone : p.row? slot = none := by
      unfold row?
      rw [Array.getElem?_eq_none (by rw [h.slots]; omega)]
      rfl
    simp [hs, hnone]

theorem Sound.lt_of_row? (h : p.Sound) (hrow : p.row? slot = some r) : slot < p.layout.slotCount :=
  h.slots ▸ lt_size_of_row? hrow

/-- The rows of a page are those of its slots. -/
theorem Sound.rows_eq (h : p.Sound) :
    p.rows = (List.range p.layout.slotCount).filterMap p.row? := by
  have hslots : p.slots.toList = (List.range p.layout.slotCount).map p.row? := by
    apply List.ext_getElem
    · simpa using h.slots
    · intro i hi _
      rw [List.getElem_map, List.getElem_range, row?, ← Array.getElem?_toList,
        List.getElem?_eq_getElem hi]
      rfl
  rw [rows, hslots, List.filterMap_map]
  rfl

/-- A slot has a row in it, or it is free. -/
theorem Sound.length_rows (h : p.Sound) : p.rows.length + p.freeCount = p.layout.slotCount := by
  have hused : p.rows.length = (List.range p.layout.slotCount).countP p.isUsed := by
    rw [h.rows_eq, List.length_filterMap_eq_countP]
    exact List.countP_congr fun slot _ => by rw [h.isUsed_eq]
  have hfree : p.freeCount =
      (List.range p.layout.slotCount).countP fun slot => decide ¬ p.isUsed slot = true := by
    rw [freeCount, freeSlots, ← List.countP_eq_length_filter]
    exact List.countP_congr fun slot _ => by simp
  have htotal := List.length_eq_countP_add_countP p.isUsed (l := List.range p.layout.slotCount)
  rw [List.length_range] at htotal
  omega

theorem Sound.mark (h : p.Sound) (txn : Option TxnId) : (p.mark txn).Sound :=
  ⟨h.layout, h.bitmap, h.slots, h.taken, h.stored⟩

theorem Sound.fill (h : p.Sound) (hs : slot < p.layout.slotCount) (hr : p.schema.conforms r.values) :
    (p.fill slot (r.stamped (p.recordId slot))).Sound := by
  have hslot : slot < p.slots.size := by rw [h.slots]; exact hs
  refine ⟨h.layout, ?_, ?_, ?_, ?_⟩
  · exact (Bitmap.size_set _ _).trans h.bitmap
  · exact Array.size_setIfInBounds.trans h.slots
  · intro i hi
    have hbit : slot / 8 < p.bitmap.size := by rw [h.bitmap]; exact Layout.bit_lt h.layout hs
    rw [row?_fill hslot]
    apply (Bitmap.get_set _ hbit i).trans
    by_cases hij : slot = i
    · simp [hij]
    · simp [hij, h.taken i hi]
  · intro i r' hr'
    rw [row?_fill hslot] at hr'
    split at hr'
    · next hij =>
      rw [← Option.some.inj hr', ← hij]
      exact ⟨hr, rfl⟩
    · exact h.stored i r' hr'

theorem Sound.vacate (h : p.Sound) (slot : Nat) : (p.vacate slot).Sound := by
  refine ⟨h.layout, ?_, ?_, ?_, ?_⟩
  · exact (Bitmap.size_clear _ _).trans h.bitmap
  · exact Array.size_setIfInBounds.trans h.slots
  · intro i hi
    rw [row?_vacate]
    apply (Bitmap.get_clear _ _ i).trans
    by_cases hij : slot = i
    · simp [hij]
    · simp [hij, h.taken i hi]
  · intro i r' hr'
    rw [row?_vacate] at hr'
    split at hr'
    · contradiction
    · exact h.stored i r' hr'

theorem lt_of_isUsed (h : p.isUsed slot) : slot < p.layout.slotCount := by
  simp only [isUsed, Bool.and_eq_true, decide_eq_true_eq] at h
  exact h.1

theorem firstFree?_eq_some (h : p.firstFree? = some slot) : slot < p.layout.slotCount ∧
    p.isUsed slot = false ∧ ∀ i < slot, p.isUsed i = true := by
  obtain ⟨hfree, hmem, hlow⟩ := List.find?_range_eq_some.mp h
  exact ⟨List.mem_range.mp hmem, by simpa using hfree, by simpa using hlow⟩

theorem firstFree?_eq_none (h : p.firstFree? = none) (hs : slot < p.layout.slotCount) :
    p.isUsed slot = true := by
  have := List.find?_eq_none.mp h slot (List.mem_range.mpr hs)
  simpa using this

/-- The first free slot of a page without rows is its first one. -/
theorem Sound.firstFree?_of_blank (h : p.Sound) (hslots : 0 < p.layout.slotCount)
    (hblank : ∀ slot, p.row? slot = none) : p.firstFree? = some 0 := by
  have hfree : ∀ slot, p.isUsed slot = false := fun slot => by
    rw [h.isUsed_eq, hblank]
    rfl
  cases hfirst : p.firstFree? with
  | none => simpa [hfree] using firstFree?_eq_none hfirst hslots
  | some slot =>
    obtain ⟨-, -, hlow⟩ := firstFree?_eq_some hfirst
    cases slot with
    | zero => rfl
    | succ slot => simpa [hfree] using hlow 0 (Nat.succ_pos slot)

theorem insert_eq_ok {rid : RecordId} : p.insert r = .ok (rid, q) ↔
    p.schema.conforms r.values ∧ ∃ slot, p.firstFree? = some slot ∧ rid = p.recordId slot ∧
      q = p.fill slot (r.stamped rid) := by
  unfold insert
  split
  · next hr =>
    cases p.firstFree? with
    | none => simp
    | some slot =>
      simp only [Except.ok.injEq, Prod.mk.injEq, hr, true_and, Option.some.injEq, exists_eq_left',
        fill]
      constructor
      · rintro ⟨rfl, rfl⟩
        exact ⟨rfl, rfl⟩
      · rintro ⟨rfl, rfl⟩
        exact ⟨rfl, rfl⟩
  · next hr => simp [hr]

theorem delete_eq_ok {rid? : Option RecordId} : p.delete rid? = .ok q ↔
    ∃ rid, rid? = some rid ∧ rid.pageId = p.id ∧ p.isUsed rid.slot.toNat ∧
      q = p.vacate rid.slot.toNat := by
  cases rid? with
  | none => simp [delete]
  | some rid =>
    simp only [delete, Option.some.injEq, exists_eq_left', vacate]
    split
    · next h => simp [h, eq_comm]
    · next h =>
      simp only [reduceCtorEq, false_iff]
      rintro ⟨hid, hused, -⟩
      exact h ⟨hid, hused⟩

theorem Sound.insert {rid : RecordId} (h : p.Sound) (hi : p.insert r = .ok (rid, q)) : q.Sound := by
  obtain ⟨hr, slot, hs, rfl, rfl⟩ := insert_eq_ok.mp hi
  exact h.fill (firstFree?_eq_some hs).1 hr

theorem Sound.delete {rid? : Option RecordId} (h : p.Sound) (hd : p.delete rid? = .ok q) :
    q.Sound := by
  obtain ⟨rid, -, -, -, rfl⟩ := delete_eq_ok.mp hd
  exact h.vacate _

variable {id : PageId} {schema : Schema}

theorem empty_eq_ok {size : Nat} (h : empty id schema size = .ok p) :
    ∃ l, Layout.make size schema.width = .ok l ∧
      p = ⟨id, schema, l, Array.replicate l.bitmapBytes 0, Array.replicate l.slotCount none, none⟩ := by
  obtain ⟨l, hl, h⟩ := bind_eq_ok.mp h
  exact ⟨l, hl, (Except.ok.inj h).symm⟩

theorem sound_empty {size : Nat} (h : empty id schema size = .ok p) : p.Sound := by
  obtain ⟨l, hl, rfl⟩ := empty_eq_ok h
  have hsize : l.pageSize = size := by rw [(Layout.make_eq_ok.mp hl).2.2]
  have hnone : ∀ slot, row? ⟨id, schema, l, Array.replicate l.bitmapBytes 0,
      Array.replicate l.slotCount none, none⟩ slot = none := by
    intro slot
    simp only [row?, Array.getElem?_replicate]
    split <;> rfl
  refine ⟨hsize ▸ hl, Array.size_replicate, Array.size_replicate, ?_, ?_⟩
  · intro slot _
    rw [hnone, Bitmap.get_eq_testBit, Array.getD_eq_getD_getElem?, Array.getElem?_replicate]
    split <;> simp
  · intro slot r hr
    rw [hnone] at hr
    contradiction

/-- A slot that is read is taken if its bit is set, by a row that fits and carries its place. -/
theorem decodeSlot_eq_ok {layout : Layout} {bitmap : Bitmap} {data : Array UInt8}
    {content : Option Row} (h : decodeSlot id schema layout bitmap data slot = .ok content) :
    bitmap.get slot = content.isSome ∧ ∀ r, content = some r →
      schema.conforms r.values ∧ r.rid = some ⟨id, UInt32.ofNat slot⟩ := by
  unfold decodeSlot at h
  split at h
  · next hbit =>
    obtain ⟨range, -, h⟩ := bind_eq_ok.mp h
    obtain ⟨cell, -, h⟩ := bind_eq_ok.mp h
    obtain ⟨r, hr, h⟩ := bind_eq_ok.mp h
    have hconf := Row.conforms_of_decode (mapError_eq_ok.mp hr)
    rw [← Except.ok.inj h]
    refine ⟨hbit, ?_⟩
    intro r' hr'
    rw [← Option.some.inj hr']
    exact ⟨hconf, rfl⟩
  · next hbit =>
    rw [← Except.ok.inj h]
    simpa using hbit

/-- A page that is read has the layout and the bitmap of its bytes, and each of its slots is read
for itself. -/
theorem decode_eq_ok {data : Bytes} (h : decode id schema data = .ok p) :
    Layout.make data.length schema.width = .ok p.layout ∧
      p.bitmap = (data.take p.layout.bitmapBytes).toArray ∧ p.slots.size = p.layout.slotCount ∧
      (∀ slot (hs : slot < p.slots.size),
        decodeSlot id schema p.layout p.bitmap data.toArray slot = .ok p.slots[slot]) ∧
      p.id = id ∧ p.schema = schema ∧ p.dirtiedBy = none := by
  obtain ⟨l, hl, h⟩ := bind_eq_ok.mp h
  obtain ⟨bits, hbits, h⟩ := bind_eq_ok.mp h
  obtain ⟨slots, hslots, h⟩ := bind_eq_ok.mp h
  rw [orFault_eq_ok] at hl hbits
  obtain ⟨hlen, hread⟩ := List.forall₂_iff_get.mp (mapM_eq_ok.mp hslots)
  rw [List.length_range] at hlen
  have hroom := Layout.room hl
  have hsize : l.pageSize = data.length := by rw [(Layout.make_eq_ok.mp hl).2.2]
  rw [Bytes.front_of_le _ (by omega)] at hbits
  rw [← Except.ok.inj h, ← Except.ok.inj hbits]
  refine ⟨hl, rfl, by simpa using hlen.symm, ?_, rfl, rfl, rfl⟩
  intro slot hs
  have hs' : slot < slots.length := by simpa using hs
  have := hread slot (by simpa [hlen] using hs') hs'
  simp only [List.get_eq_getElem, List.getElem_range, ← Except.ok.inj hbits] at this
  simpa using this

theorem sound_of_decode {data : Bytes} (h : decode id schema data = .ok p) :
    p.Sound ∧ p.id = id ∧ p.schema = schema ∧ p.layout.pageSize = data.length ∧
      p.dirtiedBy = none := by
  obtain ⟨hl, hbits, hsize, hread, rfl, rfl, hclean⟩ := decode_eq_ok h
  have hlength : p.layout.pageSize = data.length := by rw [(Layout.make_eq_ok.mp hl).2.2]
  have hroom := Layout.room hl
  refine ⟨⟨hlength ▸ hl, ?_, hsize, ?_, ?_⟩, rfl, rfl, hlength, hclean⟩
  · rw [hbits, List.size_toArray, List.length_take]
    omega
  · intro slot hs
    have hs' : slot < p.slots.size := hsize ▸ hs
    rw [(decodeSlot_eq_ok (hread slot hs')).1, row?, Array.getElem?_eq_getElem hs']
    rfl
  · intro slot r hr
    have hs' := lt_size_of_row? hr
    rw [row?, Array.getElem?_eq_getElem hs', Option.join_some] at hr
    exact (decodeSlot_eq_ok (hread slot hs')).2 r hr

/-- A call on a page: it stores a row, frees the slot of a record id, or sets the tag. -/
inductive Change where
  | insert (r : Row)
  | delete (rid : Option RecordId)
  | mark (txn : Option TxnId)

/-- The page after a call; a call that fails leaves it as it was. -/
def change (p : Page) : Change → Page
  | .insert r =>
      match p.insert r with
      | .ok (_, q) => q
      | .error _ => p
  | .delete rid =>
      match p.delete rid with
      | .ok q => q
      | .error _ => p
  | .mark txn => p.mark txn

def after (p : Page) (cs : List Change) : Page := cs.foldl change p

/-- What a call does to a page: nothing, or it fills the lowest free slot with a row that fits, or
frees a slot that was taken, or sets the tag. -/
theorem change_cases (p : Page) (c : Change) : p.change c = p ∨
    (∃ slot, ∃ r : Row, p.firstFree? = some slot ∧ p.schema.conforms r.values ∧
      p.change c = p.fill slot (r.stamped (p.recordId slot))) ∨
    (∃ slot, p.isUsed slot ∧ p.change c = p.vacate slot) ∨
    ∃ txn, p.change c = p.mark txn := by
  cases c with
  | insert r =>
    cases hi : p.insert r with
    | error e => exact .inl (by simp only [change, hi])
    | ok out =>
      obtain ⟨hr, slot, hslot, hrid, hq⟩ := insert_eq_ok.mp hi
      rw [hrid] at hq
      exact .inr (.inl ⟨slot, r, hslot, hr, by simp only [change, hi, hq]⟩)
  | delete rid? =>
    cases hd : p.delete rid? with
    | error e => exact .inl (by simp only [change, hd])
    | ok q =>
      obtain ⟨rid, -, -, hused, hq⟩ := delete_eq_ok.mp hd
      exact .inr (.inr (.inl ⟨rid.slot.toNat, hused, by simp only [change, hd, hq]⟩))
  | mark txn => exact .inr (.inr (.inr ⟨txn, rfl⟩))

/-- A page as it is made: with all slots free, or read from the bytes of a page. -/
def Made (id : PageId) (schema : Schema) (size : Nat) (p : Page) : Prop :=
  empty id schema size = .ok p ∨ ∃ data : Bytes, data.length = size ∧ decode id schema data = .ok p

/-- A page that is sound and is the page `id` of `size` bytes of a table with these columns. -/
structure Belongs (id : PageId) (schema : Schema) (size : Nat) (p : Page) : Prop where
  sound : p.Sound
  id_eq : p.id = id
  schema_eq : p.schema = schema
  size_eq : p.layout.pageSize = size

variable {size : Nat}

theorem belongs_of_made (h : Made id schema size p) : p.Belongs id schema size := by
  rcases h with h | ⟨data, rfl, h⟩
  · obtain ⟨l, hl, rfl⟩ := empty_eq_ok h
    exact ⟨sound_empty h, rfl, rfl, by rw [(Layout.make_eq_ok.mp hl).2.2]⟩
  · obtain ⟨hs, hid, hschema, hsize, -⟩ := sound_of_decode h
    exact ⟨hs, hid, hschema, hsize⟩

theorem Belongs.insert {rid : RecordId} (h : p.Belongs id schema size)
    (hi : p.insert r = .ok (rid, q)) : q.Belongs id schema size := by
  have hq := h.sound.insert hi
  obtain ⟨-, slot, -, -, rfl⟩ := insert_eq_ok.mp hi
  exact ⟨hq, h.id_eq, h.schema_eq, h.size_eq⟩

theorem Belongs.delete {rid? : Option RecordId} (h : p.Belongs id schema size)
    (hd : p.delete rid? = .ok q) : q.Belongs id schema size := by
  have hq := h.sound.delete hd
  obtain ⟨rid, -, -, -, rfl⟩ := delete_eq_ok.mp hd
  exact ⟨hq, h.id_eq, h.schema_eq, h.size_eq⟩

theorem Belongs.mark (h : p.Belongs id schema size) (txn : Option TxnId) :
    (p.mark txn).Belongs id schema size :=
  ⟨h.sound.mark txn, h.id_eq, h.schema_eq, h.size_eq⟩

theorem Belongs.change (h : p.Belongs id schema size) (c : Change) :
    (p.change c).Belongs id schema size := by
  obtain hc | ⟨slot, r, hslot, hr, hc⟩ | ⟨slot, -, hc⟩ | ⟨txn, hc⟩ := p.change_cases c
  · exact hc.symm ▸ h
  · have hfilled := h.sound.fill (firstFree?_eq_some hslot).1 hr
    exact hc.symm ▸ ⟨hfilled, h.id_eq, h.schema_eq, h.size_eq⟩
  · exact hc.symm ▸ ⟨h.sound.vacate slot, h.id_eq, h.schema_eq, h.size_eq⟩
  · exact hc.symm ▸ h.mark txn

theorem Belongs.after (h : p.Belongs id schema size) (cs : List Change) :
    (p.after cs).Belongs id schema size := by
  induction cs generalizing p with
  | nil => exact h
  | cons c cs ih => exact ih (h.change c)

end Page
end RowStore
