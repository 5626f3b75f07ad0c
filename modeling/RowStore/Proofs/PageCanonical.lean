import RowStore.Proofs.PageRoundTrip

/-! Pages that are read and written again: which of their bytes come back, and that zeros stand in
place of all others. -/
namespace RowStore

/-- The number of bytes of a field that its value takes. The rest of a text's field is padding. -/
def ColumnType.extent (type : ColumnType) (field : Bytes) : Nat :=
  match type with
  | .text _ => countSize + Bytes.toWord (field.take countSize)
  | _ => type.size

theorem ColumnType.extent_take (type : ColumnType) (buf : Bytes) :
    type.extent (buf.take type.size) = type.extent buf := by
  cases type with
  | text limit =>
    have hmin : min countSize (countSize + limit.toNat) = countSize := by omega
    simp only [extent, size, List.take_take, hmin]
  | integer | float | boolean => rfl

namespace Value
variable {type : ColumnType} {v : Value} {buf : Bytes}

theorem decodeWord_eq_ok {count n : Nat} (h : decodeWord count buf = .ok n) :
    count ≤ buf.length ∧ Bytes.toWord (buf.take count) = n := by
  obtain ⟨bs, hbs, h⟩ := bind_eq_ok.mp h
  obtain ⟨hlen, rfl⟩ := Bytes.front_eq_ok.mp (orFault_eq_ok.mp hbs)
  exact ⟨hlen, Except.ok.inj h⟩

/-- The eight bytes of a number are those that it was read from. -/
theorem ofWord_of_decodeWord {n : Nat} (h : decodeWord 8 buf = .ok n) :
    n < 2 ^ 64 ∧ Bytes.ofWord 8 n = buf.take 8 := by
  obtain ⟨hlen, rfl⟩ := decodeWord_eq_ok h
  have htake : (buf.take 8).length = 8 := by simpa using hlen
  have hlt := Bytes.toWord_lt (buf.take 8)
  have hsame := Bytes.ofWord_toWord (buf.take 8)
  rw [htake] at hlt hsame
  exact ⟨by simpa using hlt, hsame⟩

theorem bytes_of_decodeText {limit : UInt32} (h : decodeText limit buf = .ok v) :
    v.bytes = buf.take (ColumnType.extent (.text limit) buf) ∧
      ColumnType.extent (.text limit) buf ≤ (ColumnType.text limit).size := by
  obtain ⟨count, hcount, h⟩ := bind_eq_ok.mp h
  obtain ⟨hword, rfl⟩ := decodeWord_eq_ok hcount
  split at h
  · contradiction
  next hlimit =>
  obtain ⟨body, hbody, h⟩ := bind_eq_ok.mp h
  obtain ⟨-, rfl⟩ := Bytes.rest_eq_ok.mp (orFault_eq_ok.mp hbody)
  obtain ⟨bs, hbs, h⟩ := bind_eq_ok.mp h
  obtain ⟨hlen, rfl⟩ := Bytes.front_eq_ok.mp (orFault_eq_ok.mp hbs)
  split at h
  · next s hs =>
    have htext := Text.eq_toUtf8_of_readUtf8 hs
    have hsize : s.utf8ByteSize = Bytes.toWord (buf.take ColumnType.countSize) := by
      rw [← Text.length_toUtf8, ← htext, List.length_take, min_eq_left hlen]
    have hprefix : Bytes.ofWord ColumnType.countSize s.utf8ByteSize =
        buf.take ColumnType.countSize := by
      have hback := Bytes.ofWord_toWord (buf.take ColumnType.countSize)
      rwa [List.length_take, min_eq_left hword, ← hsize] at hback
    rw [← Except.ok.inj h]
    refine ⟨?_, ?_⟩
    · rw [bytes, hprefix, ← htext, ColumnType.extent, List.take_add]
    · simp only [ColumnType.extent, ColumnType.size]
      omega
  · contradiction

/-- The bytes of a value that was read are those at the front of its field. -/
theorem bytes_of_decode (h : decode type buf = .ok v) :
    v.bytes = buf.take (type.extent buf) ∧ type.extent buf ≤ type.size := by
  cases type with
  | integer =>
    obtain ⟨n, hn, rfl⟩ := map_eq_ok.mp h
    obtain ⟨hlt, hword⟩ := ofWord_of_decodeWord hn
    refine ⟨?_, le_refl _⟩
    have hnat : (Int64.ofNat n).toUInt64.toNat = n :=
      (UInt64.toNat_ofNat' ..).trans (Nat.mod_eq_of_lt hlt)
    rw [bytes, hnat]
    exact hword
  | float =>
    obtain ⟨n, hn, rfl⟩ := map_eq_ok.mp h
    obtain ⟨hlt, hword⟩ := ofWord_of_decodeWord hn
    refine ⟨?_, le_refl _⟩
    rw [bytes, UInt64.toNat_ofNat', Nat.mod_eq_of_lt hlt]
    exact hword
  | boolean =>
    obtain ⟨bs, hbs, h⟩ := bind_eq_ok.mp h
    obtain ⟨-, htake⟩ := Bytes.front_eq_ok.mp (orFault_eq_ok.mp hbs)
    refine ⟨?_, le_refl _⟩
    change v.bytes = buf.take 1
    rw [htake]
    split at h
    · rw [← Except.ok.inj h]
      rfl
    · rw [← Except.ok.inj h]
      rfl
    · contradiction
  | text limit => exact bytes_of_decodeText h

/-- A field that is read and written again keeps the bytes of its value; the rest is zeros. -/
theorem getElem?_field_of_decode (h : decode type (buf.take type.size) = .ok v)
    (hlen : type.size ≤ buf.length) {o : Nat} (ho : o < type.size) :
    (field type v)[o]? = if o < type.extent buf then buf[o]? else some 0 := by
  obtain ⟨hbytes, hle⟩ := bytes_of_decode h
  rw [ColumnType.extent_take, List.take_take, min_eq_left (ColumnType.extent_take .. ▸ hle)] at hbytes
  rw [ColumnType.extent_take] at hle
  have hlength : v.bytes.length = type.extent buf := by
    rw [hbytes, List.length_take]
    omega
  rw [field, hlength]
  split
  · next hin => rw [List.getElem?_append_left (hlength ▸ hin), hbytes, List.getElem?_take_of_lt hin]
  · next hout =>
    rw [List.getElem?_append_right (by omega), hlength, Bytes.zeros, List.getElem?_replicate,
      if_pos (by omega)]

end Value

namespace Row
variable {cs : List Column} {vs : List Value}

/-- Each byte of a row lies in the field of some column. -/
theorem exists_field {i : Nat} (h : i < Schema.totalSize cs) :
    ∃ j c o, cs[j]? = some c ∧ o < c.type.size ∧ i = Schema.totalSize (cs.take j) + o := by
  induction cs generalizing i with
  | nil => simp [Schema.totalSize] at h
  | cons c cs ih =>
    simp only [Schema.totalSize] at h
    rcases Nat.lt_or_ge i c.type.size with hin | hout
    · exact ⟨0, c, i, rfl, hin, by simp [Schema.totalSize]⟩
    · obtain ⟨j, c', o, hc, ho, hi⟩ := ih (i := i - c.type.size) (by omega)
      refine ⟨j + 1, c', o, hc, ho, ?_⟩
      simp only [List.take_succ_cons, Schema.totalSize]
      omega

theorem totalSize_take_add_le {j : Nat} {c : Column} (h : cs[j]? = some c) :
    Schema.totalSize (cs.take j) + c.type.size ≤ Schema.totalSize cs := by
  induction cs generalizing j with
  | nil => simp at h
  | cons d cs ih =>
    cases j with
    | zero =>
      obtain rfl := Option.some.inj h
      simp [Schema.totalSize]
    | succ j =>
      have := ih (j := j) (by simpa using h)
      simp only [List.take_succ_cons, Schema.totalSize]
      omega

/-- Each field of a row that is read holds a value, and is written as the field of that value. -/
theorem exists_value_of_decode {slot : Bytes} (h : decodeFields cs slot = .ok vs) {j : Nat}
    {c : Column} (hc : cs[j]? = some c) :
    ∃ v, Value.decode c.type ((slot.drop (Schema.totalSize (cs.take j))).take c.type.size) = .ok v ∧
      c.type.size ≤ (slot.drop (Schema.totalSize (cs.take j))).length ∧
      ∀ o < c.type.size,
        (fields cs vs)[Schema.totalSize (cs.take j) + o]? = (Value.field c.type v)[o]? := by
  induction cs generalizing vs slot j with
  | nil => simp at hc
  | cons d cs ih =>
    obtain ⟨buf, hbuf, h⟩ := bind_eq_ok.mp h
    obtain ⟨v, hv, h⟩ := bind_eq_ok.mp h
    obtain ⟨rest, hrest, h⟩ := bind_eq_ok.mp h
    obtain rfl := Except.ok.inj h
    obtain ⟨hlen, rfl⟩ := Bytes.front_eq_ok.mp (orFault_eq_ok.mp hbuf)
    have hv := mapError_eq_ok.mp hv
    have hfield := Value.length_field (Value.accepts_of_decode hv)
    cases j with
    | zero =>
      obtain rfl := Option.some.inj hc
      refine ⟨v, hv, hlen, fun o ho => ?_⟩
      simp only [List.take_zero, Schema.totalSize, Nat.zero_add, fields]
      exact List.getElem?_append_left (hfield ▸ ho)
    | succ j =>
      have hskip : Schema.totalSize ((d :: cs).take (j + 1)) =
          d.type.size + Schema.totalSize (cs.take j) := rfl
      obtain ⟨v', hv', hlen', hbytes⟩ := ih hrest (by simpa using hc)
      rw [List.drop_drop] at hv' hlen'
      refine ⟨v', hskip ▸ hv', hskip ▸ hlen', fun o ho => ?_⟩
      rw [hskip, Nat.add_assoc, fields, List.getElem?_append_right (by omega), hfield,
        Nat.add_sub_cancel_left]
      exact hbytes o ho

end Row

namespace Page
variable {id : PageId} {schema : Schema} {data : Bytes} {p : Page}

/-- The bytes of a page that are read: those of its bitmap, and in each taken slot those of the
values in its fields. -/
inductive Carried (schema : Schema) (l : Layout) (data : Bytes) : Nat → Prop where
  | bitmap {i : Nat} (h : i < l.bitmapBytes) : Carried schema l data i
  | value {slot j o : Nat} {c : Column} (hslot : slot < l.slotCount)
      (htaken : Bitmap.get (data.take l.bitmapBytes).toArray slot = true)
      (hcolumn : schema.columns[j]? = some c)
      (hin : o < c.type.extent (data.drop (l.bitmapBytes + slot * l.slotWidth + schema.offset j))) :
      Carried schema l data (l.bitmapBytes + slot * l.slotWidth + schema.offset j + o)

/-- The bytes of a page after it was read and written again. -/
def recode (id : PageId) (schema : Schema) (data : Bytes) : Except (Failure PageError) Bytes := do
  let p ← decode id schema data
  orFault p.encode

theorem Sound.getElem?_image_bitmap (h : p.Sound) {i : Nat} (hi : i < p.layout.bitmapBytes) :
    p.image[i]? = p.bitmap.toList[i]? := by
  have hi' : i < p.bitmap.toList.length := by simpa [h.bitmap] using hi
  rw [image, List.append_assoc, List.getElem?_append_left hi']

/-- The bytes of a slot lie in the page where its layout says. -/
theorem Sound.getElem?_image_slot (h : p.Sound) {slot r : Nat} (hs : slot < p.slots.size)
    (hr : r < p.layout.slotWidth) :
    p.image[p.layout.bitmapBytes + slot * p.layout.slotWidth + r]? =
      (cell p.schema p.slots[slot])[r]? := by
  have hslice := h.slice_image hs
  unfold Bytes.slice at hslice
  split at hslice
  · have hcell := Except.ok.inj hslice
    rw [← hcell, List.extract_toArray, List.extract_eq_take_drop, List.getElem?_take_of_lt (by omega),
      List.getElem?_drop]
  · contradiction

theorem Sound.getElem?_image_behind (h : p.Sound) {i : Nat}
    (hi : p.layout.bitmapBytes + p.layout.slotCount * p.layout.slotWidth ≤ i)
    (hsize : i < p.layout.pageSize) : p.image[i]? = some 0 := by
  have hused := h.length_used
  rw [image, List.getElem?_append_right (by omega), Bytes.zeros, List.getElem?_replicate,
    if_pos (by omega)]

/-- The row of a taken slot is read from the bytes where the layout has the slot. -/
theorem decodeSlot_of_taken {l : Layout} {size slot : Nat} {bitmap : Bitmap} {content : Option Row}
    (hl : Layout.make size schema.width = .ok l) (hslot : slot < l.slotCount)
    (htaken : bitmap.get slot = true)
    (h : decodeSlot id schema l bitmap data.toArray slot = .ok content) :
    ∃ vs, content = some ⟨vs, some ⟨id, UInt32.ofNat slot⟩⟩ ∧
      Row.decodeFields schema.columns
        ((data.drop (l.bitmapBytes + slot * l.slotWidth)).take l.slotWidth) = .ok vs := by
  unfold decodeSlot at h
  rw [if_pos htaken, (Layout.slotRange_eq hl hslot).1, orFault_ok, ok_bind] at h
  obtain ⟨cell, hcell, h⟩ := bind_eq_ok.mp h
  obtain ⟨r, hr, h⟩ := bind_eq_ok.mp h
  obtain ⟨vs, hvs, rfl⟩ := map_eq_ok.mp (mapError_eq_ok.mp hr)
  refine ⟨vs, (Except.ok.inj h).symm, ?_⟩
  have hslice := orFault_eq_ok.mp hcell
  unfold Bytes.slice at hslice
  split at hslice
  · have hbytes := Except.ok.inj hslice
    simp only [List.extract_toArray, List.extract_eq_take_drop, Nat.add_sub_cancel_left] at hbytes
    exact hbytes ▸ hvs
  · contradiction

section Decoded
variable (h : decode id schema data = .ok p)
include h

theorem getElem?_bitmap_of_decode {i : Nat} (hi : i < p.layout.bitmapBytes) :
    p.image[i]? = data[i]? := by
  obtain ⟨-, hbits, -⟩ := decode_eq_ok h
  rw [(sound_of_decode h).1.getElem?_image_bitmap hi, hbits, List.getElem?_take_of_lt hi]

/-- A taken slot that is read and written again keeps in each field the bytes of its value, which
are no more than the field has. -/
theorem taken_of_decode {slot j : Nat} {c : Column} (hslot : slot < p.layout.slotCount)
    (htaken : p.bitmap.get slot = true) (hc : schema.columns[j]? = some c) :
    c.type.extent (data.drop (p.layout.bitmapBytes + slot * p.layout.slotWidth + schema.offset j)) ≤
        c.type.size ∧
      ∀ o < c.type.size,
        p.image[p.layout.bitmapBytes + slot * p.layout.slotWidth + schema.offset j + o]? =
          if o < c.type.extent
              (data.drop (p.layout.bitmapBytes + slot * p.layout.slotWidth + schema.offset j)) then
            data[p.layout.bitmapBytes + slot * p.layout.slotWidth + schema.offset j + o]?
          else some 0 := by
  obtain ⟨hsound, -, hschema, -, -⟩ := sound_of_decode h
  obtain ⟨hl, -, hsize, hread, -⟩ := decode_eq_ok h
  have hs : slot < p.slots.size := hsize ▸ hslot
  obtain ⟨vs, hrow, hvs⟩ := decodeSlot_of_taken hl hslot htaken (hread slot hs)
  have hwidth : p.layout.slotWidth = schema.width := hschema ▸ hsound.slotWidth_eq
  have hoffset : schema.offset j + c.type.size ≤ p.layout.slotWidth :=
    hwidth ▸ Row.totalSize_take_add_le hc
  generalize hstart : p.layout.bitmapBytes + slot * p.layout.slotWidth = start at *
  obtain ⟨v, hv, hlen, hbytes⟩ := Row.exists_value_of_decode hvs hc
  rw [show Schema.totalSize (schema.columns.take j) = schema.offset j from rfl] at hv hlen hbytes
  -- the field lies in the slot, so that the end of the slot cuts nothing off it
  have hfield : (((data.drop start).take p.layout.slotWidth).drop (schema.offset j)).take
      c.type.size = (data.drop (start + schema.offset j)).take c.type.size := by
    rw [List.drop_take, List.take_take, List.drop_drop, min_eq_left (by omega)]
  have hroom : c.type.size ≤ (data.drop (start + schema.offset j)).length := by
    rw [List.drop_take, List.length_take, List.drop_drop] at hlen
    exact hlen.trans (min_le_right _ _)
  rw [hfield] at hv
  refine ⟨ColumnType.extent_take .. ▸ (Value.bytes_of_decode hv).2, fun o ho => ?_⟩
  have hvalue := Value.getElem?_field_of_decode hv hroom ho
  rw [List.getElem?_drop, ← hbytes o ho] at hvalue
  rw [← hvalue, Nat.add_assoc, ← hstart, hsound.getElem?_image_slot hs (by omega), hrow, hschema]
  rfl

/-- The bytes that are read are kept. -/
theorem getElem?_image_of_carried {i : Nat} (hi : Carried schema p.layout data i) :
    p.image[i]? = data[i]? := by
  obtain ⟨-, hbits, -⟩ := decode_eq_ok h
  cases hi with
  | bitmap hi => exact getElem?_bitmap_of_decode h hi
  | @value slot j o c hslot htaken hc hin =>
    obtain ⟨hextent, hbytes⟩ := taken_of_decode h hslot (hbits ▸ htaken) hc
    rw [hbytes o (hin.trans_le hextent), if_pos hin]

/-- All other bytes become zeros. -/
theorem getElem?_image_of_not_carried {i : Nat} (hi : i < data.length)
    (hnot : ¬ Carried schema p.layout data i) : p.image[i]? = some 0 := by
  obtain ⟨hsound, -, hschema, hlength, -⟩ := sound_of_decode h
  obtain ⟨-, hbits, hsize, -⟩ := decode_eq_ok h
  have hwidth : p.layout.slotWidth = schema.width := hschema ▸ hsound.slotWidth_eq
  rcases Nat.lt_or_ge i p.layout.bitmapBytes with hbitmap | hbitmap
  · exact absurd (.bitmap hbitmap) hnot
  rcases Nat.lt_or_ge i (p.layout.bitmapBytes + p.layout.slotCount * p.layout.slotWidth) with
    hslots | hbehind
  · -- byte `i` is byte `r` of slot number `slot`
    have hpos : 0 < p.layout.slotWidth := by
      by_contra hzero
      simp only [Nat.eq_zero_of_not_pos hzero, Nat.mul_zero] at hslots
      omega
    obtain ⟨slot, r, hr, rfl⟩ : ∃ slot r, r < p.layout.slotWidth ∧
        p.layout.bitmapBytes + slot * p.layout.slotWidth + r = i := by
      refine ⟨(i - p.layout.bitmapBytes) / p.layout.slotWidth,
        (i - p.layout.bitmapBytes) % p.layout.slotWidth, Nat.mod_lt _ hpos, ?_⟩
      have := Nat.div_add_mod' (i - p.layout.bitmapBytes) p.layout.slotWidth
      omega
    have hslot : slot < p.layout.slotCount := by
      have hlt : slot * p.layout.slotWidth < p.layout.slotCount * p.layout.slotWidth := by omega
      exact Nat.lt_of_mul_lt_mul_right hlt
    have hslot' : slot < p.slots.size := hsize ▸ hslot
    cases htaken : p.bitmap.get slot with
    | false =>
      have hfree : p.slots[slot] = none := by
        have hrow := hsound.taken slot hslot
        rw [htaken, row?, Array.getElem?_eq_getElem hslot'] at hrow
        exact Option.not_isSome_iff_eq_none.mp (by simpa using hrow.symm)
      rw [hsound.getElem?_image_slot hslot' hr, hfree, cell, Bytes.zeros,
        List.getElem?_replicate, if_pos (by rwa [hschema, ← hwidth])]
    | true =>
      have hfield : r < Schema.totalSize schema.columns := hr.trans_eq hwidth
      obtain ⟨j, c, o, hc, ho, rfl⟩ := Row.exists_field hfield
      rw [← Nat.add_assoc] at hnot ⊢
      have hpadding := (taken_of_decode h hslot htaken hc).2 o ho
      rw [if_neg fun hin => hnot (.value hslot (hbits ▸ htaken) hc hin)] at hpadding
      exact hpadding
  · exact hsound.getElem?_image_behind hbehind (hlength ▸ hi)

end Decoded

/-- Reading a page and writing it again keeps all bytes that are read and makes all others zero.
So the bytes are as they were just if all these were zero before; and those that are written read
as the same page and are written as they are. -/
theorem encode_decode_canonical (h : decode id schema data = .ok p) :
    Layout.make data.length schema.width = .ok p.layout ∧
      ∃ data', p.encode = .ok data' ∧ data'.length = data.length ∧
        (∀ i, Carried schema p.layout data i → data'[i]? = data[i]?) ∧
        (∀ i < data.length, ¬ Carried schema p.layout data i → data'[i]? = some 0) ∧
        (data' = data ↔ ∀ i < data.length, ¬ Carried schema p.layout data i → data[i]? = some 0) ∧
        decode id schema data' = .ok p ∧ recode id schema data' = .ok data' := by
  obtain ⟨hsound, rfl, rfl, hlength, hclean⟩ := sound_of_decode h
  have hencode := hsound.encode_eq_image
  have hdecode := hsound.decode_image
  have hsize := hsound.length_image.trans hlength
  rw [mark_of_clean hclean] at hdecode
  refine ⟨(decode_eq_ok h).1, p.image, hencode, hsize, fun i => getElem?_image_of_carried h,
    fun i => getElem?_image_of_not_carried h, ⟨?_, ?_⟩, hdecode, ?_⟩
  · intro hsame i hi hnot
    rw [← hsame]
    exact getElem?_image_of_not_carried h hi hnot
  · intro hzero
    apply List.ext_getElem?
    intro i
    by_cases hi : Carried p.schema p.layout data i
    · exact getElem?_image_of_carried h hi
    · rcases Nat.lt_or_ge i data.length with hin | hout
      · rw [getElem?_image_of_not_carried h hin hi, hzero i hin hi]
      · rw [List.getElem?_eq_none (hsize ▸ hout), List.getElem?_eq_none hout]
  · rw [recode, hdecode, ok_bind, hencode]
    rfl

/-- The columns of a text of at most three bytes and of a truth value. -/
def noteSchema : Schema := ⟨[⟨"note", .text 3⟩, ⟨"done", .boolean⟩]⟩

/-- A page of two such rows of which the first is there, with stray bits in its bitmap, and with
bytes that are not zero in the padding of the text, in the free slot and behind the slots. -/
def notePage : Bytes :=
  [0xF1, 2, 0, 0, 0, 104, 105, 0x55, 1, 7, 7, 7, 7, 7, 7, 7, 7, 9, 9, 9]

theorem encode_decode_canonical_note : ∃ p, decode ⟨1, 0⟩ noteSchema notePage = .ok p ∧
    p.encode = .ok [0xF1, 2, 0, 0, 0, 104, 105, 0, 1, 0, 0, 0, 0, 0, 0, 0, 0, 0, 0, 0] ∧
    Layout.make notePage.length noteSchema.width = .ok p.layout ∧
      ∃ data', p.encode = .ok data' ∧ data'.length = notePage.length ∧
        (∀ i, Carried noteSchema p.layout notePage i → data'[i]? = notePage[i]?) ∧
        (∀ i < notePage.length, ¬ Carried noteSchema p.layout notePage i → data'[i]? = some 0) ∧
        (data' = notePage ↔
          ∀ i < notePage.length, ¬ Carried noteSchema p.layout notePage i → notePage[i]? = some 0) ∧
        decode ⟨1, 0⟩ noteSchema data' = .ok p ∧ recode ⟨1, 0⟩ noteSchema data' = .ok data' := by
  obtain ⟨p, h, hencode⟩ : ∃ p, decode ⟨1, 0⟩ noteSchema notePage = .ok p ∧
      p.encode = .ok [0xF1, 2, 0, 0, 0, 104, 105, 0, 1, 0, 0, 0, 0, 0, 0, 0, 0, 0, 0, 0] :=
    ⟨_, rfl, rfl⟩
  exact ⟨p, h, hencode, encode_decode_canonical h⟩

end Page
end RowStore
