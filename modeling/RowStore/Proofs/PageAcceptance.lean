import RowStore.Proofs.PageCanonical
import RowStore.Proofs.RowAcceptance

/-! Which bytes are a page. Reading bytes as a page never leaves them and stops at nothing but a
bad field: it gives a page just if every taken slot holds a row, and names the lowest bad slot
otherwise. What free slots hold, padding, and bits and bytes without a slot do not matter. -/
namespace RowStore

theorem map_eq_error {ε α β : Type} {x : Except ε α} {f : α → β} {e : ε} :
    x.map f = .error e ↔ x = .error e := by
  cases x <;> simp [Except.map]

/-- A computation over a list stops at the first member that it fails for. -/
theorem mapM_eq_error {ε α β : Type} {f : α → Except ε β} {as : List α} {e : ε} :
    as.mapM f = .error e ↔ ∃ (i : Nat) (a : α), as[i]? = some a ∧ f a = .error e ∧
      ∀ k < i, ∀ b, as[k]? = some b → ∃ r, f b = .ok r := by
  induction as with
  | nil =>
    refine iff_of_false nofun ?_
    rintro ⟨i, a, ha, -⟩
    simp at ha
  | cons a as ih =>
    rw [List.mapM_cons]
    cases ha : f a with
    | error e' =>
      rw [error_bind, Except.error.injEq]
      constructor
      · rintro rfl
        exact ⟨0, a, rfl, ha, fun k hk => absurd hk (Nat.not_lt_zero k)⟩
      · rintro ⟨i, b, hb, hfb, hbefore⟩
        cases i with
        | zero =>
          obtain rfl := Option.some.inj hb
          exact Except.error.inj (ha.symm.trans hfb)
        | succ i =>
          obtain ⟨r, hr⟩ := hbefore 0 i.succ_pos a rfl
          exact absurd (ha.symm.trans hr) nofun
    | ok r =>
      have hrest : (Except.ok r >>= fun r => as.mapM f >>= fun rs => pure (r :: rs)) = .error e ↔
          as.mapM f = .error e := by
        cases as.mapM f <;> simp [pure, Except.pure]
      rw [hrest, ih]
      constructor
      · rintro ⟨i, b, hb, hfb, hbefore⟩
        refine ⟨i + 1, b, hb, hfb, ?_⟩
        intro k hk d hd
        cases k with
        | zero =>
          obtain rfl := Option.some.inj hd
          exact ⟨r, ha⟩
        | succ k => exact hbefore k (by omega) d hd
      · rintro ⟨i, b, hb, hfb, hbefore⟩
        cases i with
        | zero =>
          obtain rfl := Option.some.inj hb
          exact absurd (ha.symm.trans hfb) nofun
        | succ i => exact ⟨i, b, hb, hfb, fun k hk => hbefore (k + 1) (by omega)⟩

theorem mapM_congr {ε α β : Type} {f g : α → Except ε β} {as : List α}
    (h : ∀ a ∈ as, f a = g a) : as.mapM f = as.mapM g := by
  induction as with
  | nil => rfl
  | cons a as ih =>
    rw [List.mapM_cons, List.mapM_cons, h a List.mem_cons_self,
      ih fun b hb => h b (List.mem_cons_of_mem a hb)]

namespace Page
variable {id : PageId} {schema : Schema} {l : Layout} {data data' : Bytes} {slot : Nat}

/-- Whether the bit of a slot is set. -/
def taken (data : Bytes) (slot : Nat) : Bool :=
  (data.getD (slot / 8) 0).toNat.testBit (slot % 8)

/-- The bytes of a slot. -/
def slotBytes (l : Layout) (data : Bytes) (slot : Nat) : Bytes :=
  (data.drop (l.bitmapBytes + slot * l.slotWidth)).take l.slotWidth

/-- The bytes of column `j` in a slot. -/
def fieldBytes (schema : Schema) (l : Layout) (data : Bytes) (slot j : Nat) (c : Column) : Bytes :=
  Row.fieldAt schema.columns (slotBytes l data slot) j c

/-- Whether each field of a slot holds a value of its column. -/
def HoldsRow (schema : Schema) (l : Layout) (data : Bytes) (slot : Nat) : Prop :=
  ∀ (j : Nat) (c : Column), schema.columns[j]? = some c →
    c.type.WellFormed (fieldBytes schema l data slot j c)

/-- The lowest taken slot that holds no row, the first bad column in it, and what is wrong. -/
structure FirstFlaw (schema : Schema) (l : Layout) (data : Bytes) (slot j : Nat) (c : Column)
    (cause : FieldError) : Prop where
  slot_lt : slot < l.slotCount
  taken : taken data slot
  below : ∀ k < slot, Page.taken data k → HoldsRow schema l data k
  column : schema.columns[j]? = some c
  before : ∀ i < j, ∀ d : Column, schema.columns[i]? = some d →
    d.type.WellFormed (fieldBytes schema l data slot i d)
  flaw : c.type.Flaw (fieldBytes schema l data slot j c) cause

/-- Bytes that differ at most in what free slots hold, in padding, and in bits and bytes that
belong to no slot. -/
structure Alike (schema : Schema) (l : Layout) (data data' : Bytes) : Prop where
  length : data'.length = data.length
  taken : ∀ slot < l.slotCount, taken data' slot = taken data slot
  fields : ∀ slot < l.slotCount, Page.taken data slot → ∀ (j : Nat) (c : Column),
    schema.columns[j]? = some c →
      (fieldBytes schema l data' slot j c).take (c.type.inspected (fieldBytes schema l data slot j c)) =
        (fieldBytes schema l data slot j c).take
          (c.type.inspected (fieldBytes schema l data slot j c))

section Made
variable (hl : Layout.make data.length schema.width = .ok l)
include hl

theorem pageSize_of_make : l.pageSize = data.length := by rw [(Layout.make_eq_ok.mp hl).2.2]

theorem bitmapBytes_le : l.bitmapBytes ≤ data.length := by
  have := Layout.room hl
  have := pageSize_of_make hl
  omega

theorem get_bitmap (hs : slot < l.slotCount) :
    Bitmap.get (data.take l.bitmapBytes).toArray slot = taken data slot := by
  have hbit := Layout.bit_lt hl hs
  rw [Bitmap.get_eq_testBit, taken, Array.getD_eq_getD_getElem?, List.getElem?_toArray,
    List.getElem?_take_of_lt hbit, List.getD_eq_getElem?_getD]

theorem length_slotBytes (hs : slot < l.slotCount) :
    (slotBytes l data slot).length = Schema.totalSize schema.columns := by
  have hfits := (Layout.slotRange_eq hl hs).2
  have hsize := pageSize_of_make hl
  have hwidth : l.slotWidth = Schema.totalSize schema.columns := by
    rw [(Layout.make_eq_ok.mp hl).2.2]
    rfl
  rw [slotBytes, List.length_take, List.length_drop]
  omega

/-- A taken slot is read as the row in its bytes, a free one is not looked at. -/
theorem decodeSlot_eq (hs : slot < l.slotCount) :
    decodeSlot id schema l (data.take l.bitmapBytes).toArray data.toArray slot =
      if taken data slot then
        ((Row.decodeFields schema.columns (slotBytes l data slot)).mapError
          (Failure.map (PageError.corrupt id (UInt32.ofNat slot)))).map
            fun vs => some ⟨vs, some ⟨id, UInt32.ofNat slot⟩⟩
      else .ok none := by
  have hsize := pageSize_of_make hl
  obtain ⟨hrange, hfits⟩ := Layout.slotRange_eq hl hs
  rw [decodeSlot, get_bitmap hl hs]
  split
  · have hslice : Bytes.slice data.toArray (l.bitmapBytes + slot * l.slotWidth)
        (l.bitmapBytes + slot * l.slotWidth + l.slotWidth) = .ok (slotBytes l data slot) := by
      rw [Bytes.slice, if_pos ⟨by omega, by rw [List.size_toArray]; omega⟩, List.extract_toArray,
        List.extract_eq_take_drop, Nat.add_sub_cancel_left]
      rfl
    rw [hrange, orFault_ok, ok_bind]
    change (orFault (Bytes.slice data.toArray (l.bitmapBytes + slot * l.slotWidth)
      (l.bitmapBytes + slot * l.slotWidth + l.slotWidth)) >>= _) = _
    rw [hslice, orFault_ok, ok_bind, Row.decode]
    cases Row.decodeFields schema.columns (slotBytes l data slot) <;> rfl
  · rfl

theorem exists_decodeSlot_iff (hs : slot < l.slotCount) :
    (∃ content, decodeSlot id schema l (data.take l.bitmapBytes).toArray data.toArray slot =
      .ok content) ↔ (taken data slot → HoldsRow schema l data slot) := by
  rw [decodeSlot_eq hl hs]
  split
  · next htaken =>
    rw [imp_iff_right htaken]
    refine Iff.trans ?_ (Row.exists_decodeFields_iff (length_slotBytes hl hs))
    cases Row.decodeFields schema.columns (slotBytes l data slot) <;> simp [Except.map]
  · next hfree => exact iff_of_true ⟨none, rfl⟩ fun htaken => absurd htaken hfree

/-- Reading a taken slot fails only for the first bad column in it. -/
theorem decodeSlot_eq_error (hs : slot < l.slotCount) {x : Failure PageError} :
    decodeSlot id schema l (data.take l.bitmapBytes).toArray data.toArray slot = .error x ↔
      taken data slot ∧ ∃ e, x = .error (.corrupt id (UInt32.ofNat slot) e) ∧
        Row.FirstFlaw schema.columns (slotBytes l data slot) e := by
  rw [decodeSlot_eq hl hs]
  split
  · next htaken =>
    rw [map_eq_error, mapError_eq_error, and_iff_right htaken]
    simp only [Row.decodeFields_eq_error (length_slotBytes hl hs)]
    constructor
    · rintro ⟨_, ⟨e, rfl, hfirst⟩, rfl⟩
      exact ⟨e, rfl, hfirst⟩
    · rintro ⟨e, rfl, hfirst⟩
      exact ⟨_, ⟨e, rfl, hfirst⟩, rfl⟩
  · next hfree => exact iff_of_false nofun fun h => hfree h.1

/-- Bytes that have a layout are read slot by slot. -/
theorem decode_eq : decode id schema data =
    ((List.range l.slotCount).mapM
      (decodeSlot id schema l (data.take l.bitmapBytes).toArray data.toArray)).map fun slots =>
        ⟨id, schema, l, (data.take l.bitmapBytes).toArray, slots.toArray, none⟩ := by
  rw [decode, hl, orFault_ok, ok_bind, Bytes.front_of_le _ (bitmapBytes_le hl), orFault_ok, ok_bind]
  change ((List.range l.slotCount).mapM
    (decodeSlot id schema l (data.take l.bitmapBytes).toArray data.toArray) >>= _) = _
  cases (List.range l.slotCount).mapM
    (decodeSlot id schema l (data.take l.bitmapBytes).toArray data.toArray) <;> rfl

/-- A bad slot is read up to its first bad column. -/
theorem FirstFlaw.decodeSlot {j : Nat} {c : Column} {cause : FieldError}
    (h : FirstFlaw schema l data slot j c cause) :
    decodeSlot id schema l (data.take l.bitmapBytes).toArray data.toArray slot =
      .error (.error (.corrupt id (UInt32.ofNat slot) ⟨c.name, cause⟩)) :=
  (decodeSlot_eq_error hl h.slot_lt).mpr ⟨h.taken, _, rfl, j, c, h.column, rfl, h.flaw, h.before⟩

/-- Reading a page fails only for the first bad column of its lowest bad slot. -/
theorem decode_eq_error {x : Failure PageError} : decode id schema data = .error x ↔
    ∃ slot j c cause, FirstFlaw schema l data slot j c cause ∧
      x = .error (.corrupt id (UInt32.ofNat slot) ⟨c.name, cause⟩) := by
  rw [decode_eq hl, map_eq_error, mapM_eq_error]
  constructor
  · rintro ⟨i, slot, hi, hx, hbefore⟩
    obtain ⟨hlt, rfl⟩ := List.getElem?_eq_some_iff.mp hi
    rw [List.getElem_range] at hx
    rw [List.length_range] at hlt
    obtain ⟨htaken, ⟨column, cause⟩, rfl, j, c, hc, rfl, hflaw, hfields⟩ :=
      (decodeSlot_eq_error hl hlt).mp hx
    refine ⟨i, j, c, cause, ⟨hlt, htaken, ?_, hc, hfields, hflaw⟩, rfl⟩
    intro k hk
    have hk' : k < l.slotCount := hk.trans hlt
    exact (exists_decodeSlot_iff hl hk').mp (hbefore k hk k (List.getElem?_range hk'))
  · rintro ⟨slot, j, c, cause, h, rfl⟩
    refine ⟨slot, slot, List.getElem?_range h.slot_lt, h.decodeSlot hl, ?_⟩
    intro k hk b hb
    have hk' : k < l.slotCount := hk.trans h.slot_lt
    rw [List.getElem?_range hk'] at hb
    obtain rfl := Option.some.inj hb
    exact (exists_decodeSlot_iff hl hk').mpr (h.below k hk)

/-- Bytes are a page just if every taken slot holds a row. -/
theorem exists_decode_iff : (∃ p, decode id schema data = .ok p) ↔
    ∀ slot < l.slotCount, taken data slot → HoldsRow schema l data slot := by
  constructor
  · rintro ⟨p, hp⟩ slot hs
    obtain ⟨hl', hbits, hsize, hread, -⟩ := decode_eq_ok hp
    obtain rfl : l = p.layout := Except.ok.inj (hl.symm.trans hl')
    rw [← exists_decodeSlot_iff hl hs, ← hbits]
    exact ⟨_, hread slot (hsize ▸ hs)⟩
  · intro hrows
    cases hp : decode id schema data with
    | ok p => exact ⟨p, rfl⟩
    | error x =>
      obtain ⟨slot, j, c, cause, h, -⟩ := (decode_eq_error hl).mp hp
      obtain ⟨content, hok⟩ : ∃ content, decodeSlot id schema l (data.take l.bitmapBytes).toArray
          data.toArray slot = .ok content :=
        (exists_decodeSlot_iff hl h.slot_lt).mpr (hrows slot h.slot_lt)
      rw [h.decodeSlot hl] at hok
      contradiction

theorem decodeSlot_congr (h : Alike schema l data data') (hs : slot < l.slotCount) :
    decodeSlot id schema l (data'.take l.bitmapBytes).toArray data'.toArray slot =
      decodeSlot id schema l (data.take l.bitmapBytes).toArray data.toArray slot := by
  have hl' : Layout.make data'.length schema.width = .ok l := h.length ▸ hl
  rw [decodeSlot_eq hl hs, decodeSlot_eq hl' hs, h.taken slot hs]
  split
  · next htaken =>
    rw [Row.decodeFields_congr (length_slotBytes hl hs) (length_slotBytes hl' hs)
      fun j c hc => (h.fields slot hs htaken j c hc).symm]
  · rfl

/-- Bytes that are alike are read alike: they have the same first flaw, or give pages that differ
at most in bits without a slot. -/
theorem decode_congr (h : Alike schema l data data') :
    Agree (fun p q => q = { p with bitmap := q.bitmap })
      (decode id schema data) (decode id schema data') := by
  have hl' : Layout.make data'.length schema.width = .ok l := h.length ▸ hl
  have hslots : (List.range l.slotCount).mapM
      (decodeSlot id schema l (data'.take l.bitmapBytes).toArray data'.toArray) =
        (List.range l.slotCount).mapM
          (decodeSlot id schema l (data.take l.bitmapBytes).toArray data.toArray) :=
    mapM_congr fun slot hs => decodeSlot_congr hl h (List.mem_range.mp hs)
  rw [decode_eq hl, decode_eq hl', hslots]
  cases (List.range l.slotCount).mapM
    (decodeSlot id schema l (data.take l.bitmapBytes).toArray data.toArray) <;> rfl

end Made

/-- Bytes of any length and any columns whose sizes can be counted are read without leaving them.
They are a page just if every taken slot holds a row in all its fields; otherwise the error names
the page, the lowest slot that does not, the first bad column in it and what is wrong there. Bytes
that differ only in what free slots hold, in padding, and in bits and bytes that belong to no slot
have the same rows or the same error. -/
theorem decode_accepts_pages (id : PageId) (schema : Schema) (data : Bytes)
    (hdata : data.length < 2 ^ 61) (hwidth : schema.width * 8 + 1 < wordLimit)
    (hcount : data.length * 8 / (schema.width * 8 + 1) ≤ 2 ^ 32) :
    ∃ l, Layout.make data.length schema.width = .ok l ∧ l.bitmapBytes ≤ data.length ∧
      (∀ slot < l.slotCount, slot / 8 < l.bitmapBytes ∧ ∃ start stop,
        l.slotRange slot = .ok (start, stop) ∧ start ≤ stop ∧ stop ≤ data.length) ∧
      (∀ f, decode id schema data ≠ .error (.fault f)) ∧
      ((∃ p, decode id schema data = .ok p) ↔
        ∀ slot < l.slotCount, taken data slot → HoldsRow schema l data slot) ∧
      (∀ e, decode id schema data = .error (.error e) ↔
        ∃ (slot : UInt32) (j : Nat) (c : Column) (cause : FieldError),
          FirstFlaw schema l data slot.toNat j c cause ∧ e = .corrupt id slot ⟨c.name, cause⟩) ∧
      ∀ data', Alike schema l data data' →
        Agree (fun p q => q = { p with bitmap := q.bitmap })
          (decode id schema data) (decode id schema data') := by
  have hbits : data.length * 8 < wordLimit := by
    simp only [wordLimit]
    omega
  have hl := Layout.make_eq_ok.mpr ⟨hbits, hwidth, rfl⟩
  refine ⟨_, hl, bitmapBytes_le hl, ?_, ?_, exists_decode_iff hl, ?_, fun _ => decode_congr hl⟩
  · intro slot hs
    obtain ⟨hrange, hfits⟩ := Layout.slotRange_eq hl hs
    exact ⟨Layout.bit_lt hl hs, _, _, hrange, Nat.le_add_right _ _, hfits⟩
  · intro f hf
    obtain ⟨_, _, _, _, _, hx⟩ := (decode_eq_error hl).mp hf
    exact absurd hx nofun
  · intro e
    rw [decode_eq_error hl]
    constructor
    · rintro ⟨slot, j, c, cause, h, he⟩
      have hslot : (UInt32.ofNat slot).toNat = slot := UInt32.toNat_ofNat_of_lt' (by
        have : slot < data.length * 8 / (schema.width * 8 + 1) := h.slot_lt
        simp only [UInt32.size]
        omega)
      exact ⟨UInt32.ofNat slot, j, c, cause, hslot.symm ▸ h, Failure.error.inj he⟩
    · rintro ⟨slot, j, c, cause, h, rfl⟩
      exact ⟨slot.toNat, j, c, cause, h, by rw [UInt32.ofNat_toNat]⟩

/-- A page of two such rows: its first slot is free, and the text in the second one is no UTF-8. -/
def garbledPage : Bytes :=
  [0xF2, 7, 7, 7, 7, 7, 7, 7, 7, 2, 0, 0, 0, 0xC3, 0x28, 0x55, 1, 9, 9, 9]

theorem decode_accepts_pages_garbled : ∃ l, Layout.make garbledPage.length noteSchema.width = .ok l ∧
    (∃ j c cause, FirstFlaw noteSchema l garbledPage 1 j c cause) ∧
    ∀ data', Alike noteSchema l garbledPage data' → decode ⟨1, 0⟩ noteSchema data' =
      .error (.error (.corrupt ⟨1, 0⟩ 1 ⟨"note", .notUtf8 ⟨0, some 1⟩⟩)) := by
  have herror : decode ⟨1, 0⟩ noteSchema garbledPage =
      .error (.error (.corrupt ⟨1, 0⟩ 1 ⟨"note", .notUtf8 ⟨0, some 1⟩⟩)) := rfl
  obtain ⟨l, hl, -, -, -, -, hflaw, halike⟩ :=
    decode_accepts_pages ⟨1, 0⟩ noteSchema garbledPage (by decide) (by decide) (by decide)
  obtain ⟨slot, j, c, cause, hfirst, he⟩ := (hflaw _).mp herror
  obtain ⟨-, rfl, -⟩ := PageError.corrupt.inj he
  refine ⟨l, hl, ⟨j, c, cause, hfirst⟩, ?_⟩
  intro data' hdata'
  have hagree := halike data' hdata'
  rw [herror] at hagree
  cases hread : decode ⟨1, 0⟩ noteSchema data' with
  | ok p => rw [hread] at hagree; exact hagree.elim
  | error x => rw [hread] at hagree; rw [← (hagree : _ = x)]

end Page
end RowStore
