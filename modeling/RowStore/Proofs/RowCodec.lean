import RowStore.Proofs.Computation
import RowStore.Proofs.Words
import RowStore.Row.Codec

/-! Values and rows as bytes. A field holds the bytes of its value and zeros behind them, whatever
the buffer held before, and reading a row gives back what was written. -/
namespace RowStore

namespace Value
variable {type : ColumnType} {v : Value}

/-- A field of a type that holds a value. -/
def field (type : ColumnType) (v : Value) : Bytes :=
  v.bytes ++ Bytes.zeros (type.size - v.bytes.length)

theorem length_bytes_le (h : type.accepts v) : v.bytes.length ≤ type.size := by
  cases type <;> cases v <;>
    simp_all [ColumnType.accepts, ColumnType.size, ColumnType.countSize, bytes]

theorem length_field (h : type.accepts v) : (field type v).length = type.size := by
  have := length_bytes_le h
  simp only [field, List.length_append, Bytes.length_zeros]
  omega

theorem length_bytes_eq (h : type.accepts v) (hv : ∀ s, v ≠ .text s) :
    v.bytes.length = type.size := by
  cases type <;> cases v <;> simp_all [ColumnType.accepts, ColumnType.size, bytes]

theorem encode_eq_field (h : type.accepts v) {buf : Bytes} (hb : buf.length = type.size) :
    v.encode type buf = .ok (field type v) := by
  unfold encode
  rw [if_pos h]
  cases v with
  | text s => simp only [Bytes.padTo, hb, if_pos (length_bytes_le h), field]
  | integer n | float n | boolean n =>
    simp [Bytes.overwrite, field, hb, length_bytes_eq h (by simp), Bytes.zeros]

theorem decodeWord_append {count n : Nat} (h : n < 256 ^ count) (tail : Bytes) :
    decodeWord count (Bytes.ofWord count n ++ tail) = .ok n := by
  simp only [decodeWord, Bytes.front_append (Bytes.length_ofWord count n)]
  exact congrArg Except.ok (Bytes.toWord_ofWord h)

theorem decodeText_append {limit : UInt32} {s : String} (h : s.utf8ByteSize ≤ limit.toNat)
    (tail : Bytes) : decodeText limit (bytes (.text s) ++ tail) = .ok (.text s) := by
  have hs : s.utf8ByteSize < 256 ^ ColumnType.countSize := by
    have := limit.toNat_lt
    norm_num [ColumnType.countSize] at this ⊢
    omega
  have hbody := Bytes.front_append (Text.length_toUtf8 s) tail
  simp only [decodeText, bytes, List.append_assoc]
  rw [decodeWord_append hs, Bytes.rest_append (Bytes.length_ofWord _ _)]
  simp only [ok_bind, orFault_ok, if_neg (Nat.not_lt.mpr h), hbody, Text.readUtf8_toUtf8]

/-- Reading a field gives the value that it holds. -/
theorem decode_field (h : type.accepts v) : decode type (field type v) = .ok v := by
  cases type with
  | integer =>
    cases v with
    | integer n =>
      rw [decode, field, bytes, decodeWord_append (by norm_num; exact n.toUInt64.toNat_lt)]
      simp [Except.map, Int64.ofNat]
    | _ => contradiction
  | float =>
    cases v with
    | float bits =>
      rw [decode, field, bytes, decodeWord_append (by norm_num; exact bits.toNat_lt)]
      simp [Except.map]
    | _ => contradiction
  | boolean =>
    cases v with
    | boolean b => cases b <;> rfl
    | _ => contradiction
  | text limit =>
    cases v with
    | text s => exact decodeText_append (by simpa [ColumnType.accepts] using h) _
    | _ => contradiction

/-- A value that is read from a field is one that the field's type takes. -/
theorem accepts_of_decode {buf : Bytes} (h : decode type buf = .ok v) : type.accepts v := by
  cases type with
  | integer | float =>
    obtain ⟨n, -, rfl⟩ := map_eq_ok.mp h
    rfl
  | boolean =>
    obtain ⟨bs, -, hbs⟩ := bind_eq_ok.mp h
    split at hbs
    · rw [← Except.ok.inj hbs]; rfl
    · rw [← Except.ok.inj hbs]; rfl
    · contradiction
  | text limit =>
    obtain ⟨count, -, h⟩ := bind_eq_ok.mp h
    split at h
    · contradiction
    obtain ⟨body, -, h⟩ := bind_eq_ok.mp h
    obtain ⟨bs, hbs, h⟩ := bind_eq_ok.mp h
    split at h
    · next s hs =>
      have hlen : s.utf8ByteSize = bs.length := by
        rw [Text.eq_toUtf8_of_readUtf8 hs, Text.length_toUtf8]
      have hcount : bs.length ≤ count := by
        rw [orFault_eq_ok] at hbs
        unfold Bytes.front at hbs
        split at hbs
        · rw [← Except.ok.inj hbs]
          exact List.length_take_le _ _
        · contradiction
      rw [← Except.ok.inj h]
      simp only [ColumnType.accepts, decide_eq_true_eq]
      omega
    · contradiction

end Value

namespace Row

/-- The fields of a row one after the other. -/
def fields : List Column → List Value → Bytes
  | c :: cs, v :: vs => Value.field c.type v ++ fields cs vs
  | _, _ => []

variable {cs : List Column} {vs : List Value}

/-- Each column takes the value at its place, and there are as many of both. -/
abbrev Fits (cs : List Column) (vs : List Value) : Prop :=
  List.Forall₂ (fun c v => c.type.accepts v = true) cs vs

theorem length_fields (h : Fits cs vs) : (fields cs vs).length = Schema.totalSize cs := by
  induction h with
  | nil => rfl
  | cons hv _ ih => simp [fields, Schema.totalSize, Value.length_field hv, ih]

theorem encodeFields_eq (h : Fits cs vs) (slot : Bytes)
    (hs : slot.length = Schema.totalSize cs) : encodeFields cs vs slot = .ok (fields cs vs) := by
  induction h generalizing slot with
  | nil => simp_all [encodeFields, fields, Schema.totalSize]
  | @cons c v cs vs hv _ ih =>
    simp only [Schema.totalSize] at hs
    have hfront := Bytes.front_of_le slot (n := c.type.size) (by omega)
    have hfield : v.encode c.type (slot.take c.type.size) = .ok (Value.field c.type v) :=
      Value.encode_eq_field hv (by simp; omega)
    have htail := ih (slot.drop c.type.size) (by simp; omega)
    simp only [encodeFields, hfront, hfield, htail, fields, ok_bind]
    rfl

theorem decodeFields_fields (h : Fits cs vs) : decodeFields cs (fields cs vs) = .ok vs := by
  induction h with
  | nil => rfl
  | @cons c v cs vs hv _ ih =>
    have hlen := Value.length_field hv
    have hdrop : (Value.field c.type v ++ fields cs vs).drop c.type.size = fields cs vs := by
      simp [← hlen]
    simp only [decodeFields, fields, Bytes.front_append hlen, hdrop, Value.decode_field hv, ih,
      orFault_ok, mapError_ok, ok_bind]
    rfl

theorem fits_of_decodeFields {slot : Bytes} (h : decodeFields cs slot = .ok vs) : Fits cs vs := by
  induction cs generalizing vs slot with
  | nil =>
    cases h
    exact .nil
  | cons c cs ih =>
    obtain ⟨buf, -, h⟩ := bind_eq_ok.mp h
    obtain ⟨v, hv, h⟩ := bind_eq_ok.mp h
    obtain ⟨tail, htail, h⟩ := bind_eq_ok.mp h
    rw [← Except.ok.inj h]
    exact .cons (Value.accepts_of_decode (mapError_eq_ok.mp hv)) (ih htail)

theorem conforms_iff_fits {schema : Schema} :
    schema.conforms vs = true ↔ Fits schema.columns vs := by
  unfold Fits
  rw [List.forall₂_iff_zip]
  simp only [Schema.conforms, Bool.and_eq_true, beq_iff_eq, List.all_eq_true, Prod.forall]
  exact and_congr_left' eq_comm

theorem encode_eq_fields {schema : Schema} {r : Row} (h : schema.conforms r.values) {slot : Bytes}
    (hs : slot.length = schema.width) :
    r.encode schema slot = .ok (fields schema.columns r.values) :=
  encodeFields_eq (conforms_iff_fits.mp h) slot hs

/-- A row that fits its columns reads back from its slot, whatever the slot held before. -/
theorem decode_fields {schema : Schema} {r : Row} (h : schema.conforms r.values) :
    decode schema (fields schema.columns r.values) = .ok ⟨r.values, none⟩ := by
  rw [decode, decodeFields_fields (conforms_iff_fits.mp h)]
  rfl

theorem conforms_of_decode {schema : Schema} {r : Row} {slot : Bytes}
    (h : decode schema slot = .ok r) : schema.conforms r.values := by
  obtain ⟨vs, hvs, rfl⟩ := map_eq_ok.mp h
  exact conforms_iff_fits.mpr (fits_of_decodeFields hvs)

end Row
end RowStore
