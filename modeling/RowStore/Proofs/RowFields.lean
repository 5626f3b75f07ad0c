import RowStore.Proofs.PageCanonical
import RowStore.Proofs.RowAcceptance

/-! The fields of a row in its slot: they lie where the columns have their offsets and fill the slot
without gaps. Writing a row makes every byte of the slot new, reading it gives the same values, and
a slot that is read and written again loses nothing but what was in the padding of texts. -/
namespace RowStore

namespace Bytes

/-- The buffer with bytes in the place of those from `start` on. -/
def patch (start : Nat) (bs buf : Bytes) : Bytes :=
  buf.take start ++ bs ++ buf.drop (start + bs.length)

theorem patch_append {start : Nat} {before : Bytes} (h : before.length = start) (bs rest : Bytes) :
    patch start bs (before ++ rest) = before ++ (bs ++ rest.drop bs.length) := by
  subst h
  rw [patch, List.take_left, ← List.drop_drop, List.drop_left, List.append_assoc]

/-- What lies behind the first `start` bytes is sliced like a buffer of its own. -/
theorem slice_append {start : Nat} {before : Bytes} (h : before.length = start) (n : Nat)
    (rest : Bytes) : slice (before ++ rest).toArray start (start + n) = front n rest := by
  subst h
  have hfits : before.length ≤ before.length + n ∧
      before.length + n ≤ (before ++ rest).toArray.size ↔ n ≤ rest.length := by
    simp only [List.size_toArray, List.length_append]
    omega
  simp only [slice, front, hfits]
  split
  · rw [List.extract_toArray, List.extract_eq_take_drop, List.drop_left, Nat.add_sub_cancel_left]
  · rfl

end Bytes

namespace Schema
variable {schema : Schema} {i j : Nat}

theorem totalSize_append (cs ds : List Column) :
    totalSize (cs ++ ds) = totalSize cs + totalSize ds := by
  induction cs with
  | nil => simp [totalSize]
  | cons c cs ih =>
    simp only [List.cons_append, totalSize, ih]
    omega

/-- The bytes of column `j` in a slot. -/
def fieldBytes (schema : Schema) (j : Nat) : Set Nat :=
  {i | ∃ c start, schema.columns[j]? = some c ∧ schema.offsetOf j = .ok start ∧
    start ≤ i ∧ i < start + c.type.size}

theorem offsetOf_eq {c : Column} (h : schema.columns[j]? = some c) :
    schema.offsetOf j = .ok (schema.offset j) :=
  if_pos (List.getElem?_eq_some_iff.mp h).1

theorem mem_fieldBytes {c : Column} (h : schema.columns[j]? = some c) :
    i ∈ schema.fieldBytes j ↔ schema.offset j ≤ i ∧ i < schema.offset j + c.type.size := by
  constructor
  · rintro ⟨d, start, hd, hstart, hle, hlt⟩
    obtain rfl := Option.some.inj (h.symm.trans hd)
    obtain rfl := Except.ok.inj ((offsetOf_eq h).symm.trans hstart)
    exact ⟨hle, hlt⟩
  · rintro ⟨hle, hlt⟩
    exact ⟨c, _, h, offsetOf_eq h, hle, hlt⟩

/-- A field ends before a later one begins. -/
theorem lt_of_mem_fieldBytes {a b : Nat} (hij : i < j) (ha : a ∈ schema.fieldBytes i)
    (hb : b ∈ schema.fieldBytes j) : a < b := by
  obtain ⟨c, -, hc, -⟩ := id ha
  obtain ⟨d, -, hd, -⟩ := id hb
  have ha := ((mem_fieldBytes hc).mp ha).2
  have hb := ((mem_fieldBytes hd).mp hb).1
  have hfield : (schema.columns.take j)[i]? = some c := by
    rw [List.getElem?_take_of_lt hij, hc]
  have hbefore := Row.totalSize_take_add_le hfield
  rw [List.take_take, min_eq_left hij.le] at hbefore
  simp only [offset] at ha hb
  omega

/-- How columns share a slot: each has its bytes in the slot, no two have one in common, and
together they have all. -/
structure Tiles (schema : Schema) : Prop where
  range : ∀ j c, schema.columns[j]? = some c → ∃ start, schema.offsetOf j = .ok start ∧
    start + c.type.size ≤ schema.width
  apart : ∀ i j, i ≠ j → ∀ a ∈ schema.fieldBytes i, a ∉ schema.fieldBytes j
  cover : ∀ i, i < schema.width ↔ ∃ j, i ∈ schema.fieldBytes j

theorem tiles (schema : Schema) : schema.Tiles where
  range := by
    intro j c hc
    exact ⟨_, offsetOf_eq hc, Row.totalSize_take_add_le hc⟩
  apart := by
    intro i j hij a ha hb
    rcases Nat.lt_or_gt_of_ne hij with hlt | hgt
    · exact lt_irrefl a (lt_of_mem_fieldBytes hlt ha hb)
    · exact lt_irrefl a (lt_of_mem_fieldBytes hgt hb ha)
  cover := by
    intro i
    constructor
    · intro hi
      obtain ⟨j, c, o, hc, ho, rfl⟩ := Row.exists_field hi
      exact ⟨j, (mem_fieldBytes hc).mpr ⟨Nat.le_add_right _ _, Nat.add_lt_add_left ho _⟩⟩
    · rintro ⟨j, c, start, hc, hstart, -, hlt⟩
      obtain rfl := Except.ok.inj ((offsetOf_eq hc).symm.trans hstart)
      exact hlt.trans_le (Row.totalSize_take_add_le hc)

end Schema

/-- Writing a value changes no lengths. -/
theorem Value.length_of_encode {type : ColumnType} {v : Value} {field written : Bytes}
    (h : v.encode type field = .ok written) : written.length = field.length := by
  have hoverwrite (hv : Bytes.overwrite v.bytes field = .ok written) :
      written.length = field.length := by
    unfold Bytes.overwrite at hv
    split at hv
    · rw [← Except.ok.inj hv, List.length_append, List.length_drop]
      omega
    · contradiction
  unfold encode at h
  split at h
  · cases v with
    | text s =>
      dsimp only at h
      unfold Bytes.padTo at h
      split at h
      · rw [← Except.ok.inj h, List.length_append, Bytes.length_zeros]
        omega
      · contradiction
    | integer n | float n | boolean n => exact hoverwrite h
  · contradiction

namespace Row
variable {schema : Schema} {cs pre : List Column} {c : Column} {vs : List Value}
  {slot done rest : Bytes}

/-- Writes a value over the bytes of its column. -/
def writeField (schema : Schema) (slot : Bytes) : (Column × Value) × Nat → Except Fault Bytes
  | ((c, v), j) => do
      let start ← schema.offsetOf j
      let stop ← checkedWord (start + c.type.size)
      let field ← Bytes.slice slot.toArray start stop
      let field ← v.encode c.type field
      return Bytes.patch start field slot

/-- Writes the values of a row over a slot, each at the offset of its column. -/
def write (schema : Schema) (r : Row) (slot : Bytes) : Except Fault Bytes :=
  (schema.columns.zip r.values).zipIdx.foldlM (writeField schema) slot

/-- Reads a value from the bytes of its column. -/
def readField (schema : Schema) (slot : Bytes) : Column × Nat → Except (Failure RowError) Value
  | (c, j) => do
      let start ← orFault (schema.offsetOf j)
      let stop ← orFault (checkedWord (start + c.type.size))
      let field ← orFault (Bytes.slice slot.toArray start stop)
      (Value.decode c.type field).mapError (Failure.map (RowError.mk c.name))

/-- Reads the row in a slot, each value at the offset of its column. -/
def read (schema : Schema) (slot : Bytes) : Except (Failure RowError) Row :=
  (schema.columns.zipIdx.mapM (readField schema slot)).map fun values => ⟨values, none⟩

/-- The bytes of a value that is written fill its field. -/
theorem length_written {v : Value} {field written : Bytes}
    (hfront : Bytes.front c.type.size rest = .ok field) (hv : v.encode c.type field = .ok written) :
    written.length = c.type.size := by
  obtain ⟨hsize, rfl⟩ := Bytes.front_eq_ok.mp hfront
  rw [Value.length_of_encode hv, List.length_take, min_eq_left hsize]

/-- Behind some columns, the next one begins where they end. -/
theorem place_eq (hwidth : schema.width < wordLimit) (hcolumns : schema.columns = pre ++ c :: cs) :
    schema.offsetOf pre.length = .ok (Schema.totalSize pre) ∧
      checkedWord (Schema.totalSize pre + c.type.size) =
        .ok (Schema.totalSize pre + c.type.size) := by
  constructor
  · have hc : schema.columns[pre.length]? = some c := by simp [hcolumns]
    rw [Schema.offsetOf_eq hc, Schema.offset, hcolumns, List.take_left]
  · apply checkedWord_of_lt
    rw [Schema.width, hcolumns, Schema.totalSize_append, Schema.totalSize] at hwidth
    omega

/-- Behind the fields of some columns, the next one takes what the front of the rest becomes. -/
theorem writeField_eq (hwidth : schema.width < wordLimit) (hcolumns : schema.columns = pre ++ c :: cs)
    (hdone : done.length = Schema.totalSize pre) (v : Value) :
    writeField schema (done ++ rest) ((c, v), pre.length) =
      (Bytes.front c.type.size rest >>= v.encode c.type).map
        fun written => (done ++ written) ++ rest.drop c.type.size := by
  obtain ⟨hstart, hstop⟩ := place_eq hwidth hcolumns
  rw [writeField, hstart, ok_bind, hstop, ok_bind, Bytes.slice_append hdone]
  cases hfront : Bytes.front c.type.size rest with
  | error e => rfl
  | ok field =>
    rw [ok_bind, ok_bind]
    cases hv : v.encode c.type field with
    | error e => rfl
    | ok written =>
      have hlength := length_written hfront hv
      rw [ok_bind, Bytes.patch_append hdone, hlength, ← List.append_assoc]
      rfl

/-- Writing the columns of a row one after the other, from left to right, writes each at its
offset. -/
theorem foldlM_writeField (hwidth : schema.width < wordLimit)
    (hcolumns : schema.columns = pre ++ cs) (hdone : done.length = Schema.totalSize pre) :
    ((cs.zip vs).zipIdx pre.length).foldlM (writeField schema) (done ++ rest) =
      (encodeFields cs vs rest).map (done ++ ·) := by
  -- `done` has the fields of `pre`; each step moves one column from `cs` to `pre`
  induction cs generalizing pre vs done rest with
  | nil => simp [encodeFields, Except.map, pure, Except.pure]
  | cons c cs ih =>
    cases vs with
    | nil => simp [encodeFields, Except.map, pure, Except.pure]
    | cons v vs =>
      rw [List.zip_cons_cons, List.zipIdx_cons, List.foldlM_cons,
        writeField_eq hwidth hcolumns hdone, encodeFields]
      cases hfront : Bytes.front c.type.size rest with
      | error e => rfl
      | ok field =>
        rw [ok_bind, ok_bind]
        cases hv : v.encode c.type field with
        | error e => rfl
        | ok written =>
          have hcolumns' : schema.columns = (pre ++ [c]) ++ cs := by simp [hcolumns]
          have hdone' : (done ++ written).length = Schema.totalSize (pre ++ [c]) := by
            rw [List.length_append, Schema.totalSize_append, hdone, length_written hfront hv]
            rfl
          have hrest : ((cs.zip vs).zipIdx (pre.length + 1)).foldlM (writeField schema)
              ((done ++ written) ++ rest.drop c.type.size) =
                (encodeFields cs vs (rest.drop c.type.size)).map ((done ++ written) ++ ·) := by
            simpa only [List.length_append, List.length_singleton] using ih hcolumns' hdone'
          apply hrest.trans
          rw [ok_bind]
          cases encodeFields cs vs (rest.drop c.type.size) with
          | error e => rfl
          | ok tail => exact congrArg Except.ok (List.append_assoc ..)

theorem write_eq (hwidth : schema.width < wordLimit) (r : Row) (slot : Bytes) :
    r.write schema slot = r.encode schema slot := by
  have h : ((schema.columns.zip r.values).zipIdx ([] : List Column).length).foldlM
      (writeField schema) ([] ++ slot) =
        (encodeFields schema.columns r.values slot).map (([] : Bytes) ++ ·) :=
    foldlM_writeField hwidth rfl rfl
  apply h.trans
  rw [encode]
  cases encodeFields schema.columns r.values slot <;> rfl

/-- Behind the fields of some columns, the next one is read from the front of the rest. -/
theorem readField_eq (hwidth : schema.width < wordLimit) (hcolumns : schema.columns = pre ++ c :: cs)
    (hdone : done.length = Schema.totalSize pre) :
    readField schema (done ++ rest) (c, pre.length) =
      orFault (Bytes.front c.type.size rest) >>= fun field =>
        (Value.decode c.type field).mapError (Failure.map (RowError.mk c.name)) := by
  obtain ⟨hstart, hstop⟩ := place_eq hwidth hcolumns
  rw [readField, hstart, orFault_ok, ok_bind, hstop, orFault_ok, ok_bind, Bytes.slice_append hdone]

/-- Reading the columns of a row one after the other reads each at its offset. -/
theorem mapM_readField (hwidth : schema.width < wordLimit) (hcolumns : schema.columns = pre ++ cs)
    (hdone : done.length = Schema.totalSize pre) :
    (cs.zipIdx pre.length).mapM (readField schema (done ++ rest)) = decodeFields cs rest := by
  induction cs generalizing pre done rest with
  | nil => rfl
  | cons c cs ih =>
    rw [List.zipIdx_cons, List.mapM_cons, readField_eq hwidth hcolumns hdone, decodeFields]
    cases hfront : Bytes.front c.type.size rest with
    | error e => rfl
    | ok field =>
      obtain ⟨hsize, rfl⟩ := Bytes.front_eq_ok.mp hfront
      have hcolumns' : schema.columns = (pre ++ [c]) ++ cs := by simp [hcolumns]
      have hdone' : (done ++ rest.take c.type.size).length = Schema.totalSize (pre ++ [c]) := by
        rw [List.length_append, Schema.totalSize_append, hdone, List.length_take, min_eq_left hsize]
        rfl
      have hrest : (cs.zipIdx (pre.length + 1)).mapM (readField schema (done ++ rest)) =
          decodeFields cs (rest.drop c.type.size) := by
        have hmoved : (done ++ rest.take c.type.size) ++ rest.drop c.type.size = done ++ rest := by
          rw [List.append_assoc, List.take_append_drop]
        rw [← hmoved]
        simpa only [List.length_append, List.length_singleton] using ih hcolumns' hdone'
      rw [hrest, orFault_ok, ok_bind, ok_bind]

theorem read_eq (hwidth : schema.width < wordLimit) (slot : Bytes) :
    read schema slot = decode schema slot := by
  have h : (schema.columns.zipIdx ([] : List Column).length).mapM (readField schema ([] ++ slot)) =
      decodeFields schema.columns slot := mapM_readField hwidth rfl rfl
  rw [read, decode, ← h]
  rfl

/-- What is behind a text in its field. -/
inductive Padding (schema : Schema) (slot : Bytes) : Nat → Prop where
  | behind {j o : Nat} {name : String} {limit : UInt32}
      (column : schema.columns[j]? = some ⟨name, .text limit⟩)
      (past : (ColumnType.text limit).extent (slot.drop (schema.offset j)) ≤ o)
      (inside : o < (ColumnType.text limit).size) : Padding schema slot (schema.offset j + o)

/-- The field of a column holds what its value is written as, whatever is in the other fields. -/
theorem encode_fieldAt (h : Fits cs vs) {j : Nat} {c : Column} {v : Value} (hc : cs[j]? = some c)
    (hv : vs[j]? = some v) {buf : Bytes} (hbuf : buf.length = c.type.size) :
    v.encode c.type buf = .ok (fieldAt cs (fields cs vs) j c) := by
  induction h generalizing j with
  | nil => simp at hc
  | @cons d w cs vs hw _ ih =>
    have hlength := Value.length_field hw
    cases j with
    | zero =>
      obtain rfl := Option.some.inj hc
      obtain rfl := Option.some.inj hv
      rw [Value.encode_eq_field hw hbuf, fieldAt, fields, List.take_zero, Schema.totalSize,
        List.drop_zero, ← hlength, List.take_left]
    | succ j =>
      rw [fieldAt_succ, fields, ← hlength, List.drop_left]
      exact ih (by simpa using hc) (by simpa using hv)

/-- A slot that is read and written again keeps each byte but the padding, which becomes zeros. -/
theorem getElem?_fields_of_decode (h : decodeFields schema.columns slot = .ok vs) {i : Nat}
    (hi : i < schema.width) : (Padding schema slot i → (fields schema.columns vs)[i]? = some 0) ∧
      (¬ Padding schema slot i → (fields schema.columns vs)[i]? = slot[i]?) := by
  have hbyte {j o : Nat} {c : Column} (hc : schema.columns[j]? = some c) (ho : o < c.type.size) :
      (fields schema.columns vs)[schema.offset j + o]? =
        if o < c.type.extent (slot.drop (schema.offset j)) then slot[schema.offset j + o]?
        else some 0 := by
    obtain ⟨v, hv, hlen, hfield⟩ := exists_value_of_decode h hc
    have hvalue := Value.getElem?_field_of_decode hv hlen ho
    rw [List.getElem?_drop] at hvalue
    exact (hfield o ho).trans hvalue
  constructor
  · rintro ⟨hc, hpast, hinside⟩
    rw [hbyte hc hinside, if_neg (not_lt.mpr hpast)]
  · intro hnot
    obtain ⟨j, ⟨name, type⟩, o, hc, ho, rfl⟩ := exists_field hi
    apply (hbyte hc ho).trans
    cases type with
    | text limit =>
      apply if_pos
      by_contra hpast
      exact hnot (.behind hc (not_lt.mp hpast) ho)
    | integer | float | boolean => exact if_pos ho

/-- How the rows of a schema and the bytes of their slots stand for each other. -/
structure Coded (schema : Schema) : Prop where
  /-- The fields of a row tile its slot. -/
  tiles : schema.Tiles
  /-- A row that fits the columns is written over all bytes of a slot, whatever they were, with each
  value in the field of its column and nowhere else, and it reads back as it was. -/
  written : ∀ r : Row, schema.conforms r.values → ∃ cell, cell.length = schema.width ∧
    (∀ slot : Bytes, slot.length = schema.width →
      r.encode schema slot = .ok cell ∧ r.write schema slot = .ok cell) ∧
    (∀ (j : Nat) (c : Column) (v : Value), schema.columns[j]? = some c → r.values[j]? = some v →
      ∀ buf : Bytes, buf.length = c.type.size →
        v.encode c.type buf = .ok (fieldAt schema.columns cell j c)) ∧
    decode schema cell = .ok ⟨r.values, none⟩ ∧ read schema cell = .ok ⟨r.values, none⟩
  /-- A slot that is read gives a row that fits the columns, and that is written as the slot was but
  for the padding of texts, which becomes zeros. -/
  rewritten : ∀ (slot : Bytes) (r : Row), slot.length = schema.width → decode schema slot = .ok r →
    read schema slot = .ok r ∧ schema.conforms r.values ∧ ∃ cell, cell.length = schema.width ∧
      (∀ buf : Bytes, buf.length = schema.width →
        r.encode schema buf = .ok cell ∧ r.write schema buf = .ok cell) ∧
      ∀ i < schema.width, (Padding schema slot i → cell[i]? = some 0) ∧
        (¬ Padding schema slot i → cell[i]? = slot[i]?)
  /-- Rows that are written alike have the same values. -/
  injective : ∀ (r r' : Row) (slot slot' : Bytes), schema.conforms r.values →
    schema.conforms r'.values → slot.length = schema.width → slot'.length = schema.width →
      r.encode schema slot = r'.encode schema slot' → r.values = r'.values

/-- Rows and slots stand for each other, whatever the columns are, as long as the width of a row is
a word. -/
theorem coded (schema : Schema) (hwidth : schema.width < wordLimit) : Coded schema where
  tiles := schema.tiles
  written := by
    intro r hr
    have hfits := conforms_iff_fits.mp hr
    refine ⟨fields schema.columns r.values, length_fields hfits, ?_, ?_, decode_fields hr, ?_⟩
    · intro slot hs
      rw [write_eq hwidth]
      exact ⟨encode_eq_fields hr hs, encode_eq_fields hr hs⟩
    · intro j c v hc hv buf hbuf
      exact encode_fieldAt hfits hc hv hbuf
    · rw [read_eq hwidth]
      exact decode_fields hr
  rewritten := by
    intro slot r hs hslot
    have hr := conforms_of_decode hslot
    obtain ⟨vs, hvs, rfl⟩ := map_eq_ok.mp hslot
    refine ⟨?_, hr, fields schema.columns vs, length_fields (conforms_iff_fits.mp hr), ?_, ?_⟩
    · rw [read_eq hwidth]
      exact hslot
    · intro buf hbuf
      rw [write_eq hwidth]
      exact ⟨encode_eq_fields hr hbuf, encode_eq_fields hr hbuf⟩
    · intro i hi
      exact getElem?_fields_of_decode hvs hi
  injective := by
    intro r r' slot slot' hr hr' hs hs' heq
    rw [encode_eq_fields hr hs, encode_eq_fields hr' hs'] at heq
    have hread := decode_fields hr
    rw [Except.ok.inj heq, decode_fields hr'] at hread
    exact (congrArg Row.values (Except.ok.inj hread)).symm

/-- Columns of all types, among them one of texts without a byte. -/
def sampleSchema : Schema :=
  ⟨[⟨"id", .integer⟩, ⟨"score", .float⟩, ⟨"done", .boolean⟩, ⟨"note", .text 3⟩, ⟨"tag", .text 0⟩]⟩

/-- A row with a negative number, with what is not a number, and with a text of two characters that
fills its field. -/
def sampleRow : Row :=
  ⟨[.integer (-2), .float 0x7FF8000000000001, .boolean true, .text "é!", .text ""], none⟩

theorem coded_sample : sampleSchema.width < wordLimit ∧ Coded sampleSchema ∧
    sampleRow.encode sampleSchema (List.replicate 28 0xAA) =
      .ok [0xFE, 0xFF, 0xFF, 0xFF, 0xFF, 0xFF, 0xFF, 0xFF, 1, 0, 0, 0, 0, 0, 0xF8, 0x7F, 1,
        3, 0, 0, 0, 0xC3, 0xA9, 0x21, 0, 0, 0, 0] := by
  have hwidth : sampleSchema.width < wordLimit := by decide
  exact ⟨hwidth, coded sampleSchema hwidth, rfl⟩

end Row
end RowStore
