import RowStore.Proofs.RowCodec

/-! Which bytes are a row: what a field has to look like, what is wrong with one that holds no
value, and which bytes of a field decide. The bytes of a slot are a row or name their first bad
column; reading them never leaves the slot. -/
namespace RowStore

theorem mapError_eq_error {ε δ α : Type} {x : Except ε α} {f : ε → δ} {d : δ} :
    x.mapError f = .error d ↔ ∃ e, x = .error e ∧ f e = d := by
  cases x <;> simp

namespace ColumnType

/-- The count in front of a stored text. -/
def textCount (field : Bytes) : Nat := Bytes.toWord (field.take countSize)

/-- As many bytes behind the count as it says. -/
def textBody (field : Bytes) : Bytes := (field.drop countSize).take (textCount field)

/-- Whether a field holds a value: any eight bytes are a number, a truth value is a zero or a one,
and a text has a count within its limit and is UTF-8. -/
def WellFormed (field : Bytes) : ColumnType → Prop
  | .integer | .float => True
  | .boolean => field[0]? = some 0 ∨ field[0]? = some 1
  | .text limit => textCount field ≤ limit.toNat ∧ ∃ s, textBody field = Text.toUtf8 s

/-- What is wrong with a field that holds no value. -/
inductive Flaw (field : Bytes) : ColumnType → FieldError → Prop where
  | boolean {b : UInt8} (hb : field[0]? = some b) (hfalse : b ≠ 0) (htrue : b ≠ 1) :
      Flaw field .boolean (.booleanByte b)
  | long {limit : UInt32} (h : limit.toNat < textCount field) :
      Flaw field (.text limit) (.textTooLong (textCount field) limit)
  | garbled {limit : UInt32} (h : textCount field ≤ limit.toNat)
      (hbody : ∀ s, textBody field ≠ Text.toUtf8 s) :
      Flaw field (.text limit) (.notUtf8 (Text.utf8Fault (textBody field)))

/-- The number of bytes of a field that decide what it holds. Padding does not, and nothing behind
a count beyond the limit does. -/
def inspected (field : Bytes) : ColumnType → Nat
  | .text limit => if textCount field ≤ limit.toNat then countSize + textCount field else countSize
  | type => type.size

variable {type : ColumnType} {field field' : Bytes}

/-- A field holds a value just if nothing is wrong with it. -/
theorem wellFormed_iff (h : field.length = type.size) :
    type.WellFormed field ↔ ∀ cause, ¬ type.Flaw field cause := by
  cases type with
  | integer | float =>
    refine iff_of_true trivial ?_
    intro cause hflaw
    cases hflaw
  | boolean =>
    have hpos : 0 < field.length := by rw [h, size]; exact Nat.one_pos
    constructor
    · rintro hvalue _ (⟨hb, hfalse, htrue⟩)
      rcases hvalue with h0 | h1
      · exact hfalse (Option.some.inj (hb.symm.trans h0))
      · exact htrue (Option.some.inj (hb.symm.trans h1))
    · intro hnone
      have hb := List.getElem?_eq_getElem hpos
      by_contra hvalue
      rw [WellFormed, hb, not_or] at hvalue
      exact hnone _ (.boolean hb (fun h0 => hvalue.1 (by rw [h0])) fun h1 => hvalue.2 (by rw [h1]))
  | text limit =>
    constructor
    · rintro ⟨hcount, s, hs⟩ _ (_ | hlong | ⟨-, hbody⟩)
      · exact absurd hcount (by omega)
      · exact hbody s hs
    · intro hnone
      refine ⟨?_, ?_⟩
      · by_contra hlong
        exact hnone _ (.long (by omega))
      · by_contra hbody
        push Not at hbody
        by_cases hcount : textCount field ≤ limit.toNat
        · exact hnone _ (.garbled hcount hbody)
        · exact hnone _ (.long (by omega))

theorem textCount_congr {limit : UInt32} (h : field.take ((ColumnType.text limit).inspected field) =
    field'.take ((ColumnType.text limit).inspected field)) : textCount field = textCount field' := by
  have hle : countSize ≤ (ColumnType.text limit).inspected field := by
    simp only [inspected]
    split <;> omega
  have htake := congrArg (List.take countSize) h
  rw [List.take_take, List.take_take, min_eq_left hle] at htake
  rw [textCount, htake, textCount]

end ColumnType

namespace Value
open ColumnType
variable {type : ColumnType} {field field' : Bytes}

theorem decodeWord_of_le {count : Nat} (h : count ≤ field.length) :
    decodeWord count field = .ok (Bytes.toWord (field.take count)) := by
  rw [decodeWord, Bytes.front_of_le _ h]
  rfl

/-- A text that fills its field is read without leaving the field, whatever the count says. -/
theorem decodeText_eq {limit : UInt32} (h : field.length = (ColumnType.text limit).size) :
    decodeText limit field =
      if limit.toNat < textCount field then .error (.error (.textTooLong (textCount field) limit))
      else match Text.readUtf8 (textBody field) with
        | .ok s => .ok (.text s)
        | .error fault => .error (.error (.notUtf8 fault)) := by
  simp only [ColumnType.size] at h
  rw [decodeText, decodeWord_of_le (by omega), ok_bind]
  change (if limit.toNat < textCount field then _ else _) = _
  split
  · rfl
  · next hcount =>
    have hrest : Bytes.rest countSize field = .ok (field.drop countSize) :=
      Bytes.rest_eq_ok.mpr ⟨by omega, rfl⟩
    have hbody : Bytes.front (textCount field) (field.drop countSize) = .ok (textBody field) :=
      Bytes.front_eq_ok.mpr ⟨by rw [List.length_drop]; omega, rfl⟩
    rw [hrest, orFault_ok, ok_bind]
    change (orFault (Bytes.front (textCount field) (field.drop countSize)) >>= _) = _
    rw [hbody, orFault_ok]
    refine (ok_bind _ _).trans ?_
    cases Text.readUtf8 (textBody field) <;> rfl

/-- Reading a field fails only for what is wrong with the field. -/
theorem decode_eq_error (h : field.length = type.size) {x : Failure FieldError} :
    decode type field = .error x ↔ ∃ cause, x = .error cause ∧ type.Flaw field cause := by
  cases type with
  | integer | float =>
    simp only [ColumnType.size] at h
    rw [decode, decodeWord_of_le (by omega)]
    refine iff_of_false (by simp [Except.map]) ?_
    rintro ⟨cause, -, hflaw⟩
    cases hflaw
  | boolean =>
    obtain ⟨b, rfl⟩ := List.length_eq_one_iff.mp h
    change decodeBoolean [b] = .error x ↔ _
    rw [decodeBoolean, Bytes.front_of_le _ (le_refl 1), orFault_ok, ok_bind]
    split
    · next hb =>
      obtain rfl : b = 0 := List.head_eq_of_cons_eq hb
      refine iff_of_false (by simp) ?_
      rintro ⟨_, -, ⟨hb, hfalse, -⟩⟩
      exact hfalse (Option.some.inj hb).symm
    · next hb =>
      obtain rfl : b = 1 := List.head_eq_of_cons_eq hb
      refine iff_of_false (by simp) ?_
      rintro ⟨_, -, ⟨hb, -, htrue⟩⟩
      exact htrue (Option.some.inj hb).symm
    · next bs hfalse htrue =>
      constructor
      · intro hx
        refine ⟨.booleanByte b, (Except.error.inj hx).symm, .boolean rfl ?_ ?_⟩
        · rintro rfl
          exact hfalse rfl
        · rintro rfl
          exact htrue rfl
      · rintro ⟨_, rfl, ⟨hb, -, -⟩⟩
        obtain rfl := Option.some.inj hb
        rfl
  | text limit =>
    rw [decode, decodeText_eq h]
    split
    · next hlong =>
      constructor
      · intro hx
        exact ⟨_, (Except.error.inj hx).symm, .long hlong⟩
      · rintro ⟨_, rfl, (_ | _ | ⟨hcount, -⟩)⟩
        · rfl
        · omega
    · next hcount =>
      rw [Text.readUtf8]
      cases hbody : Text.ofUtf8? (textBody field) with
      | some s =>
        refine iff_of_false (by simp) ?_
        rintro ⟨_, -, (_ | hlong | ⟨-, hgarbled⟩)⟩
        · exact hcount hlong
        · exact hgarbled s (Text.ofUtf8?_eq_some_iff.mp hbody)
      | none =>
        constructor
        · intro hx
          refine ⟨_, (Except.error.inj hx).symm, .garbled (by omega) fun s hs => ?_⟩
          rw [Text.ofUtf8?_eq_some_iff.mpr hs] at hbody
          contradiction
        · rintro ⟨_, rfl, (_ | hlong | _)⟩
          · exact absurd hlong hcount
          · rfl

theorem exists_decode_iff (h : field.length = type.size) :
    (∃ v, decode type field = .ok v) ↔ type.WellFormed field := by
  rw [ColumnType.wellFormed_iff h]
  cases hv : decode type field with
  | error x =>
    obtain ⟨cause, -, hflaw⟩ := (decode_eq_error h).mp hv
    exact iff_of_false nofun fun hnone => hnone cause hflaw
  | ok v =>
    refine iff_of_true ⟨v, rfl⟩ fun cause hflaw => ?_
    rw [(decode_eq_error h).mpr ⟨cause, rfl, hflaw⟩] at hv
    contradiction

/-- What a field holds depends on the bytes that decide, and on no others. -/
theorem decode_congr (h : field.length = type.size) (h' : field'.length = type.size)
    (hsame : field.take (type.inspected field) = field'.take (type.inspected field)) :
    decode type field = decode type field' := by
  cases type with
  | text limit =>
    have hcount := textCount_congr hsame
    rw [decode, decode, decodeText_eq h, decodeText_eq h', ← hcount]
    split
    · rfl
    · next hlimit =>
      have hbody : textBody field = textBody field' := by
        rw [inspected, if_pos (by omega)] at hsame
        have := congrArg (List.drop countSize) hsame
        rw [List.drop_take, List.drop_take, Nat.add_sub_cancel_left] at this
        rw [textBody, textBody, ← hcount, this]
      rw [hbody]
  | integer | float | boolean =>
    rw [inspected.eq_def, List.take_of_length_le h.le, List.take_of_length_le h'.le] at hsame
    rw [hsame]

end Value

namespace Row
variable {cs : List Column} {slot slot' : Bytes}

/-- The bytes of column `j` in a slot. -/
def fieldAt (cs : List Column) (slot : Bytes) (j : Nat) (c : Column) : Bytes :=
  (slot.drop (Schema.totalSize (cs.take j))).take c.type.size

theorem fieldAt_succ (c d : Column) (j : Nat) :
    fieldAt (c :: cs) slot (j + 1) d = fieldAt cs (slot.drop c.type.size) j d := by
  simp only [fieldAt, List.take_succ_cons, Schema.totalSize, List.drop_drop]

theorem decodeFields_cons {c : Column} (h : c.type.size ≤ slot.length) :
    decodeFields (c :: cs) slot =
      ((Value.decode c.type (fieldAt (c :: cs) slot 0 c)).mapError (Failure.map (RowError.mk c.name))
        >>= fun v => decodeFields cs (slot.drop c.type.size) >>= fun vs => .ok (v :: vs)) := by
  rw [decodeFields, Bytes.front_of_le _ h, orFault_ok, ok_bind]
  rfl

/-- The first column whose field holds no value, and what is wrong with that. -/
def FirstFlaw (cs : List Column) (slot : Bytes) (e : RowError) : Prop :=
  ∃ (j : Nat) (c : Column), cs[j]? = some c ∧ e.column = c.name ∧ c.type.Flaw (fieldAt cs slot j c) e.cause ∧
    ∀ i < j, ∀ d : Column, cs[i]? = some d → d.type.WellFormed (fieldAt cs slot i d)

theorem length_fieldAt_zero {c : Column} (h : slot.length = Schema.totalSize (c :: cs)) :
    (fieldAt (c :: cs) slot 0 c).length = c.type.size := by
  simp only [Schema.totalSize] at h
  simp only [fieldAt, List.take_zero, Schema.totalSize, List.drop_zero, List.length_take]
  omega

/-- The first bad column is the one at the front, or that one is good and it is the first bad one
of the others. -/
theorem firstFlaw_cons {c : Column} {e : RowError} : FirstFlaw (c :: cs) slot e ↔
    (e.column = c.name ∧ c.type.Flaw (fieldAt (c :: cs) slot 0 c) e.cause) ∨
      (c.type.WellFormed (fieldAt (c :: cs) slot 0 c) ∧
        FirstFlaw cs (slot.drop c.type.size) e) := by
  constructor
  · rintro ⟨j, d, hd, hname, hflaw, hbefore⟩
    cases j with
    | zero =>
      obtain rfl := Option.some.inj hd
      exact .inl ⟨hname, hflaw⟩
    | succ j =>
      refine .inr ⟨hbefore 0 j.succ_pos c rfl, j, d, hd, hname, fieldAt_succ c d j ▸ hflaw, ?_⟩
      intro i hi d' hd'
      exact fieldAt_succ c d' i ▸ hbefore (i + 1) (by omega) d' hd'
  · rintro (⟨hname, hflaw⟩ | ⟨hgood, j, d, hd, hname, hflaw, hbefore⟩)
    · exact ⟨0, c, rfl, hname, hflaw, fun i hi => absurd hi (Nat.not_lt_zero i)⟩
    · refine ⟨j + 1, d, hd, hname, fieldAt_succ c d j ▸ hflaw, ?_⟩
      intro i hi d' hd'
      cases i with
      | zero =>
        obtain rfl := Option.some.inj hd'
        exact hgood
      | succ i => exact fieldAt_succ c d' i ▸ hbefore i (by omega) d' hd'

/-- Reading a slot fails only for its first bad column. -/
theorem decodeFields_eq_error (h : slot.length = Schema.totalSize cs) {x : Failure RowError} :
    decodeFields cs slot = .error x ↔ ∃ e, x = .error e ∧ FirstFlaw cs slot e := by
  induction cs generalizing slot x with
  | nil =>
    refine iff_of_false nofun ?_
    rintro ⟨e, -, j, c, hc, -⟩
    simp at hc
  | cons c cs ih =>
    have hfield := length_fieldAt_zero h
    simp only [Schema.totalSize] at h
    have htail : (slot.drop c.type.size).length = Schema.totalSize cs := by
      rw [List.length_drop]
      omega
    rw [decodeFields_cons (by omega)]
    cases hv : Value.decode c.type (fieldAt (c :: cs) slot 0 c) with
    | error y =>
      obtain ⟨cause, rfl, hflaw⟩ := (Value.decode_eq_error hfield).mp hv
      constructor
      · intro hx
        exact ⟨⟨c.name, cause⟩, (Except.error.inj hx).symm, firstFlaw_cons.mpr (.inl ⟨rfl, hflaw⟩)⟩
      · rintro ⟨⟨column, cause'⟩, rfl, hfirst⟩
        rcases firstFlaw_cons.mp hfirst with ⟨rfl, hflaw'⟩ | ⟨hgood, -⟩
        · -- one field is read in one way only
          have hv' := (Value.decode_eq_error hfield).mpr ⟨cause', rfl, hflaw'⟩
          obtain rfl : cause = cause' := by simpa using hv.symm.trans hv'
          rfl
        · exact absurd hflaw ((ColumnType.wellFormed_iff hfield).mp hgood cause)
    | ok v =>
      have hgood := (Value.exists_decode_iff hfield).mp ⟨v, hv⟩
      have hrest : (Except.ok v >>= fun v => decodeFields cs (slot.drop c.type.size) >>= fun vs =>
          (.ok (v :: vs) : Except (Failure RowError) _)) = .error x ↔
            decodeFields cs (slot.drop c.type.size) = .error x := by
        cases decodeFields cs (slot.drop c.type.size) <;> simp
      rw [mapError_ok, hrest, ih htail]
      refine exists_congr fun e => and_congr_right fun _ => ?_
      rw [firstFlaw_cons]
      constructor
      · intro hfirst
        exact .inr ⟨hgood, hfirst⟩
      · rintro (⟨-, hflaw⟩ | ⟨-, hfirst⟩)
        · exact absurd hflaw ((ColumnType.wellFormed_iff hfield).mp hgood e.cause)
        · exact hfirst

/-- A slot is read as a row just if each of its fields holds a value. -/
theorem exists_decodeFields_iff (h : slot.length = Schema.totalSize cs) :
    (∃ vs, decodeFields cs slot = .ok vs) ↔
      ∀ (j : Nat) (c : Column), cs[j]? = some c → c.type.WellFormed (fieldAt cs slot j c) := by
  induction cs generalizing slot with
  | nil => exact iff_of_true ⟨[], rfl⟩ fun j c hc => by simp at hc
  | cons c cs ih =>
    have hfield := length_fieldAt_zero h
    simp only [Schema.totalSize] at h
    have htail : (slot.drop c.type.size).length = Schema.totalSize cs := by
      rw [List.length_drop]
      omega
    rw [decodeFields_cons (by omega)]
    constructor
    · rintro ⟨vs, hvs⟩ j d hd
      obtain ⟨v, hv, hvs⟩ := bind_eq_ok.mp hvs
      obtain ⟨rest, hrest, -⟩ := bind_eq_ok.mp hvs
      cases j with
      | zero =>
        obtain rfl := Option.some.inj hd
        exact (Value.exists_decode_iff hfield).mp ⟨v, mapError_eq_ok.mp hv⟩
      | succ j => exact fieldAt_succ c d j ▸ (ih htail).mp ⟨rest, hrest⟩ j d hd
    · intro hgood
      obtain ⟨v, hv⟩ := (Value.exists_decode_iff hfield).mpr (hgood 0 c rfl)
      obtain ⟨vs, hvs⟩ := (ih htail).mpr fun j d hd => fieldAt_succ c d j ▸ hgood (j + 1) d hd
      refine ⟨v :: vs, ?_⟩
      rw [hv, hvs]
      rfl

/-- What a slot holds depends on the bytes that decide in each of its fields. -/
theorem decodeFields_congr (h : slot.length = Schema.totalSize cs)
    (h' : slot'.length = Schema.totalSize cs)
    (hsame : ∀ j c, cs[j]? = some c →
      (fieldAt cs slot j c).take (c.type.inspected (fieldAt cs slot j c)) =
        (fieldAt cs slot' j c).take (c.type.inspected (fieldAt cs slot j c))) :
    decodeFields cs slot = decodeFields cs slot' := by
  induction cs generalizing slot slot' with
  | nil => rfl
  | cons c cs ih =>
    have hfield := Value.decode_congr (length_fieldAt_zero h) (length_fieldAt_zero h')
      (hsame 0 c rfl)
    simp only [Schema.totalSize] at h h'
    have htail : decodeFields cs (slot.drop c.type.size) =
        decodeFields cs (slot'.drop c.type.size) := by
      apply ih
      · rw [List.length_drop]
        omega
      · rw [List.length_drop]
        omega
      · intro j d hd
        have := hsame (j + 1) d hd
        rwa [fieldAt_succ, fieldAt_succ] at this
    rw [decodeFields_cons (by omega), decodeFields_cons (by omega), hfield, htail]

end Row
end RowStore
