import RowStore.Proofs.TextFields
import RowStore.Value

/-! The names of column types: which texts name a type, and that they are read so. -/
namespace RowStore
namespace Text

variable {c : Char} {cs : List Char}

theorem upper_append (as bs : List Char) : upper (as ++ bs) = upper as ++ upper bs :=
  List.flatMap_append

theorem upper_cons (c : Char) (cs : List Char) : upper (c :: cs) = upperChar c ++ upper cs :=
  List.flatMap_cons

/-- Characters before the small letters have no other upper-case form. -/
theorem upperChar_of_lt (h : c.toNat < 97) : upperChar c = [c] := by
  have hletter : ¬('a' ≤ c ∧ c ≤ 'z') := fun hc => absurd hc.1 (not_le.mpr h)
  unfold upperChar
  rw [if_neg hletter]
  split <;> first | rfl | exact absurd h (by decide)

theorem upperChar_of_isBlank (h : isBlank c = true) : upperChar c = [c] := by
  have hletter : ¬('a' ≤ c ∧ c ≤ 'z') := by
    rintro ⟨ha, hz⟩
    have ha : 97 ≤ c.toNat := ha
    have hz : c.toNat ≤ 122 := hz
    simp [isBlank] at h
    omega
  unfold upperChar
  rw [if_neg hletter]
  split <;> first | rfl | exact absurd h (by decide)

theorem upper_eq_self (h : ∀ c ∈ cs, upperChar c = [c]) : upper cs = cs := by
  induction cs with
  | nil => rfl
  | cons c cs ih =>
    rw [upper_cons, h c (List.mem_cons_self ..), ih fun d hd => h d (List.mem_cons_of_mem _ hd)]
    rfl

/-- A letter of the English alphabet, in either case. -/
def IsLetter (c : Char) : Prop := 'a' ≤ c.toLower ∧ c.toLower ≤ 'z'

instance (c : Char) : Decidable (IsLetter c) := inferInstanceAs (Decidable (_ ∧ _))

/-- What is to be shown of letters is shown by going through the characters up to the last one. -/
theorem IsLetter.forall {P : Char → Prop}
    (h : ∀ n < 123, IsLetter (Char.ofNat n) → P (Char.ofNat n)) (hc : IsLetter c) : P c := by
  have hsmall : c.toNat < 123 := by
    by_contra hlarge
    have hsame : c.toLower = c := by
      unfold Char.toLower
      apply dif_neg
      rintro ⟨-, hz⟩
      have hz : c.toNat ≤ 90 := hz
      omega
    have hz : c.toNat ≤ 122 := hsame ▸ hc.2
    omega
  have hp := h c.toNat hsmall
  rw [Char.ofNat_toNat] at hp
  exact hp hc

/-- Both cases of a letter have one upper-case form. -/
theorem IsLetter.upperChar_eq (h : IsLetter c) : upperChar c = [c.toLower.toUpper] :=
  IsLetter.forall (P := fun c => upperChar c = [c.toLower.toUpper]) (by decide) h

theorem IsLetter.isBlank_eq (h : IsLetter c) : isBlank c = false :=
  IsLetter.forall (P := fun c => isBlank c = false) (by decide) h

/-- A word in any letter case has the upper-case form of the word. -/
theorem upper_of_toLower {word : List Char} (h : cs.map Char.toLower = word)
    (hcs : ∀ c ∈ cs, IsLetter c) : upper cs = word.map Char.toUpper := by
  subst h
  induction cs with
  | nil => rfl
  | cons c cs ih =>
    rw [upper_cons, (hcs c (List.mem_cons_self ..)).upperChar_eq,
      ih fun d hd => hcs d (List.mem_cons_of_mem _ hd)]
    rfl

theorem afterStart?_append (start cs : List Char) : afterStart? start (start ++ cs) = some cs := by
  induction start with
  | nil => rfl
  | cons c start ih =>
    rw [List.cons_append, afterStart?, if_pos rfl]
    exact ih

theorem beforeEnd?_append (cs : List Char) (c : Char) : beforeEnd? c (cs ++ [c]) = some cs := by
  unfold beforeEnd?
  rw [List.getLast?_concat, if_pos rfl, List.dropLast_concat]

end Text

namespace ColumnType
open Text

variable {type : ColumnType} {word : String} {cs before after : List Char}

/-- The words for a type that has no limit. -/
def words : ColumnType → List String
  | .integer => ["int", "integer"]
  | .float => ["float", "real", "double"]
  | .boolean => ["bool", "boolean"]
  | .text _ => []

/-- The texts that stand for a type: a word in any letter case, for a text with the limit after it
in brackets; or the name that the type is shown by. -/
inductive Spelled : ColumnType → List Char → Prop where
  | word {type : ColumnType} {word : String} {cs : List Char} (hword : word ∈ type.words)
      (h : cs.map Char.toLower = word.toList) : Spelled type cs
  | limited {word : String} {cs before after : List Char} (limit : UInt32)
      (hword : word ∈ ["text", "varchar"]) (h : cs.map Char.toLower = word.toList)
      (hbefore : Blank before) (hafter : Blank after) :
      Spelled (.text limit)
        (cs ++ '(' :: (before ++ (toString limit).toList ++ after) ++ [')'])
  | shown (type : ColumnType) : Spelled type type.name.toList

/-- The words for types are in small letters. -/
theorem small_of_mem_words (type : ColumnType)
    (hword : word ∈ type.words ∨ word ∈ ["text", "varchar"]) :
    ∀ k ∈ word.toList, 'a' ≤ k ∧ k ≤ 'z' := by
  have hall : word.toList.all (fun k => 'a' ≤ k ∧ k ≤ 'z') = true := by
    cases type <;>
      simp only [words, List.mem_cons, List.not_mem_nil, or_false, false_or, or_assoc] at hword
    case integer => rcases hword with rfl | rfl | rfl | rfl <;> rfl
    case float => rcases hword with rfl | rfl | rfl | rfl | rfl <;> rfl
    case boolean => rcases hword with rfl | rfl | rfl | rfl <;> rfl
    case text => rcases hword with rfl | rfl <;> rfl
  exact fun k hk => of_decide_eq_true (List.all_eq_true.mp hall k hk)

theorem isLetter_of_toLower (h : cs.map Char.toLower = word.toList)
    (hsmall : ∀ k ∈ word.toList, 'a' ≤ k ∧ k ≤ 'z') : ∀ c ∈ cs, IsLetter c := by
  intro c hc
  apply hsmall
  rw [← h]
  exact List.mem_map_of_mem hc

/-- A word for a type is read as that type. -/
theorem read?_word (hword : word ∈ type.words) (h : cs.map Char.toLower = word.toList) :
    read? cs = some type := by
  have hletters := isLetter_of_toLower h (small_of_mem_words type (.inl hword))
  have htrim : trim cs = cs := trim_eq_self
    (fun c hc => (hletters c (List.mem_of_head? hc)).isBlank_eq)
    (fun c hc => (hletters c (List.mem_of_getLast? hc)).isBlank_eq)
  unfold read?
  rw [htrim, upper_of_toLower h hletters]
  cases type <;> simp only [words, List.mem_cons, List.not_mem_nil, or_false] at hword
  case integer => rcases hword with rfl | rfl <;> rfl
  case float => rcases hword with rfl | rfl | rfl <;> rfl
  case boolean => rcases hword with rfl | rfl <;> rfl

theorem toList_toString (limit : UInt32) :
    (toString limit).toList = Nat.toDigits 10 limit.toNat := by
  have hnat : toString limit = toString limit.toNat := rfl
  rw [hnat]
  simp

/-- A numeral has no white space in it, and no letters. -/
theorem plain_of_mem {limit : UInt32} {c : Char} (h : c ∈ (toString limit).toList) :
    isBlank c = false ∧ upperChar c = [c] := by
  rw [toList_toString] at h
  obtain ⟨hzero, hnine⟩ := digit_of_mem h
  have hzero : 48 ≤ c.toNat := hzero
  have hnine : c.toNat ≤ 57 := hnine
  constructor
  · simp [isBlank]
    omega
  · exact upperChar_of_lt (by omega)

theorem trim_numeral (limit : UInt32) (hbefore : Blank before) (hafter : Blank after) :
    trim (before ++ (toString limit).toList ++ after) = Nat.toDigits 10 limit.toNat := by
  rw [trim_append hbefore hafter, ← toList_toString]
  exact trim_eq_self (fun c hc => (plain_of_mem (List.mem_of_head? hc)).1)
    (fun c hc => (plain_of_mem (List.mem_of_getLast? hc)).1)

/-- What stands between the brackets is read as the limit, whatever white space is around it. -/
theorem readLimit?_limited (limit : UInt32) (start : String)
    (hstart : start ∈ ["TEXT(", "VARCHAR("]) (hbefore : Blank before) (hafter : Blank after) :
    readLimit? (start.toList ++ (before ++ (toString limit).toList ++ after ++ [')'])) =
      some limit := by
  have hmax : limit.toNat ≤ maxUInt32 := Nat.le_of_lt_succ limit.toNat_lt
  have hread := readNat_toDigits hmax
  have htrim := trim_numeral limit hbefore hafter
  have hend := beforeEnd?_append (before ++ (toString limit).toList ++ after) ')'
  generalize before ++ (toString limit).toList ++ after = inner at htrim hend ⊢
  unfold readLimit?
  simp only [List.mem_cons, List.not_mem_nil, or_false] at hstart
  rcases hstart with rfl | rfl
  · simp only [afterStart?_append, Option.bind_some, hend, htrim, hread, UInt32.ofNat_toNat]
  · have hother : afterStart? "TEXT(".toList ("VARCHAR(".toList ++ (inner ++ [')'])) = none := rfl
    simp only [hother, afterStart?_append, Option.bind_some, hend, htrim, hread, UInt32.ofNat_toNat]

/-- A word with a bracket in it is none of the words for a type without a limit. -/
theorem read?_of_bracket (h : '(' ∈ upper (trim cs)) :
    read? cs = (readLimit? (upper (trim cs))).map .text := by
  have hne (w : String) (hw : '(' ∉ w.toList) : upper (trim cs) ≠ w.toList := by
    rintro heq
    exact hw (heq ▸ h)
  unfold read?
  simp only [hne "INT" (by decide), hne "INTEGER" (by decide), hne "FLOAT" (by decide),
    hne "REAL" (by decide), hne "DOUBLE" (by decide), hne "BOOL" (by decide),
    hne "BOOLEAN" (by decide), or_self, if_false]

theorem read?_limited (limit : UInt32) (hword : word ∈ ["text", "varchar"])
    (h : cs.map Char.toLower = word.toList) (hbefore : Blank before) (hafter : Blank after) :
    read? (cs ++ '(' :: (before ++ (toString limit).toList ++ after) ++ [')']) =
      some (.text limit) := by
  have hletters := isLetter_of_toLower h (small_of_mem_words (.text limit) (.inr hword))
  have hinner : upper (before ++ (toString limit).toList ++ after) =
      before ++ (toString limit).toList ++ after := by
    apply upper_eq_self
    intro c hc
    rcases List.mem_append.mp hc with hc | hc
    · rcases List.mem_append.mp hc with hc | hc
      · exact upperChar_of_isBlank (hbefore c hc)
      · exact (plain_of_mem hc).2
    · exact upperChar_of_isBlank (hafter c hc)
  have htrim : trim (cs ++ '(' :: (before ++ (toString limit).toList ++ after) ++ [')']) =
      cs ++ '(' :: (before ++ (toString limit).toList ++ after) ++ [')'] := by
    apply trim_eq_self
    · intro c hc
      cases cs with
      | nil => rw [← Option.some.inj hc]; rfl
      | cons d cs =>
        rw [← Option.some.inj hc]
        exact (hletters d (List.mem_cons_self ..)).isBlank_eq
    · intro c hc
      rw [List.getLast?_concat] at hc
      rw [← Option.some.inj hc]
      rfl
  have hupper : upper (trim (cs ++ '(' :: (before ++ (toString limit).toList ++ after) ++ [')'])) =
      word.toList.map Char.toUpper ++
        '(' :: (before ++ (toString limit).toList ++ after ++ [')']) := by
    rw [htrim, List.append_assoc, upper_append, upper_of_toLower h hletters, List.cons_append,
      upper_cons, upper_append, hinner]
    rfl
  rw [read?_of_bracket (by rw [hupper]; simp), hupper]
  simp only [List.mem_cons, List.not_mem_nil, or_false] at hword
  rcases hword with rfl | rfl
  · exact congrArg _ (readLimit?_limited limit "TEXT(" (by simp) hbefore hafter)
  · exact congrArg _ (readLimit?_limited limit "VARCHAR(" (by simp) hbefore hafter)

theorem toList_name_text (limit : UInt32) : (ColumnType.text limit).name.toList =
    "TEXT".toList ++ '(' :: ([] ++ (toString limit).toList ++ []) ++ [')'] := by
  have hname : (ColumnType.text limit).name = "TEXT(" ++ toString limit ++ ")" := rfl
  rw [hname, String.toList_append, String.toList_append, List.nil_append, List.append_nil]
  rfl

/-- A text that stands for a type is read as that type. -/
theorem Spelled.read? (h : Spelled type cs) : read? cs = some type := by
  cases h with
  | word hword h => exact read?_word hword h
  | limited limit hword h hbefore hafter => exact read?_limited limit hword h hbefore hafter
  | shown type =>
    cases type with
    | integer => rfl
    | float => rfl
    | boolean => rfl
    | text limit =>
      rw [toList_name_text]
      have hword : "TEXT".toList.map Char.toLower = "text".toList := rfl
      exact read?_limited limit (List.mem_cons_self ..) hword blank_nil blank_nil

/-- White space around a text does not count. -/
theorem read?_trim (cs : List Char) : read? (trim cs) = read? cs := by
  unfold read?
  rw [trim_trim]

theorem comma_of_isLetter (h : ∀ c ∈ cs, IsLetter c) : ',' ∉ cs := by
  intro hmem
  exact absurd (h ',' hmem) (by decide)

/-- Names of types can stand in a list with commas between. -/
theorem Spelled.comma (h : Spelled type cs) : ',' ∉ cs := by
  have hnumeral (limit : UInt32) : ',' ∉ (toString limit).toList := by
    rw [toList_toString]
    exact fun hmem => absurd (digit_of_mem hmem) (by decide)
  cases h with
  | word hword h =>
    exact comma_of_isLetter (isLetter_of_toLower h (small_of_mem_words type (.inl hword)))
  | limited limit hword h hbefore hafter =>
    have hletters := isLetter_of_toLower h (small_of_mem_words (.text limit) (.inr hword))
    have hcs := comma_of_isLetter hletters
    simp only [List.mem_append, List.mem_cons, List.not_mem_nil, or_false, not_or]
    exact ⟨⟨hcs, by decide, ⟨hbefore.notMem rfl, hnumeral limit⟩, hafter.notMem rfl⟩, by decide⟩
  | shown type =>
    cases type with
    | integer => decide
    | float => decide
    | boolean => decide
    | text limit =>
      rw [toList_name_text]
      simp [hnumeral]

end ColumnType
end RowStore
