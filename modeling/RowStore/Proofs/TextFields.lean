import Mathlib.Data.List.DropRight
import Mathlib.Tactic
import RowStore.Text.Blank
import RowStore.Text.Numeral

/-! The fields of a text: texts that are joined are split one after the other, white space around a
field does not count, and a numeral is read as the number that it was written for. -/
namespace RowStore.Text

variable {sep : Char} {cs before after : List Char}

theorem splitAt_eq_splitOn (sep : Char) (cs : List Char) : splitAt sep cs = cs.splitOn sep := by
  induction cs with
  | nil => rfl
  | cons c cs ih =>
    rw [splitAt, ih, List.splitOn_cons_eq_if_modifyHead]
    by_cases hc : c = sep
    · rw [if_pos hc, if_pos (beq_iff_eq.mpr hc)]
    · rw [if_neg hc, if_neg (by simpa using hc)]
      cases h : cs.splitOn sep with
      | nil => exact absurd h (List.splitOn_ne_nil sep cs)
      | cons f fs => rfl

theorem intercalate_splitAt (sep : Char) (cs : List Char) :
    [sep].intercalate (splitAt sep cs) = cs := by
  rw [splitAt_eq_splitOn, List.intercalate_splitOn]

theorem sep_notMem_of_mem_splitAt {f : List Char} (h : f ∈ splitAt sep cs) : sep ∉ f := by
  induction cs generalizing f with
  | nil =>
    rw [List.mem_singleton.mp h]
    exact List.not_mem_nil
  | cons c cs ih =>
    rw [splitAt] at h
    split at h
    · rcases List.mem_cons.mp h with rfl | h
      · exact List.not_mem_nil
      · exact ih h
    · next hc =>
      split at h
      · rw [List.mem_singleton.mp h]
        simpa using Ne.symm hc
      · next g gs heq =>
        rw [heq] at ih
        rcases List.mem_cons.mp h with rfl | h
        · rw [List.mem_cons, not_or]
          exact ⟨Ne.symm hc, ih (List.mem_cons_self ..)⟩
        · exact ih (List.mem_cons_of_mem _ h)

theorem splitAt_append (sep : Char) (as bs : List Char) :
    splitAt sep (as ++ sep :: bs) = splitAt sep as ++ splitAt sep bs := by
  rw [splitAt_eq_splitOn, splitAt_eq_splitOn, splitAt_eq_splitOn, List.splitOn_append_cons_self]

theorem splitOnce?_append (h : sep ∉ before) (after : List Char) :
    splitOnce? sep (before ++ sep :: after) = some (before, after) := by
  have hall : ∀ c ∈ before, decide (c ≠ sep) = true := by
    intro c hc
    rw [decide_eq_true_eq]
    rintro rfl
    exact h hc
  unfold splitOnce?
  rw [List.dropWhile_append_of_pos hall, List.takeWhile_append_of_pos hall]
  simp

/-- White space only. -/
def Blank (cs : List Char) : Prop := ∀ c ∈ cs, isBlank c = true

instance (cs : List Char) : Decidable (Blank cs) := List.decidableBAll _ cs

theorem blank_nil : Blank [] := List.forall_mem_nil _

theorem Blank.trim_eq (h : Blank cs) : trim cs = [] := by
  unfold trim
  rw [List.dropWhile_eq_nil_iff.mpr h]
  rfl

theorem Blank.notMem {c : Char} (h : Blank cs) (hc : isBlank c = false) : c ∉ cs := by
  intro hmem
  exact Bool.false_ne_true (hc.symm.trans (h c hmem))

theorem dropWhileEnd_eq (p : Char → Bool) (cs : List Char) :
    dropWhileEnd p cs = cs.rdropWhile p := rfl

theorem dropWhileEnd_append_blank (h : Blank after) (cs : List Char) :
    dropWhileEnd isBlank (cs ++ after) = dropWhileEnd isBlank cs := by
  unfold dropWhileEnd
  rw [List.reverse_append, List.dropWhile_append_of_pos]
  intro c hc
  exact h c (List.mem_reverse.mp hc)

/-- White space around a text is trimmed, and it does not matter what for. -/
theorem trim_append (hb : Blank before) (ha : Blank after) (cs : List Char) :
    trim (before ++ cs ++ after) = trim cs := by
  unfold trim
  rw [List.append_assoc, List.dropWhile_append_of_pos hb, List.dropWhile_append]
  split
  · next hempty =>
    rw [List.isEmpty_iff.mp hempty, List.dropWhile_eq_nil_iff.mpr ha]
  · exact dropWhileEnd_append_blank ha _

theorem trim_dropWhile (cs : List Char) : trim (cs.dropWhile isBlank) = trim cs := by
  unfold trim
  rw [List.dropWhile_idempotent]

theorem trim_dropWhileEnd (cs : List Char) : trim (dropWhileEnd isBlank cs) = trim cs := by
  have hblank : Blank (cs.rtakeWhile isBlank) := fun c hc => List.mem_rtakeWhile_imp hc
  have hcut : trim ([] ++ dropWhileEnd isBlank cs ++ cs.rtakeWhile isBlank) =
      trim (dropWhileEnd isBlank cs) := trim_append blank_nil hblank _
  rw [List.nil_append, dropWhileEnd_eq, List.rdropWhile_append_rtakeWhile] at hcut
  exact hcut.symm

theorem trim_trim (cs : List Char) : trim (trim cs) = trim cs :=
  (trim_dropWhileEnd (cs.dropWhile isBlank)).trans (trim_dropWhile cs)

/-- A text that begins and ends with no white space is trimmed. -/
theorem trim_eq_self (hfirst : ∀ c ∈ cs.head?, isBlank c = false)
    (hlast : ∀ c ∈ cs.getLast?, isBlank c = false) : trim cs = cs := by
  unfold trim
  have hstart : cs.dropWhile isBlank = cs := by
    cases cs with
    | nil => rfl
    | cons c cs => exact List.dropWhile_cons_of_neg (by simp [hfirst c rfl])
  rw [hstart, dropWhileEnd_eq, List.rdropWhile_eq_self_iff]
  intro hne
  rw [hlast _ (List.getLast?_eq_some_getLast hne)]
  exact Bool.false_ne_true

/-- White space on either side of a separator is cut off apart from what is on the other side. -/
theorem trim_append_cons (hsep : isBlank sep = false) (before after : List Char) :
    trim (before ++ sep :: after) =
      before.dropWhile isBlank ++ sep :: dropWhileEnd isBlank after := by
  have hstart : (before ++ sep :: after).dropWhile isBlank =
      before.dropWhile isBlank ++ sep :: after := by
    rw [List.dropWhile_append]
    split
    · next hempty =>
      rw [List.isEmpty_iff.mp hempty, List.dropWhile_cons_of_neg (by simp [hsep])]
      rfl
    · rfl
  unfold trim
  rw [hstart]
  unfold dropWhileEnd
  rw [List.reverse_append, List.reverse_cons, List.append_assoc, List.dropWhile_append]
  split
  · next hempty =>
    rw [List.isEmpty_iff.mp hempty, List.singleton_append,
      List.dropWhile_cons_of_neg (by simp [hsep])]
    simp
  · simp

section Numerals

variable {limit n : Nat} {past : NumeralError}

theorem digit?_digitChar (h : n < 10) : digit? (Nat.digitChar n) = some n := by
  interval_cases n <;> rfl

/-- Digits are read from the left, so the last one comes last. -/
theorem readDigits_append (acc : Nat) (cs : List Char) (c : Char) :
    readDigits limit past acc (cs ++ [c]) =
      readDigits limit past acc cs >>= fun m => readDigits limit past m [c] := by
  induction cs generalizing acc with
  | nil => rfl
  | cons d cs ih =>
    rw [List.cons_append, readDigits, readDigits]
    cases digit? d with
    | none => rfl
    | some m =>
      simp only
      split
      · exact ih _
      · rfl

/-- The digits that a number is written with are read as that number. -/
theorem readDigits_toDigits (h : n ≤ limit) :
    readDigits limit past 0 (Nat.toDigits 10 n) = .ok n := by
  -- The digits but the last are those of `n / 10`, and reading goes on from there.
  induction n using Nat.strongRecOn with
  | ind n ih =>
    have hlast (m : Nat) (hm : m < 10) (acc : Nat) (hle : acc * 10 + m ≤ limit) :
        readDigits limit past acc [Nat.digitChar m] = .ok (acc * 10 + m) := by
      rw [readDigits, digit?_digitChar hm]
      exact if_pos hle
    rcases Nat.lt_or_ge n 10 with hsmall | hlarge
    · rw [Nat.toDigits_of_lt_base hsmall, hlast n hsmall 0 (by omega), Nat.zero_mul, Nat.zero_add]
    · rw [Nat.toDigits_of_base_le (by norm_num) hlarge, readDigits_append,
        ih (n / 10) (by omega) (by omega)]
      have hmod : n % 10 < 10 := Nat.mod_lt _ (by norm_num)
      have hdecimal : n / 10 * 10 + n % 10 = n := by omega
      exact (hlast (n % 10) hmod (n / 10) (by omega)).trans (congrArg Except.ok hdecimal)

theorem digit_of_mem {c : Char} (h : c ∈ Nat.toDigits 10 n) : '0' ≤ c ∧ c ≤ '9' := by
  have hdigit := Nat.isDigit_of_mem_toDigits (by norm_num) le_rfl h
  simpa [Char.isDigit, Char.le_def] using hdigit

/-- A number up to the limit is read from its decimal numeral. -/
theorem readNat_toDigits (h : n ≤ limit) : readNat limit (Nat.toDigits 10 n) = .ok n := by
  have hread : readDigits limit .tooLarge 0 (Nat.toDigits 10 n) = .ok n := readDigits_toDigits h
  have hplus : '+' ∉ Nat.toDigits 10 n := fun hmem => absurd (digit_of_mem hmem) (by decide)
  cases hdigits : Nat.toDigits 10 n with
  | nil => exact absurd hdigits Nat.toDigits_ne_nil
  | cons c cs =>
    rw [hdigits] at hread hplus
    have hc : c ≠ '+' := by
      rintro rfl
      exact hplus (List.mem_cons_self ..)
    unfold readNat
    split
    · contradiction
    · next heq => exact absurd (List.cons.inj heq).1 hc
    · exact hread

end Numerals

end RowStore.Text
