import Mathlib.Tactic
import RowStore.Bytes
import RowStore.Text.Utf8

/-! Words and texts as bytes: reading undoes writing. -/
namespace RowStore
namespace Bytes

@[simp] theorem length_ofWord (count n : Nat) : (ofWord count n).length = count := by
  induction count generalizing n with
  | zero => rfl
  | succ count ih => simp [ofWord, ih]

@[simp] theorem length_zeros (n : Nat) : (zeros n).length = n := by simp [zeros]

theorem toWord_ofWord {count n : Nat} (h : n < 256 ^ count) : toWord (ofWord count n) = n := by
  induction count generalizing n with
  | zero =>
    have hn : n = 0 := by simpa using h
    simp [ofWord, toWord, hn]
  | succ count ih =>
    have hq : n / 256 < 256 ^ count := by
      rw [Nat.div_lt_iff_lt_mul (by norm_num), ← pow_succ]
      exact h
    simp only [ofWord, toWord, ih hq, UInt8.toNat_ofNat']
    have := Nat.mod_add_div n 256
    omega

theorem toWord_lt (bs : Bytes) : toWord bs < 256 ^ bs.length := by
  induction bs with
  | nil => simp [toWord]
  | cons b bs ih =>
    have hb := b.toNat_lt
    simp only [toWord, List.length_cons, pow_succ]
    omega

/-- Writing a word gives back the bytes that it was read from. -/
theorem ofWord_toWord (bs : Bytes) : ofWord bs.length (toWord bs) = bs := by
  induction bs with
  | nil => rfl
  | cons b bs ih =>
    have hb := b.toNat_lt
    have hlow : UInt8.ofNat (b.toNat + 256 * toWord bs) = b := by
      apply UInt8.toNat_inj.mp
      rw [UInt8.toNat_ofNat']
      omega
    have hhigh : (b.toNat + 256 * toWord bs) / 256 = toWord bs := by omega
    simp only [toWord, List.length_cons, ofWord, hlow, hhigh, ih]

theorem front_append {n : Nat} {bs : Bytes} (h : bs.length = n) (tail : Bytes) :
    front n (bs ++ tail) = .ok bs := by
  simp [front, ← h]

theorem rest_append {n : Nat} {bs tail : Bytes} (h : bs.length = n) :
    rest n (bs ++ tail) = .ok tail := by
  simp [rest, ← h]

theorem front_of_le {n : Nat} (buf : Bytes) (h : n ≤ buf.length) :
    front n buf = .ok (buf.take n) := if_pos h

theorem front_eq_ok {n : Nat} {buf bs : Bytes} :
    front n buf = .ok bs ↔ n ≤ buf.length ∧ buf.take n = bs := by
  unfold front
  split <;> simp_all

theorem rest_eq_ok {n : Nat} {buf bs : Bytes} :
    rest n buf = .ok bs ↔ n ≤ buf.length ∧ buf.drop n = bs := by
  unfold rest
  split <;> simp_all

end Bytes

namespace Text

@[simp] theorem length_toUtf8 (s : String) : (toUtf8 s).length = s.utf8ByteSize := Array.length_toList

/-- The bytes of a text spell that text. -/
theorem ofUtf8?_eq_some_iff {bs : Bytes} {s : String} : ofUtf8? bs = some s ↔ bs = toUtf8 s := by
  unfold ofUtf8? String.fromUTF8? toUtf8
  constructor
  · intro h
    split at h
    · rw [← Option.some.inj h]
      rfl
    · contradiction
  · rintro rfl
    have hs : (⟨s.toByteArray.data.toList.toArray⟩ : ByteArray) = s.toByteArray := by simp
    rw [hs, dif_pos s.isValidUTF8]
    rfl

theorem readUtf8_toUtf8 (s : String) : readUtf8 (toUtf8 s) = .ok s := by
  simp [readUtf8, ofUtf8?_eq_some_iff.mpr rfl]

theorem eq_toUtf8_of_readUtf8 {bs : Bytes} {s : String} (h : readUtf8 bs = .ok s) :
    bs = toUtf8 s := by
  unfold readUtf8 at h
  split at h
  · next t ht =>
    rw [Except.ok.inj h] at ht
    exact ofUtf8?_eq_some_iff.mp ht
  · contradiction

end Text
end RowStore
