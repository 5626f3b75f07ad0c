import Mathlib.Data.Nat.Bitwise
import Mathlib.Tactic
import RowStore.Page.Bitmap

/-! Setting and clearing one bit of a bitmap leaves its size and all other bits. -/
namespace RowStore.Bitmap

theorem toNat_mask (i : Nat) : (mask i).toNat = 2 ^ (i % 8) := by
  have h : i % 8 < 8 := Nat.mod_lt _ (by norm_num)
  unfold mask
  interval_cases i % 8 <;> rfl

theorem byte_get (x : UInt8) (i : Nat) : (x &&& mask i != 0) = x.toNat.testBit (i % 8) := by
  have hbit : (x &&& mask i).toNat = (x.toNat.testBit (i % 8)).toNat * 2 ^ (i % 8) := by
    rw [UInt8.toNat_and, toNat_mask, Nat.and_two_pow]
  have hzero : x &&& mask i = 0 ↔ x.toNat.testBit (i % 8) = false := by
    rw [← UInt8.toNat_inj, hbit]
    cases x.toNat.testBit (i % 8) <;> simp
  cases h : x.toNat.testBit (i % 8) with
  | true => simp [bne_iff_ne, hzero, h]
  | false => simp [hzero.mpr h]

theorem byte_set (x : UInt8) (i j : Nat) :
    (x ||| mask i).toNat.testBit (j % 8) = (decide (i % 8 = j % 8) || x.toNat.testBit (j % 8)) := by
  rw [UInt8.toNat_or, toNat_mask, Nat.testBit_or, Nat.testBit_two_pow, Bool.or_comm]

theorem byte_clear (x : UInt8) (i j : Nat) :
    (x &&& ~~~mask i).toNat.testBit (j % 8) =
      (!decide (i % 8 = j % 8) && x.toNat.testBit (j % 8)) := by
  have hi : i % 8 < 8 := Nat.mod_lt _ (by norm_num)
  have hmask : 2 ^ (i % 8) < 2 ^ 8 := Nat.pow_lt_pow_right (by norm_num) hi
  have hnot : (~~~mask i).toNat = 2 ^ 8 - (2 ^ (i % 8) + 1) := by
    rw [UInt8.toNat_not, toNat_mask, UInt8.size, Nat.sub_sub, Nat.add_comm]
    norm_num
  have hj : j % 8 < 8 := Nat.mod_lt _ (by norm_num)
  rw [UInt8.toNat_and, hnot, Nat.testBit_and, Nat.testBit_two_pow_sub_succ hmask,
    Nat.testBit_two_pow, decide_eq_true hj, Bool.true_and, Bool.and_comm]

theorem get_eq_testBit (b : Bitmap) (i : Nat) :
    b.get i = (b.getD (i / 8) 0).toNat.testBit (i % 8) := byte_get _ i

@[simp] theorem size_set (b : Bitmap) (i : Nat) : (b.set i).size = b.size := Array.size_modify

@[simp] theorem size_clear (b : Bitmap) (i : Nat) : (b.clear i).size = b.size := Array.size_modify

theorem get_set (b : Bitmap) {i : Nat} (h : i / 8 < b.size) (j : Nat) :
    (b.set i).get j = (decide (i = j) || b.get j) := by
  simp only [get_eq_testBit, set, Array.getD_eq_getD_getElem?, Array.getElem?_modify]
  by_cases hbyte : i / 8 = j / 8
  · have hij : i % 8 = j % 8 ↔ i = j := by omega
    rw [if_pos hbyte, ← hbyte, Array.getElem?_eq_getElem h]
    simp only [Option.map_some, Option.getD_some, byte_set, hij]
  · have hij : i ≠ j := fun e => hbyte (by rw [e])
    simp [hbyte, hij]

theorem get_clear (b : Bitmap) (i j : Nat) :
    (b.clear i).get j = (!decide (i = j) && b.get j) := by
  simp only [get_eq_testBit, clear, Array.getD_eq_getD_getElem?, Array.getElem?_modify]
  by_cases hbyte : i / 8 = j / 8
  · have hij : i % 8 = j % 8 ↔ i = j := by omega
    rw [if_pos hbyte]
    cases b[j / 8]? with
    | none => simp
    | some x => simp only [Option.map_some, Option.getD_some, byte_clear, hij]
  · have hij : i ≠ j := fun e => hbyte (by rw [e])
    simp [hbyte, hij]

/-- A bitmap is its size and its bits. -/
theorem ext_get {a b : Bitmap} (hsize : a.size = b.size) (h : ∀ i, a.get i = b.get i) : a = b := by
  refine Array.ext hsize fun n ha hb => ?_
  rw [← UInt8.toNat_inj]
  refine Nat.eq_of_testBit_eq fun j => ?_
  by_cases hj : j < 8
  · have hbit := h (8 * n + j)
    have hbyte : (8 * n + j) / 8 = n := by omega
    have hpos : (8 * n + j) % 8 = j := by omega
    simpa [get_eq_testBit, hbyte, hpos, Array.getD, ha, hb] using hbit
  · have hlarge : 2 ^ 8 ≤ 2 ^ j := Nat.pow_le_pow_right (by norm_num) (by omega)
    rw [Nat.testBit_lt_two_pow (a[n].toNat_lt.trans_le hlarge),
      Nat.testBit_lt_two_pow (b[n].toNat_lt.trans_le hlarge)]

theorem clear_comm (b : Bitmap) (i j : Nat) : (b.clear i).clear j = (b.clear j).clear i := by
  refine ext_get (by simp only [size_clear]) fun n => ?_
  simp only [get_clear, Bool.and_left_comm]

/-- A bit that was clear is so again after it was set and cleared. -/
theorem clear_set {b : Bitmap} {i : Nat} (hi : i / 8 < b.size) (hfree : b.get i = false) :
    (b.set i).clear i = b := by
  refine ext_get (by simp only [size_clear, size_set]) fun n => ?_
  rw [get_clear, get_set b hi]
  by_cases hin : i = n
  · rw [← hin, hfree, decide_eq_true rfl]
    rfl
  · simp [hin]

end RowStore.Bitmap
