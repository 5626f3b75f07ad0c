import Mathlib.Algebra.Order.Floor.Div
import RowStore.Proofs.PageInvariant
import RowStore.TableFile

/-! The layout of a page: it has as many slots as there is room for, each of them has bytes behind
the bitmap that no other has, and a bit in the bitmap that no other has. -/
namespace RowStore

theorem ceilDiv_le_iff {n size m : Nat} (h : 0 < size) : ceilDiv n size ≤ m ↔ n ≤ size * m := by
  unfold ceilDiv
  rw [← Nat.lt_succ_iff, Nat.div_lt_iff_lt_mul h, Nat.succ_mul, Nat.mul_comm m]
  omega

theorem ceilDiv_eq {size : Nat} (n : Nat) (h : 0 < size) : ceilDiv n size = n ⌈/⌉ size := by
  apply eq_of_forall_ge_iff
  intro m
  rw [ceilDiv_le_iff h, ceilDiv_le_iff_le_smul h, smul_eq_mul]

/-- No two bits have both their byte and their mask in common: the masks in a byte are different
powers of two. -/
theorem Bitmap.byte_mask_injective : Function.Injective fun i => (i / 8, mask i) := by
  intro i j h
  obtain ⟨hbyte, hmask⟩ := Prod.mk.inj h
  have hpow : 2 ^ (i % 8) = 2 ^ (j % 8) := by
    rw [← toNat_mask, ← toNat_mask, hmask]
  have hrest : i % 8 = j % 8 := Nat.pow_right_injective (le_refl 2) hpow
  omega

namespace Layout

variable {pageSize slotWidth n : Nat} {l : Layout}

/-- The bits of `n` slots, in whole bytes, and the slots themselves fit the page. -/
def Fits (pageSize slotWidth n : Nat) : Prop := n ⌈/⌉ 8 + n * slotWidth ≤ pageSize

/-- Rounding the bitmap up to whole bytes costs no slot, since the slots are whole bytes too: it is
the same to ask for room for the bits alone. -/
theorem fits_iff : Fits pageSize slotWidth n ↔ n * (slotWidth * 8 + 1) ≤ pageSize * 8 := by
  have hbits : n * (slotWidth * 8 + 1) = 8 * (n * slotWidth) + n := by ring
  have hbitmap (m : Nat) : n ⌈/⌉ 8 ≤ m ↔ n ≤ 8 * m := by
    rw [ceilDiv_le_iff_le_smul (by norm_num), smul_eq_mul]
  unfold Fits
  rw [hbits]
  constructor
  · intro h
    have hcover := (hbitmap (n ⌈/⌉ 8)).mp le_rfl
    omega
  · intro h
    have hleft : n ⌈/⌉ 8 ≤ pageSize - n * slotWidth := (hbitmap _).mpr (by omega)
    omega

theorem le_slotCount_iff (h : make pageSize slotWidth = .ok l) :
    n ≤ l.slotCount ↔ Fits pageSize slotWidth n := by
  obtain ⟨-, -, rfl⟩ := make_eq_ok.mp h
  rw [fits_iff, Nat.le_div_iff_mul_le (Nat.succ_pos _)]

/-- A slot and the byte of its bit are the least that a page with a slot has. -/
theorem slotCount_eq_zero_iff (h : make pageSize slotWidth = .ok l) :
    l.slotCount = 0 ↔ pageSize < slotWidth + 1 := by
  obtain ⟨-, -, rfl⟩ := make_eq_ok.mp h
  rw [Nat.div_eq_zero_iff]
  omega

/-- The bytes of a slot. -/
def slotBytes (l : Layout) (slot : Nat) : Set Nat :=
  {k | ∃ start stop, l.slotRange slot = .ok (start, stop) ∧ start ≤ k ∧ k < stop}

theorem mem_slotBytes (h : make pageSize slotWidth = .ok l) {slot k : Nat}
    (hs : slot < l.slotCount) : k ∈ l.slotBytes slot ↔
      l.bitmapBytes + slot * l.slotWidth ≤ k ∧ k < l.bitmapBytes + (slot + 1) * l.slotWidth := by
  have hrange := (slotRange_eq h hs).1
  constructor
  · rintro ⟨start, stop, heq, hstart, hstop⟩
    obtain ⟨rfl, rfl⟩ := Prod.mk.inj (Except.ok.inj (hrange.symm.trans heq))
    rw [Nat.succ_mul]
    omega
  · rintro ⟨hstart, hstop⟩
    rw [Nat.succ_mul] at hstop
    exact ⟨_, _, hrange, hstart, by omega⟩

/-- A slot ends before a later one begins. -/
theorem lt_of_mem_slotBytes (h : make pageSize slotWidth = .ok l) {i j a b : Nat} (hij : i < j)
    (hj : j < l.slotCount) (ha : a ∈ l.slotBytes i) (hb : b ∈ l.slotBytes j) : a < b := by
  have hafter : (i + 1) * l.slotWidth ≤ j * l.slotWidth := Nat.mul_le_mul_right _ hij
  have hstop := ((mem_slotBytes h (hij.trans hj)).mp ha).2
  have hstart := ((mem_slotBytes h hj).mp hb).1
  omega

/-- How a layout uses the bytes of a page. -/
structure Packs (l : Layout) (pageSize slotWidth : Nat) : Prop where
  greatest : IsGreatest {n | Fits pageSize slotWidth n} l.slotCount
  bitmapBytes_eq : l.bitmapBytes = l.slotCount ⌈/⌉ 8
  range : ∀ slot < l.slotCount, ∃ start stop, l.slotRange slot = .ok (start, stop) ∧
    l.bitmapBytes ≤ start ∧ start ≤ stop ∧ stop ≤ pageSize ∧ stop - start = slotWidth
  apart : ∀ i < l.slotCount, ∀ j < l.slotCount, i ≠ j → ∀ k ∈ l.slotBytes i, k ∉ l.slotBytes j
  behind : ∀ slot < l.slotCount, ∀ k ∈ l.slotBytes slot, l.bitmapBytes ≤ k
  bit : ∀ slot < l.slotCount, slot / 8 < l.bitmapBytes

theorem packs_of_make (h : make pageSize slotWidth = .ok l) : l.Packs pageSize slotWidth where
  greatest := ⟨(le_slotCount_iff h).mp le_rfl, fun _ hn => (le_slotCount_iff h).mpr hn⟩
  bitmapBytes_eq := by
    obtain ⟨-, -, rfl⟩ := make_eq_ok.mp h
    exact ceilDiv_eq _ (by norm_num)
  range := by
    intro slot hs
    obtain ⟨hrange, hstop⟩ := slotRange_eq h hs
    obtain ⟨-, -, hl⟩ := make_eq_ok.mp h
    have hsize : l.pageSize = pageSize := by rw [hl]
    have hwidth : l.slotWidth = slotWidth := by rw [hl]
    refine ⟨_, _, hrange, ?_, ?_, ?_, ?_⟩ <;> omega
  apart := by
    intro i hi j hj hij k hki hkj
    rcases Nat.lt_or_gt_of_ne hij with hlt | hgt
    · exact lt_irrefl k (lt_of_mem_slotBytes h hlt hj hki hkj)
    · exact lt_irrefl k (lt_of_mem_slotBytes h hgt hi hkj hki)
  behind := by
    intro slot hs k hk
    exact (Nat.le_add_right _ _).trans ((mem_slotBytes h hs).mp hk).1
  bit := fun _ hs => bit_lt h hs

/-- A table is refused for its page size just if a page has no slot. -/
theorem openAt_eq_unusable (h : make pageSize slotWidth = .ok l) {schema : Schema}
    (hwidth : schema.width = slotWidth) (path : Path) (id : TableId) (d : Disk) :
    TableFile.openAt path id schema pageSize d =
      .error (.error (.unusablePageSize pageSize slotWidth)) ↔ l.slotCount = 0 := by
  subst hwidth
  unfold TableFile.openAt
  rw [h, orFault_ok, ok_bind]
  split
  · next hzero => simp only [hzero]
  · next hroom =>
    refine iff_of_false ?_ hroom
    cases d.openFile path with
    | error e => nofun
    | ok opened => nofun

/-- The layout of a page is feasible and cannot be bettered: of all numbers of slots that fit the
page with their bitmap, it has the greatest; the slots lie apart, behind the bitmap and in the page;
and their bits are different ones in the bitmap. Just the pages that are no larger than a slot have
none, and a table with such pages is refused. -/
theorem make_packs (hpage : pageSize < 2 ^ 61) (hslot : slotWidth * 8 + 1 < 2 ^ 64) :
    ∃ l, make pageSize slotWidth = .ok l ∧ l.Packs pageSize slotWidth ∧
      (Function.Injective fun slot => (slot / 8, Bitmap.mask slot)) ∧
        (l.slotCount = 0 ↔ pageSize < slotWidth + 1) ∧
        ∀ (schema : Schema) (path : Path) (id : TableId) (d : Disk), schema.width = slotWidth →
          (TableFile.openAt path id schema pageSize d =
            .error (.error (.unusablePageSize pageSize slotWidth)) ↔ pageSize < slotWidth + 1) := by
  have hbits : pageSize * 8 < wordLimit := by
    unfold wordLimit
    omega
  have hmake := make_eq_ok.mpr ⟨hbits, hslot, rfl⟩
  refine ⟨_, hmake, packs_of_make hmake, Bitmap.byte_mask_injective,
    slotCount_eq_zero_iff hmake, ?_⟩
  intro schema path id d hwidth
  rw [openAt_eq_unusable hmake hwidth, slotCount_eq_zero_iff hmake]

/-- Rows of one byte in a page of nine: eight slots, and the byte before them is their bitmap. Rows
without columns take a bit each. A row as long as the page does not fit it. -/
theorem make_packs_nine :
    (∃ l, make 9 1 = .ok l ∧ l.Packs 9 1 ∧ l.slotCount = 8) ∧
      (∃ l, make 9 0 = .ok l ∧ l.Packs 9 0 ∧ l.slotCount = 72) ∧
        TableFile.openAt ⟨"a"⟩ 1 ⟨[⟨"n", .integer⟩, ⟨"b", .boolean⟩]⟩ 9 {} =
          .error (.error (.unusablePageSize 9 9)) := by
  refine ⟨?_, ?_, ?_⟩
  · obtain ⟨l, hl, hpacks, -⟩ :=
      make_packs (show 9 < 2 ^ 61 by decide) (show 1 * 8 + 1 < 2 ^ 64 by decide)
    exact ⟨l, hl, hpacks, by rw [← Except.ok.inj hl]⟩
  · obtain ⟨l, hl, hpacks, -⟩ :=
      make_packs (show 9 < 2 ^ 61 by decide) (show 0 * 8 + 1 < 2 ^ 64 by decide)
    exact ⟨l, hl, hpacks, by rw [← Except.ok.inj hl]⟩
  · obtain ⟨-, -, -, -, -, hrefused⟩ :=
      make_packs (show 9 < 2 ^ 61 by decide) (show 9 * 8 + 1 < 2 ^ 64 by decide)
    exact (hrefused _ _ _ _ rfl).mpr (by decide)

end Layout
end RowStore
