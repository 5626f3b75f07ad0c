import Mathlib.Tactic
import RowStore.Disk

/-! The bytes of files: what a read finds at an offset after a write, and which files of a disk a
write leaves alone. -/
namespace RowStore

namespace Extent

theorem byteAt?_eq_some {e : Extent} {i : Nat} {b : UInt8} (h : e.byteAt? i = some b) :
    e.offset ≤ i ∧ i < e.stop := by
  unfold byteAt? at h
  split at h
  · obtain ⟨hlt, -⟩ := List.getElem?_eq_some_iff.mp h
    unfold stop
    omega
  · contradiction

theorem byteAt?_eq_none {e : Extent} {i : Nat} (h : i < e.offset ∨ e.stop ≤ i) :
    e.byteAt? i = none := by
  cases hb : e.byteAt? i with
  | none => rfl
  | some b =>
    have := byteAt?_eq_some hb
    omega

/-- Bytes with those of an extent over them: the extent's where it has one. -/
theorem getElem?_overlay (e : Extent) (start : Nat) (under : Bytes) (i : Nat) :
    (e.overlay start under)[i]? =
      under[i]?.map fun b => (e.byteAt? (start + i)).getD b := by
  rcases Nat.lt_or_ge i under.length with hi | hi
  · unfold overlay
    split
    · next hout =>
      rw [byteAt?_eq_none (by omega)]
      simp
    · next hin =>
      unfold stop at hin
      simp only [List.getElem?_append, List.length_append, List.length_take, List.length_drop,
        List.getElem?_take, List.getElem?_drop, byteAt?]
      grind
  · have hlen : (e.overlay start under).length = under.length := by
      unfold overlay stop
      split
      · rfl
      · simp only [List.length_append, List.length_take, List.length_drop]
        omega
    rw [List.getElem?_eq_none hi, List.getElem?_eq_none (hlen ▸ hi)]
    rfl

end Extent

namespace File

variable {f : File}

/-- A read gives the bytes at the offsets from its start on. -/
theorem read_eq_map (f : File) (start count : Nat) :
    f.read start count = (List.range count).map fun i => f.byteAt (start + i) := by
  unfold read byteAt
  induction f.extents with
  | nil => exact (List.map_const' ..).symm ▸ by simp [Bytes.zeros]
  | cons e es ih =>
    rw [List.foldr_cons, ih]
    apply List.ext_getElem?
    intro i
    rw [Extent.getElem?_overlay, List.getElem?_map, List.getElem?_map]
    rcases Nat.lt_or_ge i count with hi | hi
    · rw [List.getElem?_range hi]
      simp only [Option.map_some, List.findSome?_cons]
      cases e.byteAt? (start + i) <;> rfl
    · rw [List.getElem?_eq_none (by simpa using hi)]
      rfl

@[simp] theorem length_read (f : File) (start count : Nat) : (f.read start count).length = count := by
  rw [read_eq_map, List.length_map, List.length_range]

theorem getElem?_read (f : File) {start count i : Nat} (hi : i < count) :
    (f.read start count)[i]? = some (f.byteAt (start + i)) := by
  rw [read_eq_map, List.getElem?_map, List.getElem?_range hi]
  rfl

/-- Only extents that the new one hides are dropped when it is written. -/
theorem findSome?_filter_hidden (es : List Extent) (hidden : Extent → Bool) {i : Nat}
    (h : ∀ e ∈ es, hidden e → e.byteAt? i = none) :
    (es.filter fun e => !hidden e).findSome? (·.byteAt? i) = es.findSome? (·.byteAt? i) := by
  induction es with
  | nil => rfl
  | cons e es ih =>
    have ih := ih fun e' he' => h e' (by simp [he'])
    cases hh : hidden e with
    | true => simp [hh, ih, h e (by simp) hh]
    | false => simp [hh, ih, List.findSome?_cons]

theorem byteAt_write (f : File) (offset : Nat) (bs : Bytes) (i : Nat) :
    (f.write offset bs).byteAt i =
      if offset ≤ i ∧ i < offset + bs.length then bs.getD (i - offset) 0 else f.byteAt i := by
  unfold write
  by_cases hbs : bs = []
  · subst hbs
    rw [if_pos rfl, if_neg (by simp)]
  · rw [if_neg hbs]
    simp only [byteAt, List.findSome?_cons]
    by_cases hin : offset ≤ i ∧ i < offset + bs.length
    · have hlt : i - offset < bs.length := by omega
      simp [Extent.byteAt?, hin, hlt]
    · have hnone : Extent.byteAt? ⟨offset, bs⟩ i = none :=
        Extent.byteAt?_eq_none (by simp only [Extent.stop]; omega)
      have hhidden : ∀ x ∈ f.extents, offset ≤ x.offset ∧ x.stop ≤ Extent.stop ⟨offset, bs⟩ →
          x.byteAt? i = none := by
        intro x _ hx
        apply Extent.byteAt?_eq_none
        simp only [Extent.stop] at hx ⊢
        omega
      have hkeep := findSome?_filter_hidden f.extents
        (fun x => offset ≤ x.offset ∧ x.stop ≤ Extent.stop ⟨offset, bs⟩)
        fun x hmem hx => hhidden x hmem (of_decide_eq_true hx)
      simp only [hnone, if_neg hin, ← hkeep, decide_not]

theorem length_write (f : File) (offset : Nat) {bs : Bytes} (h : bs ≠ []) :
    (f.write offset bs).length = max f.length (offset + bs.length) := by
  simp only [write, if_neg h, Extent.stop]

/-- What was written is read again. -/
theorem read_write_same (f : File) (offset : Nat) (bs : Bytes) :
    (f.write offset bs).read offset bs.length = bs := by
  apply List.ext_getElem?
  intro i
  rcases Nat.lt_or_ge i bs.length with hi | hi
  · rw [getElem?_read _ hi, byteAt_write, if_pos (by omega), List.getElem?_eq_getElem hi]
    simp [hi]
  · rw [List.getElem?_eq_none hi, List.getElem?_eq_none (by simpa using hi)]

/-- A read beside a write finds what was there. -/
theorem read_write_beside (f : File) {offset start count : Nat} {bs : Bytes}
    (h : start + count ≤ offset ∨ offset + bs.length ≤ start) :
    (f.write offset bs).read start count = f.read start count := by
  rw [read_eq_map, read_eq_map]
  apply List.map_congr_left
  intro i hi
  have hi := List.mem_range.mp hi
  rw [byteAt_write, if_neg (by omega)]

end File

namespace Disk

variable {d d' : Disk} {l l' : Location}

theorem fileAt_setFile_self (d : Disk) (h : l ≠ []) (f : File) : (d.setFile l f).fileAt l = f := by
  simp [fileAt, file?, entry?, setFile, setEntry, h]

theorem lookup_setFile_of_ne (d : Disk) (h : l' ≠ l) (f : File) :
    (d.setFile l f).entries.lookup l' = d.entries.lookup l' := by
  have hfilter : ∀ es : List (Location × DiskEntry),
      (es.filter (·.1 ≠ l)).lookup l' = es.lookup l' := by
    intro es
    induction es with
    | nil => rfl
    | cons e es ih =>
      obtain ⟨place, entry⟩ := e
      by_cases he : place = l
      · subst he
        rw [List.filter_cons_of_neg (by simp), ih, List.lookup_cons, beq_eq_false_iff_ne.mpr h]
      · rw [List.filter_cons_of_pos (by simpa using he), List.lookup_cons, List.lookup_cons, ih]
  rw [setFile, setEntry, List.lookup_cons, beq_eq_false_iff_ne.mpr h]
  exact hfilter d.entries

theorem fileAt_setFile_of_ne (d : Disk) (h : l' ≠ l) (f : File) :
    (d.setFile l f).fileAt l' = d.fileAt l' := by
  simp only [fileAt, file?, entry?, lookup_setFile_of_ne d h]

end Disk
end RowStore
