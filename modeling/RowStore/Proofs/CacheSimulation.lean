import RowStore.Proofs.RecencyCache

/-! Calls on a cache answer what the same calls on a list of entries answer. -/
namespace RowStore.RecencyCache

open RecencyList

variable {κ α : Type} [Ord κ] {c : RecencyCache κ α} {l : List (κ × α)} {k : κ} {v : α} {i : Nat}

/-- A cache of some capacity that holds the entries of a list. -/
def Represents (c : RecencyCache κ α) (capacity : Nat) (l : List (κ × α)) : Prop :=
  c.capacity = capacity ∧ ∃ hs, c.Holds hs l

namespace Represents
variable [DecidableEq κ] {capacity : Nat}

theorem get (h : c.Represents capacity l) (k : κ) :
    (c.get k).1 = (RecencyList.get l k).1 ∧
      (c.get k).2.Represents capacity (RecencyList.get l k).2 := by
  obtain ⟨hcap, hs, h⟩ := h
  unfold RecencyCache.get
  cases hk : c.index[k]? with
  | none =>
    rw [get_of_none (h.absent hk)]
    exact ⟨rfl, hcap, hs, h⟩
  | some i =>
    obtain ⟨xs, ys, X, Y, v, rfl, rfl, hxs, hys, hi, hlookup, hrest⟩ := h.split hk
    rw [get_of_some hlookup, hrest]
    refine ⟨by simp [valueAt, hi], hcap, _, h.promote hi hxs hys h.threads rfl fun j => ?_⟩
    split
    · next hij => rw [← hij, hi]
    · rfl

variable [Std.TransOrd κ] [Std.LawfulEqOrd κ]

theorem put (h : c.Represents capacity l) (k : κ) (v : α) :
    (∃ old c' l', c.put k v = .ok (old, c') ∧ RecencyList.put capacity l k v = .ok (old, l') ∧
      c'.Represents capacity l') ∨
    ∃ e, c.put k v = .error e ∧ RecencyList.put capacity l k v = .error e := by
  have hfull := h.2.choose_spec.isFull_eq
  unfold RecencyCache.put
  cases hk : c.index[k]? with
  | none =>
    obtain ⟨hs, hholds⟩ := h.2
    have hlookup := hholds.absent hk
    rw [hfull, h.1]
    rcases Nat.lt_or_ge l.length capacity with hroom | hle
    · left
      obtain ⟨hcap, hlink⟩ := hholds.link hk (h.1 ▸ hroom) v
      refine ⟨none, _, _, ?_, put_of_room hlookup hroom, hcap.trans h.1, hlink⟩
      simp [not_le.mpr hroom]
    · right
      refine ⟨_, ?_, put_of_full hlookup hle⟩
      simp [hle]
  | some i =>
    left
    obtain ⟨hcap, hs, h⟩ := h
    obtain ⟨xs, ys, X, Y, old, rfl, rfl, hxs, hys, hi, hlookup, hrest⟩ := h.split hk
    have hisize : i < c.chain.size := h.threads.mem_lt (by simp)
    refine ⟨some old, { c with chain := (c.chain.setEntry i (some (k, v))).moveFront i }, _,
      by simp [valueAt, hi], put_of_some hlookup, hcap, i :: (xs ++ ys), ?_⟩
    rw [hrest]
    exact h.promote hi hxs hys (h.threads.setEntry i _) (by simp)
      fun j => Chain.entryAt_setEntry hisize

theorem remove (h : c.Represents capacity l) (k : κ) :
    (c.remove k).1 = (RecencyList.remove l k).1 ∧
      (c.remove k).2.Represents capacity (RecencyList.remove l k).2 := by
  obtain ⟨hcap, hs, h⟩ := h
  unfold RecencyCache.remove RecencyList.remove
  cases hk : c.index[k]? with
  | none =>
    have hlookup := h.absent hk
    rw [hlookup, without_eq_self (lookup_eq_none.mp hlookup)]
    exact ⟨rfl, hcap, hs, h⟩
  | some i =>
    obtain ⟨xs, ys, X, Y, v, rfl, rfl, hxs, hys, hi, hlookup, hrest⟩ := h.split hk
    rw [hlookup, hrest]
    exact ⟨by simp [valueAt, hi], hcap, _, h.removeNode hk hi hxs hys⟩

end Represents

/-- A call on a cache. -/
def perform (c : RecencyCache κ α) : Call κ α → Answer κ α × RecencyCache κ α
  | .put k v =>
      match c.put k v with
      | .ok (old, c') => (.stored (.ok old), c')
      | .error e => (.stored (.error e), c)
  | .get k => (.value (c.get k).1, (c.get k).2)
  | .peek k => (.value (c.peek k), c)
  | .contains k => (.truth (c.contains k), c)
  | .remove k => (.value (c.remove k).1, (c.remove k).2)
  | .candidate => (.key c.candidate, c)
  | .length => (.count c.length, c)
  | .isFull => (.truth c.isFull, c)
  | .values => (.values c.values, c)
  | .keysByRecency => (.keys c.keysByRecency, c)

/-- The answers to calls made one after the other. -/
def answers (c : RecencyCache κ α) : List (Call κ α) → List (Answer κ α)
  | [] => []
  | call :: calls => (c.perform call).1 :: (c.perform call).2.answers calls

variable [DecidableEq κ] [Std.TransOrd κ] [Std.LawfulEqOrd κ] {capacity : Nat}

/-- One call answers as on the list, and leaves the cache with the list that it leaves. -/
theorem Represents.perform (h : c.Represents capacity l) (call : Call κ α) :
    (c.perform call).1.Agrees (RecencyList.perform capacity l call).1 ∧
      (c.perform call).2.Represents capacity (RecencyList.perform capacity l call).2 := by
  obtain ⟨hcap, hs, hholds⟩ := id h
  cases call with
  | put k v =>
    simp only [RecencyCache.perform, RecencyList.perform]
    rcases h.put k v with ⟨old, c', l', hc, hl, h'⟩ | ⟨e, hc, hl⟩
    · rw [hc, hl]
      exact ⟨rfl, h'⟩
    · rw [hc, hl]
      exact ⟨rfl, h⟩
  | get k => exact ⟨congrArg Answer.value (h.get k).1, (h.get k).2⟩
  | peek k => exact ⟨congrArg Answer.value (hholds.peek_eq k), h⟩
  | contains k => exact ⟨congrArg Answer.truth (hholds.contains_eq k), h⟩
  | remove k => exact ⟨congrArg Answer.value (h.remove k).1, (h.remove k).2⟩
  | candidate => exact ⟨congrArg Answer.key hholds.candidate_eq, h⟩
  | length => exact ⟨congrArg Answer.count hholds.size, h⟩
  | isFull => exact ⟨congrArg Answer.truth (hcap ▸ hholds.isFull_eq), h⟩
  | values => exact ⟨hholds.values_perm, h⟩
  | keysByRecency => exact ⟨congrArg Answer.keys hholds.keysByRecency_eq, h⟩

theorem Represents.answers (h : c.Represents capacity l) (calls : List (Call κ α)) :
    List.Forall₂ Answer.Agrees (c.answers calls) (RecencyList.answers capacity l calls) := by
  induction calls generalizing c l with
  | nil => exact .nil
  | cons call calls ih => exact .cons (h.perform call).1 (ih (h.perform call).2)

/-- From its creation on, a cache answers every call as a list of entries does that has each key
once and never more entries than the capacity. -/
theorem answers_eq_recency_list {entrySize : Nat} (h : create entrySize capacity = .ok c)
    (calls : List (Call κ α)) :
    List.Forall₂ Answer.Agrees (c.answers calls) (RecencyList.answers capacity [] calls) ∧
      ((RecencyList.after capacity ([] : List (κ × α)) calls).map (·.1)).Nodup ∧
      (RecencyList.after capacity ([] : List (κ × α)) calls).length ≤ capacity := by
  obtain ⟨hholds, hcap⟩ := holds_create h
  have hlawful : Lawful capacity ([] : List (κ × α)) := ⟨List.nodup_nil, Nat.zero_le _⟩
  exact ⟨Represents.answers ⟨hcap, [], hholds⟩ calls, (hlawful.after calls).distinct,
    (hlawful.after calls).bounded⟩

/-- In a full cache of two a third key is refused, and the node of a removed key is used again. -/
theorem answers_eq_recency_list_two : ∃ c : RecencyCache Nat Nat, create 16 2 = .ok c ∧
    List.Forall₂ Answer.Agrees
      (c.answers [.put 1 10, .put 2 20, .put 3 30, .get 1, .candidate, .remove 2, .put 3 31,
        .put 1 11, .keysByRecency, .values])
      [.stored (.ok none), .stored (.ok none), .stored (.error (.full 2)), .value (some 10),
        .key (some 2), .value (some 20), .stored (.ok none), .stored (.ok (some 10)),
        .keys [1, 3], .values [11, 31]] := by
  obtain ⟨c, h⟩ : ∃ c : RecencyCache Nat Nat, create 16 2 = .ok c := ⟨_, rfl⟩
  exact ⟨c, h, (answers_eq_recency_list h _).1⟩

end RowStore.RecencyCache
