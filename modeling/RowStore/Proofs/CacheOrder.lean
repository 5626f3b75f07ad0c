import RowStore.Proofs.CacheContents

/-! The order in which a cache has its keys, and what each operation does to it. A key that is used
comes first; whoever needs room drops the last one. -/
namespace RowStore.RecencyCache

open RecencyList

section Order
variable {κ : Type} [DecidableEq κ]

/-- The order of keys once one of them, or a new one, has been used. -/
def touch (ks : List κ) (k : κ) : List κ := k :: ks.erase k

theorem touch_of_not_mem {ks : List κ} {k : κ} (h : k ∉ ks) : touch ks k = k :: ks := by
  rw [touch, List.erase_of_not_mem h]

theorem touch_cons_self (ks : List κ) (k : κ) : touch (k :: ks) k = k :: ks := by
  rw [touch, List.erase_cons_head]

theorem length_touch_le {ks : List κ} {k : κ} {capacity : Nat} (hk : k ∈ ks)
    (h : ks.length ≤ capacity) : (touch ks k).length ≤ capacity := by
  have hpos := List.length_pos_of_mem hk
  rw [touch, List.length_cons, List.length_erase_of_mem hk]
  omega

/-- The first keys after a use are those of the first keys before it: what lies further back never
comes forward by itself. -/
theorem take_touch (ks : List κ) (k : κ) (capacity : Nat) :
    (touch (ks.take capacity) k).take capacity = (touch ks k).take capacity := by
  induction ks generalizing capacity with
  | nil => rw [List.take_nil]
  | cons x ks ih =>
    cases capacity with
    | zero => rfl
    | succ n =>
      by_cases hx : x = k
      · subst hx
        simp [touch_cons_self]
      · have hrest := congrArg List.tail (ih n)
        cases n with
        | zero => rfl
        | succ n =>
          simp only [touch, List.take_succ_cons, List.tail_cons] at hrest
          have herase : ∀ xs : List κ, (x :: xs).erase k = x :: xs.erase k :=
            fun _ => List.erase_cons_tail (by simpa using hx)
          simp only [touch, List.take_succ_cons, herase, hrest]

/-- Each key of a list of uses once, the one that was used last first. -/
def byLastUse (uses : List κ) : List κ := uses.dedup.reverse

theorem byLastUse_concat (uses : List κ) (k : κ) :
    byLastUse (uses ++ [k]) = touch (byLastUse uses) k := by
  have hdedup : (uses ++ [k]).dedup = uses.dedup.erase k ++ [k] := by
    induction uses with
    | nil => rfl
    | cons x uses ih =>
      by_cases hx : x ∈ uses
      · rw [List.cons_append, List.dedup_cons_of_mem (List.mem_append_left _ hx), ih,
          List.dedup_cons_of_mem hx]
      · rw [List.dedup_cons_of_notMem hx]
        by_cases hk : x = k
        · subst hk
          rw [List.cons_append, List.dedup_cons_of_mem (by simp), ih, List.erase_cons_head,
            List.erase_of_not_mem (by simpa using hx)]
        · rw [List.cons_append, List.dedup_cons_of_notMem (by simp [hx, hk]), ih,
            List.erase_cons_tail (by simpa using hk), List.cons_append]
  rw [byLastUse, hdedup, List.reverse_append, byLastUse, touch,
    (List.nodup_dedup uses).erase_eq_filter, (List.nodup_reverse.mpr
      (List.nodup_dedup uses)).erase_eq_filter, List.filter_reverse]
  rfl

theorem map_without {α : Type} {l : List (κ × α)} (h : (l.map (·.1)).Nodup) (k : κ) :
    (without l k).map (·.1) = (l.map (·.1)).erase k := by
  rw [h.erase_eq_filter, List.filter_map, without]
  congr 1
  apply List.filter_congr
  intro e _
  simp [bne, beq_eq_decide]

end Order

variable {κ α : Type} [Ord κ] {c c' : RecencyCache κ α} {k : κ} {v : α}

/-- The keys of a cache are those of the entries that it holds. -/
theorem Represents.keys_eq {capacity : Nat} {l : List (κ × α)} (h : c.Represents capacity l) :
    c.keysByRecency = l.map (·.1) := h.2.choose_spec.keysByRecency_eq

namespace Live

theorem nodup_keys (h : c.Live) : c.keysByRecency.Nodup := by
  obtain ⟨-, l, hl, hlaw⟩ := h
  rw [hl.keys_eq]
  exact hlaw.distinct

theorem length_keys_le (h : c.Live) : c.keysByRecency.length ≤ c.capacity := by
  obtain ⟨-, l, hl, hlaw⟩ := h
  rw [hl.keys_eq, List.length_map]
  exact hlaw.bounded

theorem isFull_eq (h : c.Live) : c.isFull = decide (c.capacity ≤ c.keysByRecency.length) := by
  obtain ⟨-, l, hl, -⟩ := h
  rw [hl.2.choose_spec.isFull_eq, hl.keys_eq, List.length_map]

theorem candidate_eq (h : c.Live) : c.candidate = c.keysByRecency.getLast? := by
  obtain ⟨-, l, hl, -⟩ := h
  rw [hl.2.choose_spec.candidate_eq, hl.keys_eq, List.getLast?_map]
  rfl

theorem mem_keys [DecidableEq κ] (h : c.Live) : k ∈ c.keysByRecency ↔ (c.peek k).isSome := by
  obtain ⟨-, l, hl, -⟩ := h
  rw [hl.keys_eq, hl.peek_eq, Option.isSome_iff_ne_none, ne_eq, lookup_eq_none]
  simp

end Live

theorem keys_create {entrySize capacity : Nat} (h : create entrySize capacity = .ok c) :
    c.keysByRecency = [] ∧ c.capacity = capacity := by
  unfold RecencyCache.create at h
  split at h
  · contradiction
  · split at h
    · contradiction
    · rw [← Except.ok.inj h]
      exact ⟨rfl, rfl⟩

namespace Live
variable [DecidableEq κ]

/-- A key that is looked up comes first. -/
theorem keys_get (h : c.Live) (hk : c.peek k = some v) :
    (c.get k).2.keysByRecency = touch c.keysByRecency k ∧ (c.get k).2.capacity = c.capacity := by
  obtain ⟨-, l, hl, hlaw⟩ := h
  obtain ⟨-, hget⟩ := hl.get k
  refine ⟨?_, hget.1⟩
  rw [hget.keys_eq, hl.keys_eq, get_of_some ((hl.peek_eq k).symm.trans hk), List.map_cons,
    map_without hlaw.distinct, touch]

variable [Std.TransOrd κ] [Std.LawfulEqOrd κ]

/-- A key that gets a value comes first. -/
theorem keys_put {old : Option α} (h : c.Live) (hput : c.put k v = .ok (old, c')) :
    c'.keysByRecency = touch c.keysByRecency k ∧ c'.capacity = c.capacity := by
  obtain ⟨-, l, hl, hlaw⟩ := h
  rcases hl.put k v with ⟨old', c₁, l', hc, hl', hrep⟩ | ⟨e, hc, -⟩
  · obtain ⟨-, rfl⟩ := Prod.mk.inj (Except.ok.inj (hput.symm.trans hc))
    refine ⟨?_, hrep.1⟩
    rw [hrep.keys_eq, hl.keys_eq]
    unfold RecencyList.put at hl'
    split at hl'
    · obtain ⟨-, rfl⟩ := Prod.mk.inj (Except.ok.inj hl')
      rw [List.map_cons, map_without hlaw.distinct, touch]
    · next hnone =>
      split at hl'
      · contradiction
      · obtain ⟨-, rfl⟩ := Prod.mk.inj (Except.ok.inj hl')
        rw [touch_of_not_mem, List.map_cons]
        intro hmem
        obtain ⟨e, he, hek⟩ := List.mem_map.mp hmem
        exact lookup_eq_none.mp hnone e he hek
  · cases hput.symm.trans hc

theorem keys_remove (h : c.Live) (k : κ) :
    (c.remove k).2.keysByRecency = c.keysByRecency.erase k ∧
      (c.remove k).2.capacity = c.capacity := by
  obtain ⟨-, l, hl, hlaw⟩ := h
  obtain ⟨-, hrem⟩ := hl.remove k
  refine ⟨?_, hrem.1⟩
  rw [hrem.keys_eq, hl.keys_eq]
  exact map_without hlaw.distinct k

/-- The last key goes when room is needed. -/
theorem keys_remove_candidate (h : c.Live) (hk : c.candidate = some k) :
    (c.remove k).2.keysByRecency = c.keysByRecency.dropLast := by
  rw [h.candidate_eq] at hk
  obtain ⟨ks, hks⟩ := List.getLast?_eq_some_iff.mp hk
  have hnodup := h.nodup_keys
  rw [hks, List.nodup_append] at hnodup
  have hnot : k ∉ ks := fun hmem => hnodup.2.2 k hmem k (by simp) rfl
  rw [(h.keys_remove k).1, hks, List.dropLast_concat, List.erase_append_right _ hnot]
  simp

end Live

end RowStore.RecencyCache
