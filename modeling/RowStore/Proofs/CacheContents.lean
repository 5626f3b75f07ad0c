import RowStore.Proofs.CacheSimulation

/-! A cache as its owner sees it: which keys it has, with which values, and when it has room. -/
namespace RowStore.RecencyCache

open RecencyList

variable {κ α : Type} [Ord κ] {c : RecencyCache κ α} {k : κ} {v : α}

/-- A cache that can have an entry, and holds the entries of a list with each key once. -/
structure Live (c : RecencyCache κ α) : Prop where
  capacity_pos : 0 < c.capacity
  represents : ∃ l, c.Represents c.capacity l ∧ Lawful c.capacity l

theorem Represents.live {capacity : Nat} {l : List (κ × α)} (h : c.Represents capacity l)
    (hlaw : Lawful capacity l) (hpos : 0 < capacity) : c.Live := by
  obtain ⟨rfl, h⟩ := h
  exact ⟨hpos, l, ⟨rfl, h⟩, hlaw⟩

theorem Live.length_le (h : c.Live) : c.length ≤ c.capacity := by
  obtain ⟨-, l, hl, hlaw⟩ := h
  rw [length, hl.2.choose_spec.size]
  exact hlaw.bounded

/-- A full cache is not empty. -/
theorem Live.length_pos_of_full (h : c.Live) (hfull : c.isFull) : 0 < c.length :=
  h.capacity_pos.trans_le (of_decide_eq_true hfull)

variable [DecidableEq κ]

theorem Represents.peek_eq {capacity : Nat} {l : List (κ × α)} (h : c.Represents capacity l)
    (k : κ) : c.peek k = l.lookup k := h.2.choose_spec.peek_eq k

namespace Live

theorem peek_get (h : c.Live) (k : κ) : (c.get k).1 = c.peek k ∧ (c.get k).2.Live ∧
    ∀ k', (c.get k).2.peek k' = c.peek k' := by
  obtain ⟨hpos, l, hl, hlaw⟩ := h
  obtain ⟨hvalue, hget⟩ := hl.get k
  obtain ⟨hfound, hsame⟩ := lookup_get l k
  refine ⟨?_, hget.live (hlaw.perform (.get k)) hpos, ?_⟩
  · rw [hvalue, hl.peek_eq, hfound]
  · intro k'
    rw [hget.peek_eq, hl.peek_eq, hsame]

theorem mem_values (h : c.Live) {v : α} : v ∈ c.values ↔ ∃ k, c.peek k = some v := by
  obtain ⟨-, l, hl, hlaw⟩ := h
  rw [hl.2.choose_spec.values_perm.mem_iff, List.mem_map]
  constructor
  · rintro ⟨⟨k, w⟩, hmem, rfl⟩
    exact ⟨k, (hl.peek_eq k).trans (hlaw.lookup_of_mem hmem)⟩
  · rintro ⟨k, hk⟩
    exact ⟨(k, v), mem_of_lookup ((hl.peek_eq k).symm.trans hk), rfl⟩

/-- The values are all different if no two keys share one. -/
theorem nodup_values (h : c.Live)
    (hone : ∀ k k' v, c.peek k = some v → c.peek k' = some v → k = k') : c.values.Nodup := by
  obtain ⟨-, l, hl, hlaw⟩ := h
  have hpeek : ∀ e ∈ l, c.peek e.1 = some e.2 := fun e hmem =>
    (hl.peek_eq e.1).trans (hlaw.lookup_of_mem hmem)
  rw [hl.2.choose_spec.values_perm.nodup_iff]
  refine List.Nodup.map_on (fun e hmem e' hmem' hvalue => ?_) (List.Nodup.of_map _ hlaw.distinct)
  exact Prod.ext (hone _ _ e.2 (hpeek e hmem) (hvalue ▸ hpeek e' hmem')) hvalue

variable [Std.TransOrd κ]

theorem contains_eq (h : c.Live) (k : κ) : c.contains k = (c.peek k).isSome := by
  obtain ⟨-, l, hl, -⟩ := h
  rw [hl.2.choose_spec.contains_eq, hl.peek_eq]

theorem create {entrySize capacity : Nat} (h : create entrySize capacity = .ok c) :
    c.Live ∧ ∀ k, c.peek k = none := by
  obtain ⟨hholds, hcap⟩ := holds_create h
  have hrep : c.Represents capacity [] := ⟨hcap, [], hholds⟩
  refine ⟨hrep.live ⟨List.nodup_nil, Nat.zero_le _⟩ ?_, fun k => hrep.peek_eq k⟩
  unfold RecencyCache.create at h
  split at h
  · contradiction
  · omega

variable [Std.LawfulEqOrd κ]

theorem peek_remove (h : c.Live) (k : κ) : (c.remove k).2.Live ∧
    ∀ k', (c.remove k).2.peek k' = if k = k' then none else c.peek k' := by
  obtain ⟨hpos, l, hl, hlaw⟩ := h
  obtain ⟨-, hrem⟩ := hl.remove k
  refine ⟨hrem.live (hlaw.without k) hpos, ?_⟩
  intro k'
  rw [hrem.peek_eq, hl.peek_eq]
  exact lookup_without l k k'

/-- Putting succeeds for a key that is there, and as long as the cache is not full. -/
theorem peek_put (h : c.Live) (k : κ) (v : α) (hroom : c.contains k ∨ c.isFull = false) :
    ∃ old c', c.put k v = .ok (old, c') ∧ c'.Live ∧
      ∀ k', c'.peek k' = if k = k' then some v else c.peek k' := by
  rw [h.contains_eq] at hroom
  obtain ⟨hpos, l, hl, hlaw⟩ := h
  have hlaw' := hlaw.perform (.put k v)
  simp only [RecencyList.perform] at hlaw'
  rcases hl.put k v with ⟨old, c', l', hc, hput, hl'⟩ | ⟨e, -, hput⟩
  · rw [hput] at hlaw'
    refine ⟨old, c', hc, hl'.live hlaw' hpos, ?_⟩
    intro k'
    rw [hl'.peek_eq, hl.peek_eq, lookup_put hput]
  · rw [hl.peek_eq, hl.2.choose_spec.isFull_eq, decide_eq_false_iff_not, not_le] at hroom
    exact absurd hput (put_ne_error hroom)

/-- Unless it has no entries, a cache has a key to drop. In either case there is room then. -/
theorem candidate_cases (h : c.Live) : c.candidate = none ∧ c.isFull = false ∨
    ∃ k v, c.candidate = some k ∧ c.peek k = some v ∧ (c.remove k).2.isFull = false := by
  obtain ⟨hpos, l, hl, hlaw⟩ := h
  have hholds := hl.2.choose_spec
  rcases List.eq_nil_or_concat l with rfl | ⟨X, e, rfl⟩
  · left
    refine ⟨hholds.candidate_eq, ?_⟩
    rw [hholds.isFull_eq, decide_eq_false_iff_not, not_le]
    exact hpos
  · right
    obtain ⟨k, v, hlast, hlookup, hless⟩ := hlaw.candidate_of_ne_nil (by simp)
    refine ⟨k, v, hholds.candidate_eq.trans hlast, (hl.peek_eq k).trans hlookup, ?_⟩
    obtain ⟨hcap, hs, hrem⟩ := (hl.remove k).2
    rw [hrem.isFull_eq, hcap, decide_eq_false_iff_not, not_le]
    exact hless.trans_le hlaw.bounded

end Live
end RowStore.RecencyCache
