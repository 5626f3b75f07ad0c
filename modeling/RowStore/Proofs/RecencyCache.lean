import RowStore.Proofs.Chain
import RowStore.Proofs.RecencyList

/-! A cache holds a list of entries. The nodes on its chain are in the order of the list, and the
index has exactly the keys of the list. -/
namespace RowStore.RecencyCache

open RecencyList

variable {κ α : Type} [Ord κ]

/-- A cache with the entries `l`, which are in the nodes `hs` of its chain in this order. The ends
of the chain, these nodes and those that wait are all nodes that there are. -/
structure Holds (c : RecencyCache κ α) (hs : List Nat) (l : List (κ × α)) : Prop where
  threads : c.chain.Threads hs
  nodes : (Chain.front :: Chain.back :: (hs ++ c.free)).Perm (List.range c.chain.size)
  entries : hs.map c.chain.entryAt = l.map some
  vacant : ∀ i ∉ hs, c.chain.entryAt i = none
  index : ∀ k i, c.index[k]? = some i ↔ ∃ v, c.chain.entryAt i = some (k, v)
  size : c.index.size = l.length
  room : l.length ≤ c.capacity

variable {c : RecencyCache κ α} {hs : List Nat} {l : List (κ × α)} {k : κ} {v : α} {i : Nat}

namespace Holds

theorem mem_of_entry (h : c.Holds hs l) {e : κ × α} (he : c.chain.entryAt i = some e) : i ∈ hs := by
  by_contra hi
  rw [h.vacant i hi] at he
  contradiction

theorem node_of_mem (h : c.Holds hs l) {e : κ × α} (he : e ∈ l) :
    ∃ i ∈ hs, c.chain.entryAt i = some e := by
  have hmem : some e ∈ l.map some := List.mem_map_of_mem he
  rw [← h.entries] at hmem
  exact List.mem_map.mp hmem

theorem filterMap_entries {β : Type} (h : c.Holds hs l) (f : κ × α → β) :
    (hs.filterMap fun i => (c.chain.entryAt i).map f) = l.map f := by
  have := congrArg (List.filterMap fun e : Option (κ × α) => e.map f) h.entries
  rw [List.filterMap_map, List.filterMap_map] at this
  simpa [Function.comp_def] using this

theorem isFull_eq (h : c.Holds hs l) : c.isFull = decide (c.capacity ≤ l.length) := by
  rw [isFull, length, h.size]

theorem candidate_eq (h : c.Holds hs l) : c.candidate = RecencyList.candidate l := by
  unfold candidate RecencyList.candidate
  rw [h.threads.newerOf_back]
  rcases List.eq_nil_or_concat hs with rfl | ⟨xs, i, rfl⟩
  · have hnil : l = [] := by simpa using h.entries.symm
    simp [hnil]
  · have hi : i ≠ Chain.front := by
      have hn := h.threads.nodup
      rw [List.cons_append, List.nodup_cons] at hn
      rintro rfl
      exact hn.1 (by simp)
    have hentries := h.entries
    rw [List.concat_eq_append, List.map_append] at hentries
    obtain ⟨X, T, rfl, -, hT⟩ := List.append_eq_map_iff.mp hentries
    obtain ⟨e, Y, rfl, he, hY⟩ := List.map_eq_cons_iff.mp hT
    obtain rfl := List.map_eq_nil_iff.mp hY
    simp [hi, ← he]

theorem values_perm (h : c.Holds hs l) : c.values.Perm (l.map (·.2)) := by
  have hread : c.values = (List.range c.chain.size).filterMap
      fun i => (c.chain.entryAt i).map (·.2) := by
    have hnodes : c.chain.toList.map some = (List.range c.chain.size).map (c.chain[·]?) :=
      List.ext_getElem (by simp) fun i hi _ => by simp
    have := congrArg (List.filterMap fun n : Option (Node (κ × α)) =>
      (n.bind (·.entry)).map (·.2)) hnodes
    rw [List.filterMap_map, List.filterMap_map] at this
    exact this
  have hfree : c.free.filterMap (fun i => (c.chain.entryAt i).map (·.2)) = [] := by
    rw [List.filterMap_eq_nil_iff]
    intro i hi
    have hn := h.nodes.nodup_iff.mpr List.nodup_range
    rw [h.vacant i (by grind)]
    rfl
  have hn := h.nodes.nodup_iff.mpr List.nodup_range
  have hfront : c.chain.entryAt Chain.front = none := h.vacant _ (by grind)
  have hback : c.chain.entryAt Chain.back = none := h.vacant _ (by grind)
  have hstored := h.filterMap_entries (·.2)
  rw [hread]
  apply (h.nodes.symm.filterMap _).trans
  rw [List.filterMap_cons, List.filterMap_cons, hfront, hback, List.filterMap_append, hfree, hstored]
  simp

theorem keysByRecency_eq (h : c.Holds hs l) : c.keysByRecency = l.map (·.1) := by
  rw [keysByRecency, h.threads.handles_eq]
  exact h.filterMap_entries (·.1)

/-- A node of the chain with a value for its key moves to the front, and so does its entry. -/
theorem promote {xs ys : List Nat} {X Y : List (κ × α)} {old : α} {d : Chain (κ × α)}
    (h : c.Holds (xs ++ i :: ys) (X ++ (k, old) :: Y)) (hi : c.chain.entryAt i = some (k, old))
    (hxs : xs.map c.chain.entryAt = X.map some) (hys : ys.map c.chain.entryAt = Y.map some)
    (hd : d.Threads (xs ++ i :: ys)) (hsize : d.size = c.chain.size)
    (hentry : ∀ j, d.entryAt j = if i = j then some (k, v) else c.chain.entryAt j) :
    { c with chain := d.moveFront i }.Holds (i :: (xs ++ ys)) ((k, v) :: (X ++ Y)) := by
  have hnodes : (i :: (xs ++ ys)).Perm (xs ++ i :: ys) := List.perm_middle.symm
  have hn := hnodes.nodup_iff.mpr hd.nodup_nodes
  have hmoved : ∀ j, (d.moveFront i).entryAt j =
      if i = j then some (k, v) else c.chain.entryAt j := by
    intro j
    rw [Chain.entryAt_moveFront, hentry]
  refine ⟨hd.moveFront, ?_, ?_, ?_, ?_, ?_, ?_⟩
  · simp only [Chain.size_moveFront, hsize]
    exact ((hnodes.append_right _).cons _ |>.cons _).trans h.nodes
  · rw [List.map_cons, Chain.map_entryAt hmoved (List.nodup_cons.mp hn).1, hmoved, if_pos rfl,
      List.map_append, hxs, hys]
    simp
  · intro j hj
    have hij : i ≠ j := fun e => hj (e ▸ List.mem_cons_self)
    rw [hmoved, if_neg hij]
    exact h.vacant j fun hm => hj (hnodes.mem_iff.mpr hm)
  · intro k' j
    rw [hmoved]
    apply (h.index k' j).trans
    split
    · next hij => simp [← hij, hi]
    · rfl
  · rw [h.size]
    simp
    omega
  · have := h.room
    simp at this ⊢
    omega

end Holds

section Reading
variable [DecidableEq κ]

namespace Holds

/-- A key that the index does not have is not in the list. -/
theorem absent (h : c.Holds hs l) (hk : c.index[k]? = none) : l.lookup k = none := by
  rw [lookup_eq_none]
  rintro ⟨k', v⟩ he rfl
  obtain ⟨i, -, hi⟩ := h.node_of_mem he
  rw [(h.index k' i).mpr ⟨v, hi⟩] at hk
  contradiction

/-- A key that the index has stands once in the list, at the place of its node in the chain. -/
theorem split (h : c.Holds hs l) (hk : c.index[k]? = some i) :
    ∃ xs ys X Y v, hs = xs ++ i :: ys ∧ l = X ++ (k, v) :: Y ∧
      xs.map c.chain.entryAt = X.map some ∧ ys.map c.chain.entryAt = Y.map some ∧
      c.chain.entryAt i = some (k, v) ∧ l.lookup k = some v ∧ without l k = X ++ Y := by
  obtain ⟨v, hi⟩ := (h.index k i).mp hk
  obtain ⟨xs, ys, rfl⟩ := List.append_of_mem (h.mem_of_entry hi)
  have hentries := h.entries
  rw [List.map_append, List.map_cons, hi] at hentries
  obtain ⟨X, T, rfl, hX, hT⟩ := List.append_eq_map_iff.mp hentries
  obtain ⟨e, Y, rfl, he, hY⟩ := List.map_eq_cons_iff.mp hT
  obtain rfl := (Option.some.inj he)
  have hn := h.threads.nodup_nodes
  -- Another entry with this key would be in another node, but the index has one node for a key.
  have hother : ∀ (zs : List Nat) (Z : List (κ × α)), Z.map some = zs.map c.chain.entryAt →
      i ∉ zs → ∀ e ∈ Z, e.1 ≠ k := by
    rintro zs Z hZ hzs ⟨k', v'⟩ hm rfl
    have hmem : some (k', v') ∈ zs.map c.chain.entryAt := hZ ▸ List.mem_map_of_mem hm
    obtain ⟨j, hj, hjv⟩ := List.mem_map.mp hmem
    have hji := (h.index k' j).mpr ⟨v', hjv⟩
    rw [hk] at hji
    exact hzs (Option.some.inj hji ▸ hj)
  have hxs : i ∉ xs := by grind
  have hys : i ∉ ys := by grind
  obtain ⟨hlookup, hrest⟩ :=
    lookup_append_cons (v := v) (hother xs X hX hxs) (hother ys Y hY hys)
  exact ⟨xs, ys, X, Y, v, rfl, rfl, hX.symm, hY.symm, hi, hlookup, hrest⟩

theorem peek_eq (h : c.Holds hs l) (k : κ) : c.peek k = l.lookup k := by
  unfold peek
  cases hk : c.index[k]? with
  | none => exact (h.absent hk).symm
  | some i =>
    obtain ⟨xs, ys, X, Y, v, -, -, -, -, hi, hlookup, -⟩ := h.split hk
    simp [valueAt, hi, hlookup]

end Holds
end Reading

variable [Std.TransOrd κ]

theorem holds_create {entrySize capacity : Nat} {c : RecencyCache κ α}
    (h : create entrySize capacity = .ok c) : c.Holds [] [] ∧ c.capacity = capacity := by
  unfold create at h
  split at h
  · contradiction
  split at h
  · contradiction
  rw [← Except.ok.inj h]
  refine ⟨⟨Chain.threads_empty, .refl _, rfl, ?_, ?_, rfl, Nat.zero_le _⟩, rfl⟩
  · intro i _
    match i with
    | 0 | 1 | _ + 2 => rfl
  · intro k i
    have hnone : (Chain.empty : Chain (κ × α)).entryAt i = none := by
      match i with
      | 0 | 1 | _ + 2 => rfl
    simp [hnone]

/-- The index finds the node of a key among the entries. -/
theorem Holds.contains_eq [DecidableEq κ] (h : c.Holds hs l) (k : κ) :
    c.contains k = (l.lookup k).isSome := by
  rw [← h.peek_eq, contains, Std.TreeMap.contains_eq_isSome_getElem?, peek]
  cases hk : c.index[k]? with
  | none => rfl
  | some i =>
    obtain ⟨v, hi⟩ := (h.index k i).mp hk
    simp [valueAt, hi]

variable [Std.LawfulEqOrd κ]

namespace Holds

/-- A node that is not on the chain is linked in front, with an entry for a new key. -/
theorem add {d : Chain (κ × α)} {free : List Nat} (h : c.Holds hs l) (hk : c.index[k]? = none)
    (hroom : l.length < c.capacity) (hd : d.Threads hs) (hi : i < d.size)
    (hnodes : (Chain.front :: Chain.back :: (i :: hs ++ free)).Perm (List.range d.size))
    (hentry : ∀ j, d.entryAt j = if i = j then some (k, v) else c.chain.entryAt j) :
    { c with index := c.index.insert k i, chain := d.linkFront i, free := free }.Holds (i :: hs)
      ((k, v) :: l) := by
  have hn := hnodes.nodup_iff.mpr List.nodup_range
  simp only [List.nodup_cons, List.mem_cons, List.mem_append, List.cons_append, not_or] at hn
  obtain ⟨⟨-, hfront, -⟩, ⟨hback, -⟩, ⟨hin, -⟩, -⟩ := hn
  have hapart : i ∉ Chain.front :: hs ++ [Chain.back] := by
    simp [hin, Ne.symm hfront, Ne.symm hback]
  have hvacant : c.chain.entryAt i = none := h.vacant i hin
  have hlinked : ∀ j, (d.linkFront i).entryAt j =
      if i = j then some (k, v) else c.chain.entryAt j := by
    intro j
    rw [Chain.entryAt_linkFront, hentry]
  refine ⟨?_, ?_, ?_, ?_, ?_, ?_, hroom⟩
  · dsimp only
    exact hd.linkFront hapart hi
  · simpa using hnodes
  · rw [List.map_cons, Chain.map_entryAt hlinked hin, hlinked, if_pos rfl, h.entries]
    rfl
  · intro j hj
    have hij : i ≠ j := fun e => hj (e ▸ List.mem_cons_self)
    rw [hlinked, if_neg hij]
    exact h.vacant j fun hm => hj (List.mem_cons_of_mem _ hm)
  · intro k' j
    rw [hlinked, Std.TreeMap.getElem?_insert]
    by_cases hkk : k = k'
    · subst hkk
      rw [if_pos Std.ReflCmp.compare_self]
      by_cases hij : i = j
      · simp [hij]
      · rw [if_neg hij, ← h.index, hk]
        simp [hij]
    · have hcmp : ¬ compare k k' = .eq := fun e => hkk (Std.LawfulEqOrd.eq_of_compare e)
      rw [if_neg hcmp, h.index]
      by_cases hij : i = j
      · rw [if_pos hij, ← hij, hvacant]
        simp [hkk]
      · rw [if_neg hij]
  · rw [Std.TreeMap.size_insert, Std.TreeMap.contains_eq_isSome_getElem?, hk, h.size]
    rfl

/-- A node is unlinked and keeps no entry; it waits to be used again. -/
theorem removeNode {xs ys : List Nat} {X Y : List (κ × α)}
    (h : c.Holds (xs ++ i :: ys) (X ++ (k, v) :: Y)) (hk : c.index[k]? = some i)
    (hi : c.chain.entryAt i = some (k, v)) (hxs : xs.map c.chain.entryAt = X.map some)
    (hys : ys.map c.chain.entryAt = Y.map some) :
    { c with index := c.index.erase k, chain := (c.chain.unlink i).setEntry i none,
             free := i :: c.free }.Holds (xs ++ ys) (X ++ Y) := by
  have hisize : i < c.chain.size := h.threads.mem_lt (by simp)
  have hn := List.perm_middle.nodup_iff.mp h.threads.nodup_nodes
  have hcleared : ∀ j, ((c.chain.unlink i).setEntry i none).entryAt j =
      if i = j then none else c.chain.entryAt j := by
    intro j
    rw [Chain.entryAt_setEntry (by simpa using hisize), Chain.entryAt_unlink]
  refine ⟨h.threads.unlink.setEntry i none, ?_, ?_, ?_, ?_, ?_, ?_⟩
  · have hnodes : (xs ++ ys ++ i :: c.free).Perm (xs ++ i :: ys ++ c.free) := by
      apply List.perm_middle.trans
      simpa using (@List.perm_middle _ i xs (ys ++ c.free)).symm
    simp only [Chain.size_setEntry, Chain.size_unlink]
    exact (hnodes.cons _ |>.cons _).trans h.nodes
  · rw [Chain.map_entryAt hcleared (List.nodup_cons.mp hn).1, List.map_append, hxs, hys]
    simp
  · intro j hj
    rw [hcleared]
    split
    · rfl
    · next hij => exact h.vacant j (by simp_all [eq_comm])
  · intro k' j
    rw [hcleared, Std.TreeMap.getElem?_erase]
    by_cases hkk : k = k'
    · subst hkk
      rw [if_pos Std.ReflCmp.compare_self]
      by_cases hij : i = j
      · simp [hij]
      · rw [if_neg hij, ← h.index, hk]
        simp [hij]
    · have hcmp : ¬ compare k k' = .eq := fun e => hkk (Std.LawfulEqOrd.eq_of_compare e)
      rw [if_neg hcmp, h.index]
      by_cases hij : i = j
      · rw [if_pos hij, ← hij, hi]
        simp [hkk]
      · rw [if_neg hij]
  · rw [Std.TreeMap.size_erase, Std.TreeMap.contains_eq_isSome_getElem?, hk, h.size]
    simp
  · have := h.room
    simp at this ⊢
    omega

/-- A new key gets a node that waits, or a new one. -/
theorem link (h : c.Holds hs l) (hk : c.index[k]? = none) (hroom : l.length < c.capacity) (v : α) :
    (c.link k v).capacity = c.capacity ∧ ∃ hs', (c.link k v).Holds hs' ((k, v) :: l) := by
  have hnodes := h.nodes
  have hn := hnodes.nodup_iff.mpr List.nodup_range
  unfold RecencyCache.link
  cases hfree : c.free with
  | nil =>
    let d : Chain (κ × α) := c.chain.push ⟨some (k, v), Chain.front, Chain.front⟩
    rw [hfree, List.append_nil] at hnodes
    have hthreads : d.Threads hs := h.threads.push _
    have hnew : (Chain.front :: Chain.back :: (c.chain.size :: hs ++ [])).Perm
        (List.range d.size) := by
      rw [Array.size_push, List.range_succ, List.append_nil]
      exact (@List.perm_middle _ c.chain.size [Chain.front, Chain.back] hs).trans
        ((hnodes.cons _).trans (List.perm_append_singleton _ _).symm)
    have hentry : ∀ j, d.entryAt j =
        if c.chain.size = j then some (k, v) else c.chain.entryAt j := by
      intro j
      simp only [d, Chain.entryAt, Array.getElem?_push, eq_comm]
      split <;> simp_all
    exact ⟨rfl, _, h.add hk hroom hthreads (by simp) hnew hentry⟩
  | cons i free =>
    let d : Chain (κ × α) := c.chain.setIfInBounds i ⟨some (k, v), Chain.front, Chain.front⟩
    have hmem : i ∈ List.range c.chain.size := hnodes.subset (by simp [hfree])
    have hi : i < c.chain.size := List.mem_range.mp hmem
    have hapart : i ∉ Chain.front :: hs ++ [Chain.back] := by grind
    have hthreads : d.Threads hs := h.threads.replace hapart _
    have hnew : (Chain.front :: Chain.back :: (i :: hs ++ free)).Perm (List.range d.size) := by
      rw [Array.size_setIfInBounds]
      rw [hfree] at hnodes
      exact List.Perm.trans (.cons _ (.cons _ List.perm_middle.symm)) hnodes
    have hentry : ∀ j, d.entryAt j = if i = j then some (k, v) else c.chain.entryAt j := by
      intro j
      simp only [d, Chain.entryAt, Array.getElem?_setIfInBounds]
      split
      · simp
      · rfl
    exact ⟨rfl, _, h.add hk hroom hthreads (by simpa [d] using hi) hnew hentry⟩

end Holds
end RowStore.RecencyCache
