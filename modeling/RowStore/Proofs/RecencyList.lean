import Mathlib.Tactic
import RowStore.RecencyCache

/-! What a cache is for its users: a list of entries, the most recently used first, with each key
once and no more entries than the capacity. -/
namespace RowStore.RecencyList

variable {κ α : Type} [DecidableEq κ]

/-- The entries of all other keys. -/
def without (l : List (κ × α)) (k : κ) : List (κ × α) := l.filter fun e => e.1 ≠ k

/-- The value of a key, whose entry moves to the front. -/
def get (l : List (κ × α)) (k : κ) : Option α × List (κ × α) :=
  match l.lookup k with
  | none => (none, l)
  | some v => (some v, (k, v) :: without l k)

/-- A present key gets a new value and moves to the front, also where the list is full; a new one
goes to the front if there is room. -/
def put (capacity : Nat) (l : List (κ × α)) (k : κ) (v : α) :
    Except CacheError (Option α × List (κ × α)) :=
  match l.lookup k with
  | some old => .ok (some old, (k, v) :: without l k)
  | none => if capacity ≤ l.length then .error (.full capacity) else .ok (none, (k, v) :: l)

def remove (l : List (κ × α)) (k : κ) : Option α × List (κ × α) := (l.lookup k, without l k)

/-- The last key of the list. -/
def candidate (l : List (κ × α)) : Option κ := l.getLast?.map (·.1)

variable {l : List (κ × α)} {k : κ} {v : α}

theorem lookup_eq_none : l.lookup k = none ↔ ∀ e ∈ l, e.1 ≠ k := by
  simp only [List.lookup_eq_none_iff, bne_iff_ne, ne_comm]

theorem get_of_some (h : l.lookup k = some v) : get l k = (some v, (k, v) :: without l k) := by
  simp only [get, h]

theorem get_of_none (h : l.lookup k = none) : get l k = (none, l) := by simp only [get, h]

theorem put_of_some {capacity : Nat} {old : α} (h : l.lookup k = some old) :
    put capacity l k v = .ok (some old, (k, v) :: without l k) := by simp only [put, h]

theorem put_of_full {capacity : Nat} (h : l.lookup k = none) (hfull : capacity ≤ l.length) :
    put capacity l k v = .error (.full capacity) := by simp only [put, h, if_pos hfull]

theorem put_of_room {capacity : Nat} (h : l.lookup k = none) (hroom : l.length < capacity) :
    put capacity l k v = .ok (none, (k, v) :: l) := by
  simp only [put, h, if_neg (not_le.mpr hroom)]

theorem without_eq_self (h : ∀ e ∈ l, e.1 ≠ k) : without l k = l :=
  List.filter_eq_self.mpr fun e he => decide_eq_true (h e he)

/-- A key that stands once in a list is found there, and leaves the rest behind. -/
theorem lookup_append_cons {X Y : List (κ × α)} (hX : ∀ e ∈ X, e.1 ≠ k) (hY : ∀ e ∈ Y, e.1 ≠ k) :
    (X ++ (k, v) :: Y).lookup k = some v ∧ without (X ++ (k, v) :: Y) k = X ++ Y := by
  constructor
  · simp [List.lookup_append, lookup_eq_none.mpr hX]
  · have hk : without ((k, v) :: Y) k = without Y k := List.filter_cons_of_neg (by simp)
    calc without (X ++ (k, v) :: Y) k
        = without X k ++ without ((k, v) :: Y) k := List.filter_append ..
      _ = X ++ Y := by rw [hk, without_eq_self hX, without_eq_self hY]

theorem key_not_mem_without : k ∉ (without l k).map (·.1) := by
  simp [without]

theorem lookup_cons_eq (l : List (κ × α)) (k : κ) (v : α) (k' : κ) :
    List.lookup k' ((k, v) :: l) = if k = k' then some v else l.lookup k' := by
  rw [List.lookup_cons]
  by_cases h : k = k'
  · simp [h]
  · rw [beq_eq_false_iff_ne.mpr (Ne.symm h), if_neg h]

theorem lookup_without (l : List (κ × α)) (k k' : κ) :
    (without l k).lookup k' = if k = k' then none else l.lookup k' := by
  induction l with
  | nil => simp [without]
  | cons e l ih =>
    obtain ⟨key, v⟩ := e
    rw [lookup_cons_eq]
    by_cases hkey : key = k
    · rw [without, List.filter_cons_of_neg (by simpa using hkey), ← without, ih, hkey]
      split <;> rfl
    · rw [without, List.filter_cons_of_pos (by simpa using hkey), ← without, lookup_cons_eq, ih]
      split
      · next h => rw [if_neg (h ▸ Ne.symm hkey)]
      · rfl

/-- Looking a key up changes only the order of the entries. -/
theorem lookup_get (l : List (κ × α)) (k : κ) : (get l k).1 = l.lookup k ∧
    ∀ k', (get l k).2.lookup k' = l.lookup k' := by
  cases hk : l.lookup k with
  | none =>
    rw [get_of_none hk]
    exact ⟨rfl, fun _ => rfl⟩
  | some v =>
    rw [get_of_some hk]
    refine ⟨rfl, fun k' => ?_⟩
    rw [lookup_cons_eq, lookup_without]
    split
    · next h => rw [← h, hk]
    · rfl

theorem lookup_put {capacity : Nat} {old : Option α} {l' : List (κ × α)}
    (h : put capacity l k v = .ok (old, l')) (k' : κ) :
    l'.lookup k' = if k = k' then some v else l.lookup k' := by
  unfold put at h
  split at h
  · obtain ⟨-, rfl⟩ := Prod.mk.inj (Except.ok.inj h)
    rw [lookup_cons_eq, lookup_without]
    split <;> rfl
  · split at h
    · contradiction
    · obtain ⟨-, rfl⟩ := Prod.mk.inj (Except.ok.inj h)
      exact lookup_cons_eq l k v k'

/-- Putting fails only for a new key in a full list. -/
theorem put_ne_error {capacity : Nat} {e : CacheError}
    (h : (l.lookup k).isSome ∨ l.length < capacity) : put capacity l k v ≠ .error e := by
  cases hk : l.lookup k with
  | some old => simp [put_of_some hk]
  | none => simp [put_of_room hk (by simpa [hk] using h)]

theorem mem_of_lookup (h : l.lookup k = some v) : (k, v) ∈ l := by
  induction l with
  | nil => contradiction
  | cons e l ih =>
    obtain ⟨key, w⟩ := e
    rw [lookup_cons_eq] at h
    split at h
    · next hk => simp [hk, Option.some.inj h]
    · exact List.mem_cons_of_mem _ (ih h)

theorem length_without_lt (h : (l.lookup k).isSome) : (without l k).length < l.length := by
  by_contra hle
  have hall : without l k = l := List.filter_sublist.eq_of_length_le (not_lt.mp hle)
  have hnone : l.lookup k = none := by
    rw [lookup_eq_none]
    intro e he
    rw [← hall] at he
    simpa using (List.mem_filter.mp he).2
  simp [hnone] at h

/-- The entries that a list may have: each key once, and no more than the capacity. -/
structure Lawful (capacity : Nat) (l : List (κ × α)) : Prop where
  distinct : (l.map (·.1)).Nodup
  bounded : l.length ≤ capacity

variable {capacity : Nat}

theorem Lawful.lookup_of_mem (h : Lawful capacity l) (hm : (k, v) ∈ l) : l.lookup k = some v := by
  obtain ⟨X, Y, rfl⟩ := List.append_of_mem hm
  have hd := h.distinct
  rw [List.map_append, List.map_cons, List.nodup_middle, List.nodup_cons, ← List.map_append] at hd
  have hrest : ∀ e ∈ X ++ Y, e.1 ≠ k := fun e he hk => hd.1 (List.mem_map.mpr ⟨e, he, hk⟩)
  exact (lookup_append_cons (fun e he => hrest e (by simp [he]))
    (fun e he => hrest e (by simp [he]))).1

/-- The last key of a list that has entries; there is one entry less without it. -/
theorem Lawful.candidate_of_ne_nil (h : Lawful capacity l) (hne : l ≠ []) : ∃ k v,
    candidate l = some k ∧ l.lookup k = some v ∧ (RecencyList.without l k).length < l.length := by
  rcases hlast : l.getLast hne with ⟨k, v⟩
  have hmem : (k, v) ∈ l := hlast ▸ List.getLast_mem hne
  have hlookup := h.lookup_of_mem hmem
  refine ⟨k, v, ?_, hlookup, length_without_lt (by simp [hlookup])⟩
  rw [candidate, List.getLast?_eq_some_getLast hne, hlast]
  rfl

theorem Lawful.without (h : Lawful capacity l) (k : κ) : Lawful capacity (without l k) where
  distinct := h.distinct.sublist (List.filter_sublist.map _)
  bounded := (List.length_filter_le _ _).trans h.bounded

theorem Lawful.move (h : Lawful capacity l) (hk : (l.lookup k).isSome) (v : α) :
    Lawful capacity ((k, v) :: RecencyList.without l k) where
  distinct := List.nodup_cons.mpr ⟨key_not_mem_without, (h.without k).distinct⟩
  bounded := (length_without_lt hk).trans_le h.bounded

/-- A call on a cache. -/
inductive Call (κ α : Type) where
  | put (k : κ) (v : α)
  | get (k : κ)
  | peek (k : κ)
  | contains (k : κ)
  | remove (k : κ)
  | candidate
  | length
  | isFull
  | values
  | keysByRecency

/-- What a call gives back. -/
inductive Answer (κ α : Type) where
  | stored (r : Except CacheError (Option α))
  | value (v : Option α)
  | truth (b : Bool)
  | key (k : Option κ)
  | count (n : Nat)
  | values (vs : List α)
  | keys (ks : List κ)

/-- Answers that say the same; the values of a cache come in no particular order. -/
def Answer.Agrees : Answer κ α → Answer κ α → Prop
  | .values vs, .values ws => vs.Perm ws
  | a, b => a = b

/-- A call on a list of entries. -/
def perform (capacity : Nat) (l : List (κ × α)) : Call κ α → Answer κ α × List (κ × α)
  | .put k v =>
      match put capacity l k v with
      | .ok (old, l') => (.stored (.ok old), l')
      | .error e => (.stored (.error e), l)
  | .get k => (.value (get l k).1, (get l k).2)
  | .peek k => (.value (l.lookup k), l)
  | .contains k => (.truth (l.lookup k).isSome, l)
  | .remove k => (.value (remove l k).1, (remove l k).2)
  | .candidate => (.key (candidate l), l)
  | .length => (.count l.length, l)
  | .isFull => (.truth (decide (capacity ≤ l.length)), l)
  | .values => (.values (l.map (·.2)), l)
  | .keysByRecency => (.keys (l.map (·.1)), l)

/-- The answers to calls made one after the other. -/
def answers (capacity : Nat) (l : List (κ × α)) : List (Call κ α) → List (Answer κ α)
  | [] => []
  | call :: calls =>
      (perform capacity l call).1 :: answers capacity (perform capacity l call).2 calls

/-- The list after calls made one after the other. -/
def after (capacity : Nat) (l : List (κ × α)) (calls : List (Call κ α)) : List (κ × α) :=
  calls.foldl (fun l call => (perform capacity l call).2) l

theorem Lawful.add (h : Lawful capacity l) (hk : l.lookup k = none) (hroom : l.length < capacity)
    (v : α) : Lawful capacity ((k, v) :: l) where
  distinct := by
    refine List.nodup_cons.mpr ⟨?_, h.distinct⟩
    intro hmem
    obtain ⟨e, he, hek⟩ := List.mem_map.mp hmem
    exact lookup_eq_none.mp hk e he hek
  bounded := hroom

theorem Lawful.perform (h : Lawful capacity l) (call : Call κ α) :
    Lawful capacity (perform capacity l call).2 := by
  cases call with
  | put k v =>
    simp only [RecencyList.perform]
    cases hk : l.lookup k with
    | some old =>
      rw [put_of_some hk]
      exact h.move (by simp [hk]) v
    | none =>
      rcases Nat.lt_or_ge l.length capacity with hroom | hfull
      · rw [put_of_room hk hroom]
        exact h.add hk hroom v
      · rw [put_of_full hk hfull]
        exact h
  | get k =>
    simp only [RecencyList.perform]
    cases hk : l.lookup k with
    | some v =>
      rw [get_of_some hk]
      exact h.move (by simp [hk]) v
    | none =>
      rw [get_of_none hk]
      exact h
  | remove k => exact h.without k
  | _ => exact h

theorem Lawful.after (h : Lawful capacity l) (calls : List (Call κ α)) :
    Lawful capacity (after capacity l calls) := by
  induction calls generalizing l with
  | nil => exact h
  | cons call calls ih => exact ih (h.perform call)

end RowStore.RecencyList
