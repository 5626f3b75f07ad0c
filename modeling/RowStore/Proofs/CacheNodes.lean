import RowStore.Proofs.CacheSimulation
import RowStore.Proofs.ChainPaths

/-! The nodes of a cache: how they hang together in both directions, which of them wait to be used
again, and how many there are. Calls that look up every node they name, and stop at one that is not
there, answer as those of the cache do and never stop. -/
namespace RowStore

namespace RecencyCache
variable {κ α : Type} [Ord κ] {c : RecencyCache κ α} {hs : List Nat} {l : List (κ × α)} {k : κ}
  {v : α} {i : Nat}

open RecencyList

/-- The value in a node, which has to be there. -/
def valueAt? (c : RecencyCache κ α) (i : Nat) : Option (Option α) :=
  (c.chain.node? i).map fun n => n.entry.map (·.2)

def peek? (c : RecencyCache κ α) (k : κ) : Option (Option α) :=
  match c.index[k]? with
  | none => some none
  | some i => c.valueAt? i

def get? (c : RecencyCache κ α) (k : κ) : Option (Option α × RecencyCache κ α) :=
  match c.index[k]? with
  | none => some (none, c)
  | some i => do
      let chain ← c.chain.moveFront? i
      let v ← { c with chain }.valueAt? i
      return (v, { c with chain })

/-- Stores an entry in a node that waits, which has to be there, or in a new one. -/
def link? (c : RecencyCache κ α) (k : κ) (v : α) : Option (RecencyCache κ α) :=
  let node : Node (κ × α) := ⟨some (k, v), Chain.front, Chain.front⟩
  match c.free with
  | i :: free => do
      let chain ← c.chain.replace? i node
      let chain ← chain.linkFront? i
      return { c with index := c.index.insert k i, chain, free }
  | [] => do
      let chain ← Chain.linkFront? (c.chain.push node) c.chain.size
      return { c with index := c.index.insert k c.chain.size, chain }

def put? (c : RecencyCache κ α) (k : κ) (v : α) :
    Option (Except CacheError (Option α × RecencyCache κ α)) :=
  match c.index[k]? with
  | some i => do
      let old ← c.valueAt? i
      let chain ← c.chain.modify? i ({ · with entry := some (k, v) })
      let chain ← chain.moveFront? i
      return .ok (old, { c with chain })
  | none =>
      if c.isFull then some (.error (.full c.capacity))
      else do
        let linked ← c.link? k v
        return .ok (none, linked)

def remove? (c : RecencyCache κ α) (k : κ) : Option (Option α × RecencyCache κ α) :=
  match c.index[k]? with
  | none => some (none, c)
  | some i => do
      let chain ← c.chain.unlink? i
      let v ← { c with chain }.valueAt? i
      let chain ← chain.modify? i ({ · with entry := none })
      return (v, { c with index := c.index.erase k, chain, free := i :: c.free })

def candidate? (c : RecencyCache κ α) : Option (Option κ) := do
  let tail ← c.chain.node? Chain.back
  if tail.newer = Chain.front then return none
  else
    let n ← c.chain.node? tail.newer
    return n.entry.map (·.1)

/-- The values in the order of the index. -/
def values? (c : RecencyCache κ α) : Option (List α) := do
  let nodes ← (c.index.toList.map (·.2)).mapM c.chain.node?
  return nodes.filterMap fun n => n.entry.map (·.2)

def keysByRecency? (c : RecencyCache κ α) : Option (List κ) := do
  let head ← c.chain.node? Chain.front
  let handles ← c.chain.walk? c.chain.size head.older
  let nodes ← handles.mapM c.chain.node?
  return nodes.filterMap fun n => n.entry.map (·.1)

/-- A call on a cache that looks up every node it names. -/
def perform? (c : RecencyCache κ α) : Call κ α → Option (Answer κ α × RecencyCache κ α)
  | .put k v => (c.put? k v).map fun
      | .ok (old, c') => (.stored (.ok old), c')
      | .error e => (.stored (.error e), c)
  | .get k => (c.get? k).map fun (v, c') => (.value v, c')
  | .peek k => (c.peek? k).map fun v => (.value v, c)
  | .contains k => some (.truth (c.contains k), c)
  | .remove k => (c.remove? k).map fun (v, c') => (.value v, c')
  | .candidate => c.candidate?.map fun k => (.key k, c)
  | .length => some (.count c.length, c)
  | .isFull => some (.truth c.isFull, c)
  | .values => c.values?.map fun vs => (.values vs, c)
  | .keysByRecency => c.keysByRecency?.map fun ks => (.keys ks, c)

namespace Holds

theorem valueAt?_eq (h : i < c.chain.size) : c.valueAt? i = some (c.valueAt i) := by
  obtain ⟨n, hnode, -, -, hentry⟩ := Chain.exists_node h
  simp [valueAt?, valueAt, hnode, hentry]

/-- The index names nodes of the chain only. -/
theorem placed (h : c.Holds hs l) (hk : c.index[k]? = some i) : ∃ xs ys, hs = xs ++ i :: ys := by
  obtain ⟨v, hi⟩ := (h.index k i).mp hk
  exact List.append_of_mem (h.mem_of_entry hi)

theorem peek?_eq (h : c.Holds hs l) (k : κ) : c.peek? k = some (c.peek k) := by
  unfold peek? peek
  cases hk : c.index[k]? with
  | none => rfl
  | some i =>
    obtain ⟨xs, ys, rfl⟩ := h.placed hk
    exact valueAt?_eq (h.threads.mem_lt (by simp))

theorem get?_eq (h : c.Holds hs l) (k : κ) : c.get? k = some (c.get k) := by
  unfold get? get
  cases hk : c.index[k]? with
  | none => rfl
  | some i =>
    obtain ⟨xs, ys, rfl⟩ := h.placed hk
    have hi : i < c.chain.size := h.threads.mem_lt (by simp)
    have hmoved : i < (c.chain.moveFront i).size := by simpa using hi
    simp only [h.threads.moveFront?_eq, Option.bind_eq_bind, Option.bind_some]
    rw [valueAt?_eq hmoved]
    simp [valueAt]

/-- A node that waits, or a new one, lies beside the chain, and the front of the chain is there. -/
theorem link?_eq (h : c.Holds hs l) (k : κ) (v : α) : c.link? k v = some (c.link k v) := by
  have hn := h.nodes.nodup_iff.mpr List.nodup_range
  unfold link? RecencyCache.link
  cases hfree : c.free with
  | nil =>
    have hpushed := h.threads.push ⟨some (k, v), Chain.front, Chain.front⟩
    have hlinked := hpushed.linkFront?_eq (i := c.chain.size) (by simp)
    simp only [hlinked, Option.bind_eq_bind, Option.bind_some]
    rfl
  | cons i free =>
    have hi : i < c.chain.size := List.mem_range.mp (h.nodes.subset (by simp [hfree]))
    have hapart : i ∉ Chain.front :: hs ++ [Chain.back] := by grind
    have hreplaced := h.threads.replace hapart ⟨some (k, v), Chain.front, Chain.front⟩
    simp only [Chain.replace?, if_pos hi, hreplaced.linkFront?_eq (by simpa using hi),
      Option.bind_eq_bind, Option.bind_some]
    rfl

theorem put?_eq (h : c.Holds hs l) (k : κ) (v : α) : c.put? k v = some (c.put k v) := by
  unfold put? put
  cases hk : c.index[k]? with
  | none =>
    dsimp only
    split
    · rfl
    · rw [h.link?_eq]
      rfl
  | some i =>
    obtain ⟨xs, ys, rfl⟩ := h.placed hk
    have hi : i < c.chain.size := h.threads.mem_lt (by simp)
    have hmoved := (h.threads.setEntry i (some (k, v))).moveFront?_eq
    simp only [valueAt?_eq hi, Chain.modify?_of_lt hi, Option.bind_eq_bind, Option.bind_some]
    rw [Chain.setEntry] at hmoved
    rw [hmoved]
    rfl

theorem remove?_eq (h : c.Holds hs l) (k : κ) : c.remove? k = some (c.remove k) := by
  unfold remove? remove
  cases hk : c.index[k]? with
  | none => rfl
  | some i =>
    obtain ⟨xs, ys, rfl⟩ := h.placed hk
    have hi : i < (c.chain.unlink i).size := by simpa using h.threads.mem_lt (i := i) (by simp)
    simp only [h.threads.unlink?_eq, Option.bind_eq_bind, Option.bind_some]
    rw [valueAt?_eq hi, Option.bind_some, Chain.modify?_of_lt hi]
    simp [valueAt, Chain.setEntry]

theorem candidate?_eq (h : c.Holds hs l) : c.candidate? = some c.candidate := by
  obtain ⟨n, hnode, hnewer, -, -⟩ := Chain.exists_node h.threads.back_lt
  unfold candidate? candidate
  simp only [hnode, hnewer, Option.bind_eq_bind, Option.bind_some]
  split
  · rfl
  · next hne =>
    have hlast : c.chain.newerOf Chain.back < c.chain.size := by
      rw [h.threads.newerOf_back, List.getLastD_eq_getLast?]
      cases hlast : hs.getLast? with
      | none => exact h.threads.front_lt
      | some i => exact h.threads.mem_lt (List.mem_of_getLast? hlast)
    obtain ⟨m, hm, -, -, hentry⟩ := Chain.exists_node hlast
    simp [hm, hentry]

theorem keysByRecency?_eq (h : c.Holds hs l) : c.keysByRecency? = some c.keysByRecency := by
  obtain ⟨n, hnode, -, -, -⟩ := Chain.exists_node h.threads.front_lt
  have hwalk := h.threads.path_older.walk?_eq rfl h.threads.back_lt hnode h.threads.length_lt
  have hlook := Chain.lookUp_eq (fun i hi => h.threads.mem_lt hi) (Prod.fst : κ × α → κ)
  simp only [keysByRecency?, hnode, hwalk, Option.bind_eq_bind, Option.bind_some, Option.pure_def]
  rw [hlook, keysByRecency, h.threads.handles_eq]

/-- The index names each node of the chain once. -/
theorem index_perm [Std.TransOrd κ] [Std.LawfulEqOrd κ] (h : c.Holds hs l) :
    (c.index.toList.map (·.2)).Perm hs := by
  have hmem : ∀ e, e ∈ c.index.toList ↔ ∃ v, c.chain.entryAt e.2 = some (e.1, v) := fun e => by
    rw [← h.index, ← Std.TreeMap.mem_toList_iff_getElem?_eq_some]
  have hnodup : (c.index.toList.map (·.2)).Nodup := by
    apply List.pairwise_map.mpr
    apply List.Pairwise.imp_of_mem _ Std.TreeMap.distinct_keys_toList
    -- a node has one entry, so two keys that are both in it are the same
    rintro a b ha hb hne heq
    obtain ⟨v, hv⟩ := (hmem a).mp ha
    obtain ⟨w, hw⟩ := (hmem b).mp hb
    rw [heq, hw] at hv
    obtain ⟨hkey, -⟩ := Prod.mk.inj (Option.some.inj hv)
    exact hne (hkey ▸ Std.ReflCmp.compare_self)
  rw [List.perm_ext_iff_of_nodup hnodup h.threads.nodup_nodes]
  intro i
  simp only [List.mem_map, hmem]
  constructor
  · rintro ⟨e, ⟨v, hv⟩, rfl⟩
    exact h.mem_of_entry hv
  · intro hi
    have hentry : c.chain.entryAt i ∈ l.map some := h.entries ▸ List.mem_map_of_mem hi
    obtain ⟨⟨k, v⟩, -, hkv⟩ := List.mem_map.mp hentry
    exact ⟨(k, i), ⟨v, hkv.symm⟩, rfl⟩

theorem values?_perm [Std.TransOrd κ] [Std.LawfulEqOrd κ] (h : c.Holds hs l) :
    ∃ vs, c.values? = some vs ∧ vs.Perm c.values := by
  have hperm := h.index_perm
  have hlook := Chain.lookUp_eq (fun i hi => h.threads.mem_lt (hperm.subset hi))
    (Prod.snd : κ × α → α)
  refine ⟨_, hlook, ?_⟩
  exact (hperm.filterMap _).trans (h.filterMap_entries _ ▸ h.values_perm.symm)

/-- Every call finds all nodes that it names, and does what it does. -/
theorem perform?_eq [DecidableEq κ] [Std.TransOrd κ] [Std.LawfulEqOrd κ] (h : c.Holds hs l)
    (call : Call κ α) : ∃ a, c.perform? call = some (a, (c.perform call).2) ∧
      a.Agrees (c.perform call).1 := by
  cases call with
  | put k v =>
    simp only [perform?, perform, h.put?_eq, Option.map_some]
    cases c.put k v <;> exact ⟨_, rfl, rfl⟩
  | get k => exact ⟨.value (c.get k).1, by rw [perform?, h.get?_eq]; rfl, rfl⟩
  | peek k => exact ⟨.value (c.peek k), by rw [perform?, h.peek?_eq]; rfl, rfl⟩
  | remove k => exact ⟨.value (c.remove k).1, by rw [perform?, h.remove?_eq]; rfl, rfl⟩
  | candidate => exact ⟨.key c.candidate, by rw [perform?, h.candidate?_eq]; rfl, rfl⟩
  | keysByRecency =>
    exact ⟨.keys c.keysByRecency, by rw [perform?, h.keysByRecency?_eq]; rfl, rfl⟩
  | contains k => exact ⟨.truth (c.contains k), rfl, rfl⟩
  | length => exact ⟨.count c.length, rfl, rfl⟩
  | isFull => exact ⟨.truth c.isFull, rfl, rfl⟩
  | values =>
    obtain ⟨vs, hvs, hperm⟩ := h.values?_perm
    exact ⟨.values vs, by rw [perform?, hvs]; rfl, hperm⟩

theorem chain_size_eq (h : c.Holds hs l) : c.chain.size = c.length + c.free.length + 2 := by
  have hnodes := h.nodes.length_eq
  have hentries := congrArg List.length h.entries
  have hsize := h.size
  simp only [List.length_cons, List.length_append, List.length_range] at hnodes
  simp only [List.length_map] at hentries
  rw [length]
  omega

/-- A new key takes a node that waits; only if none does, there is a node more. -/
theorem chain_size_link [Std.TransOrd κ] [Std.LawfulEqOrd κ] (h : c.Holds hs l)
    (hk : c.index[k]? = none) (hroom : l.length < c.capacity) (v : α) :
    (c.link k v).chain.size = max c.chain.size ((c.link k v).length + 2) := by
  obtain ⟨-, hs', hlink⟩ := h.link hk hroom v
  have hlength : (c.link k v).length = c.length + 1 := by
    rw [length, length, hlink.size, h.size, List.length_cons]
  have hbefore := h.chain_size_eq
  rw [hlength]
  unfold RecencyCache.link
  cases hfree : c.free with
  | nil =>
    rw [hfree, List.length_nil] at hbefore
    simp only [Chain.size_linkFront, Array.size_push]
    omega
  | cons i free =>
    rw [hfree, List.length_cons] at hbefore
    simp only [Chain.size_linkFront, Array.size_setIfInBounds]
    omega

end Holds

/-- How the nodes of a cache are used, `hs` being those of its entries. -/
structure Intact (c : RecencyCache κ α) (hs : List Nat) : Prop where
  /-- The older links lead from the front through these nodes to the back. -/
  older : c.chain.Path (·.older) Chain.front hs Chain.back
  /-- The newer links lead from the back through the same nodes, in the other order, to the front. -/
  newer : c.chain.Path (·.newer) Chain.back hs.reverse Chain.front
  distinct : hs.Nodup
  /-- The index finds each of these nodes under the key of its entry, and no other ones. -/
  indexed : ∀ i ∈ hs, ∃ k v, c.chain.entryAt i = some (k, v) ∧ c.index[k]? = some i
  chained : ∀ k i, c.index[k]? = some i → i ∈ hs ∧ ∃ v, c.chain.entryAt i = some (k, v)
  length : c.length = hs.length
  /-- The ends, these nodes and those that wait are all nodes, each of them once. -/
  nodes : (Chain.front :: Chain.back :: (hs ++ c.free)).Perm (List.range c.chain.size)
  vacant : ∀ i ∈ Chain.front :: Chain.back :: c.free, ∃ n, c.chain.node? i = some n ∧ n.entry = none

theorem Holds.intact (h : c.Holds hs l) : c.Intact hs where
  older := h.threads.path_older
  newer := h.threads.path_newer
  distinct := h.threads.nodup_nodes
  indexed i hi := by
    have hentry : c.chain.entryAt i ∈ l.map some := h.entries ▸ List.mem_map_of_mem hi
    obtain ⟨⟨k, v⟩, -, hkv⟩ := List.mem_map.mp hentry
    exact ⟨k, v, hkv.symm, (h.index k i).mpr ⟨v, hkv.symm⟩⟩
  chained k i hk := by
    obtain ⟨v, hv⟩ := (h.index k i).mp hk
    exact ⟨h.mem_of_entry hv, v, hv⟩
  length := by
    have hentries := congrArg List.length h.entries
    rw [List.length_map, List.length_map] at hentries
    exact h.size.trans hentries.symm
  nodes := h.nodes
  vacant i hi := by
    have hn := h.nodes.nodup_iff.mpr List.nodup_range
    have hlt : i < c.chain.size := by
      apply List.mem_range.mp
      apply h.nodes.subset
      simp only [List.mem_cons, List.mem_append] at hi ⊢
      tauto
    obtain ⟨n, hnode, -, -, hentry⟩ := Chain.exists_node hlt
    refine ⟨n, hnode, hentry.trans (h.vacant i ?_)⟩
    grind

theorem chain_size_create {entrySize capacity : Nat} (h : create entrySize capacity = .ok c) :
    c.chain.size = 2 := by
  unfold create at h
  split at h
  · contradiction
  · split at h
    · contradiction
    · rw [← Except.ok.inj h]
      rfl

section Runs
variable [DecidableEq κ] [Std.TransOrd κ] [Std.LawfulEqOrd κ] {capacity : Nat}

/-- The cache after calls made one after the other. -/
def after (c : RecencyCache κ α) (calls : List (Call κ α)) : RecencyCache κ α :=
  calls.foldl (fun c call => (c.perform call).2) c

/-- The most entries that a cache has at a time while calls are made one after the other. -/
def mostEntries (c : RecencyCache κ α) : List (Call κ α) → Nat
  | [] => c.length
  | call :: calls => max c.length ((c.perform call).2.mostEntries calls)

/-- The answers to calls made one after the other and the cache after them, if every call finds the
nodes that it names. -/
def run? (c : RecencyCache κ α) :
    List (Call κ α) → Option (List (Answer κ α) × RecencyCache κ α)
  | [] => some ([], c)
  | call :: calls => do
      let (a, c) ← c.perform? call
      let (as, c) ← c.run? calls
      return (a :: as, c)

namespace Represents

theorem after (h : c.Represents capacity l) (calls : List (Call κ α)) :
    (c.after calls).Represents capacity (RecencyList.after capacity l calls) := by
  induction calls generalizing c l with
  | nil => exact h
  | cons call calls ih => exact ih (h.perform call).2

/-- A call makes nodes for the entries that there are, and never gives one up. -/
theorem chain_size_perform (h : c.Represents capacity l) (call : Call κ α) :
    (c.perform call).2.chain.size = max c.chain.size ((c.perform call).2.length + 2) := by
  obtain ⟨-, hs', hafter⟩ := (h.perform call).2
  have hle := hafter.chain_size_eq
  -- a call that makes no node leaves enough of them, since its result is a cache again
  have hsame (hsize : (c.perform call).2.chain.size = c.chain.size) :
      (c.perform call).2.chain.size = max c.chain.size ((c.perform call).2.length + 2) := by omega
  obtain ⟨hcap, hs, hholds⟩ := h
  cases call with
  | put k v =>
    cases hk : c.index[k]? with
    | some i =>
      apply hsame
      simp [RecencyCache.perform, RecencyCache.put, hk]
    | none =>
      by_cases hfull : c.isFull
      · apply hsame
        simp [RecencyCache.perform, RecencyCache.put, hk, hfull]
      · have hroom : l.length < c.capacity := by
          rw [hholds.isFull_eq] at hfull
          simpa using hfull
        have hlink := hholds.chain_size_link hk hroom v
        simpa [RecencyCache.perform, RecencyCache.put, hk, hfull] using hlink
  | get k =>
    apply hsame
    simp only [RecencyCache.perform, RecencyCache.get]
    split <;> simp
  | remove k =>
    apply hsame
    simp only [RecencyCache.perform, RecencyCache.remove]
    split <;> simp
  | _ => exact hsame rfl

theorem chain_size_after (h : c.Represents capacity l) (calls : List (Call κ α)) :
    (c.after calls).chain.size = max c.chain.size (c.mostEntries calls + 2) := by
  induction calls generalizing c l with
  | nil =>
    obtain ⟨-, hs, hholds⟩ := h
    have := hholds.chain_size_eq
    simp only [RecencyCache.after, List.foldl_nil, mostEntries]
    omega
  | cons call calls ih =>
    have hstep := h.chain_size_perform call
    have hrest := ih (h.perform call).2
    obtain ⟨-, hs, hholds⟩ := h
    have := hholds.chain_size_eq
    have hmost : (c.perform call).2.length ≤ (c.perform call).2.mostEntries calls := by
      cases calls with
      | nil => exact le_refl _
      | cons => exact le_max_left _ _
    simp only [RecencyCache.after, List.foldl_cons, mostEntries] at hrest ⊢
    omega

theorem mostEntries_le (h : c.Represents capacity l) (calls : List (Call κ α)) :
    c.mostEntries calls ≤ capacity := by
  have hlength : c.length ≤ capacity := by
    obtain ⟨rfl, hs, hholds⟩ := id h
    exact hholds.size.trans_le hholds.room
  induction calls generalizing c l with
  | nil => exact hlength
  | cons call calls ih =>
    have hnext := (h.perform call).2
    apply max_le hlength
    apply ih hnext
    obtain ⟨hcap, hs, hholds⟩ := hnext
    exact hcap ▸ hholds.size.trans_le hholds.room

theorem run?_eq (h : c.Represents capacity l) (calls : List (Call κ α)) :
    ∃ as, c.run? calls = some (as, c.after calls) ∧
      List.Forall₂ Answer.Agrees as (c.answers calls) := by
  induction calls generalizing c l with
  | nil => exact ⟨[], rfl, .nil⟩
  | cons call calls ih =>
    obtain ⟨-, hs, hholds⟩ := id h
    obtain ⟨a, ha, hagrees⟩ := hholds.perform?_eq call
    obtain ⟨as, has, hrest⟩ := ih (h.perform call).2
    refine ⟨a :: as, ?_, .cons hagrees hrest⟩
    simp only [run?, ha, has, Option.bind_eq_bind, Option.bind_some]
    rfl

end Represents

/-- From its creation on and after any calls, the nodes of a cache are used like this: the ends, the
entries in the order of their use and the nodes that wait are all nodes, and there are as many as
the most entries at a time needed, so never more than the capacity. Hence a walk along the chain
ends by itself, and no call names a node that is not there. -/
theorem intact_of_calls {entrySize : Nat} (h : create entrySize capacity = .ok c)
    (calls : List (Call κ α)) :
    (∃ hs, (c.after calls).Intact hs ∧ ∀ fuel, hs.length < fuel →
      (c.after calls).chain.walk fuel ((c.after calls).chain.olderOf Chain.front) = hs) ∧
    (c.after calls).chain.size = c.mostEntries calls + 2 ∧ c.mostEntries calls ≤ capacity ∧
    ∃ as, c.run? calls = some (as, c.after calls) ∧
      List.Forall₂ Answer.Agrees as (c.answers calls) := by
  obtain ⟨hholds, hcap⟩ := holds_create h
  have hrep : c.Represents capacity [] := ⟨hcap, [], hholds⟩
  have hsize := hrep.chain_size_after calls
  have hempty := chain_size_create h
  obtain ⟨-, hs, hafter⟩ := hrep.after calls
  refine ⟨⟨hs, hafter.intact, fun fuel => hafter.intact.older.walk_eq rfl⟩, ?_,
    hrep.mostEntries_le calls, hrep.run?_eq calls⟩
  omega

/-- Two entries at a time, of which the oldest, the newest and the only one are removed: there are
two nodes for entries, and the third key and the fourth are in nodes that were used before. -/
theorem intact_of_calls_two : ∃ c : RecencyCache Nat Nat, create 16 2 = .ok c ∧
    let calls : List (Call Nat Nat) := [.put 1 10, .put 2 20, .remove 1, .put 3 30, .remove 3,
      .remove 2, .put 4 40, .get 4, .keysByRecency]
    (∃ hs, (c.after calls).Intact hs ∧ ∀ fuel, hs.length < fuel →
      (c.after calls).chain.walk fuel ((c.after calls).chain.olderOf Chain.front) = hs) ∧
    (c.after calls).chain.size = c.mostEntries calls + 2 ∧ c.mostEntries calls ≤ 2 ∧
    c.mostEntries calls = 2 ∧
    ∃ as, c.run? calls = some (as, c.after calls) ∧
      List.Forall₂ Answer.Agrees as (c.answers calls) := by
  obtain ⟨c, h, hmost⟩ : ∃ c : RecencyCache Nat Nat, create 16 2 = .ok c ∧
      c.mostEntries [.put 1 10, .put 2 20, .remove 1, .put 3 30, .remove 3,
        .remove 2, .put 4 40, .get 4, .keysByRecency] = 2 := ⟨_, rfl, by rfl⟩
  obtain ⟨hnodes, hsize, hle, hrun⟩ := intact_of_calls h [.put 1 10, .put 2 20, .remove 1, .put 3 30,
    .remove 3, .remove 2, .put 4 40, .get 4, .keysByRecency]
  exact ⟨c, h, hnodes, hsize, hle, hmost, hrun⟩

end Runs
end RecencyCache
end RowStore
