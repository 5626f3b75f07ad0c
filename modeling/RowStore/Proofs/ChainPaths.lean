import RowStore.Proofs.Chain

/-! Paths along the links of a chain, in both directions. Operations that look up every node they
name, and stop at one that is not there, change a chain as those do that take it to be there. -/
namespace RowStore

namespace Chain
variable {α : Type} {c : Chain α} {i j : Nat} {hs xs ys : List Nat} {next : Node α → Nat}

/-- A node of a chain, if it is there. -/
def node? (nodes : Chain α) (i : Nat) : Option (Node α) := nodes[i]?

/-- From node `i` on, `next` leads through the nodes of a list to node `j`. Each node that it leads
on from is there. -/
inductive Path (c : Chain α) (next : Node α → Nat) : Nat → List Nat → Nat → Prop where
  | last {i j : Nat} {n : Node α} (node : c.node? i = some n) (link : next n = j) :
      Path c next i [] j
  | step {i k j : Nat} {n : Node α} {hs : List Nat} (node : c.node? i = some n) (link : next n = k)
      (on : k ≠ j) (rest : Path c next k hs j) : Path c next i (k :: hs) j

theorem exists_node (h : i < c.size) :
    ∃ n, c.node? i = some n ∧ n.newer = c.newerOf i ∧ n.older = c.olderOf i ∧
      n.entry = c.entryAt i := by
  have hnode := Array.getElem?_eq_getElem h
  exact ⟨_, hnode, by simp [newerOf, hnode], by simp [olderOf, hnode], by simp [entryAt, hnode]⟩

theorem olderOf_of_node {n : Node α} (h : c.node? i = some n) : c.olderOf i = n.older := by
  rw [node?] at h
  rw [olderOf, h]
  rfl

/-- Nodes that are linked one to the next make a path, up to the first time that its end comes. -/
theorem path_of_links
    (h : List.IsChain (fun a b => ∃ n, c.node? a = some n ∧ next n = b) (i :: hs ++ [j]))
    (hj : j ∉ hs) : c.Path next i hs j := by
  induction hs generalizing i with
  | nil =>
    obtain ⟨n, hnode, hlink⟩ := (List.isChain_cons_cons.mp h).1
    exact .last hnode hlink
  | cons k hs ih =>
    obtain ⟨⟨n, hnode, hlink⟩, hrest⟩ := List.isChain_cons_cons.mp h
    have hon : k ≠ j := fun e => hj (e ▸ List.mem_cons_self)
    apply Path.step hnode hlink hon
    apply ih hrest
    exact fun hm => hj (List.mem_cons_of_mem k hm)

/-- The older links lead from the front of the chain through its nodes to the back. -/
theorem Threads.path_older (h : c.Threads hs) : c.Path (·.older) front hs back := by
  apply path_of_links _ h.back_not_mem
  apply h.linked.imp_of_mem_imp
  rintro a b ha - ⟨hab, -⟩
  obtain ⟨n, hnode, -, holder, -⟩ := exists_node (h.bound a ha)
  exact ⟨n, hnode, holder.trans hab⟩

/-- The newer links lead from its back through the same nodes, the last one first, to the front. -/
theorem Threads.path_newer (h : c.Threads hs) : c.Path (·.newer) back hs.reverse front := by
  have hfront : front ∉ hs := by
    have hn := h.nodup
    rw [List.cons_append, List.nodup_cons] at hn
    exact fun hm => hn.1 (List.mem_append_left _ hm)
  apply path_of_links _ (by simpa using hfront)
  have hback : List.IsChain (fun a b => c.Adjacent b a) (back :: hs.reverse ++ [front]) := by
    have hl := List.isChain_reverse.mpr h.linked
    simpa using hl
  apply hback.imp_of_mem_imp
  rintro a b ha - ⟨-, hba⟩
  have hmem : a ∈ front :: hs ++ [back] := by
    simp only [List.cons_append, List.mem_cons, List.mem_append, List.mem_reverse] at ha ⊢
    tauto
  obtain ⟨n, hnode, hnewer, -, -⟩ := exists_node (h.bound a hmem)
  exact ⟨n, hnode, hnewer.trans hba⟩

/-- A walk along a path comes to its end by itself: steps beyond its length change nothing. -/
theorem Path.walk_eq {fuel : Nat} (h : c.Path (·.older) i hs j) (hj : j = back)
    (hf : hs.length < fuel) : c.walk fuel (c.olderOf i) = hs := by
  induction h generalizing fuel with
  | @last i j n hnode hlink =>
    have hi : c.olderOf i = back := (olderOf_of_node hnode).trans (hlink.trans hj)
    rw [hi]
    cases fuel <;> rfl
  | @step i k j n hs hnode hlink hon _ ih =>
    have hi : c.olderOf i = k := (olderOf_of_node hnode).trans hlink
    cases fuel with
    | zero => simp at hf
    | succ fuel =>
      simp only [List.length_cons, Nat.add_lt_add_iff_right] at hf
      rw [hi, walk, if_neg (hj ▸ hon), ih hj hf]

/-- Changes a node, which has to be there. -/
def modify? (c : Chain α) (i : Nat) (f : Node α → Node α) : Option (Chain α) :=
  if i < c.size then some (c.modify i f) else none

/-- Puts another node in the place of one, which has to be there. -/
def replace? (c : Chain α) (i : Nat) (n : Node α) : Option (Chain α) :=
  if i < c.size then some (c.setIfInBounds i n) else none

/-- Joins the two neighbours of a node; all three have to be there. -/
def unlink? (c : Chain α) (i : Nat) : Option (Chain α) := do
  let n ← c.node? i
  let c ← c.modify? n.newer ({ · with older := n.older })
  c.modify? n.older ({ · with newer := n.newer })

/-- Makes a node the newest one; it has to be there, and so have the nodes beside its new place. -/
def linkFront? (c : Chain α) (i : Nat) : Option (Chain α) := do
  let head ← c.node? front
  let c ← c.modify? i ({ · with newer := front })
  let c ← c.modify? i ({ · with older := head.older })
  let c ← c.modify? head.older ({ · with newer := i })
  c.modify? front ({ · with older := i })

/-- Makes a node of the chain the newest one. -/
def moveFront? (c : Chain α) (i : Nat) : Option (Chain α) := do
  let head ← c.node? front
  if head.older = i then return c
  else
    let c ← c.unlink? i
    c.linkFront? i

/-- The nodes from `i` on towards the older end, which has to come within `fuel` steps. -/
def walk? (c : Chain α) : (fuel : Nat) → (i : Nat) → Option (List Nat)
  | 0, _ => none
  | fuel + 1, i => do
      let n ← c.node? i
      if i = back then return []
      else
        let is ← c.walk? fuel n.older
        return i :: is

theorem modify?_of_lt (h : i < c.size) (f : Node α → Node α) :
    c.modify? i f = some (c.modify i f) := if_pos h

theorem unlink?_eq (hi : i < c.size) (hnewer : c.newerOf i < c.size)
    (holder : c.olderOf i < c.size) : c.unlink? i = some (c.unlink i) := by
  obtain ⟨n, hnode, hn, ho, -⟩ := exists_node hi
  have hsize : c.olderOf i < (c.setOlder (c.newerOf i) (c.olderOf i)).size := by simpa using holder
  rw [unlink?, hnode, Option.bind_eq_bind, Option.bind_some, hn, ho, modify?_of_lt hnewer]
  exact modify?_of_lt hsize _

theorem linkFront?_eq (hfront : front < c.size) (hi : i < c.size)
    (hfirst : c.olderOf front < c.size) : c.linkFront? i = some (c.linkFront i) := by
  obtain ⟨n, hnode, -, ho, -⟩ := exists_node hfront
  simp only [linkFront?, hnode, ho, Option.bind_eq_bind, Option.bind_some]
  rw [modify?_of_lt hi, Option.bind_some, modify?_of_lt (by simpa using hi), Option.bind_some,
    modify?_of_lt (by simpa using hfirst), Option.bind_some, modify?_of_lt (by simpa using hfront)]
  rfl

theorem Threads.front_lt (h : c.Threads hs) : front < c.size := h.bound _ (by simp)

theorem Threads.back_lt (h : c.Threads hs) : back < c.size := h.bound _ (by simp)

/-- The neighbours of a node of the chain are there. -/
theorem Threads.neighbours_lt (h : c.Threads (xs ++ i :: ys)) :
    c.newerOf i < c.size ∧ c.olderOf i < c.size := by
  obtain ⟨as, a, has⟩ : ∃ as a, front :: xs = as ++ [a] :=
    ⟨_, _, (List.dropLast_append_getLast (List.cons_ne_nil front xs)).symm⟩
  obtain ⟨b, bs, hbs⟩ : ∃ b bs, ys ++ [back] = b :: bs := List.exists_cons_of_ne_nil (by simp)
  have hall : front :: (xs ++ i :: ys) ++ [back] = as ++ a :: i :: b :: bs := by
    rw [← List.cons_append, has]
    simp [← hbs]
  obtain ⟨hl, -, hb⟩ := h
  rw [hall] at hl hb
  obtain ⟨-, ⟨-, hia⟩, hrest⟩ := List.isChain_append_cons_cons.mp hl
  have hib := (List.isChain_cons_cons.mp hrest).1.1
  rw [hia, hib]
  exact ⟨hb a (by simp), hb b (by simp)⟩

theorem Threads.older_front_lt (h : c.Threads hs) : c.olderOf front < c.size := by
  cases hs with
  | nil =>
    have hlink := (List.isChain_cons_cons.mp h.linked).1.1
    rw [hlink]
    exact h.back_lt
  | cons i hs =>
    rw [h.olderOf_front]
    exact h.mem_lt List.mem_cons_self

theorem Threads.unlink?_eq (h : c.Threads (xs ++ i :: ys)) : c.unlink? i = some (c.unlink i) :=
  Chain.unlink?_eq (h.mem_lt (by simp)) h.neighbours_lt.1 h.neighbours_lt.2

theorem Threads.linkFront?_eq (h : c.Threads hs) (hi : i < c.size) :
    c.linkFront? i = some (c.linkFront i) := Chain.linkFront?_eq h.front_lt hi h.older_front_lt

theorem Threads.moveFront?_eq (h : c.Threads (xs ++ i :: ys)) :
    c.moveFront? i = some (c.moveFront i) := by
  obtain ⟨n, hnode, -, ho, -⟩ := exists_node h.front_lt
  have hi : i < (c.unlink i).size := by simpa using h.mem_lt (i := i) (by simp)
  rw [moveFront?, hnode, Option.bind_eq_bind, Option.bind_some, ho, Chain.moveFront]
  split
  · rfl
  · rw [h.unlink?_eq]
    exact h.unlink.linkFront?_eq hi

/-- A walk that looks up each node sees the nodes of a path, if it is given a step for each of them
and one for the end. -/
theorem Path.walk?_eq {fuel : Nat} {n : Node α} (h : c.Path (·.older) i hs j) (hj : j = back)
    (hback : back < c.size) (hn : c.node? i = some n) (hf : hs.length < fuel) :
    c.walk? fuel n.older = some hs := by
  induction h generalizing fuel n with
  | @last i j m hnode hlink =>
    obtain rfl := Option.some.inj (hnode.symm.trans hn)
    cases fuel with
    | zero => simp at hf
    | succ fuel =>
      obtain ⟨b, hb, -⟩ := exists_node hback
      rw [hlink, hj, walk?, hb, Option.bind_eq_bind, Option.bind_some, if_pos rfl]
      rfl
  | @step i k j m hs hnode hlink hon rest ih =>
    obtain rfl := Option.some.inj (hnode.symm.trans hn)
    cases fuel with
    | zero => simp at hf
    | succ fuel =>
      simp only [List.length_cons, Nat.add_lt_add_iff_right] at hf
      obtain ⟨b, hb⟩ : ∃ b, c.node? k = some b := by cases rest <;> exact ⟨_, ‹_›⟩
      rw [hlink, walk?, hb, Option.bind_eq_bind, Option.bind_some, if_neg (hj ▸ hon), ih hj hb hf]
      rfl

/-- Nodes that are looked up one after the other give the entries in them. -/
theorem lookUp_eq {β : Type} (h : ∀ i ∈ hs, i < c.size) (f : α → β) :
    ((hs.mapM c.node?).bind fun ns => some (ns.filterMap fun n => n.entry.map f)) =
      some (hs.filterMap fun i => (c.entryAt i).map f) := by
  induction hs with
  | nil => rfl
  | cons i hs ih =>
    obtain ⟨n, hnode, -, -, hentry⟩ := exists_node (h i List.mem_cons_self)
    have hrest := ih fun j hj => h j (List.mem_cons_of_mem i hj)
    rw [List.mapM_cons, hnode, List.filterMap_cons, ← hentry]
    cases hread : hs.mapM c.node? with
    | none =>
      rw [hread] at hrest
      contradiction
    | some ns =>
      rw [hread, Option.bind_some, Option.some_inj] at hrest
      simp only [Option.bind_eq_bind, Option.bind_some, Option.pure_def, List.filterMap_cons, hrest]

end Chain
end RowStore
