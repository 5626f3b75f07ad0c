/-! A doubly linked chain in an array: nodes are named by their indices, and two of them that hold
nothing mark the ends. -/
namespace RowStore

/-- A node of a chain, between the next newer and the next older one. -/
structure Node (α : Type) where
  entry : Option α
  newer : Nat
  older : Nat

/-- The nodes of a chain, and those that wait to be used again. -/
abbrev Chain (α : Type) := Array (Node α)

namespace Chain
variable {α : Type}

/-- The node in front of the newest entry. -/
def front : Nat := 0

/-- The node behind the oldest entry. -/
def back : Nat := 1

/-- The chain without entries. -/
def empty : Chain α := #[⟨none, front, back⟩, ⟨none, front, back⟩]

def newerOf (nodes : Chain α) (i : Nat) : Nat := (nodes[i]?.map (·.newer)).getD front

def olderOf (nodes : Chain α) (i : Nat) : Nat := (nodes[i]?.map (·.older)).getD back

def entryAt (nodes : Chain α) (i : Nat) : Option α := nodes[i]?.bind (·.entry)

def setNewer (c : Chain α) (i j : Nat) : Chain α := c.modify i ({ · with newer := j })

def setOlder (c : Chain α) (i j : Nat) : Chain α := c.modify i ({ · with older := j })

def setEntry (c : Chain α) (i : Nat) (e : Option α) : Chain α := c.modify i ({ · with entry := e })

/-- Joins the two neighbours of a node. -/
def unlink (c : Chain α) (i : Nat) : Chain α :=
  (c.setOlder (c.newerOf i) (c.olderOf i)).setNewer (c.olderOf i) (c.newerOf i)

/-- Makes a node the newest one. -/
def linkFront (c : Chain α) (i : Nat) : Chain α :=
  let first := c.olderOf front
  (((c.setNewer i front).setOlder i first).setNewer first i).setOlder front i

/-- Makes a node of the chain the newest one. -/
def moveFront (c : Chain α) (i : Nat) : Chain α :=
  if c.olderOf front = i then c else (c.unlink i).linkFront i

/-- The nodes from `i` on towards the older end, at most `fuel` many. -/
def walk (c : Chain α) : (fuel : Nat) → (i : Nat) → List Nat
  | 0, _ => []
  | fuel + 1, i => if i = back then [] else i :: c.walk fuel (c.olderOf i)

/-- The nodes of the chain, the newest first. -/
def handles (c : Chain α) : List Nat := c.walk c.size (c.olderOf front)

end Chain
end RowStore
