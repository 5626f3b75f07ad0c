import RowStore.Fault
import RowStore.RecencyCache.Chain
import Std.Data.TreeMap

/-! A bounded cache that keeps its entries in the order of their last use. It never drops an entry
by itself: its owner removes the least recently used one to make room. -/
namespace RowStore

inductive CacheError where
  | full (capacity : Nat)
  | zeroCapacity
  deriving DecidableEq, Repr

def CacheError.message : CacheError → String
  | .full capacity => s!"Cache is full ({capacity} entries); evict before inserting"
  | .zeroCapacity => "Cache capacity must be at least 1"

/-- The index finds the node of a key. Nodes of removed entries wait in `free`. -/
structure RecencyCache (κ α : Type) [Ord κ] where
  capacity : Nat
  index : Std.TreeMap κ Nat
  chain : Chain (κ × α)
  free : List Nat

namespace RecencyCache
variable {κ α : Type} [Ord κ]

/-- The number of bytes that one allocation can have. -/
def addressable : Nat := 0x7FFFFFFFFFFFFFFF

/-- The cache without entries. Room for all its nodes, two links and an entry of `entrySize` bytes
each, is reserved at once. -/
def create (entrySize capacity : Nat) : Except (Failure CacheError) (RecencyCache κ α) :=
  if capacity = 0 then .error (.error .zeroCapacity)
  else if addressable < (capacity + 2) * (16 + entrySize) then .error (.fault .unaddressable)
  else .ok ⟨capacity, ∅, Chain.empty, []⟩

def length (c : RecencyCache κ α) : Nat := c.index.size

def isEmpty (c : RecencyCache κ α) : Bool := c.length == 0

/-- Whether a new key finds no room. -/
def isFull (c : RecencyCache κ α) : Bool := decide (c.capacity ≤ c.length)

def contains (c : RecencyCache κ α) (k : κ) : Bool := c.index.contains k

def valueAt (c : RecencyCache κ α) (i : Nat) : Option α := (c.chain.entryAt i).map (·.2)

/-- The value of a key; the order of use stays. -/
def peek (c : RecencyCache κ α) (k : κ) : Option α := c.index[k]?.bind c.valueAt

/-- The value of a key, which becomes the most recently used one. -/
def get (c : RecencyCache κ α) (k : κ) : Option α × RecencyCache κ α :=
  match c.index[k]? with
  | none => (none, c)
  | some i => (c.valueAt i, { c with chain := c.chain.moveFront i })

/-- Stores an entry in a node that waits, or in a new one, and makes it the newest. -/
def link (c : RecencyCache κ α) (k : κ) (v : α) : RecencyCache κ α :=
  let node : Node (κ × α) := ⟨some (k, v), Chain.front, Chain.front⟩
  match c.free with
  | i :: free =>
      { c with
        index := c.index.insert k i
        chain := Chain.linkFront (c.chain.setIfInBounds i node) i
        free }
  | [] =>
      { c with
        index := c.index.insert k c.chain.size
        chain := Chain.linkFront (c.chain.push node) c.chain.size }

/-- Gives a key a value and makes it the most recently used one. The answer has the value that it
had before. A new key needs room. -/
def put (c : RecencyCache κ α) (k : κ) (v : α) :
    Except CacheError (Option α × RecencyCache κ α) :=
  match c.index[k]? with
  | some i =>
      .ok (c.valueAt i, { c with chain := (c.chain.setEntry i (some (k, v))).moveFront i })
  | none => if c.isFull then .error (.full c.capacity) else .ok (none, c.link k v)

/-- Removes a key; the answer has the value that it had. -/
def remove (c : RecencyCache κ α) (k : κ) : Option α × RecencyCache κ α :=
  match c.index[k]? with
  | none => (none, c)
  | some i =>
      (c.valueAt i, { c with
        index := c.index.erase k
        chain := (c.chain.unlink i).setEntry i none
        free := i :: c.free })

/-- The least recently used key. -/
def candidate (c : RecencyCache κ α) : Option κ :=
  let i := c.chain.newerOf Chain.back
  if i = Chain.front then none else (c.chain.entryAt i).map (·.1)

/-- The values in the order of their nodes, which has no meaning. -/
def values (c : RecencyCache κ α) : List α :=
  c.chain.toList.filterMap fun n => n.entry.map (·.2)

/-- The keys, the most recently used first. -/
def keysByRecency (c : RecencyCache κ α) : List κ :=
  c.chain.handles.filterMap fun i => (c.chain.entryAt i).map (·.1)

end RecencyCache
end RowStore
