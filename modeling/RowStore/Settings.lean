/-! The settings of a store. -/
namespace RowStore

/-- The size of pages in bytes, and the number of pages that a pool holds. -/
structure Settings where
  pageSize : Nat := 4096
  cacheCapacity : Nat := 50
  deriving DecidableEq, Repr

namespace Settings

def standard : Settings := {}

def withPageSize (s : Settings) (n : Nat) : Settings := { s with pageSize := n }

def withCacheCapacity (s : Settings) (n : Nat) : Settings := { s with cacheCapacity := n }

end Settings
end RowStore
