import RowStore.Proofs.TableSessions

/-! The two commands that only read: one counts the taken slots of each page, page by page from the
file, and one prints all rows as a scan gives them through the pool. On every file they tell of the
same rows, or fail for the same reason. -/
namespace RowStore

namespace Page
variable {p : Page}

end Page

namespace TableFile
variable {t : TableFile} {d : Disk} {pages : List Page} {ending : Except (Failure FileError) Unit}

/-- Pages from `number` on, up to the first one that cannot be read. -/
structure ReadsUpTo (t : TableFile) (d : Disk) (count : Nat) (number : UInt32) (pages : List Page)
    (ending : Except (Failure FileError) Unit) : Prop where
  read : ∀ (i : Nat) p, pages[i]? = some p → t.readPage d ⟨t.id, number + UInt32.ofNat i⟩ = .ok p
  whole : ending = .ok () → pages.length = count
  stopped : ∀ e, ending = .error e → pages.length < count ∧
    t.readPage d ⟨t.id, number + UInt32.ofNat pages.length⟩ = .error e

theorem ReadsUpTo.belongs {count : Nat} {number : UInt32}
    (h : t.ReadsUpTo d count number pages ending) {i : Nat} {p : Page} (hp : pages[i]? = some p) :
    p.Belongs ⟨t.id, number + UInt32.ofNat i⟩ t.schema t.pageSize :=
  (Pool.housed_of_readPage rfl (h.read i p hp)).1.belongs

end TableFile

namespace Pool
variable {t : TableFile} {d : Disk} {cache : PageCache} {capacity : Nat}

end Pool

namespace CommandLine
variable {base : Location} {d d₁ : Disk} {i j : Invocation} {t : TableFile}
  {cache cache' : PageCache} {arguments arguments' : List String}

section Pages
variable {count : Nat} {pages : List Page} {ending : Except (Failure FileError) Unit}
  (hread : t.ReadsUpTo d count 0 pages ending)
include hread

end Pages

end CommandLine
end RowStore
