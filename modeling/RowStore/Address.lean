/-! Names of tables, pages and rows, and what a page is wanted for. -/
namespace RowStore

abbrev TableId := UInt32

/-- The number of a transaction; pages remember the last one that changed them. -/
abbrev TxnId := UInt32

/-- A page, by its table and its number in the table. -/
structure PageId where
  table : TableId
  page : UInt32
  deriving DecidableEq, Repr

/-- Pages are ordered by table, then by number. -/
instance : Ord PageId := ⟨compareLex (compareOn (·.table)) (compareOn (·.page))⟩

/-- A row, by its page and its slot in the page. -/
structure RecordId where
  pageId : PageId
  slot : UInt32
  deriving DecidableEq, Repr

/-- What a page is fetched for. It is passed on to whoever guards the pages. -/
inductive Permission where
  | readOnly
  | readWrite
  deriving DecidableEq, Repr

namespace PageId

def render (p : PageId) : String := s!"{p.table}:{p.page}"

def describe (p : PageId) : String :=
  "PageId \x7b table_id: " ++ toString p.table ++ ", page_no: " ++ toString p.page ++ " \x7d"

end PageId

namespace RecordId

def render (r : RecordId) : String := s!"({r.pageId.render}, slot {r.slot})"

def describe (r : RecordId) : String :=
  "RecordId \x7b page_id: " ++ r.pageId.describe ++ ", slot: " ++ toString r.slot ++ " \x7d"

end RecordId
end RowStore
