import RowStore.Pool
import RowStore.Proofs.CatalogInvariant
import RowStore.Proofs.PageRoundTrip
import RowStore.Scan

/-! Tables without a cache, the reference for a pool over them: pages are read from the bytes of
their table, and a page that changes is written at once. -/
namespace RowStore

/-- What a user asks of tables whose pages may or may not be cached. -/
inductive Request where
  | get (txn : TxnId) (id : PageId) (permission : Permission)
  | insert (txn : TxnId) (table : TableId) (r : Row)
  | delete (txn : TxnId) (rid : Option RecordId)
  | scan (txn : TxnId) (table : TableId)
  | flushTxn (txn : TxnId)
  | flushAll

/-- What a request gives back: a page as it is then, the row to be stored as it is then and its
page, the rows of a scan and how it ended, or whether all was written back. -/
inductive Reply where
  | page (r : Except (Failure PoolError) Page)
  | stored (row : Row) (r : Except (Failure PoolError) Page)
  | rows (rs : List Row) (ending : Except (Failure PoolError) Unit)
  | done (r : Except (Failure PoolError) Unit)

/-- The length of each table's file, the bytes of each page, and the files of no table. -/
@[ext] structure TableStore where
  length : TableId → Nat
  bytes : PageId → Bytes
  elsewhere : Location → Option File

theorem ceilDiv_le_ceilDiv {m n : Nat} (h : m ≤ n) (size : Nat) :
    ceilDiv m size ≤ ceilDiv n size := Nat.div_le_div_right (Nat.add_le_add_right h _)

/-- A page that lies in a file whole is counted. -/
theorem TableFile.lt_pagesIn_of_whole {t : TableFile} {n : Nat} {number : UInt32}
    (hpos : 0 < t.pageSize) (hsmall : ceilDiv n t.pageSize < 2 ^ 32)
    (hwhole : (number.toNat + 1) * t.pageSize ≤ n) : number < t.pagesIn n := by
  rw [UInt32.lt_iff_toNat_lt, pagesIn, UInt32.toNat_ofNat_of_lt' hsmall]
  apply (Nat.le_div_iff_mul_le hpos).mpr
  exact hwhole.trans (Nat.le_add_right _ _)

/-- A file in which all pages that are counted lie whole ends with a page. -/
theorem TableFile.length_of_whole {t : TableFile} {n : Nat} (hpos : 0 < t.pageSize)
    (hsmall : ceilDiv n t.pageSize < 2 ^ 32)
    (h : ∀ i < (t.pagesIn n).toNat, ((0 + UInt32.ofNat i).toNat + 1) * t.pageSize ≤ n) :
    n = (t.pagesIn n).toNat * t.pageSize := by
  have hcount : (t.pagesIn n).toNat = ceilDiv n t.pageSize := UInt32.toNat_ofNat_of_lt' hsmall
  rw [hcount] at h ⊢
  have hover := Nat.lt_mul_div_succ (n + (t.pageSize - 1)) hpos
  change _ < t.pageSize * (ceilDiv n t.pageSize + 1) at hover
  generalize ceilDiv n t.pageSize = count at *
  rw [Nat.mul_succ, Nat.mul_comm] at hover
  cases count with
  | zero => omega
  | succ last =>
    have hwhole := h last (Nat.lt_succ_self last)
    have hlast : (0 + UInt32.ofNat last).toNat = last := by
      rw [UInt32.zero_add]
      exact UInt32.toNat_ofNat_of_lt' (Nat.lt_of_succ_lt hsmall)
    rw [hlast] at hwhole
    omega

namespace TableStore

/-- A page of a table; it has to lie in the file whole. -/
def read (s : TableStore) (t : TableFile) (id : PageId) : Except (Failure FileError) Page := do
  let stop ← orFault (checkedWord ((id.page.toNat + 1) * t.pageSize))
  if s.length t.id < stop then
    .error (.error (.outOfRange id (t.pagesIn (s.length t.id))))
  else (Page.decode id t.schema (s.bytes id)).mapError (Failure.map .page)

/-- The store with the bytes of a page in its place. -/
def setPage (s : TableStore) (p : Page) : TableStore :=
  { s with bytes := Function.update s.bytes p.id p.image }

/-- The store with a page behind the last one of its table. -/
def append (s : TableStore) (t : TableFile) (p : Page) : TableStore :=
  { s.setPage p with length := Function.update s.length t.id (s.length t.id + t.pageSize) }

/-- The first page with a free slot, of `count` pages from page `number` on. -/
def firstWithRoom (s : TableStore) (t : TableFile) :
    (count : Nat) → (number : UInt32) → Except (Failure FileError) (Option Page)
  | 0, _ => .ok none
  | count + 1, number => do
      let p ← s.read t ⟨t.id, number⟩
      if p.hasFree then return some p
      else s.firstWithRoom t count (number + 1)

/-- The empty page that comes behind the last one of a table, if the file can get so long. -/
def blank (s : TableStore) (t : TableFile) : Except (Failure FileError) Page := do
  let number := t.pagesIn (s.length t.id)
  let p ← orFault (Page.empty ⟨t.id, number⟩ t.schema t.pageSize)
  let offset ← orFault (checkedWord (number.toNat * t.pageSize))
  if File.maxOffset < offset then .error (.error (.disk .invalidOffset))
  else if File.maxOffset < offset + t.pageSize then .error (.error (.disk .tooLarge))
  else return p

/-- Stores a row in a page. -/
def insertInto (s : TableStore) (p : Page) (r : Row) :
    Except (Failure FileError) (Row × Page) × TableStore :=
  match p.insert r with
  | .error e => (.error (.error (.page e)), s)
  | .ok (rid, q) => (.ok (r.stamped rid, q), s.setPage q)

/-- Stores a row in the first free slot of a table, in a new page if there is none. -/
def insert (s : TableStore) (t : TableFile) (r : Row) :
    Except (Failure FileError) (Row × Page) × TableStore :=
  if t.schema.conforms r.values then
    match s.firstWithRoom t (t.pagesIn (s.length t.id)).toNat 0 with
    | .error e => (.error e, s)
    | .ok (some p) => s.insertInto p r
    | .ok none =>
        match s.blank t with
        | .error e => (.error e, s)
        | .ok p => (s.append t p).insertInto p r
  else (.error (.error (.page (.schemaMismatch t.id))), s)

/-- Frees the slot of a record id. -/
def delete (s : TableStore) (t : TableFile) (rid : RecordId) :
    Except (Failure FileError) Page × TableStore :=
  if rid.pageId.page < t.pagesIn (s.length t.id) then
    match s.read t rid.pageId with
    | .error e => (.error e, s)
    | .ok p =>
        match p.delete (some rid) with
        | .error e => (.error (.error (.page e)), s)
        | .ok q => (.ok q, s.setPage q)
  else (.error (.error (.page (.invalidDelete (some rid)))), s)

/-- The rows of `count` pages from page `number` on, and whether all pages could be read. -/
def rowsFrom (s : TableStore) (t : TableFile) :
    (count : Nat) → (number : UInt32) → List Row × Except (Failure FileError) Unit
  | 0, _ => ([], .ok ())
  | count + 1, number =>
      match s.read t ⟨t.id, number⟩ with
      | .error e => ([], .error e)
      | .ok p =>
          let (rows, ending) := s.rowsFrom t count (number + 1)
          (p.rows ++ rows, ending)

/-- The rows of a table in order. -/
def rows (s : TableStore) (t : TableFile) : List Row × Except (Failure FileError) Unit :=
  s.rowsFrom t (t.pagesIn (s.length t.id)).toNat 0

/-- The rows of a page of a table; a page past the end has none. -/
def pageRows (s : TableStore) (t : TableFile) (number : UInt32) :
    Except (Failure FileError) (List Row) :=
  if t.pagesIn (s.length t.id) ≤ number then .ok []
  else (s.read t ⟨t.id, number⟩).map Page.rows

/-- The page with an id, if it can be read. -/
def readable (s : TableStore) (t : TableFile) (id : PageId) : List PageId :=
  match s.read t id with
  | .error _ => []
  | .ok _ => [id]

/-- The page that is read for its rows, if there is one with this number. -/
def pageReads (s : TableStore) (t : TableFile) (number : UInt32) : List PageId :=
  if t.pagesIn (s.length t.id) ≤ number then [] else s.readable t ⟨t.id, number⟩

/-- Rows at hand of page `number`, and those of the pages behind it. -/
def rowsAfter (s : TableStore) (t : TableFile) (number : UInt32) (atHand : List Row) :
    List Row × Except (Failure FileError) Unit :=
  let rest := s.rowsFrom t ((t.pagesIn (s.length t.id)).toNat - (number.toNat + 1)) (number + 1)
  (atHand ++ rest.1, rest.2)

/-- The pages that are read one after the other, of `count` pages from page `number` on: up to the
first one that satisfies `stop`, or to where one cannot be read. -/
def reads (s : TableStore) (t : TableFile) (stop : Page → Bool) :
    (count : Nat) → (number : UInt32) → List PageId
  | 0, _ => []
  | count + 1, number =>
      match s.read t ⟨t.id, number⟩ with
      | .error _ => []
      | .ok p =>
          ⟨t.id, number⟩ :: if stop p then [] else s.reads t stop count (number + 1)

/-- The pages that are read behind page `number`. -/
def readsAfter (s : TableStore) (t : TableFile) (stop : Page → Bool) (number : UInt32) :
    List PageId :=
  s.reads t stop ((t.pagesIn (s.length t.id)).toNat - (number.toNat + 1)) (number + 1)

variable {s : TableStore} {t : TableFile} {id : PageId} {p : Page}

theorem toNat_succ {number : UInt32} (h : number.toNat + 1 < 2 ^ 32) :
    (number + 1).toNat = number.toNat + 1 := by
  rw [UInt32.toNat_add, Nat.mod_eq_of_lt (by simpa using h)]
  rfl

theorem ofNat_toNat_succ (number : UInt32) : UInt32.ofNat (number.toNat + 1) = number + 1 := by
  rw [UInt32.ofNat_add, UInt32.ofNat_toNat]
  rfl

/-- The pages from the next one on are those from this one on, but for the first. -/
theorem succ_add_ofNat (number : UInt32) (i : Nat) :
    number + 1 + UInt32.ofNat i = number + UInt32.ofNat (i + 1) := by
  rw [UInt32.ofNat_add, UInt32.add_comm (UInt32.ofNat i), ← UInt32.add_assoc]
  rfl

theorem readsAfter_last {number : UInt32} {stop : Page → Bool}
    (h : (t.pagesIn (s.length t.id)).toNat ≤ number.toNat + 1) :
    s.readsAfter t stop number = [] := by
  rw [readsAfter, Nat.sub_eq_zero_of_le h]
  rfl

/-- The pages behind a page are the next page and those behind it. -/
theorem readsAfter_next {number : UInt32} {stop : Page → Bool}
    (h : number.toNat + 1 < (t.pagesIn (s.length t.id)).toNat) :
    s.readsAfter t stop number = match s.read t ⟨t.id, number + 1⟩ with
      | .error _ => []
      | .ok p => ⟨t.id, number + 1⟩ :: if stop p then [] else s.readsAfter t stop (number + 1) := by
  have hnext : (number + 1).toNat = number.toNat + 1 :=
    toNat_succ (h.trans (t.pagesIn (s.length t.id)).toNat_lt)
  have hcount : (t.pagesIn (s.length t.id)).toNat - (number.toNat + 1) =
      (t.pagesIn (s.length t.id)).toNat - ((number + 1).toNat + 1) + 1 := by omega
  unfold readsAfter
  rw [hcount, reads]

theorem rowsAfter_last {number : UInt32}
    (h : (t.pagesIn (s.length t.id)).toNat ≤ number.toNat + 1) (rows : List Row) :
    s.rowsAfter t number rows = (rows, .ok ()) := by
  unfold rowsAfter
  rw [Nat.sub_eq_zero_of_le h]
  simp [rowsFrom]

/-- The rows behind a page are those of the next page and those behind it. -/
theorem rowsAfter_next {number : UInt32}
    (h : number.toNat + 1 < (t.pagesIn (s.length t.id)).toNat) :
    s.rowsAfter t number [] = match s.read t ⟨t.id, number + 1⟩ with
      | .error e => ([], .error e)
      | .ok p => s.rowsAfter t (number + 1) p.rows := by
  have hnext : (number + 1).toNat = number.toNat + 1 :=
    toNat_succ (h.trans (t.pagesIn (s.length t.id)).toNat_lt)
  have hcount : (t.pagesIn (s.length t.id)).toNat - (number.toNat + 1) =
      (t.pagesIn (s.length t.id)).toNat - ((number + 1).toNat + 1) + 1 := by omega
  unfold rowsAfter
  rw [hcount, rowsFrom]
  cases s.read t ⟨t.id, number + 1⟩ <;> rfl

/-- The rows of a table are those of its first page and those behind it. -/
theorem rows_eq (s : TableStore) (t : TableFile) : s.rows t = match s.pageRows t 0 with
    | .error e => ([], .error e)
    | .ok rows => s.rowsAfter t 0 rows := by
  unfold rows pageRows
  by_cases hend : t.pagesIn (s.length t.id) ≤ 0
  · have hzero : (t.pagesIn (s.length t.id)).toNat = 0 :=
      Nat.le_zero.mp (UInt32.le_iff_toNat_le.mp hend)
    rw [if_pos hend]
    dsimp only
    rw [rowsAfter_last (by omega), hzero]
    rfl
  · have hsucc : (t.pagesIn (s.length t.id)).toNat = (t.pagesIn (s.length t.id)).toNat - 1 + 1 := by
      rw [UInt32.le_iff_toNat_le] at hend
      exact (Nat.succ_pred_eq_of_pos (not_le.mp hend)).symm
    rw [if_neg hend, hsucc, rowsFrom]
    cases s.read t ⟨t.id, 0⟩ <;> rfl

/-- The pages of a table are its first page and those behind it. -/
theorem reads_eq (s : TableStore) (t : TableFile) (stop : Page → Bool) (hstop : ∀ p, stop p = false) :
    s.reads t stop (t.pagesIn (s.length t.id)).toNat 0 =
      s.pageReads t 0 ++ match s.pageRows t 0 with
        | .error _ => []
        | .ok _ => s.readsAfter t stop 0 := by
  unfold pageReads pageRows readable
  by_cases hend : t.pagesIn (s.length t.id) ≤ 0
  · have hzero : (t.pagesIn (s.length t.id)).toNat = 0 :=
      Nat.le_zero.mp (UInt32.le_iff_toNat_le.mp hend)
    rw [if_pos hend, if_pos hend]
    dsimp only
    rw [readsAfter_last (by omega), hzero]
    rfl
  · have hsucc : (t.pagesIn (s.length t.id)).toNat = (t.pagesIn (s.length t.id)).toNat - 1 + 1 := by
      rw [UInt32.le_iff_toNat_le] at hend
      exact (Nat.succ_pred_eq_of_pos (not_le.mp hend)).symm
    rw [if_neg hend, if_neg hend, hsucc, reads]
    cases s.read t ⟨t.id, 0⟩ with
    | error e => rfl
    | ok p =>
      simp only [hstop]
      rfl

/-- A page is read if it lies in the file whole, at offsets of 64 bits, and its bytes decode. -/
theorem read_eq_ok : s.read t id = .ok p ↔ (id.page.toNat + 1) * t.pageSize < wordLimit ∧
    (id.page.toNat + 1) * t.pageSize ≤ s.length t.id ∧
      Page.decode id t.schema (s.bytes id) = .ok p := by
  unfold read
  simp only [bind_eq_ok, orFault_eq_ok, checkedWord_eq_ok]
  constructor
  · rintro ⟨_, ⟨hword, rfl⟩, h⟩
    split at h
    · contradiction
    · next hwhole => exact ⟨hword, not_lt.mp hwhole, mapError_eq_ok.mp h⟩
  · rintro ⟨hword, hwhole, hdecode⟩
    exact ⟨_, ⟨hword, rfl⟩, by rw [if_neg (not_lt.mpr hwhole), hdecode, mapError_ok]⟩

theorem whole_of_read (h : s.read t id = .ok p) :
    (id.page.toNat + 1) * t.pageSize ≤ s.length t.id := (read_eq_ok.mp h).2.1

/-- A search that finds no room has read all its pages. -/
theorem read_of_firstWithRoom {count : Nat} {number : UInt32}
    (h : s.firstWithRoom t count number = .ok none) :
    ∀ i < count, ∃ p, s.read t ⟨t.id, number + UInt32.ofNat i⟩ = .ok p := by
  induction count generalizing number with
  | zero => intro i hi; omega
  | succ count ih =>
    obtain ⟨p, hp, h⟩ := bind_eq_ok.mp h
    split at h
    · cases Except.ok.inj h
    · intro i hi
      cases i with
      | zero => exact ⟨p, by simpa using hp⟩
      | succ i =>
        obtain ⟨q, hq⟩ := ih h i (by omega)
        exact ⟨q, succ_add_ofNat number i ▸ hq⟩

/-- A table all of whose pages can be read ends with a page. -/
theorem length_of_firstWithRoom (hpos : 0 < t.pageSize)
    (hsmall : ceilDiv (s.length t.id) t.pageSize < 2 ^ 32)
    (h : s.firstWithRoom t (t.pagesIn (s.length t.id)).toNat 0 = .ok none) :
    s.length t.id = (t.pagesIn (s.length t.id)).toNat * t.pageSize := by
  refine TableFile.length_of_whole hpos hsmall fun i hi => ?_
  obtain ⟨p, hp⟩ := read_of_firstWithRoom h i hi
  exact whole_of_read hp

theorem blank_eq_ok (h : s.blank t = .ok p) :
    Page.empty ⟨t.id, t.pagesIn (s.length t.id)⟩ t.schema t.pageSize = .ok p ∧
      (t.pagesIn (s.length t.id)).toNat * t.pageSize + t.pageSize ≤ File.maxOffset := by
  obtain ⟨q, hq, h⟩ := bind_eq_ok.mp h
  obtain ⟨offset, hoffset, h⟩ := bind_eq_ok.mp h
  obtain ⟨-, rfl⟩ := checkedWord_eq_ok.mp (orFault_eq_ok.mp hoffset)
  split at h
  · contradiction
  · split at h
    · contradiction
    · obtain rfl := Except.ok.inj h
      exact ⟨orFault_eq_ok.mp hq, by omega⟩

/-- An empty page comes behind the last one if the file can get so long. -/
theorem blank_of_room {l : Layout}
    (hl : Layout.make t.pageSize t.schema.width = .ok l)
    (hend : ((t.pagesIn (s.length t.id)).toNat + 1) * t.pageSize ≤ File.maxOffset) :
    ∃ p, s.blank t = .ok p := by
  have hmax : File.maxOffset < wordLimit := by decide
  rw [Nat.succ_mul] at hend
  have hoffset : checkedWord ((t.pagesIn (s.length t.id)).toNat * t.pageSize) = .ok _ :=
    checkedWord_of_lt (by omega)
  unfold TableStore.blank Page.empty
  simp only [hl, hoffset, ok_bind, orFault_ok, pure, Except.pure]
  rw [if_neg (by omega), if_neg (by omega)]
  exact ⟨_, rfl⟩

/-- A page behind the last one is refused if it would end where no file may end. -/
theorem blank_of_no_room {l : Layout} (hl : Layout.make t.pageSize t.schema.width = .ok l)
    (hbegin : (t.pagesIn (s.length t.id)).toNat * t.pageSize ≤ File.maxOffset)
    (hend : File.maxOffset < ((t.pagesIn (s.length t.id)).toNat + 1) * t.pageSize) :
    s.blank t = .error (.error (.disk .tooLarge)) := by
  have hmax : File.maxOffset < wordLimit := by decide
  rw [Nat.succ_mul] at hend
  have hoffset : checkedWord ((t.pagesIn (s.length t.id)).toNat * t.pageSize) = .ok _ :=
    checkedWord_of_lt (by omega)
  unfold TableStore.blank Page.empty
  simp only [hl, hoffset, ok_bind, orFault_ok, pure, Except.pure]
  rw [if_neg (by omega), if_pos (by omega)]

/-- The page behind the last one is the one that was put there. -/
theorem read_append (hblank : s.blank t = .ok p)
    (hlast : s.length t.id = (t.pagesIn (s.length t.id)).toNat * t.pageSize) :
    (s.append t p).read t ⟨t.id, t.pagesIn (s.length t.id)⟩ = .ok p := by
  obtain ⟨hempty, hend⟩ := blank_eq_ok hblank
  obtain ⟨l, -, hp⟩ := Page.empty_eq_ok hempty
  have hid : p.id = ⟨t.id, t.pagesIn (s.length t.id)⟩ := by rw [hp]
  have hclean : p.dirtiedBy = none := by rw [hp]
  have hbelongs := Page.belongs_of_made (.inl hempty)
  have hlength : (s.append t p).length t.id =
      ((t.pagesIn (s.length t.id)).toNat + 1) * t.pageSize := by
    simp only [append, Function.update_self]
    rw [Nat.succ_mul, ← hlast]
  have hbytes : (s.append t p).bytes ⟨t.id, t.pagesIn (s.length t.id)⟩ = p.image := by
    simp only [append, setPage, hid, Function.update_self]
  refine read_eq_ok.mpr ⟨?_, hlength.ge, ?_⟩
  · rw [← Nat.succ_mul] at hend
    exact hend.trans_lt (by decide)
  · rw [hbytes, hbelongs.encode_decode.2.2, Page.mark_of_clean hclean]

/-- A search that ends with a page has read it, and the page has room. -/
theorem read_of_firstWithRoom_some {count : Nat} {number : UInt32}
    (h : s.firstWithRoom t count number = .ok (some p)) :
    ∃ number, s.read t ⟨t.id, number⟩ = .ok p ∧ p.hasFree := by
  induction count generalizing number with
  | zero => cases Except.ok.inj h
  | succ count ih =>
    obtain ⟨q, hq, h⟩ := bind_eq_ok.mp h
    split at h
    · next hfree =>
      obtain rfl := Option.some.inj (Except.ok.inj h)
      exact ⟨number, hq, hfree⟩
    · exact ih h

/-- A search fails if one of its pages cannot be read. -/
theorem error_of_firstWithRoom {count : Nat} {number : UInt32} {e : Failure FileError}
    (h : s.firstWithRoom t count number = .error e) :
    ∃ i < count, s.read t ⟨t.id, number + UInt32.ofNat i⟩ = .error e := by
  induction count generalizing number with
  | zero => contradiction
  | succ count ih =>
    unfold firstWithRoom at h
    cases hread : s.read t ⟨t.id, number⟩ with
    | error e' =>
      rw [hread] at h
      refine ⟨0, count.succ_pos, ?_⟩
      rw [← Except.error.inj h]
      simpa using hread
    | ok p =>
      rw [hread, ok_bind] at h
      split at h
      · contradiction
      · obtain ⟨i, hi, he⟩ := ih h
        exact ⟨i + 1, Nat.succ_lt_succ hi, succ_add_ofNat number i ▸ he⟩

theorem insertInto_cases (s : TableStore) (p : Page) (r : Row) :
    (∃ e, s.insertInto p r = (.error e, s)) ∨ ∃ rid q, p.insert r = .ok (rid, q) ∧
      s.insertInto p r = (.ok (r.stamped rid, q), s.setPage q) := by
  unfold insertInto
  cases p.insert r with
  | error e => exact .inl ⟨_, rfl⟩
  | ok stored => exact .inr ⟨stored.1, stored.2, rfl, rfl⟩

/-- All that storing a row can do: nothing, to change a page that was read, or to add an empty
page, which then is changed if it can be. -/
theorem insert_cases (s : TableStore) (t : TableFile) (r : Row) :
    (∃ e, s.insert t r = (.error e, s)) ∨
    (∃ number p rid q, s.read t ⟨t.id, number⟩ = .ok p ∧ p.insert r = .ok (rid, q) ∧
      s.insert t r = (.ok (r.stamped rid, q), s.setPage q)) ∨
    ∃ p, s.firstWithRoom t (t.pagesIn (s.length t.id)).toNat 0 = .ok none ∧ s.blank t = .ok p ∧
      ((∃ e, s.insert t r = (.error e, s.append t p)) ∨
        ∃ rid q, p.insert r = .ok (rid, q) ∧
          s.insert t r = (.ok (r.stamped rid, q), (s.append t p).setPage q)) := by
  unfold insert
  by_cases hconf : t.schema.conforms r.values
  · rw [if_pos hconf]
    rcases hfirst : s.firstWithRoom t (t.pagesIn (s.length t.id)).toNat 0 with e | _ | p
    · exact .inl ⟨e, rfl⟩
    · cases hblank : s.blank t with
      | error e => exact .inl ⟨e, rfl⟩
      | ok p => exact .inr (.inr ⟨p, rfl, rfl, insertInto_cases _ p r⟩)
    · obtain ⟨number, hread, -⟩ := read_of_firstWithRoom_some hfirst
      rcases insertInto_cases s p r with ⟨e, h⟩ | ⟨rid, q, hins, h⟩
      · exact .inl ⟨e, h⟩
      · exact .inr (.inl ⟨number, p, rid, q, hread, hins, h⟩)
  · rw [if_neg hconf]
    exact .inl ⟨_, rfl⟩

theorem delete_cases (s : TableStore) (t : TableFile) (rid : RecordId) :
    (∃ e, s.delete t rid = (.error e, s)) ∨ ∃ p q, s.read t rid.pageId = .ok p ∧
      p.delete (some rid) = .ok q ∧ s.delete t rid = (.ok q, s.setPage q) := by
  unfold delete
  by_cases hlt : rid.pageId.page < t.pagesIn (s.length t.id)
  · rw [if_pos hlt]
    cases hread : s.read t rid.pageId with
    | error e => exact .inl ⟨e, rfl⟩
    | ok p =>
      dsimp only
      cases hdel : p.delete (some rid) with
      | error e => exact .inl ⟨_, rfl⟩
      | ok q => exact .inr ⟨p, q, rfl, hdel, rfl⟩
  · rw [if_neg hlt]
    exact .inl ⟨_, rfl⟩

/-- The reply to a row to be stored: on an error the row is as it was. -/
def storedReply (r : Row) : Except (Failure FileError) (Row × Page) → Reply
  | .error e => .stored r (.error (e.map .file))
  | .ok (row, p) => .stored row (.ok p)

/-- The reply to a request, and the store after it. -/
def perform (tables : Catalog) (s : TableStore) : Request → Reply × TableStore
  | .get _ id _ =>
      match tables.table? id.table with
      | none => (.page (.error (.error (.access (.unknownTable id.table)))), s)
      | some t => (.page ((s.read t id).mapError (Failure.map .file)), s)
  | .insert _ id r =>
      match tables.table? id with
      | none => (.stored r (.error (.error (.access (.unknownTable id)))), s)
      | some t =>
          let out := s.insert t r
          (storedReply r out.1, out.2)
  | .delete _ none => (.page (.error (.error (.file (.page (.invalidDelete none))))), s)
  | .delete _ (some rid) =>
      match tables.table? rid.pageId.table with
      | none => (.page (.error (.error (.access (.unknownTable rid.pageId.table)))), s)
      | some t =>
          let out := s.delete t rid
          (.page (out.1.mapError (Failure.map .file)), out.2)
  | .scan _ id =>
      match tables.table? id with
      | none => (.rows [] (.error (.error (.access (.unknownTable id)))), s)
      | some t => (.rows (s.rows t).1 ((s.rows t).2.mapError (Failure.map .file)), s)
  | .flushTxn _ => (.done (.ok ()), s)
  | .flushAll => (.done (.ok ()), s)

/-- The replies to requests made one after the other. -/
def replies (tables : Catalog) (s : TableStore) : List Request → List Reply
  | [] => []
  | q :: qs => (s.perform tables q).1 :: (s.perform tables q).2.replies tables qs

/-- The store after requests made one after the other. -/
def after (tables : Catalog) (s : TableStore) (qs : List Request) : TableStore :=
  qs.foldl (fun s q => (s.perform tables q).2) s

end TableStore
end RowStore
