import RowStore.Proofs.PoolSimulation
import RowStore.Proofs.TableRequests

/-! How tables grow: a row that finds no free slot gets a new page. The page comes behind the last
one as long as 32 bits can count the pages of the file. In a longer file the count starts over, and
the new page takes the place of one that is there. -/
namespace RowStore

namespace TableFile
variable {σ : Type} {t : TableFile} {source : PageSource σ} {w w₁ : World σ} {d d' : Disk}
  {txn : TxnId} {r : Row} {number : UInt32} {n : Nat}

/-- Writes an empty page under a number. -/
def putBlank (t : TableFile) (d : Disk) (number : UInt32) : Except (Failure FileError) Disk := do
  let p ← orFault (Page.empty ⟨t.id, number⟩ t.schema t.pageSize)
  t.writePage d p

/-- Storing a row extends the table: the search leaves no page with a free slot, and then an empty
page is written under the number of pages. -/
structure Extends (t : TableFile) (source : PageSource σ) (txn : TxnId) (r : Row)
    (w w₁ : World σ) (d : Disk) : Prop where
  conforms : t.schema.conforms r.values
  searched : (t.insertFrom source txn r (t.pageCount w.disk).toNat 0).outcome w = (.ok none, w₁)
  written : t.putBlank w₁.disk (t.pageCount w.disk) = .ok d

/-- A file that grows at its end: it is longer by a page, which is empty, and the bytes that were
there are as they were. -/
structure GrowsAtEnd (t : TableFile) (d d' : Disk) : Prop where
  length : (d'.fileAt t.location).length = (d.fileAt t.location).length + t.pageSize
  kept : ∀ i < (d.fileAt t.location).length,
    (d'.fileAt t.location).byteAt i = (d.fileAt t.location).byteAt i
  blank : ∃ number p, Page.empty ⟨t.id, number⟩ t.schema t.pageSize = .ok p ∧
    (d'.fileAt t.location).read (d.fileAt t.location).length t.pageSize = p.image

/-- What is left to do after a table was extended: the row goes into the new page. -/
theorem Extends.outcome_insert (h : t.Extends source txn r w w₁ d) :
    (t.insert source txn r).outcome w =
      (source txn ⟨t.id, t.pageCount w.disk⟩ .readWrite >>= fun h => insertInto h txn r).outcome
        { w₁ with disk := d } := by
  have hwritten : (do
      let p ← orFault (Page.empty ⟨t.id, t.pageCount w.disk⟩ t.schema t.pageSize)
      t.writePage w₁.disk p) = .ok d := h.written
  unfold insert
  simp only [if_pos h.conforms, Action.outcome_bind, Action.outcome_get, h.searched, insertAppended,
    Action.outcome_lift, hwritten, Action.outcome_set]

/-- A search that stores no row, be it for an error or for want of room, has only asked for pages. -/
theorem preserves_unstored {P : World σ → Prop}
    (hP : ∀ txn id permission, Action.Preserves P (source txn id permission)) {count : Nat}
    {res : Except (Failure FileError) (Option Stored)} (hw : P w)
    (h : (t.insertFrom source txn r count number).outcome w = (res, w₁))
    (hres : ∀ stored, res ≠ .ok (some stored)) : P w₁ := by
  have hsettles := settles_insertFrom hP hw t txn r count number
  rw [h] at hsettles
  rcases res with e | _ | stored
  · exact hsettles
  · exact hsettles
  · exact absurd rfl (hres stored)

/-- A search that finds no room has only asked for pages. -/
theorem preserves_search {P : World σ → Prop}
    (hP : ∀ txn id permission, Action.Preserves P (source txn id permission)) {count : Nat}
    (hw : P w) (h : (t.insertFrom source txn r count number).outcome w = (.ok none, w₁)) :
    P w₁ := preserves_unstored hP hw h nofun

/-- The number of pages is counted in 32 bits. -/
theorem toNat_pagesIn_mul (hpos : 0 < t.pageSize) (n : Nat) :
    (t.pagesIn (n * t.pageSize)).toNat = n % 2 ^ 32 := by
  have hceil : ceilDiv (n * t.pageSize) t.pageSize = n := by
    unfold ceilDiv
    rw [Nat.add_comm, Nat.add_mul_div_right _ _ hpos, Nat.div_eq_of_lt (by omega), Nat.zero_add]
  rw [pagesIn, hceil]
  exact UInt32.toNat_ofNat' ..

theorem putBlank_eq_ok (hpos : 0 < t.pageSize) (h : t.putBlank d number = .ok d') :
    ∃ p, Page.empty ⟨t.id, number⟩ t.schema t.pageSize = .ok p ∧
      p.image.length = t.pageSize ∧ d' = t.putBytes d number p.image := by
  obtain ⟨p, hp, h⟩ := bind_eq_ok.mp h
  have hempty := orFault_eq_ok.mp hp
  have hbelongs := Page.belongs_of_made (.inl hempty)
  exact ⟨p, hempty, hbelongs.encode_decode.2.1, (putBytes_of_writePage hbelongs hpos rfl h).1⟩

/-- An empty page whose number is that of the pages there are makes the file grow at its end. -/
theorem growsAtEnd_of_last (hloc : t.location ≠ []) (hpos : 0 < t.pageSize)
    (hlength : (d.fileAt t.location).length = number.toNat * t.pageSize)
    (h : t.putBlank d number = .ok d') : t.GrowsAtEnd d d' := by
  obtain ⟨p, hempty, himage, rfl⟩ := putBlank_eq_ok hpos h
  refine ⟨?_, ?_, number, p, hempty, ?_⟩
  · rw [length_putBytes hloc hpos himage, hlength]
    omega
  · intro i hi
    rw [putBytes, Disk.fileAt_setFile_self d hloc, File.byteAt_write, if_neg (by omega)]
  · rw [hlength]
    exact pageBytes_putBytes_self hloc himage

/-- An empty page with the number of one that is there leaves the file as long as it was. -/
theorem length_of_put_within (hloc : t.location ≠ []) (hpos : 0 < t.pageSize)
    (hwithin : (number.toNat + 1) * t.pageSize ≤ (d.fileAt t.location).length)
    (h : t.putBlank d number = .ok d') :
    (d'.fileAt t.location).length = (d.fileAt t.location).length := by
  obtain ⟨p, -, himage, rfl⟩ := putBlank_eq_ok hpos h
  rw [Nat.succ_mul] at hwithin
  rw [length_putBytes hloc hpos himage]
  exact max_eq_left hwithin

end TableFile

namespace TableFile
variable {σ : Type} {t : TableFile} {source : PageSource σ} {w : World σ} {id : TableId}
  {pageSize n : Nat} {P : World σ → Prop}

/-- In a file of `n` whole pages the number of pages is right, and a table that is extended grows at
its end, just if 32 bits can count the pages. This holds whatever hands out the pages, as long as
it leaves the file as long as it is. -/
theorem growsAtEnd_iff_counted (ht : t.Opened id pageSize)
    (hP : ∀ txn id permission, Action.Preserves P (source txn id permission)) (hw : P w)
    (hlength : ∀ w, P w → (w.disk.fileAt t.location).length = n * t.pageSize) :
    ((t.pageCount w.disk).toNat = n ↔ n < 2 ^ 32) ∧
      ∀ txn r w₁ d, t.Extends source txn r w w₁ d → (t.GrowsAtEnd w₁.disk d ↔ n < 2 ^ 32) := by
  have hpos := ht.size_pos
  have hcount : (t.pageCount w.disk).toNat = n % 2 ^ 32 := by
    rw [pageCount, hlength w hw, toNat_pagesIn_mul hpos]
  constructor
  · rw [hcount]
    omega
  · intro txn r w₁ d hextends
    have hlength₁ := hlength w₁ (preserves_search hP hw hextends.searched)
    constructor
    · intro hgrows
      by_contra hlong
      have hwithin : ((t.pageCount w.disk).toNat + 1) * t.pageSize ≤
          (w₁.disk.fileAt t.location).length := by
        rw [hlength₁, hcount]
        exact Nat.mul_le_mul_right _ (by omega)
      have hsame := length_of_put_within ht.location_ne hpos hwithin hextends.written
      have hlonger := hgrows.length
      omega
    · intro hsmall
      refine growsAtEnd_of_last ht.location_ne hpos ?_ hextends.written
      rw [hlength₁, hcount, Nat.mod_eq_of_lt hsmall]

/-- A file of one page, with a row. -/
def oneRow : Disk := numbers.putBytes {} 0 [1, 5, 0, 0, 0, 0, 0, 0, 0]

/-- The file once the last page is written that has a number. -/
def allPages : Disk := numbers.putBytes oneRow 0xFFFFFFFF (Bytes.zeros 9)

theorem growsAtEnd_iff_counted_oneRow : ∃ c, Pool.create 1 = .ok c ∧
    (numbers.pageCount oneRow).toNat = 1 ∧
      ∃ w₁ d, numbers.Extends (Pool.source .pair) 7 ⟨[.integer 6], none⟩ (Pool.fresh oneRow c) w₁ d ∧
        numbers.GrowsAtEnd w₁.disk d := by
  have hc : Pool.create 1 = .ok (Pool.roomFor 1) := rfl
  have hw : Pool.Keeps .pair (Pool.store .pair (Pool.fresh oneRow (Pool.roomFor 1)))
      (Pool.fresh oneRow (Pool.roomFor 1)) := ⟨Pool.coherent_fresh hc oneRow, rfl⟩
  obtain ⟨w₁, d, hextends⟩ : ∃ w₁ d, numbers.Extends (Pool.source .pair) 7
      ⟨[.integer 6], none⟩ (Pool.fresh oneRow (Pool.roomFor 1)) w₁ d :=
    ⟨_, _, rfl, rfl, rfl⟩
  obtain ⟨hcount, hgrows⟩ := growsAtEnd_iff_counted (n := 1) opened_numbers
    (Pool.preserves_source Catalog.backed_pair) hw fun w hw =>
      (hw.length_eq Catalog.backed_pair Catalog.table?_numbers).symm
  exact ⟨_, hc, hcount.mpr (by decide), w₁, d, hextends,
    (hgrows _ _ _ _ hextends).mpr (by decide)⟩

/-- Once the last page that has a number is written, no page is counted. The table is extended by
its first page, and the row there is lost. -/
theorem erases_first_page : ∃ c, Pool.create 1 = .ok c ∧
    numbers.putBlank oneRow 0xFFFFFFFF = .ok allPages ∧
    (allPages.fileAt ["a"]).length = 2 ^ 32 * numbers.pageSize ∧ numbers.pageCount allPages = 0 ∧
      ∃ w₁ d, numbers.Extends (Pool.source .pair) 7 ⟨[.integer 6], none⟩
          (Pool.fresh allPages c) w₁ d ∧
        (d.fileAt ["a"]).length = (w₁.disk.fileAt ["a"]).length ∧
        (w₁.disk.fileAt ["a"]).read 0 9 = [1, 5, 0, 0, 0, 0, 0, 0, 0] ∧
        (d.fileAt ["a"]).read 0 9 = Bytes.zeros 9 := by
  have hc : Pool.create 1 = .ok (Pool.roomFor 1) := rfl
  refine ⟨_, hc, rfl, by decide, rfl, _, _, ⟨rfl, rfl, rfl⟩, ?_, ?_, ?_⟩
  · decide
  · decide
  · decide

end TableFile
end RowStore
