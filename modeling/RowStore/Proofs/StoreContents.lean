import RowStore.Proofs.PoolTables

/-! What is on the pages of a table store, and what storing and deleting a row changes of it. -/
namespace RowStore

/-- The pages that there are, each with what it decodes to. -/
abbrev Contents := PageId → Option (Except (Failure PageError) Page)

namespace Contents

/-- The row at a record id. -/
def row? (c : Contents) (rid : RecordId) : Option Row :=
  match c rid.pageId with
  | some (.ok p) => p.row? rid.slot.toNat
  | _ => none

/-- The rows of `count` pages of a table from page `number` on, up to the first page that cannot be
read, and whether all pages can. -/
def rowsFrom (c : Contents) (k : TableId) : (count : Nat) → (number : UInt32) → List Row × Bool
  | 0, _ => ([], true)
  | count + 1, number =>
      match c ⟨k, number⟩ with
      | some (.ok p) =>
          let (rows, all) := c.rowsFrom k count (number + 1)
          (p.rows ++ rows, all)
      | _ => ([], false)

/-- One row is new, in a free place; all other rows and all other pages are as they were. -/
structure Adds (c c' : Contents) (rid : RecordId) (r : Row) : Prop where
  free : c.row? rid = none
  rows : ∀ rid', c'.row? rid' = if rid' = rid then some r else c.row? rid'
  pages : ∀ id, id ≠ rid.pageId → c' id = c id

/-- One row is gone; all other rows and all other pages are as they were. -/
structure Removes (c c' : Contents) (rid : RecordId) : Prop where
  taken : (c.row? rid).isSome
  rows : ∀ rid', c'.row? rid' = if rid' = rid then none else c.row? rid'
  pages : ∀ id, id ≠ rid.pageId → c' id = c id

/-- All rows and all pages are as they were; an empty page may be new. -/
structure Spares (c c' : Contents) : Prop where
  rows : ∀ rid, c'.row? rid = c.row? rid
  pages : ∀ id, c id ≠ none → c' id = c id

variable {c c₁ c' : Contents} {rid : RecordId} {r : Row} {p q : Page}

theorem Spares.refl (c : Contents) : Spares c c := ⟨fun _ => rfl, fun _ _ => rfl⟩

theorem row?_of_page {id : PageId} (h : c id = some (.ok p)) (slot : UInt32) :
    c.row? ⟨id, slot⟩ = p.row? slot.toNat := by
  simp only [row?, h]

/-- One more page, of a table whose pages so far can all be read. -/
theorem rowsFrom_concat {k : TableId} {count : Nat} {number : UInt32} {rows : List Row}
    (h : c.rowsFrom k count number = (rows, true))
    (hpage : c ⟨k, number + UInt32.ofNat count⟩ = some (.ok p)) :
    c.rowsFrom k (count + 1) number = (rows ++ p.rows, true) := by
  induction count generalizing number rows with
  | zero =>
    obtain ⟨rfl, -⟩ := Prod.mk.inj h
    have hpage : c ⟨k, number⟩ = some (.ok p) := by simpa using hpage
    simp [rowsFrom, hpage]
  | succ count ih =>
    rw [rowsFrom] at h ⊢
    split at h
    · next q hq =>
      obtain ⟨rfl, hall⟩ := Prod.mk.inj h
      have hrest := ih (Prod.ext rfl hall) (TableStore.succ_add_ofNat number count ▸ hpage)
      simp only [hrest, List.append_assoc]
    · simp at h

/-- With one slot of a page one row changes. -/
theorem rows_of_change {id : PageId} {slot : UInt32} {x : Option Row} (hold : c id = some (.ok p))
    (hnew : ∀ id', c' id' = if id' = id then some (.ok q) else c id')
    (hslots : ∀ i, q.row? i = if slot.toNat = i then x else p.row? i) (rid : RecordId) :
    c'.row? rid = if rid = ⟨id, slot⟩ then x else c.row? rid := by
  obtain ⟨id', slot'⟩ := rid
  by_cases hid : id' = id
  · subst hid
    rw [row?_of_page ((hnew id').trans (if_pos rfl)), row?_of_page hold, hslots]
    by_cases hslot : slot = slot'
    · rw [if_pos (congrArg UInt32.toNat hslot), if_pos (by rw [hslot])]
    · rw [if_neg fun heq => hslot (UInt32.toNat_inj.mp heq),
        if_neg fun heq => hslot (congrArg RecordId.slot heq).symm]
  · rw [if_neg fun heq => hid (congrArg RecordId.pageId heq)]
    simp only [row?, hnew, if_neg hid]

/-- A page of its own is new and empty before a row is stored in it. -/
theorem Adds.of_spares (h : Adds c₁ c' rid r) (hs : Spares c c₁)
    (hp : ∀ id, id ≠ rid.pageId → c₁ id = c id) : Adds c c' rid r where
  free := (hs.rows rid).symm.trans h.free
  rows rid' := by rw [h.rows, hs.rows]
  pages id hid := (h.pages id hid).trans (hp id hid)

end Contents

namespace TableStore

/-- The contents of the pages of a store. A page that is not in its file whole is not there. -/
def contents (tables : Catalog) (s : TableStore) : Contents := fun id =>
  match tables.table? id.table with
  | none => none
  | some t =>
      if s.length t.id < (id.page.toNat + 1) * t.pageSize then none
      else some (Page.decode id t.schema (s.bytes id))

/-- The bytes of each page are as many as its size. -/
def Sized (tables : Catalog) (s : TableStore) : Prop :=
  ∀ id t, tables.table? id.table = some t → (s.bytes id).length = t.pageSize

variable {tables : Catalog} {s : TableStore} {t : TableFile} {id : PageId} {p q : Page} {r : Row}
  {rid : RecordId}

section Page
variable (ht : tables.table? id.table = some t)
include ht

theorem contents_of_read (h : s.read t id = .ok p) : s.contents tables id = some (.ok p) := by
  obtain ⟨-, hwhole, hdecode⟩ := read_eq_ok.mp h
  simp only [contents, ht, if_neg (not_lt.mpr hwhole), hdecode]

/-- A page of the contents is read if no file is too long for the offsets of its pages. -/
theorem read_of_contents (hid : id.table = t.id) (hfits : s.Fits tables)
    (h : s.contents tables id = some (.ok p)) : s.read t id = .ok p := by
  simp only [contents, ht] at h
  split at h
  · contradiction
  · next hwhole =>
    have hlength := hfits id.table t ht
    have hword : File.maxOffset < wordLimit := by decide
    rw [not_lt] at hwhole
    refine read_eq_ok.mpr ⟨?_, hwhole, Option.some.inj h⟩
    rw [hid] at hlength
    omega

theorem belongs_of_contents (hs : s.Sized tables) (h : s.contents tables id = some (.ok p)) :
    p.Belongs id t.schema t.pageSize ∧ p.dirtiedBy = none := by
  simp only [contents, ht] at h
  split at h
  · contradiction
  · have hdecode := Option.some.inj h
    obtain ⟨-, -, -, -, hclean⟩ := Page.sound_of_decode hdecode
    exact ⟨Page.belongs_of_made (.inr ⟨_, hs id t ht, hdecode⟩), hclean⟩

theorem belongs_of_read (hs : s.Sized tables) (h : s.read t id = .ok p) :
    p.Belongs id t.schema t.pageSize ∧ p.dirtiedBy = none :=
  belongs_of_contents ht hs (contents_of_read ht h)

/-- Writing a page changes the contents in its place. -/
theorem contents_setPage (hq : q.Belongs id t.schema t.pageSize) (hclean : q.dirtiedBy = none)
    (hwhole : (id.page.toNat + 1) * t.pageSize ≤ s.length t.id) (id' : PageId) :
    (s.setPage q).contents tables id' =
      if id' = id then some (.ok q) else s.contents tables id' := by
  unfold contents setPage
  by_cases hid : id' = id
  · subst hid
    simp only [ht, if_neg (not_lt.mpr hwhole), hq.id_eq, Function.update_self,
      hq.encode_decode.2.2, Page.mark_of_clean hclean, if_true]
  · simp only [hq.id_eq, Function.update_of_ne hid, if_neg hid]

end Page

/-- The rows of a table are those of its pages. -/
theorem rowsFrom_contents (ht : tables.table? t.id = some t) (hfits : s.Fits tables) (count : Nat)
    (number : UInt32) :
    (s.rowsFrom t count number).1 = ((s.contents tables).rowsFrom t.id count number).1 ∧
      ((s.rowsFrom t count number).2 = .ok () ↔
        ((s.contents tables).rowsFrom t.id count number).2 = true) := by
  induction count generalizing number with
  | zero => exact ⟨rfl, by simp [rowsFrom, Contents.rowsFrom]⟩
  | succ count ih =>
    obtain ⟨hrows, hending⟩ := ih (number + 1)
    unfold rowsFrom Contents.rowsFrom
    cases hread : s.read t ⟨t.id, number⟩ with
    | ok p =>
      have hpage : s.contents tables ⟨t.id, number⟩ = some (.ok p) := contents_of_read ht hread
      rw [hpage]
      exact ⟨congrArg (p.rows ++ ·) hrows, hending⟩
    | error e =>
      have hnone : ∀ p, s.contents tables ⟨t.id, number⟩ ≠ some (.ok p) := by
        intro p hp
        have hok : s.read t ⟨t.id, number⟩ = .ok p := read_of_contents ht rfl hfits hp
        rw [hread] at hok
        contradiction
      dsimp only
      split
      · next p hp => exact absurd hp (hnone p)
      · exact ⟨rfl, by simp⟩

/-- The slot of a page of a table has a number of 32 bits. -/
theorem toNat_slot (hb : tables.Apart) (ht : tables.table? id.table = some t)
    (hp : p.Belongs id t.schema t.pageSize) {slot : Nat} (hslot : slot < p.layout.slotCount) :
    (UInt32.ofNat slot).toNat = slot := by
  have hlayout := hp.sound.layout
  rw [hp.size_eq, hp.schema_eq] at hlayout
  have hcount := hb.slotCount_le id.table t p.layout ht hlayout
  exact UInt32.toNat_ofNat_of_lt' (hslot.trans_le hcount)

/-- Storing a row in a page adds the row in a free slot of it. -/
theorem adds_insertInto (id : PageId) (hb : tables.Apart) (hs : s.Sized tables)
    (ht : tables.table? id.table = some t) (hread : s.read t id = .ok p)
    (hins : p.insert r = .ok (rid, q)) :
    rid.pageId = id ∧ (s.setPage q).contents tables id = some (.ok q) ∧
      Contents.Adds (s.contents tables) ((s.setPage q).contents tables) rid (r.stamped rid) := by
  obtain ⟨hp, hclean⟩ := belongs_of_read ht hs hread
  have hq := hp.insert hins
  obtain ⟨-, slot, hfirst, rfl, rfl⟩ := Page.insert_eq_ok.mp hins
  obtain ⟨hslot, hfree, -⟩ := Page.firstFree?_eq_some hfirst
  have hnumber := toNat_slot hb ht hp hslot
  have hold := contents_of_read ht hread
  have hnew := contents_setPage ht hq hclean (whole_of_read hread)
  have hrid : p.recordId slot = ⟨id, UInt32.ofNat slot⟩ := by rw [Page.recordId, hp.id_eq]
  rw [hrid] at hnew ⊢
  refine ⟨rfl, by rw [hnew, if_pos rfl], ?_, ?_, ?_⟩
  · rw [Contents.row?_of_page hold, hnumber]
    rw [hp.sound.isUsed_eq] at hfree
    simpa using hfree
  · apply Contents.rows_of_change hold hnew
    intro i
    rw [Page.row?_fill (hp.sound.slots ▸ hslot), hnumber]
  · intro id' hid
    rw [hnew, if_neg hid]

/-- Deleting a row from a page frees its slot. -/
theorem removes_delete (hs : s.Sized tables)
    (ht : tables.table? rid.pageId.table = some t) (hread : s.read t rid.pageId = .ok p)
    (hdel : p.delete (some rid) = .ok q) :
    (s.setPage q).contents tables rid.pageId = some (.ok q) ∧
      Contents.Removes (s.contents tables) ((s.setPage q).contents tables) rid := by
  obtain ⟨hp, hclean⟩ := belongs_of_read ht hs hread
  have hq := hp.delete hdel
  obtain ⟨rid', hrid, -, hused, rfl⟩ := Page.delete_eq_ok.mp hdel
  obtain rfl := Option.some.inj hrid
  have hold := contents_of_read ht hread
  have hnew := contents_setPage ht hq hclean (whole_of_read hread)
  refine ⟨by rw [hnew, if_pos rfl], ?_, ?_, ?_⟩
  · rw [Contents.row?_of_page hold rid.slot, ← hp.sound.isUsed_eq]
    exact hused
  · exact Contents.rows_of_change hold hnew (Page.row?_vacate p rid.slot.toNat)
  · intro id' hid
    rw [hnew, if_neg hid]

theorem row?_empty {size : Nat} {schema : Schema} (h : Page.empty id schema size = .ok p)
    (slot : Nat) : p.row? slot = none := by
  obtain ⟨l, -, rfl⟩ := Page.empty_eq_ok h
  simp only [Page.row?, Array.getElem?_replicate]
  split <;> rfl

/-- Only the page that comes behind the last one is whole in the longer file but not before. -/
theorem length_append_lt (hb : tables.Apart) (ht : tables.table? t.id = some t)
    (hp : p.id = ⟨t.id, t.pagesIn (s.length t.id)⟩)
    (hlast : s.length t.id = (t.pagesIn (s.length t.id)).toNat * t.pageSize) {t' : TableFile}
    (ht' : tables.table? id.table = some t') (hne : id ≠ p.id) :
    (s.append t p).length t'.id < (id.page.toNat + 1) * t'.pageSize ↔
      s.length t'.id < (id.page.toNat + 1) * t'.pageSize := by
  have hpos := hb.size_pos ht
  rw [hb.id_eq ht']
  simp only [append]
  by_cases hk : id.table = t.id
  · obtain rfl := Option.some.inj (ht.symm.trans (hk ▸ ht'))
    have hpage : id.page.toNat ≠ (t.pagesIn (s.length t.id)).toNat := by
      intro heq
      apply hne
      rw [hp, ← UInt32.toNat_inj.mp heq, ← hk]
    rw [hk, Function.update_self, hlast, ← Nat.succ_mul, Nat.mul_lt_mul_right hpos,
      Nat.mul_lt_mul_right hpos]
    omega
  · rw [Function.update_of_ne hk]

/-- A page that comes behind the last one is new, and the only change. -/
theorem contents_append (hb : tables.Apart) (ht : tables.table? t.id = some t)
    (hblank : s.blank t = .ok p)
    (hlast : s.length t.id = (t.pagesIn (s.length t.id)).toNat * t.pageSize) :
    s.contents tables p.id = none ∧ ∀ id, (s.append t p).contents tables id =
      if id = p.id then some (.ok p) else s.contents tables id := by
  obtain ⟨hempty, -⟩ := blank_eq_ok hblank
  have hid : p.id = ⟨t.id, t.pagesIn (s.length t.id)⟩ :=
    (Page.belongs_of_made (.inl hempty)).id_eq
  constructor
  · have hpos := hb.size_pos ht
    simp only [contents, hid, ht]
    rw [if_pos]
    rw [Nat.succ_mul]
    omega
  · intro id
    by_cases hnew : id = p.id
    · rw [if_pos hnew, hnew, hid]
      exact contents_of_read ht (read_append hblank hlast)
    · rw [if_neg hnew]
      unfold contents
      cases ht' : tables.table? id.table with
      | none => rfl
      | some t' =>
        have hbytes : (s.append t p).bytes id = s.bytes id := by
          simp only [append, setPage, Function.update_of_ne hnew]
        simp only [hbytes, length_append_lt hb ht hid hlast ht' hnew]

theorem spares_append (hb : tables.Apart) (ht : tables.table? t.id = some t)
    (hblank : s.blank t = .ok p)
    (hlast : s.length t.id = (t.pagesIn (s.length t.id)).toNat * t.pageSize) :
    Contents.Spares (s.contents tables) ((s.append t p).contents tables) := by
  obtain ⟨hnone, hnew⟩ := contents_append hb ht hblank hlast
  constructor
  · rintro ⟨id, slot⟩
    by_cases hid : id = p.id
    · rw [Contents.row?_of_page ((hnew id).trans (if_pos hid)), row?_empty (blank_eq_ok hblank).1]
      simp only [Contents.row?, hid, hnone]
    · simp only [Contents.row?, hnew, if_neg hid]
  · intro id hid
    rw [hnew, if_neg]
    rintro rfl
    exact hid hnone

theorem sized_append (hs : s.Sized tables) (ht : tables.table? t.id = some t)
    (hblank : s.blank t = .ok p) : (s.append t p).Sized tables := by
  have hp := Page.belongs_of_made (.inl (blank_eq_ok hblank).1)
  intro id t' ht'
  simp only [append, setPage, Function.update_apply]
  split
  · next hid =>
    rw [hid, hp.id_eq] at ht'
    obtain rfl := Option.some.inj (ht.symm.trans ht')
    exact hp.encode_decode.2.1
  · exact hs id t' ht'

section Insert
variable (hb : tables.Apart) (hs : s.Sized tables) (hsmall : s.Small tables)
  (ht : tables.table? t.id = some t) {row : Row} {s' : TableStore}
include hb hs hsmall ht

/-- A row that is stored is new at its record id, and nothing else changes. -/
theorem adds_insert (h : s.insert t r = (.ok (row, q), s')) :
    ∃ rid, row = r.stamped rid ∧ rid.pageId.table = t.id ∧
      s'.contents tables rid.pageId = some (.ok q) ∧
        Contents.Adds (s.contents tables) (s'.contents tables) rid row := by
  rcases s.insert_cases t r with ⟨e, hout⟩ | ⟨number, p, rid, q', hread, hins, hout⟩ |
    ⟨p, hnone, hblank, ⟨e, hout⟩ | ⟨rid, q', hins, hout⟩⟩
  · cases h.symm.trans hout
  · cases h.symm.trans hout
    obtain ⟨hrid, hpage, hadds⟩ := adds_insertInto ⟨t.id, number⟩ hb hs ht hread hins
    exact ⟨rid, rfl, by rw [hrid], by rw [hrid]; exact hpage, hadds⟩
  · cases h.symm.trans hout
  · cases h.symm.trans hout
    have hlast := length_of_firstWithRoom (hb.size_pos ht) (hsmall t.id t ht) hnone
    obtain ⟨hempty, -⟩ := blank_eq_ok hblank
    have hid := (Page.belongs_of_made (.inl hempty)).id_eq
    obtain ⟨hrid, hpage, hadds⟩ := adds_insertInto ⟨t.id, t.pagesIn (s.length t.id)⟩ hb
      (sized_append hs ht hblank) ht (read_append hblank hlast) hins
    refine ⟨rid, rfl, by rw [hrid], by rw [hrid]; exact hpage,
      hadds.of_spares (spares_append hb ht hblank hlast) fun id' hid' => ?_⟩
    rw [(contents_append hb ht hblank hlast).2, if_neg]
    rwa [hid, ← hrid]

omit hs in
/-- If no row is stored, all rows are as they were. -/
theorem spares_insert {e : Failure FileError} (h : s.insert t r = (.error e, s')) :
    Contents.Spares (s.contents tables) (s'.contents tables) := by
  rcases s.insert_cases t r with ⟨e, hout⟩ | ⟨number, p, rid, q', -, -, hout⟩ |
    ⟨p, hnone, hblank, ⟨e, hout⟩ | ⟨rid, q', -, hout⟩⟩
  · cases h.symm.trans hout
    exact .refl _
  · cases h.symm.trans hout
  · cases h.symm.trans hout
    exact spares_append hb ht hblank
      (length_of_firstWithRoom (hb.size_pos ht) (hsmall t.id t ht) hnone)
  · cases h.symm.trans hout

end Insert

end TableStore
end RowStore
