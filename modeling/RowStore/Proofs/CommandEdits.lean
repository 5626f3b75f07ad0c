import RowStore.Proofs.CommandRuns
import RowStore.Proofs.DirtyTags
import RowStore.Proofs.FlushOrder
import RowStore.Proofs.PageEdits
import RowStore.Proofs.TableSessions
import RowStore.Proofs.TableWrites

/-! The two commands that change rows. Each of them changes one page, or else it fails and no file
has other bytes, whatever the file held before and however many pages had to make room on the way. -/
namespace RowStore

namespace TableFile
variable {t : TableFile} {d d' : Disk} {number : UInt32} {p q : Page}

/-- One page of a table has changed, and nothing else on the disk. The page was there before and the
file is as long as it was, or the page is new and the file ends with it. -/
structure OnePage (t : TableFile) (number : UInt32) (p q : Page) (d d' : Disk) : Prop where
  before : t.readPage d ⟨t.id, number⟩ = .ok p ∧
      (d'.fileAt t.location).length = (d.fileAt t.location).length ∨
    Page.empty ⟨t.id, number⟩ t.schema t.pageSize = .ok p ∧
      (d.fileAt t.location).length = number.toNat * t.pageSize ∧
        (d'.fileAt t.location).length = (number.toNat + 1) * t.pageSize
  after : t.readPage d' ⟨t.id, number⟩ = .ok q
  outside : ∀ i < (d'.fileAt t.location).length, i ∉ t.place number →
    (d'.fileAt t.location).byteAt i = (d.fileAt t.location).byteAt i
  elsewhere : Disk.SameBut t.location d d'

/-- A page of a table cannot be read: the file ends before the page does, or the page is corrupt. -/
structure Unreadable (t : TableFile) (d : Disk) (number : UInt32) (e : FileError) : Prop where
  counted : number < t.pageCount d
  read : t.readPage d ⟨t.id, number⟩ = .error (.error e)
  reason : e = .outOfRange ⟨t.id, number⟩ (t.pageCount d) ∨
    ∃ slot cause, e = .page (.corrupt ⟨t.id, number⟩ slot cause)

/-- Every byte of a file of at most 2³² pages is in the place of one of them. -/
theorem exists_mem_place {i : Nat} (hi : i < 2 ^ 32 * t.pageSize) :
    ∃ number, i ∈ t.place number := by
  have hdiv : i / t.pageSize < 2 ^ 32 := Nat.div_lt_of_lt_mul (Nat.mul_comm _ _ ▸ hi)
  have hpos : 0 < t.pageSize := Nat.pos_of_mul_pos_left (Nat.zero_lt_of_lt hi)
  refine ⟨UInt32.ofNat (i / t.pageSize), ?_⟩
  rw [place, UInt32.toNat_ofNat_of_lt' hdiv]
  exact ⟨Nat.div_mul_le_self i t.pageSize, Nat.mul_comm _ _ ▸ Nat.lt_mul_div_succ i hpos⟩

theorem length_le_of_counted (hpos : 0 < t.pageSize) {length : Nat}
    (hsmall : ceilDiv length t.pageSize < 2 ^ 32) : length ≤ 2 ^ 32 * t.pageSize := by
  have hlt := Nat.lt_mul_of_div_lt hsmall hpos
  omega

/-- All pages but one have the bytes that they had. -/
theorem onePage_of_pages (hword : (number.toNat + 1) * t.pageSize < wordLimit)
    (hwhole : (number.toNat + 1) * t.pageSize ≤ (d'.fileAt t.location).length)
    (hcount : (d'.fileAt t.location).length ≤ 2 ^ 32 * t.pageSize)
    (hq : q.Belongs ⟨t.id, number⟩ t.schema t.pageSize) (hclean : q.dirtiedBy = none)
    (hpage : t.pageBytes d' number = q.image)
    (hpages : ∀ n ≠ number, t.pageBytes d' n = t.pageBytes d n)
    (hbefore : t.readPage d ⟨t.id, number⟩ = .ok p ∧
        (d'.fileAt t.location).length = (d.fileAt t.location).length ∨
      Page.empty ⟨t.id, number⟩ t.schema t.pageSize = .ok p ∧
        (d.fileAt t.location).length = number.toNat * t.pageSize ∧
          (d'.fileAt t.location).length = (number.toNat + 1) * t.pageSize)
    (hsame : Disk.SameBut t.location d d') : t.OnePage number p q d d' where
  before := hbefore
  after := by
    rw [readPage_of_whole rfl hword hwhole, hpage, hq.encode_decode.2.2, Page.mark_of_clean hclean,
      mapError_ok]
  outside i hi hout := by
    -- the byte is in the place of some other page
    obtain ⟨n, hmem⟩ := t.exists_mem_place (hi.trans_le hcount)
    have hne : n ≠ number := fun heq => hout (heq ▸ hmem)
    exact byteAt_of_pageBytes (hpages n hne) hmem
  elsewhere := hsame

section Opened
variable {k : TableId} {size : Nat} (ht : t.Opened k size)
include ht

/-- A page that is counted is cut short or corrupt if it cannot be read. -/
theorem Opened.unreadable (hlong : (d.fileAt t.location).length ≤ File.maxOffset)
    (hlt : number < t.pageCount d) {f : Failure FileError}
    (h : t.readPage d ⟨t.id, number⟩ = .error f) : ∃ e, f = .error e ∧ t.Unreadable d number e := by
  have hword := ht.reached_of_counted hlong hlt
  have hreason : ∃ e, f = .error e ∧ (e = .outOfRange ⟨t.id, number⟩ (t.pageCount d) ∨
      ∃ slot cause, e = .page (.corrupt ⟨t.id, number⟩ slot cause)) := by
    rcases le_or_gt ((number.toNat + 1) * t.pageSize) (d.fileAt t.location).length with
      hwhole | hshort
    · rw [readPage_of_whole rfl hword hwhole] at h
      obtain ⟨e, hdecode, rfl⟩ := mapError_eq_error.mp h
      obtain ⟨slot, cause, rfl⟩ := ht.corrupt_of_decode hdecode
      exact ⟨_, rfl, .inr ⟨slot, cause, rfl⟩⟩
    · rw [readPage_of_behind rfl hword hshort] at h
      exact ⟨_, (Except.error.inj h).symm, .inl rfl⟩
  obtain ⟨e, rfl, hreason⟩ := hreason
  exact ⟨e, rfl, hlt, h, hreason⟩

end Opened

end TableFile

namespace TableStore
variable {s s' : TableStore} {t : TableFile} {d d' : Disk} {p q : Page} {r : Row}
  {number : UInt32} {l : Layout} {slot : Nat} {rid : RecordId}

/-- A table takes a row on a page: on one that can be read, or on an empty one that was put behind
the last one, and then is in the store `s'`. -/
inductive Offers (s : TableStore) (t : TableFile) : UInt32 → Page → TableStore → Prop where
  | page {number : UInt32} {p : Page} (h : s.read t ⟨t.id, number⟩ = .ok p) : Offers s t number p s
  | blank {p : Page} (hfull : s.firstWithRoom t (t.pagesIn (s.length t.id)).toNat 0 = .ok none)
      (h : s.blank t = .ok p) : Offers s t (t.pagesIn (s.length t.id)) p (s.append t p)

/-- A table takes no row: a page cannot be read, or there is no room for one more. -/
inductive Denies (s : TableStore) (t : TableFile) : Failure FileError → Prop where
  | page {number : UInt32} {e : Failure FileError} (hlt : number < t.pagesIn (s.length t.id))
      (h : s.read t ⟨t.id, number⟩ = .error e) : Denies s t e
  | blank {e : Failure FileError}
      (hfull : s.firstWithRoom t (t.pagesIn (s.length t.id)).toNat 0 = .ok none)
      (h : s.blank t = .error e) : Denies s t e

/-- A row that fits the columns is stored on a page that the table offers. -/
theorem insert_ends (hl : Layout.make t.pageSize t.schema.width = .ok l) (hroom : 0 < l.slotCount)
    (hconf : t.schema.conforms r.values) :
    (∃ e, s.insert t r = (.error e, s) ∧ s.Denies t e) ∨
      ∃ number p rid q s', s.Offers t number p s' ∧ p.insert r = .ok (rid, q) ∧
        s.insert t r = (.ok (r.stamped rid, q), s'.setPage q) := by
  have htakes : ∀ {p : Page} (s₁ : TableStore), p.schema = t.schema → p.hasFree → ∃ rid q,
      p.insert r = .ok (rid, q) ∧ s₁.insertInto p r = (.ok (r.stamped rid, q), s₁.setPage q) := by
    intro p s₁ hschema hfree
    obtain ⟨slot, hslot⟩ := Option.isSome_iff_exists.mp hfree
    have hins := Page.insert_eq_ok.mpr ⟨hschema ▸ hconf, slot, hslot, rfl, rfl⟩
    exact ⟨_, _, hins, by rw [insertInto, hins]⟩
  unfold insert
  rw [if_pos hconf]
  rcases hfirst : s.firstWithRoom t (t.pagesIn (s.length t.id)).toNat 0 with e | _ | p
  · obtain ⟨i, hi, hread⟩ := error_of_firstWithRoom hfirst
    have hnumber : (0 + UInt32.ofNat i).toNat = i := by
      rw [UInt32.zero_add]
      exact UInt32.toNat_ofNat_of_lt' (hi.trans (UInt32.toNat_lt _))
    exact .inl ⟨e, rfl, .page (UInt32.lt_iff_toNat_lt.mpr (hnumber.trans_lt hi)) hread⟩
  · cases hblank : s.blank t with
    | error e => exact .inl ⟨e, rfl, .blank hfirst hblank⟩
    | ok p =>
      obtain ⟨hempty, -⟩ := blank_eq_ok hblank
      have hbelongs := Page.belongs_of_made (.inl hempty)
      have hlayout := hbelongs.sound.layout
      rw [hbelongs.size_eq, hbelongs.schema_eq] at hlayout
      have hfree := hbelongs.sound.firstFree?_of_blank (Except.ok.inj (hl.symm.trans hlayout) ▸ hroom)
        fun slot => row?_empty hempty slot
      obtain ⟨rid, q, hins, hout⟩ := htakes (s.append t p) hbelongs.schema_eq
        (Option.isSome_iff_exists.mpr ⟨0, hfree⟩)
      exact .inr ⟨_, p, rid, q, _, .blank hfirst hblank, hins, hout⟩
  · obtain ⟨number, hread, hfree⟩ := read_of_firstWithRoom_some hfirst
    have hschema : p.schema = t.schema := (Page.sound_of_decode (read_eq_ok.mp hread).2.2).2.2.1
    obtain ⟨rid, q, hins, hout⟩ := htakes s hschema hfree
    exact .inr ⟨number, p, rid, q, s, .page hread, hins, hout⟩

theorem bytes_setPage_self (s : TableStore) (q : Page) : (s.setPage q).bytes q.id = q.image :=
  Function.update_self _ _ _

theorem bytes_setPage_of_ne (s : TableStore) {q : Page} {id : PageId} (h : id ≠ q.id) :
    (s.setPage q).bytes id = s.bytes id := Function.update_of_ne h _ _

/-- If one page of a store is set, one page of the file has changed. -/
theorem Matches.onePage (hs : s.Matches t d) (hread : s.read t ⟨t.id, number⟩ = .ok p)
    (hs' : (s.setPage q).Matches t d') (hq : q.Belongs ⟨t.id, number⟩ t.schema t.pageSize)
    (htag : q.dirtiedBy = p.dirtiedBy)
    (hcount : (d.fileAt t.location).length ≤ 2 ^ 32 * t.pageSize)
    (hsame : Disk.SameBut t.location d d') : t.OnePage number p q d d' := by
  obtain ⟨hword, hwhole, hdecode⟩ := read_eq_ok.mp hread
  have hclean : q.dirtiedBy = none := htag.trans (Page.sound_of_decode hdecode).2.2.2.2
  have hlength : (d'.fileAt t.location).length = (d.fileAt t.location).length :=
    hs'.length.symm.trans hs.length
  rw [hs.length, ← hlength] at hwhole
  refine TableFile.onePage_of_pages hword hwhole (hlength ▸ hcount) hq hclean ?_ (fun n hne => ?_)
    (.inl ⟨(hs.readPage_eq number).trans hread, hlength⟩) hsame
  · rw [hs'.bytes, ← hq.id_eq, bytes_setPage_self]
  · have hother : (⟨t.id, n⟩ : PageId) ≠ q.id := by simpa [hq.id_eq] using hne
    rw [hs'.bytes, hs.bytes, bytes_setPage_of_ne _ hother]

/-- If an empty page is put behind the last one of a store and then set, a page has been added to the
file. -/
theorem Matches.onePage_append (ht : t.Opened t.id t.pageSize) (hs : s.Matches t d)
    (hfull : s.firstWithRoom t (t.pagesIn (s.length t.id)).toNat 0 = .ok none)
    (hblank : s.blank t = .ok p) (hs' : ((s.append t p).setPage q).Matches t d')
    (hq : q.Belongs ⟨t.id, t.pagesIn (s.length t.id)⟩ t.schema t.pageSize)
    (htag : q.dirtiedBy = p.dirtiedBy)
    (hsmall : ceilDiv (d.fileAt t.location).length t.pageSize < 2 ^ 32)
    (hsame : Disk.SameBut t.location d d') :
    t.OnePage (t.pagesIn (s.length t.id)) p q d d' := by
  obtain ⟨hempty, hend⟩ := blank_eq_ok hblank
  have hbelongs := Page.belongs_of_made (.inl hempty)
  have hclean : q.dirtiedBy = none := by
    obtain ⟨l, -, hp⟩ := Page.empty_eq_ok hempty
    rw [htag, hp]
  -- all pages could be read, so the last one is whole and the new page begins where the file ends
  have hlast := length_of_firstWithRoom ht.size_pos (hs.length ▸ hsmall) hfull
  have hlength : (d'.fileAt t.location).length =
      ((t.pagesIn (s.length t.id)).toNat + 1) * t.pageSize := by
    rw [← hs'.length, Nat.succ_mul, ← hlast]
    simp [setPage, append]
  have hcount : (t.pagesIn (s.length t.id)).toNat + 1 ≤ 2 ^ 32 := UInt32.toNat_lt _
  rw [← Nat.succ_mul] at hend
  refine TableFile.onePage_of_pages (hend.trans_lt (by decide)) hlength.ge
    (hlength ▸ Nat.mul_le_mul_right _ hcount) hq hclean ?_ (fun n hne => ?_)
    (.inr ⟨hempty, hs.length.symm.trans hlast, hlength⟩) hsame
  · rw [hs'.bytes, ← hq.id_eq, bytes_setPage_self]
  · have hother : (⟨t.id, n⟩ : PageId) ≠ q.id := by simpa [hq.id_eq] using hne
    have hother' : (⟨t.id, n⟩ : PageId) ≠ p.id := by simpa [hbelongs.id_eq] using hne
    rw [hs'.bytes, hs.bytes, bytes_setPage_of_ne _ hother]
    exact bytes_setPage_of_ne s hother'

/-- A row that is stored on a page that a table offers changes this page of the file. -/
theorem Matches.onePage_of_offers (ht : t.Opened t.id t.pageSize) (hs : s.Matches t d)
    (hoffer : s.Offers t number p s') (hs' : (s'.setPage q).Matches t d')
    (hq : q.Belongs ⟨t.id, number⟩ t.schema t.pageSize) (htag : q.dirtiedBy = p.dirtiedBy)
    (hsmall : ceilDiv (d.fileAt t.location).length t.pageSize < 2 ^ 32)
    (hsame : Disk.SameBut t.location d d') : t.OnePage number p q d d' := by
  cases hoffer with
  | page h =>
    exact hs.onePage h hs' hq htag (TableFile.length_le_of_counted ht.size_pos hsmall) hsame
  | blank hfull h => exact hs.onePage_append ht hfull h hs' hq htag hsmall hsame

theorem Matches.belongs (hs : s.Matches t d) (hoffer : s.Offers t number p s') :
    p.Belongs ⟨t.id, number⟩ t.schema t.pageSize := by
  cases hoffer with
  | page h => exact (Pool.housed_of_readPage rfl ((hs.readPage_eq number).trans h)).1.belongs
  | blank _ h => exact Page.belongs_of_made (.inl (blank_eq_ok h).1)

/-- If a table takes no row, then one of its pages cannot be read, or its file cannot get longer. -/
theorem Matches.denied (ht : t.Opened t.id t.pageSize) (hs : s.Matches t d)
    (hlong : (d.fileAt t.location).length ≤ File.maxOffset)
    (hsmall : ceilDiv (d.fileAt t.location).length t.pageSize < 2 ^ 32) {f : Failure FileError}
    (h : s.Denies t f) : ∃ e, f = .error e ∧ ((∃ number, t.Unreadable d number e) ∨
      e = .disk .tooLarge ∧ File.maxOffset < ((t.pageCount d).toNat + 1) * t.pageSize) := by
  cases h with
  | @page number _ hlt hread =>
    rw [hs.pageCount_eq] at hlt
    obtain ⟨e, rfl, hunreadable⟩ := ht.unreadable hlong hlt ((hs.readPage_eq number).trans hread)
    exact ⟨e, rfl, .inl ⟨number, hunreadable⟩⟩
  | blank hfull hblank =>
    obtain ⟨l, hl, -⟩ := ht.room
    have hlast := length_of_firstWithRoom ht.size_pos (hs.length ▸ hsmall) hfull
    have hend : File.maxOffset < ((t.pagesIn (s.length t.id)).toNat + 1) * t.pageSize := by
      by_contra hroom
      obtain ⟨p, hp⟩ := blank_of_room hl (not_lt.mp hroom)
      cases hp.symm.trans hblank
    have hbegin : (t.pagesIn (s.length t.id)).toNat * t.pageSize ≤ File.maxOffset := by
      rwa [← hlast, hs.length]
    have hlarge := blank_of_no_room hl hbegin hend
    refine ⟨_, (Except.error.inj (hlarge.symm.trans hblank)).symm, .inr ⟨rfl, ?_⟩⟩
    rwa [← hs.pageCount_eq]

end TableStore

namespace Pool
variable {tables : Catalog} {s : TableStore} {t : TableFile} {w : World PageCache} {call : Call}

/-- A call to store or to delete a row that fails leaves no changed page. -/
theorem Clean.of_unchanged (hclean : Clean w) (hw : Named w) (hcall : call.Writes)
    (h : changed? tables w call = none) : Clean (act tables w call) := by
  obtain ⟨-, hrested⟩ | ⟨id, txn, h', hchange, -⟩ := @settles_of_writes tables w call hw hcall
  · intro id p hp
    obtain ⟨h', hc⟩ := cached_of_cached? hp
    rcases hrested.cached hc with hold | ⟨-, hnone⟩
    · exact hclean id p hold.cached?_eq
    · exact hnone
  · cases h.symm.trans hchange

end Pool

/-- A row has been stored in the lowest free slot of a page, and this is all that has changed. -/
structure TableFile.RowStored (t : TableFile) (values : List Value) (rid : RecordId) (p q : Page)
    (d d' : Disk) : Prop where
  table : rid.pageId.table = t.id
  slot : p.LowestFree rid.slot.toNat
  row : q.row? rid.slot.toNat = some ⟨values, some rid⟩
  rest : Page.ChangedIn [rid.slot.toNat] p q
  page : t.OnePage rid.pageId.page p q d d'

/-- A slot of a page that was taken has been freed, and this is all that has changed. -/
structure TableFile.RowFreed (t : TableFile) (rid : RecordId) (p q : Page) (d d' : Disk) : Prop where
  held : p.Holds rid
  free : q.isUsed rid.slot.toNat = false
  row : q.row? rid.slot.toNat = none
  rest : Page.ChangedIn [rid.slot.toNat] p q
  page : t.OnePage rid.pageId.page p q d d'

namespace Pool
variable {s s' : TableStore} {t : TableFile} {w w' : World PageCache} {txn : TxnId}
  {values : List Value} {page slot : UInt32} {call : Call} {rid : RecordId}

/-- A pool over one table that has changed no page: it stands for what the file holds. The file has
less than 2³² pages, and each of them at most 2³² slots. -/
structure AtRest (t : TableFile) (s : TableStore) (w : World PageCache) : Prop where
  opened : t.Opened t.id t.pageSize
  slots : ∀ l, Layout.make t.pageSize t.schema.width = .ok l → l.slotCount ≤ 2 ^ 32
  file : w.disk.entry? t.location ≠ some .directory
  counted : ceilDiv (w.disk.fileAt t.location).length t.pageSize < 2 ^ 32
  sheltered : Sheltered (.single t) w
  keeps : Keeps (.single t) s w
  clean : Clean w

namespace AtRest
variable (h : AtRest t s w)
include h

theorem separate : (Catalog.single t).Separate := Catalog.separate_single h.opened

theorem matches_disk : s.Matches t w.disk := h.keeps.matches_disk h.separate h.clean Catalog.table?_single

theorem long : (w.disk.fileAt t.location).length ≤ File.maxOffset :=
  h.sheltered.addressed t.id t Catalog.table?_single

theorem fits : s.Fits (.single t) := h.keeps.fits_iff.mpr h.sheltered.addressed

theorem small : s.Small (.single t) := by
  intro k t' ht'
  obtain ⟨rfl, rfl⟩ := Catalog.eq_of_table?_single ht'
  rw [h.matches_disk.length]
  exact h.counted

/-- A call to store or to delete a row that fails gives no file other bytes. -/
theorem contents_eq (hcall : call.Writes) (hnone : changed? (.single t) w call = none)
    (hw' : Keeps (.single t) s (act (.single t) w call)) (l : Location) :
    ((act (.single t) w call).disk.fileAt l).contents = (w.disk.fileAt l).contents :=
  hw'.files_eq h.separate h.small h.keeps (h.clean.of_unchanged h.sheltered.toNamed hcall hnone)
    h.clean l

/-- What the pool has come to by a call is in the file once all is written back. -/
theorem flushed (hw' : Keeps (.single t) s' (act (.single t) w call)) (hfits : s'.Fits (.single t)) :
    ∃ w', (Pool.flushAll (.single t)).outcome (act (.single t) w call) = (.ok (), w') ∧
      s'.Matches t w'.disk ∧ Disk.SameBut t.location w.disk w'.disk := by
  obtain ⟨w₂, hflush, hact, hw₂, hclean⟩ := hw'.outcome_flushAll h.separate hfits
  have hled := h.sheltered.afterCalls h.separate.registered [call, .request .flushAll]
  rw [afterCalls, List.foldl_cons, List.foldl_cons, List.foldl_nil, hact] at hled
  refine ⟨w₂, hflush, hw₂.matches_disk h.separate hclean Catalog.table?_single,
    hled.sameBut h.opened.location_ne (fun k t' ht' => ?_) h.file⟩
  rw [(Catalog.eq_of_table?_single ht').2]

/-- A row that fits the columns is stored on one page and written to the file, or no file has other
bytes. -/
theorem insert_cases (txn : TxnId) (hconf : t.schema.conforms values) :
    (∃ e w', (Pool.insert (.single t) txn t.id ⟨values, none⟩).run w =
        (⟨⟨values, none⟩, .error (.error (.file e))⟩, w') ∧
      ((∃ number, t.Unreadable w.disk number e) ∨ e = .disk .tooLarge ∧
        File.maxOffset < ((t.pageCount w.disk).toNat + 1) * t.pageSize) ∧
          ∀ l, (w'.disk.fileAt l).contents = (w.disk.fileAt l).contents) ∨
      ∃ rid handle w₁ w₂ p q, (Pool.insert (.single t) txn t.id ⟨values, none⟩).run w =
          (⟨⟨values, some rid⟩, .ok handle⟩, w₁) ∧
        (Pool.flushAll (.single t)).outcome w₁ = (.ok (), w₂) ∧
          t.RowStored values rid p q w.disk w₂.disk := by
  have hb := h.separate
  have ht := Catalog.table?_single (t := t)
  have hs := h.matches_disk
  obtain ⟨l, hl, hroom⟩ := h.opened.room
  rcases s.insert_ends (r := ⟨values, none⟩) hl hroom hconf with
    ⟨f, hins, hdenied⟩ | ⟨number, p, rid, q, s', hoffer, hinto, hins⟩
  · obtain ⟨e, rfl, hwhy⟩ := hs.denied h.opened h.long h.counted hdenied
    obtain ⟨w', hrun, rfl, hw'⟩ := h.keeps.run_insert_error hb h.fits h.small ht txn hins
    exact .inl ⟨e, _, hrun, hwhy, h.contents_eq trivial (by simp only [changed?, hrun]) hw'⟩
  · obtain ⟨handle, w₁, hrun, rfl, hw₁⟩ := h.keeps.run_insert hb h.fits h.small ht txn hins
    have hfits := h.fits.insert hb ht h.small ⟨values, none⟩
    rw [hins] at hfits
    obtain ⟨w₂, hflush, hs', hsame⟩ := h.flushed hw₁ hfits
    have hp := hs.belongs hoffer
    have hlayout := hp.sound.layout
    rw [hp.size_eq, hp.schema_eq] at hlayout
    obtain ⟨hconf', slot, hslot, hrid, -⟩ := Page.insert_eq_ok.mp hinto
    obtain ⟨hlt, hfree, -⟩ := Page.firstFree?_eq_some_iff.mp hslot
    -- the page tells what the insert has done to it, and both inserts are one
    obtain ⟨_, _, _, hlowest, hid, rfl, hinto', hrest, -, hrow, -⟩ :=
      (hp.sound.reversible (h.slots _ hlayout)).insert _ hconf' (Page.not_full hlt hfree)
    obtain ⟨rfl, rfl⟩ := Prod.mk.inj (Except.ok.inj (hinto.symm.trans hinto'))
    have hpage : rid.pageId = ⟨t.id, number⟩ := hid.trans hp.id_eq
    refine .inr ⟨rid, handle, _, w₂, p, q, hrun, hflush, by rw [hpage], hlowest, hrow, hrest, ?_⟩
    rw [hpage]
    exact hs.onePage_of_offers h.opened hoffer hs' (hp.insert hinto) hrest.tag h.counted hsame

/-- What the store does not delete the pool does not delete. -/
theorem delete_refused (txn : TxnId) (hrid : rid.pageId.table = t.id) {e : FileError}
    (hdel : s.delete t rid = (.error (.error e), s)) :
    ∃ w', (Pool.delete (.single t) txn (some rid)).outcome w = (.error (.error (.file e)), w') ∧
      ∀ l, (w'.disk.fileAt l).contents = (w.disk.fileAt l).contents := by
  obtain ⟨res, w', hrun, rfl, hw', hseen⟩ := h.keeps.outcome_delete h.separate h.fits h.small
    Catalog.table?_single txn hrid
  rw [hdel] at hw' hseen
  obtain rfl := eq_error_of_seen hseen
  exact ⟨_, hrun, h.contents_eq trivial (by simp only [changed?, hrun]) hw'⟩

/-- What the store deletes the pool deletes, and once all is written back the file holds it no
longer. -/
theorem delete_done (txn : TxnId) (hrid : rid.pageId.table = t.id) {q : Page}
    (hdel : s.delete t rid = (.ok q, s')) :
    ∃ handle w₁ w₂, (Pool.delete (.single t) txn (some rid)).outcome w = (.ok handle, w₁) ∧
      (Pool.flushAll (.single t)).outcome w₁ = (.ok (), w₂) ∧ s'.Matches t w₂.disk ∧
        Disk.SameBut t.location w.disk w₂.disk := by
  obtain ⟨res, w₁, hrun, rfl, hw₁, hseen⟩ := h.keeps.outcome_delete h.separate h.fits h.small
    Catalog.table?_single txn hrid
  have hfits := h.fits.delete t rid
  rw [hdel] at hw₁ hseen hfits
  obtain ⟨handle, rfl⟩ := exists_of_seen hseen
  obtain ⟨w₂, hflush, hs', hsame⟩ := h.flushed hw₁ hfits
  exact ⟨handle, _, w₂, hrun, hflush, hs', hsame⟩

/-- A row that is there is deleted on its page and in the file, or no file has other bytes. -/
theorem delete_cases (txn : TxnId) (page slot : UInt32) :
    (∃ e w', (Pool.delete (.single t) txn (some ⟨⟨t.id, page⟩, slot⟩)).outcome w =
        (.error (.error (.file e)), w') ∧
      (t.Unreadable w.disk page e ∨
        e = .page (.invalidDelete (some ⟨⟨t.id, page⟩, slot⟩)) ∧ (t.pageCount w.disk ≤ page ∨
          ∃ p, t.readPage w.disk ⟨t.id, page⟩ = .ok p ∧ ¬ p.Holds ⟨⟨t.id, page⟩, slot⟩)) ∧
        ∀ l, (w'.disk.fileAt l).contents = (w.disk.fileAt l).contents) ∨
      ∃ handle w₁ w₂ p q, (Pool.delete (.single t) txn (some ⟨⟨t.id, page⟩, slot⟩)).outcome w =
          (.ok handle, w₁) ∧
        (Pool.flushAll (.single t)).outcome w₁ = (.ok (), w₂) ∧
          t.RowFreed ⟨⟨t.id, page⟩, slot⟩ p q w.disk w₂.disk := by
  have hs := h.matches_disk
  have hread := hs.readPage_eq page
  have hrid : (RecordId.mk ⟨t.id, page⟩ slot).pageId.table = t.id := rfl
  by_cases hlt : page < t.pagesIn (s.length t.id)
  · cases hpage : s.read t ⟨t.id, page⟩ with
    | error f =>
      obtain ⟨e, rfl, hunreadable⟩ :=
        h.opened.unreadable h.long (hs.pageCount_eq ▸ hlt) (hread.trans hpage)
      obtain ⟨w', hout, hsame⟩ := h.delete_refused txn hrid (e := e) (by
        simp only [TableStore.delete, if_pos hlt, hpage])
      exact .inl ⟨e, w', hout, .inl hunreadable, hsame⟩
    | ok p =>
      by_cases hheld : p.Holds ⟨⟨t.id, page⟩, slot⟩
      · have hp := (housed_of_readPage rfl (hread.trans hpage)).1.belongs
        have hvacate := Page.delete_of_holds hheld
        have hdel : s.delete t ⟨⟨t.id, page⟩, slot⟩ =
            (.ok (p.vacate slot.toNat), s.setPage (p.vacate slot.toNat)) := by
          simp only [TableStore.delete, if_pos hlt, hpage, hvacate]
        obtain ⟨handle, w₁, w₂, hout, hflush, hs', hsame⟩ := h.delete_done txn hrid hdel
        refine .inr ⟨handle, w₁, w₂, p, p.vacate slot.toNat, hout, hflush, hheld, ?_, ?_, ?_, ?_⟩
        · simp [Page.isUsed_vacate]
        · rw [Page.row?_vacate, if_pos rfl]
        · exact (Page.ChangedIn.refl _ p).vacate (List.mem_singleton_self _)
        · exact hs.onePage hpage hs' (hp.delete hvacate) rfl
            (TableFile.length_le_of_counted h.opened.size_pos h.counted) hsame
      · have hinvalid : p.delete (some ⟨⟨t.id, page⟩, slot⟩) =
            .error (.invalidDelete (some ⟨⟨t.id, page⟩, slot⟩)) := if_neg hheld
        obtain ⟨w', hout, hsame⟩ := h.delete_refused txn hrid
          (e := .page (.invalidDelete (some ⟨⟨t.id, page⟩, slot⟩))) (by
            simp only [TableStore.delete, if_pos hlt, hpage, hinvalid])
        exact .inl ⟨_, w', hout, .inr ⟨rfl, .inr ⟨p, hread.trans hpage, hheld⟩⟩, hsame⟩
  · obtain ⟨w', hout, hsame⟩ := h.delete_refused txn hrid
      (e := .page (.invalidDelete (some ⟨⟨t.id, page⟩, slot⟩))) (by
        simp only [TableStore.delete, if_neg hlt])
    rw [hs.pageCount_eq, UInt32.not_lt] at hlt
    exact .inl ⟨_, w', hout, .inr ⟨rfl, .inl hlt⟩, hsame⟩

end AtRest
end Pool

namespace CommandLine
variable {base : Location} {d d₁ : Disk} {i : Invocation} {t : TableFile} {cache : PageCache}
  {arguments : List String} {s : TableStore} {w : World PageCache} {e : CommandError} {c : Command}

/-- Texts that are read as the values of a row, one for each column. -/
structure ReadAs (schema : Schema) (texts : List String) (values : List Value) : Prop where
  count : texts.length = schema.columns.length
  read : readValues schema.columns texts = .ok values

/-- Why a command that changes rows is refused: its texts are no row, or the table does not take the
row, or there is no row to delete. -/
inductive Refusal (t : TableFile) (d : Disk) : Command → CommandError → Prop where
  | valueCount {texts : List String} (h : texts.length ≠ t.schema.columns.length) :
      Refusal t d (.insert texts) (.valueCount t.schema.columns.length texts.length)
  | value {texts : List String} {cause : ValueError}
      (hcount : texts.length = t.schema.columns.length)
      (h : readValues t.schema.columns texts = .error cause) :
      Refusal t d (.insert texts) (.value cause)
  | searching {texts : List String} {values : List Value} {number : UInt32} {e : FileError}
      (hread : ReadAs t.schema texts values) (h : t.Unreadable d number e) :
      Refusal t d (.insert texts) (.pool (.file e))
  | tooLarge {texts : List String} {values : List Value} (hread : ReadAs t.schema texts values)
      (h : File.maxOffset < ((t.pageCount d).toNat + 1) * t.pageSize) :
      Refusal t d (.insert texts) (.pool (.file (.disk .tooLarge)))
  | reading {page slot : UInt32} {e : FileError} (h : t.Unreadable d page e) :
      Refusal t d (.delete page slot) (.pool (.file e))
  | behind {page slot : UInt32} (h : t.pageCount d ≤ page) :
      Refusal t d (.delete page slot)
        (.pool (.file (.page (.invalidDelete (some ⟨⟨t.id, page⟩, slot⟩)))))
  | free {page slot : UInt32} {p : Page} (hread : t.readPage d ⟨t.id, page⟩ = .ok p)
      (h : ¬ p.Holds ⟨⟨t.id, page⟩, slot⟩) :
      Refusal t d (.delete page slot)
        (.pool (.file (.page (.invalidDelete (some ⟨⟨t.id, page⟩, slot⟩)))))

/-- What comes of a command that changes rows: it is refused, and no file has other bytes, or it has
changed one page, and tells the record id. -/
inductive Edits (t : TableFile) (d : Disk) : Command → Report → Disk → Prop where
  | refused {c : Command} {e : CommandError} {d' : Disk} (why : Refusal t d c e)
      (hsame : ∀ l, (d'.fileAt l).contents = (d.fileAt l).contents) :
      Edits t d c (.ofFailure "" (.error e)) d'
  | inserted {texts : List String} {values : List Value} {rid : RecordId} {p q : Page} {d' : Disk}
      (hread : ReadAs t.schema texts values) (h : t.RowStored values rid p q d d') :
      Edits t d (.insert texts) ⟨0, "inserted at " ++ rid.render ++ "\n", ""⟩ d'
  | deleted {page slot : UInt32} {p q : Page} {d' : Disk}
      (h : t.RowFreed ⟨⟨t.id, page⟩, slot⟩ p q d d') :
      Edits t d (.delete page slot)
        ⟨0, "deleted " ++ (RecordId.mk ⟨t.id, page⟩ slot).render ++ "\n", ""⟩ d'

/-- Values that are read for columns fit them: the check of the page never fails. -/
theorem Refusal.ne_schemaMismatch (h : Refusal t d c e) (k : TableId) :
    e ≠ .pool (.file (.page (.schemaMismatch k))) := by
  rintro rfl
  cases h with
  | searching _ h => rcases h.reason with h | ⟨_, _, h⟩ <;> cases h
  | reading h => rcases h.reason with h | ⟨_, _, h⟩ <;> cases h

/-- A command that does not succeed has given no file other bytes. -/
theorem Edits.contents_eq {r : Report} {d' : Disk} (h : Edits t d c r d') (hfails : r.exitCode ≠ 0)
    (l : Location) : (d'.fileAt l).contents = (d.fileAt l).contents := by
  cases h with
  | refused _ hsame => exact hsame l
  | inserted => exact absurd rfl hfails
  | deleted => exact absurd rfl hfails

theorem Session.atRest (h : Session base d i t cache d₁)
    (hslots : ∀ l, Layout.make t.pageSize t.schema.width = .ok l → l.slotCount ≤ 2 ^ 32)
    (hpages : ceilDiv (d.fileAt t.location).length t.pageSize < 2 ^ 32)
    (hlong : (d.fileAt t.location).length ≤ File.maxOffset) :
    ∃ s, Pool.AtRest t s (Pool.fresh d₁ cache) := by
  rw [← h.fileAt_eq] at hpages hlong
  have hcoherent : Pool.Coherent (.single t) (Pool.fresh d₁ cache) := Pool.coherent_fresh h.pool d₁
  exact ⟨_, h.opened, hslots, h.sameBut.there, hpages,
    Pool.sheltered_fresh h.pool (Catalog.addressed_single hlong), hcoherent.keeps,
    Pool.clean_fresh h.pool d₁⟩

theorem edits_insert (h : Pool.AtRest t s w) (cache : PageCache) (texts : List String) :
    ∃ r c, (insertRow ⟨.single t, t, cache⟩ texts).outcome ⟨w, ""⟩ = (r, c) ∧
      Edits t w.disk (.insert texts) (.of c.output r) c.world.disk := by
  unfold insertRow
  by_cases hcount : texts.length = t.schema.columns.length
  · simp only [if_pos hcount]
    cases hvalues : readValues t.schema.columns texts with
    | error cause => exact ⟨_, _, rfl, .refused (.value hcount hvalues) fun _ => rfl⟩
    | ok values =>
      have hread : ReadAs t.schema texts values := ⟨hcount, hvalues⟩
      rcases h.insert_cases transaction (conforms_of_readValues hcount hvalues) with
        ⟨e, w', hrun, hwhy, hsame⟩ | ⟨rid, handle, w₁, w₂, p, q, hrun, hflush, hstored⟩
      · refine ⟨.error (.error (.pool (.file e))), ⟨w', ""⟩, ?_, .refused ?_ hsame⟩
        · simp only [Action.outcome_bind, Action.outcome_lift, mapError_ok, outcome_onWorld, hrun,
            outcome_discard, outcome_expect, mapError_error, Failure.map, Except.map]
        · rcases hwhy with ⟨number, hunreadable⟩ | ⟨rfl, hend⟩
          · exact .searching hread hunreadable
          · exact .tooLarge hread hend
      · refine ⟨.ok (), ⟨w₂, "inserted at " ++ rid.render ++ "\n"⟩, ?_, .inserted hread hstored⟩
        simp only [Action.outcome_bind, Action.outcome_lift, mapError_ok, outcome_onWorld, hrun,
          outcome_discard, outcome_expect, Except.map, run_eq_outcome, hflush, outcome_printLine,
          String.empty_append]
  · simp only [if_neg hcount]
    exact ⟨_, _, rfl, .refused (.valueCount hcount) fun _ => rfl⟩

theorem edits_delete (h : Pool.AtRest t s w) (cache : PageCache) (page slot : UInt32) :
    ∃ r c, (deleteRow ⟨.single t, t, cache⟩ page slot).outcome ⟨w, ""⟩ = (r, c) ∧
      Edits t w.disk (.delete page slot) (.of c.output r) c.world.disk := by
  unfold deleteRow
  rcases h.delete_cases transaction page slot with
    ⟨e, w', hout, hwhy, hsame⟩ | ⟨handle, w₁, w₂, p, q, hout, hflush, hfreed⟩
  · refine ⟨.error (.error (.pool (.file e))), ⟨w', ""⟩, ?_, .refused ?_ hsame⟩
    · simp only [Action.outcome_bind, outcome_onWorld, run_eq_outcome, hout, outcome_discard,
        outcome_expect, mapError_error, Failure.map, Except.map]
    · rcases hwhy with hunreadable | ⟨rfl, hbehind | ⟨p, hread, hfree⟩⟩
      · exact .reading hunreadable
      · exact .behind hbehind
      · exact .free hread hfree
  · refine ⟨.ok (), ⟨w₂, _⟩, ?_, .deleted hfreed⟩
    simp only [Action.outcome_bind, outcome_onWorld, run_eq_outcome, hout, outcome_discard,
      outcome_expect, mapError_ok, Except.map, hflush, outcome_printLine, String.empty_append]

/-- On every file of less than 2³² pages, of whatever bytes, a command that changes rows changes the
page of the record id that it tells, in one slot, or adds this page to the file; else it fails, and no
file has other bytes. A row whose values can be read for its columns is never refused as one that does
not fit them. -/
theorem edits_one_page (h : Session base d i t cache d₁)
    (hparse : Invocation.parse arguments = .ok i) (hinfo : i.command ≠ .info)
    (hscan : i.command ≠ .scan)
    (hslots : ∀ l, Layout.make t.pageSize t.schema.width = .ok l → l.slotCount ≤ 2 ^ 32)
    (hpages : ceilDiv (d.fileAt t.location).length t.pageSize < 2 ^ 32)
    (hlong : (d.fileAt t.location).length ≤ File.maxOffset) :
    Edits t d₁ i.command (run base arguments d).1 (run base arguments d).2 ∧
      ((run base arguments d).1.exitCode ≠ 0 → ∀ l,
        ((run base arguments d).2.fileAt l).contents = (d.fileAt l).contents) ∧
      (∀ e k, Refusal t d₁ i.command e → e ≠ .pool (.file (.page (.schemaMismatch k)))) ∧
        Disk.SameBut t.location d d₁ ∧ ∀ l, d₁.fileAt l = d.fileAt l := by
  obtain ⟨s, hrest⟩ := h.atRest hslots hpages hlong
  have hedits : Edits t d₁ i.command (run base arguments d).1 (run base arguments d).2 := by
    rw [h.run_eq hparse]
    cases hcommand : i.command with
    | info => exact absurd hcommand hinfo
    | scan => exact absurd hcommand hscan
    | insert texts =>
      obtain ⟨r, c, hout, hedits⟩ := edits_insert hrest cache texts
      simp only [perform, hout]
      exact hedits
    | delete page slot =>
      obtain ⟨r, c, hout, hedits⟩ := edits_delete hrest cache page slot
      simp only [perform, hout]
      exact hedits
  refine ⟨hedits, fun hfails l => ?_, fun _ k hrefusal => hrefusal.ne_schemaMismatch k, h.sameBut,
    h.fileAt_eq⟩
  rw [hedits.contents_eq hfails, h.fileAt_eq]

/-- A number goes into the free slot of the first page; from the page that is cut short nothing can be
deleted. -/
theorem edits_one_page_torn :
    ((run [] (Use.numbers "a" 1 ["insert", "7"] (.insert ["7"])).arguments tornDisk).1.exitCode =
        0 ∧
      Edits tornTable tornDisk (.insert ["7"])
        (run [] (Use.numbers "a" 1 ["insert", "7"] (.insert ["7"])).arguments tornDisk).1
        (run [] (Use.numbers "a" 1 ["insert", "7"] (.insert ["7"])).arguments tornDisk).2) ∧
    ((run [] (Use.numbers "a" 2 ["delete", "1", "0"] (.delete ⟨1, 0⟩)).arguments
        tornDisk).1.exitCode = 1 ∧
      Edits tornTable tornDisk (.delete 1 0)
        (run [] (Use.numbers "a" 2 ["delete", "1", "0"] (.delete ⟨1, 0⟩)).arguments tornDisk).1
        (run [] (Use.numbers "a" 2 ["delete", "1", "0"] (.delete ⟨1, 0⟩)).arguments tornDisk).2) := by
  have hslots : ∀ l, Layout.make tornTable.pageSize tornTable.schema.width = .ok l →
      l.slotCount ≤ 2 ^ 32 := by
    intro l hl
    obtain rfl : ⟨17, 8, 2, 1⟩ = l := Except.ok.inj hl
    decide
  refine ⟨⟨by decide +kernel, ?_⟩, by decide +kernel, ?_⟩
  · exact (edits_one_page (i := (Use.numbers "a" 1 ["insert", "7"] (.insert ["7"])).invocation)
      (session_torn rfl rfl rfl rfl) (by decide +kernel) nofun nofun hslots (by decide)
      (by decide)).1
  · exact (edits_one_page (i := (Use.numbers "a" 2 ["delete", "1", "0"] (.delete ⟨1, 0⟩)).invocation)
      (session_torn rfl rfl rfl rfl) (by decide +kernel) nofun nofun hslots (by decide)
      (by decide)).1

end CommandLine
end RowStore
