import RowStore.Proofs.PoolSimulation

/-! The capacity of a pool cannot be observed: pools of any capacities reply alike, and leave the
same files once all is written back. -/
namespace RowStore

namespace TableStore
variable {tables : Catalog} {s : TableStore} {t : TableFile} {p : Page} {r : Row}

/-- Only a new page makes a file longer, and it ends where a file may end. -/
theorem Fits.insert (hb : tables.Separate) (ht : tables.table? t.id = some t) (hfits : s.Fits tables)
    (hsmall : s.Small tables) (r : Row) : (s.insert t r).2.Fits tables := by
  rcases s.insert_cases t r with ⟨e, hout⟩ | ⟨number, p, rid, q, -, -, hout⟩ |
    ⟨p, hnone, hblank, hout⟩
  · rw [hout]
    exact hfits
  · rw [hout]
    exact hfits
  · have hlast := length_of_firstWithRoom (hb.size_pos ht) (hsmall t.id t ht) hnone
    have happend := Pool.fits_append hlast hblank hfits
    rcases hout with ⟨e, hout⟩ | ⟨rid, q, -, hout⟩ <;> rw [hout] <;> exact happend

theorem Fits.delete (hfits : s.Fits tables) (t : TableFile) (rid : RecordId) :
    (s.delete t rid).2.Fits tables := by
  rcases s.delete_cases t rid with ⟨e, hout⟩ | ⟨p, q, -, -, hout⟩ <;> rw [hout] <;> exact hfits

theorem Fits.perform (hb : tables.Separate) (hfits : s.Fits tables) (hsmall : s.Small tables)
    (q : Request) : (s.perform tables q).2.Fits tables := by
  cases q with
  | insert txn k r =>
    simp only [TableStore.perform]
    cases ht : tables.table? k with
    | none => exact hfits
    | some t => exact hfits.insert hb (hb.id_eq ht ▸ ht) hsmall r
  | delete txn rid =>
    cases rid with
    | none => exact hfits
    | some rid =>
      simp only [TableStore.perform]
      cases tables.table? rid.pageId.table with
      | none => exact hfits
      | some t => exact hfits.delete t rid
  | get txn id permission =>
    simp only [TableStore.perform]
    split <;> exact hfits
  | scan txn k =>
    simp only [TableStore.perform]
    split <;> exact hfits
  | flushTxn txn => exact hfits
  | flushAll => exact hfits

end TableStore

namespace Pool

variable {tables : Catalog} {s : TableStore} {w w' : World PageCache} {d : Disk} {c c' : PageCache}

/-- Where every page finds room, the pool replies as the store does. -/
theorem Keeps.perform_eq (hb : tables.Separate) (hfits : s.Fits tables) (hsmall : s.Small tables)
    (hw : Keeps tables s w) (q : Request) :
    (Pool.perform tables w q).1 = (s.perform tables q).1 ∧
      Keeps tables (s.perform tables q).2 (Pool.perform tables w q).2 := by
  rcases hw.perform hb hsmall q with hfollows | ⟨hlong, -⟩
  · exact hfollows
  · exact absurd hfits hlong

/-- A whole run of requests replies as in the store, and stands for the store that they leave. -/
theorem Keeps.run (hb : tables.Separate) (hfits : s.Fits tables) (hw : Keeps tables s w)
    (qs : List Request) (hsmall : ∀ n, (s.after tables (qs.take n)).Small tables) :
    replies tables w qs = s.replies tables qs ∧
      Keeps tables (s.after tables qs) (after tables w qs) ∧
        (s.after tables qs).Fits tables := by
  induction qs generalizing s w with
  | nil => exact ⟨rfl, hw, hfits⟩
  | cons q qs ih =>
    obtain ⟨hreply, hw'⟩ := hw.perform_eq hb hfits (hsmall 0) q
    obtain ⟨hreplies, hrest⟩ := ih (hfits.perform hb (hsmall 0) q) hw' fun n => hsmall (n + 1)
    exact ⟨by rw [replies, TableStore.replies, hreply, hreplies], hrest⟩

/-- Files that stay short in the run of a pool stay short in the store. -/
theorem Keeps.small_after (hb : tables.Separate) (hfits : s.Fits tables) (hw : Keeps tables s w)
    (qs : List Request) (hcounted : ∀ n, tables.Counted (after tables w (qs.take n)).disk) :
    ∀ n, (s.after tables (qs.take n)).Small tables := by
  induction qs generalizing s w with
  | nil =>
    intro n
    rw [List.take_nil]
    exact hw.small_iff.mpr (hcounted 0)
  | cons q qs ih =>
    have hsmall := hw.small_iff.mpr (hcounted 0)
    obtain ⟨-, hw'⟩ := hw.perform_eq hb hfits hsmall q
    have hrest := ih (hfits.perform hb hsmall q) hw' fun n => hcounted (n + 1)
    intro n
    cases n with
    | zero => exact hsmall
    | succ n => exact hrest n

/-- Once all is written back, the bytes of a page in the store are those on the disk. -/
theorem Keeps.pageBytes_of_clean (hw : Keeps tables s w) {k : TableId} {t : TableFile}
    (hclean : ∀ id p, cached? w id = some p → p.dirtiedBy = none)
    (ht : tables.table? k = some t) (number : UInt32) :
    t.pageBytes w.disk number = s.bytes ⟨k, number⟩ := by
  rw [← hw.store_eq, bytes_store ht]
  cases hp : cached? w ⟨k, number⟩ with
  | none => rw [settled, hp]
  | some p => rw [settled_of_clean hp (hclean _ p hp)]

/-- Pools that stand for one store and have written all back have the same files. -/
theorem Keeps.files_eq (hb : tables.Separate) (hsmall : s.Small tables) (hw : Keeps tables s w)
    (hw' : Keeps tables s w') (hclean : ∀ id p, cached? w id = some p → p.dirtiedBy = none)
    (hclean' : ∀ id p, cached? w' id = some p → p.dirtiedBy = none) (l : Location) :
    (w.disk.fileAt l).contents = (w'.disk.fileAt l).contents := by
  cases hl : tables.locates l with
  | false =>
    have helse := congrArg (fun s : TableStore => s.elsewhere l) (hw.store_eq.trans hw'.store_eq.symm)
    simp only [store, hl, Bool.false_eq_true, if_false, Option.some.injEq] at helse
    rw [helse]
  | true =>
    obtain ⟨k, t, ht, rfl⟩ := Catalog.locates_eq_true.mp hl
    have hid := hb.id_eq ht
    have hlength := hw.length_eq hb ht
    have hlength' := hw'.length_eq hb ht
    have hcount := hsmall k t ht
    rw [← hid] at hcount
    unfold File.contents
    rw [← hlength, ← hlength', File.read_eq_map, File.read_eq_map]
    apply List.map_congr_left
    intro i hi
    -- byte `i` lies in page `i / pageSize`, whose number has 32 bits
    have hi := List.mem_range.mp hi
    have hpos := hb.size_pos ht
    have hnumber : i / t.pageSize < 2 ^ 32 := by
      refine lt_of_le_of_lt ?_ hcount
      exact Nat.div_le_div_right (by omega)
    have hwithin := Nat.mod_lt i hpos
    have hsplit : (UInt32.ofNat (i / t.pageSize)).toNat * t.pageSize + i % t.pageSize = i := by
      rw [UInt32.toNat_ofNat_of_lt' hnumber, Nat.mul_comm]
      exact Nat.div_add_mod i t.pageSize
    have hpage := (hw.pageBytes_of_clean hclean ht (UInt32.ofNat (i / t.pageSize))).trans
      (hw'.pageBytes_of_clean hclean' ht _).symm
    have hbyte := congrArg (·[i % t.pageSize]?) hpage
    simp only [TableFile.pageBytes, File.getElem?_read _ hwithin, hsplit, Option.some.injEq] at hbyte
    simpa using hbyte

theorem after_concat (tables : Catalog) (w : World PageCache) (qs : List Request) (q : Request) :
    after tables w (qs ++ [q]) = (perform tables (after tables w qs) q).2 := by
  rw [after, List.foldl_append]
  rfl

/-- After a last flush a pool stands for the same store, and no cached page has changed. -/
theorem Keeps.flushed (hb : tables.Separate) (hfits : s.Fits tables) (hw : Keeps tables s w) :
    Keeps tables s (Pool.perform tables w .flushAll).2 ∧
      ∀ id p, cached? (Pool.perform tables w .flushAll).2 id = some p → p.dirtiedBy = none := by
  obtain ⟨r, w', hout, hw', -, hr⟩ := (quiet_keeps hb).flushAll hw
  simp only [Pool.perform, hout]
  rcases hr with ⟨-, hclean⟩ | ⟨-, hlong⟩
  · exact ⟨hw', hclean⟩
  · exact absurd hfits hlong

/-- Two pools over the same disk, of any capacities, reply alike to every sequence of requests, and
once all is written back their files are the same byte for byte. The files have to stay short
enough for 32 bits to count their pages, and none may be longer at the start than an offset can be:
then the disk takes every page that is written back. -/
theorem capacity_unobservable {a b : Nat} (hb : tables.Backed) (ha : create a = .ok c)
    (hc : create b = .ok c') (hfits : tables.Addressed d) (qs : List Request)
    (hcounted : ∀ n, tables.Counted (after tables (fresh d c) (qs.take n)).disk) :
    replies tables (fresh d c) qs = replies tables (fresh d c') qs ∧
      ∀ l, ((after tables (fresh d c) (qs ++ [.flushAll])).disk.fileAt l).contents =
        ((after tables (fresh d c') (qs ++ [.flushAll])).disk.fileAt l).contents := by
  obtain ⟨-, hempty⟩ := RecencyCache.Live.create (mapError_eq_ok.mp ha)
  obtain ⟨-, hempty'⟩ := RecencyCache.Live.create (mapError_eq_ok.mp hc)
  have hw : Keeps tables (store tables (fresh d c)) (fresh d c) := ⟨coherent_fresh ha d, rfl⟩
  have hw' : Keeps tables (store tables (fresh d c)) (fresh d c') :=
    hw.of_same (coherent_fresh hc d) (fun _ _ _ => rfl)
      (fun id t _ => settled_congr
        ((cached?_of_absent (hempty' id)).trans (cached?_of_absent (hempty id)).symm) rfl)
      fun _ _ => rfl
  have hfits := hw.fits_iff.mpr hfits
  have hsmall := hw.small_after hb hfits qs hcounted
  obtain ⟨hreplies, hend, hfits_end⟩ := hw.run hb hfits qs hsmall
  obtain ⟨hreplies', hend', -⟩ := hw'.run hb hfits qs hsmall
  refine ⟨hreplies.trans hreplies'.symm, fun l => ?_⟩
  have hsmall_end := hsmall qs.length
  rw [List.take_length] at hsmall_end
  obtain ⟨hflushed, hclean⟩ := hend.flushed hb hfits_end
  obtain ⟨hflushed', hclean'⟩ := hend'.flushed hb hfits_end
  rw [after_concat, after_concat]
  exact hflushed.files_eq hb hsmall_end hflushed' hclean hclean' l

/-- Requests for two tables by turns, with a new page for each row. -/
def turns : List Request :=
  [.insert 7 1 ⟨[.integer 5], none⟩, .insert 7 2 ⟨[.integer 6], none⟩,
    .insert 8 1 ⟨[.integer (-1)], none⟩, .get 8 ⟨1, 0⟩ .readOnly,
    .delete 8 (some ⟨⟨1, 0⟩, 0⟩), .scan 8 1, .flushTxn 7]

/-- A pool of one page drops a page at nearly each of these requests, one of nine pages never. -/
theorem capacity_unobservable_turns : ∃ c c', create 1 = .ok c ∧ create 9 = .ok c' ∧
    replies .pair (fresh {} c) turns = replies .pair (fresh {} c') turns ∧
      ∀ l, ((after .pair (fresh {} c) (turns ++ [.flushAll])).disk.fileAt l).contents =
        ((after .pair (fresh {} c') (turns ++ [.flushAll])).disk.fileAt l).contents := by
  obtain ⟨hc, haddressed, hcounted⟩ := pair_run (fun w q => (perform .pair w q).2) 1 {} turns
    (by decide) (by decide +kernel)
  have hc' : create 9 = .ok (roomFor 9) := rfl
  exact ⟨_, _, hc, hc',
    capacity_unobservable Catalog.backed_pair hc hc' haddressed turns hcounted⟩

end Pool
end RowStore
