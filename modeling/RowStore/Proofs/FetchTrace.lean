import RowStore.Proofs.PoolRefinement

/-! Which pages are fetched for calls on a pool. It depends on the tables and the calls alone, and
not on what is cached. -/
namespace RowStore

namespace TableStore
variable {s s' : TableStore} {t : TableFile} {id : PageId} {p q : Page} {r row : Row}
  {rid : RecordId}

/-- The store that the files of a disk make. -/
def ofDisk (tables : Catalog) (d : Disk) : TableStore where
  length k := (tables.table? k).elim 0 fun t => (d.fileAt t.location).length
  bytes id := (tables.table? id.table).elim [] fun t => t.pageBytes d id.page
  elsewhere l := if tables.locates l then none else some (d.fileAt l)

/-- The pages that are fetched to store a row: all pages up to the first one with a free slot, and
the new page if there is none. -/
def insertReads (s : TableStore) (t : TableFile) (r : Row) : List PageId :=
  if t.schema.conforms r.values then
    let count := (t.pagesIn (s.length t.id)).toNat
    s.reads t Page.hasFree count 0 ++ match s.firstWithRoom t count 0 with
      | .ok none =>
          match s.blank t with
          | .ok p => [p.id]
          | .error _ => []
      | _ => []
  else []

/-- The page that is fetched to free a slot. -/
def deleteReads (s : TableStore) (t : TableFile) (rid : RecordId) : List PageId :=
  if rid.pageId.page < t.pagesIn (s.length t.id) then s.readable t rid.pageId else []

theorem id_of_read (h : s.read t id = .ok p) : p.id = id :=
  (Page.sound_of_decode (read_eq_ok.mp h).2.2).2.1

/-- A search for a free slot ends with the page that it finds. -/
theorem reads_of_firstWithRoom {count : Nat} {number : UInt32}
    (h : s.firstWithRoom t count number = .ok (some p)) :
    ∃ ids, s.reads t Page.hasFree count number = ids ++ [p.id] := by
  induction count generalizing number with
  | zero => cases Except.ok.inj h
  | succ count ih =>
    obtain ⟨q, hq, h⟩ := bind_eq_ok.mp h
    unfold reads
    rw [hq]
    split at h
    · next hfree =>
      obtain rfl := Option.some.inj (Except.ok.inj h)
      exact ⟨[], by simp [hfree, id_of_read hq]⟩
    · next hfull =>
      obtain ⟨ids, hids⟩ := ih h
      exact ⟨⟨t.id, number⟩ :: ids, by simp [hfull, hids]⟩

theorem id_of_insertInto (h : (s.insertInto p r).1 = .ok (row, q)) : q.id = p.id := by
  rcases s.insertInto_cases p r with ⟨e, hout⟩ | ⟨rid, q', hins, hout⟩
  · rw [hout] at h
    contradiction
  · rw [hout] at h
    obtain ⟨-, rfl⟩ := Prod.mk.inj (Except.ok.inj h)
    obtain ⟨-, slot, -, -, rfl⟩ := Page.insert_eq_ok.mp hins
    rfl

/-- The page that gets the row is fetched last. -/
theorem insertReads_of_ok (h : (s.insert t r).1 = .ok (row, q)) :
    ∃ ids, s.insertReads t r = ids ++ [q.id] := by
  unfold insert at h
  unfold insertReads
  by_cases hconf : t.schema.conforms r.values
  · rw [if_pos hconf] at h ⊢
    rcases hfirst : s.firstWithRoom t (t.pagesIn (s.length t.id)).toNat 0 with e | _ | p
    · simp only [hfirst] at h
      contradiction
    · cases hblank : s.blank t with
      | error e =>
        simp only [hfirst, hblank] at h
        contradiction
      | ok p =>
        simp only [hfirst, hblank] at h ⊢
        exact ⟨_, by rw [id_of_insertInto h]⟩
    · simp only [hfirst] at h ⊢
      rw [id_of_insertInto h, List.append_nil]
      exact reads_of_firstWithRoom hfirst
  · rw [if_neg hconf] at h
    contradiction

theorem deleteReads_of_ok (h : (s.delete t rid).1 = .ok q) : s.deleteReads t rid = [q.id] := by
  unfold delete at h
  unfold deleteReads readable
  split at h
  · next hlt =>
    cases hread : s.read t rid.pageId with
    | error e =>
      simp only [hread] at h
      contradiction
    | ok p =>
      simp only [hread] at h
      cases hdel : p.delete (some rid) with
      | error e =>
        simp only [hdel] at h
        contradiction
      | ok q' =>
        simp only [hdel] at h
        obtain rfl := Except.ok.inj h
        obtain ⟨-, -, -, -, rfl⟩ := Page.delete_eq_ok.mp hdel
        simp only [if_pos hlt, List.cons.injEq, and_true]
        exact (id_of_read hread).symm
  · contradiction

/-- The pages that are fetched for a request. -/
def requestReads (tables : Catalog) (s : TableStore) : Request → List PageId
  | .get _ id _ => (tables.table? id.table).elim [] fun t => s.readable t id
  | .insert _ k r => (tables.table? k).elim [] fun t => s.insertReads t r
  | .delete _ none => []
  | .delete _ (some rid) => (tables.table? rid.pageId.table).elim [] fun t => s.deleteReads t rid
  | .scan _ k => (tables.table? k).elim [] fun t =>
      s.reads t (fun _ => false) (t.pagesIn (s.length t.id)).toNat 0
  | .flushTxn _ => []
  | .flushAll => []

end TableStore

namespace Pool

/-- The pages that are fetched for a step of a scan: the first page, or once the rows at hand are
given all pages up to the next one with rows. -/
def stepReads (s : TableStore) (sc : Scan) : ScanStep → List PageId
  | .start => s.pageReads sc.table 0
  | .rewind => s.pageReads sc.table 0
  | .hasNext => if sc.current = some [] then s.readsAfter sc.table hasRows sc.number else []
  | .next => if sc.current = some [] then s.readsAfter sc.table hasRows sc.number else []
  | .close => []

/-- The pages that are fetched for a call, in this order; a page that cannot be read is not. -/
def fetches (tables : Catalog) (s : TableStore) : Call → List PageId
  | .request q => s.requestReads tables q
  | .fetchPage _ id _ => (tables.table? id.table).elim [] fun t => s.readable t id
  | .flushPage _ => []
  | .discard _ => []
  | .evict => []
  | .scanStep sc step => stepReads s sc step

/-- The store after a call. -/
def storeAfter (tables : Catalog) (s : TableStore) : Call → TableStore
  | .request q => (s.perform tables q).2
  | _ => s

/-- The pages that are fetched for calls made one after the other. -/
def trace (tables : Catalog) (s : TableStore) : List Call → List PageId
  | [] => []
  | call :: calls => fetches tables s call ++ trace tables (storeAfter tables s call) calls

/-- A call that does not ask for a page to leave the cache. A scan is one of a table of the
catalog. -/
def Call.Regular (tables : Catalog) : Call → Prop
  | .discard _ => False
  | .evict => False
  | .scanStep sc _ => tables.table? sc.table.id = some sc.table
  | _ => True

end Pool
end RowStore
