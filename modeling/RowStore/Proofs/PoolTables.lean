import RowStore.Proofs.PoolActions

/-! Rows stored and deleted through a pool: what comes of it is what comes of it in the table store
that the pool stands for. Only a page that finds no room in the cache makes a difference. -/
namespace RowStore

namespace Page
variable {p q : Page} {r : Row} {rid : RecordId}

/-- Storing a row does not depend on the tag. -/
theorem insert_mark (p : Page) (txn : Option TxnId) (r : Row) :
    (p.mark txn).insert r = (p.insert r).map fun (rid, q) => (rid, q.mark txn) := by
  unfold Page.insert
  cases hc : p.schema.conforms r.values with
  | false => simp [mark, hc, Except.map]
  | true =>
    have hfirst : (p.mark txn).firstFree? = p.firstFree? := rfl
    rw [hfirst]
    cases p.firstFree? <;> simp [mark, hc, Except.map, recordId]

theorem delete_mark (p : Page) (txn : Option TxnId) (rid : Option RecordId) :
    (p.mark txn).delete rid = (p.delete rid).map (·.mark txn) := by
  cases rid with
  | none => rfl
  | some rid =>
    by_cases hused : rid.pageId = p.id ∧ p.isUsed rid.slot.toNat
    · have hused' : rid.pageId = (p.mark txn).id ∧ (p.mark txn).isUsed rid.slot.toNat := hused
      simp only [Page.delete, if_pos hused, if_pos hused']
      rfl
    · have hused' : ¬ (rid.pageId = (p.mark txn).id ∧ (p.mark txn).isUsed rid.slot.toNat) := hused
      simp only [Page.delete, if_neg hused, if_neg hused']
      rfl

end Page

/-- Storing never wraps around the number of a page: every file has less than 2³² of them. -/
def TableStore.Small (tables : Catalog) (s : TableStore) : Prop :=
  ∀ k t, tables.table? k = some t → ceilDiv (s.length k) t.pageSize < 2 ^ 32

namespace Pool

variable {tables : Catalog} {s : TableStore} {w w' : World PageCache} {id : PageId} {h : Handle}
  {p q : Page} {t : TableFile} {r : Row}

theorem toFileError_file (e : Failure FileError) :
    (e.map PoolError.file).map PoolError.toFileError = e := by
  cases e <;> rfl

/-- The pool as a source of pages gives what the store has. -/
theorem Keeps.source (hb : tables.Separate) (hw : Keeps tables s w) (id : PageId)
    (ht : tables.table? id.table = some t) (txn : TxnId) (permission : Permission) :
    ∃ res w', (source tables txn id permission).outcome w = (res, w') ∧ Keeps tables s w' ∧
      ((∃ h p, res = .ok h ∧ Cached w' id h p ∧ s.read t id = .ok (p.mark none)) ∨
        ∃ e, res = .error e ∧ (s.read t id = .error e ∨ ¬ s.Fits tables)) := by
  obtain ⟨res, w', hout, hw', hres⟩ := hw.fetch hb ht txn permission
  refine ⟨res.mapError (Failure.map PoolError.toFileError), w', ?_, hw', ?_⟩
  · simp only [Pool.source, Action.outcome_mapError, hout]
  · rcases hres with ⟨h, p, rfl, hc, hread⟩ | ⟨e, rfl, he⟩
    · exact .inl ⟨h, p, rfl, hc, hread⟩
    · refine .inr ⟨_, rfl, he.imp_left ?_⟩
      rintro ⟨e', rfl, hread⟩
      rw [toFileError_file]
      exact hread

/-- A handle in the cache names a page, its tag apart. -/
def Names (w : World PageCache) (h : Handle) (q : Page) : Prop :=
  ∃ p, Cached w q.id h p ∧ p.mark none = q

/-- A row that was stored, in a pool and in the store. -/
def SameRow (w : World PageCache) (st : Stored) (stored : Row × Page) : Prop :=
  st.row = stored.1 ∧ Names w st.handle stored.2

theorem Keeps.insertInto (hw : Keeps tables s w) (ht : tables.table? id.table = some t)
    (hc : Cached w id h p) (txn : TxnId) (r : Row) :
    ∃ res w', (TableFile.insertInto h txn r).outcome w = (res, w') ∧
      Keeps tables (s.insertInto (p.mark none) r).2 w' ∧
        Agree (SameRow w') res (s.insertInto (p.mark none) r).1 := by
  have hplaced := hw.coherent.placed_of_cached hc ht
  unfold TableFile.insertInto TableStore.insertInto
  simp only [Action.outcome_bind, World.outcome_page, hc.2, Action.outcome_lift, Page.insert_mark]
  cases hi : p.insert r with
  | error e => exact ⟨_, w, rfl, hw, rfl⟩
  | ok stored =>
    obtain ⟨rid, q⟩ := stored
    have hq := hplaced.belongs.insert hi
    obtain ⟨hkeeps, hcached⟩ := hw.setPage hc ht (hq.mark (some txn)) rfl
    refine ⟨_, _, rfl, hkeeps, rfl, q.mark (some txn), ?_, rfl⟩
    exact hq.id_eq.symm ▸ hcached

/-- The pages are searched as in the store, and the row goes where it goes there. -/
theorem Keeps.insertFrom (hb : tables.Separate) (ht : tables.table? t.id = some t) (txn : TxnId)
    (r : Row) (count : Nat) (number : UInt32) (hw : Keeps tables s w) :
    ∃ res w', (t.insertFrom (Pool.source tables) txn r count number).outcome w = (res, w') ∧
      ((∃ e, res = .error e ∧ Keeps tables s w' ∧
          (s.firstWithRoom t count number = .error e ∨ ¬ s.Fits tables)) ∨
        (res = .ok none ∧ Keeps tables s w' ∧ s.firstWithRoom t count number = .ok none) ∨
        ∃ p res', s.firstWithRoom t count number = .ok (some p) ∧ res = res'.map some ∧
          Keeps tables (s.insertInto p r).2 w' ∧ Agree (SameRow w') res' (s.insertInto p r).1) := by
  induction count generalizing number w with
  | zero => exact ⟨_, w, rfl, .inr (.inl ⟨rfl, hw, rfl⟩)⟩
  | succ count ih =>
    unfold TableFile.insertFrom
    obtain ⟨res, w', hout, hw', hres⟩ := hw.source hb ⟨t.id, number⟩ ht txn .readWrite
    simp only [Action.outcome_bind, hout]
    rcases hres with ⟨h, p, rfl, hc, hread⟩ | ⟨e, rfl, he⟩
    · have hsearch : s.firstWithRoom t (count + 1) number =
          if p.hasFree then .ok (some (p.mark none)) else s.firstWithRoom t count (number + 1) := by
        rw [TableStore.firstWithRoom, hread]
        rfl
      simp only [World.outcome_page, hc.2, hsearch]
      by_cases hfree : p.hasFree
      · obtain ⟨res', w'', hinto, hw'', hagrees⟩ := hw'.insertInto ht hc txn r
        simp only [if_pos hfree]
        refine ⟨res'.map some, w'', ?_, .inr (.inr ⟨p.mark none, res', rfl, rfl, hw'', hagrees⟩)⟩
        simp only [Action.outcome_bind, hinto]
        cases res' <;> rfl
      · simp only [if_neg hfree]
        exact ih (number + 1) hw'
    · refine ⟨_, w', rfl, .inl ⟨e, rfl, hw', he.imp_left fun hread => ?_⟩⟩
      rw [TableStore.firstWithRoom, hread]
      rfl

theorem fits_append (hlast : s.length t.id = (t.pagesIn (s.length t.id)).toNat * t.pageSize)
    (hblank : s.blank t = .ok p) (hfits : s.Fits tables) : (s.append t p).Fits tables := by
  intro k t' ht'
  simp only [TableStore.append, Function.update_apply]
  split
  · rw [hlast]
    exact (TableStore.blank_eq_ok hblank).2
  · exact hfits k t' ht'

/-- An empty page is written behind the last one if the store can have it there. -/
theorem writeBlank_eq (hpos : 0 < t.pageSize) (s : TableStore) (d : Disk) :
    (do
      let p ← orFault (Page.empty ⟨t.id, t.pagesIn (s.length t.id)⟩ t.schema t.pageSize)
      t.writePage d p) =
    (s.blank t).map fun p => t.putBytes d (t.pagesIn (s.length t.id)) p.image := by
  simp only [TableStore.blank]
  cases hempty : Page.empty ⟨t.id, t.pagesIn (s.length t.id)⟩ t.schema t.pageSize with
  | error f => rfl
  | ok p =>
    have hbelongs := Page.belongs_of_made (.inl hempty)
    simp only [orFault_ok, ok_bind, TableFile.writePage_eq hbelongs hpos rfl]
    cases checkedWord ((t.pagesIn (s.length t.id)).toNat * t.pageSize) with
    | error f => rfl
    | ok offset =>
      simp only [orFault_ok, ok_bind]
      split
      · rfl
      · split <;> rfl

/-- A new page comes behind the last one as in the store; only then the pool may find no room for
it. -/
theorem Keeps.insertAppended (hb : tables.Separate) (hw : Keeps tables s w)
    (ht : tables.table? t.id = some t)
    (hlast : s.length t.id = (t.pagesIn (s.length t.id)).toNat * t.pageSize) (txn : TxnId)
    (r : Row) :
    ∃ res w', (t.insertAppended (Pool.source tables) txn r (t.pagesIn (s.length t.id))).outcome w =
        (res, w') ∧
      ((∃ e, s.blank t = .error e ∧ res = .error e ∧ Keeps tables s w') ∨
        ∃ p, s.blank t = .ok p ∧
          (Keeps tables ((s.append t p).insertInto p r).2 w' ∧
              Agree (SameRow w') res ((s.append t p).insertInto p r).1 ∨
            (∃ e, res = .error e) ∧ Keeps tables (s.append t p) w' ∧ ¬ s.Fits tables)) := by
  unfold TableFile.insertAppended
  simp only [Action.outcome_bind, Action.outcome_get, Action.outcome_lift,
    writeBlank_eq (hb.size_pos ht) s]
  cases hblank : s.blank t with
  | error e => exact ⟨_, w, rfl, .inl ⟨e, rfl, rfl, hw⟩⟩
  | ok p =>
    obtain ⟨hempty, -⟩ := TableStore.blank_eq_ok hblank
    have hlength : (w.disk.fileAt t.location).length =
        (t.pagesIn (s.length t.id)).toNat * t.pageSize := by
      rw [← hlast, hw.length_eq hb ht]
    have hw₁ := hw.append ⟨t.id, t.pagesIn (s.length t.id)⟩ hb ht
      (Page.belongs_of_made (.inl hempty)) hlength
    have hread := TableStore.read_append hblank hlast
    obtain ⟨res, w', hout, hw', hres⟩ := hw₁.source hb
      ⟨t.id, t.pagesIn (s.length t.id)⟩ ht txn .readWrite
    simp only [Except.map, Action.outcome_set, hout]
    rcases hres with ⟨h, q, rfl, hc, hq⟩ | ⟨e, rfl, he⟩
    · obtain rfl := Except.ok.inj (hread.symm.trans hq)
      obtain ⟨res', w'', hinto, hw'', hagrees⟩ := hw'.insertInto ht hc txn r
      exact ⟨res', w'', hinto, .inr ⟨_, rfl, .inl ⟨hw'', hagrees⟩⟩⟩
    · refine ⟨_, w', rfl, .inr ⟨p, rfl, .inr ⟨⟨e, rfl⟩, hw', fun hfits => ?_⟩⟩⟩
      rcases he with he | hlong
      · rw [hread] at he
        contradiction
      · exact hlong (fits_append hlast hblank hfits)

/-- Storing a row does what it does in the store. A pool that finds no room for a page may fail
instead; then no row is stored, though an empty page may have come behind the last one. -/
theorem Keeps.insertRow (hb : tables.Separate) (hsmall : s.Small tables) (hw : Keeps tables s w)
    (ht : tables.table? t.id = some t) (txn : TxnId) (r : Row) :
    ∃ res w', (t.insert (Pool.source tables) txn r).outcome w = (res, w') ∧
      (Keeps tables (s.insert t r).2 w' ∧ Agree (SameRow w') res (s.insert t r).1 ∨
        (∃ e, res = .error e) ∧ ¬ s.Fits tables ∧ (Keeps tables s w' ∨
          ∃ p, s.blank t = .ok p ∧
            s.length t.id = (t.pagesIn (s.length t.id)).toNat * t.pageSize ∧
              Keeps tables (s.append t p) w')) := by
  have hcount := hw.pageCount_eq hb ht
  unfold TableFile.insert TableStore.insert
  by_cases hconf : t.schema.conforms r.values
  · simp only [if_pos hconf, Action.outcome_bind, Action.outcome_get, hcount]
    obtain ⟨res, w', hout, hres⟩ :=
      hw.insertFrom hb ht txn r (t.pagesIn (s.length t.id)).toNat 0
    simp only [hout]
    rcases hres with ⟨e, rfl, hw', he⟩ | ⟨rfl, hw', hnone⟩ | ⟨p, res', hsome, rfl, hw', hagrees⟩
    · refine ⟨_, w', rfl, ?_⟩
      rcases he with he | hlong
      · simp only [he]
        exact .inl ⟨hw', rfl⟩
      · exact .inr ⟨⟨e, rfl⟩, hlong, .inl hw'⟩
    · have hlast := TableStore.length_of_firstWithRoom (hb.size_pos ht) (hsmall t.id t ht) hnone
      obtain ⟨res', w'', hout', hres'⟩ := hw'.insertAppended hb ht hlast txn r
      simp only [hnone]
      refine ⟨res', w'', hout', ?_⟩
      rcases hres' with ⟨e, hblank, rfl, hw''⟩ | ⟨p, hblank, ⟨hw'', hagrees⟩ | ⟨he, hw'', hlong⟩⟩
      · simp only [hblank]
        exact .inl ⟨hw'', rfl⟩
      · simp only [hblank]
        exact .inl ⟨hw'', hagrees⟩
      · exact .inr ⟨he, hlong, .inr ⟨p, hblank, hlast, hw''⟩⟩
    · simp only [hsome]
      cases res' with
      | error e => exact ⟨_, w', rfl, .inl ⟨hw', hagrees⟩⟩
      | ok st => exact ⟨_, w', rfl, .inl ⟨hw', hagrees⟩⟩
  · simp only [if_neg hconf]
    exact ⟨_, w, rfl, .inl ⟨hw, rfl⟩⟩

/-- Deleting a row does what it does in the store, unless the pool finds no room for its page. -/
theorem Keeps.deleteRow (hb : tables.Separate) (hw : Keeps tables s w)
    (ht : tables.table? t.id = some t) (txn : TxnId) {rid : RecordId}
    (hrid : rid.pageId.table = t.id) :
    ∃ res w', (t.delete (Pool.source tables) txn (some rid)).outcome w = (res, w') ∧
      (Keeps tables (s.delete t rid).2 w' ∧ Agree (Names w') res (s.delete t rid).1 ∨
        (∃ e, res = .error e) ∧ ¬ s.Fits tables ∧ Keeps tables s w') := by
  have hcount := hw.pageCount_eq hb ht
  have ht' : tables.table? rid.pageId.table = some t := hrid ▸ ht
  unfold TableFile.delete TableStore.delete
  simp only [Action.outcome_bind, Action.outcome_get, hcount, hrid, true_and]
  by_cases hlt : rid.pageId.page < t.pagesIn (s.length t.id)
  · simp only [if_pos hlt, Action.outcome_bind]
    obtain ⟨res, w', hout, hw', hres⟩ := hw.source hb _ ht' txn .readWrite
    simp only [hout]
    rcases hres with ⟨h, p, rfl, hc, hread⟩ | ⟨e, rfl, he⟩
    · simp only [World.outcome_page, hc.2, Action.outcome_lift, hread, Page.delete_mark]
      cases hd : p.delete (some rid) with
      | error e => exact ⟨_, w', rfl, .inl ⟨hw', rfl⟩⟩
      | ok q =>
        have hq := (hw'.coherent.placed_of_cached hc ht').belongs.delete hd
        obtain ⟨hkeeps, hcached⟩ := hw'.setPage hc ht' (hq.mark (some txn)) rfl
        exact ⟨_, _, rfl, .inl ⟨hkeeps, q.mark (some txn), hq.id_eq.symm ▸ hcached, rfl⟩⟩
    · refine ⟨_, w', rfl, ?_⟩
      rcases he with he | hlong
      · simp only [he]
        exact .inl ⟨hw', rfl⟩
      · exact .inr ⟨⟨e, rfl⟩, hlong, hw'⟩
  · simp only [if_neg hlt]
    exact ⟨_, w, rfl, .inl ⟨hw, rfl⟩⟩

end Pool
end RowStore
