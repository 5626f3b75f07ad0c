import RowStore.Proofs.WriteBounds

/-! What is left of an attempt to store a row that failed. The row has the record id that it had
before. The attempt itself has changed nothing, unless no page had room for the row: then it has
written an empty page, under the number of pages that it had counted, and that page stays. Whatever
else is different was done by the source of pages when it was asked for one. -/
namespace RowStore

/-- The worlds to which asking a source for pages leads. -/
inductive Asks {σ : Type} (source : PageSource σ) (w : World σ) : World σ → Prop
  | start : Asks source w w
  | ask {w' : World σ} (h : Asks source w w') (txn : TxnId) (id : PageId)
      (permission : Permission) : Asks source w ((source txn id permission).outcome w').2

/-- What each request for a page keeps is kept however often pages are asked for. -/
theorem Asks.kept {σ : Type} {source : PageSource σ} {w w' : World σ} {P : World σ → Prop}
    (h : Asks source w w')
    (hP : ∀ txn id permission, Action.Preserves P (source txn id permission)) (hw : P w) :
    P w' := by
  induction h with
  | start => exact hw
  | ask _ txn id permission ih => exact hP txn id permission _ ih

namespace TableFile
variable {σ : Type} {t : TableFile} {source : PageSource σ} {txn : TxnId} {r : Row}
  {w w' w₁ : World σ} {d d' : Disk} {number : UInt32} {k : TableId} {pageSize : Nat}
  {e : Failure FileError}

/-- A row as its caller has it after an attempt to store it, and what came of the attempt. -/
structure Attempt where
  row : Row
  result : Except (Failure FileError) Handle

/-- Tries to store a row, which gets a record id with its place on a page. -/
def attempt (t : TableFile) (source : PageSource σ) (txn : TxnId) (r : Row) :
    StateM (World σ) Attempt := do
  match ← (t.insert source txn r).run with
  | .error e => return ⟨r, .error e⟩
  | .ok s => return ⟨s.row, .ok s.handle⟩

/-- An empty page was written under a number, and nothing else: no other file has changed, in a file
of whole pages no byte outside the page, and a file that had just so many pages grows at its end. -/
structure PutsBlank (t : TableFile) (number : UInt32) (d d' : Disk) : Prop where
  written : t.putBlank d number = .ok d'
  others : ∀ l ≠ t.location, d'.fileAt l = d.fileAt l
  inside : t.pageSize ∣ (d.fileAt t.location).length → t.StaysInside number d d'
  atEnd : (d.fileAt t.location).length = number.toNat * t.pageSize → t.GrowsAtEnd d d'

/-- A failed attempt to store a row in a table: what it leaves of the row, and of the world `w`. -/
structure Fails (t : TableFile) (source : PageSource σ) (txn : TxnId) (r : Row) (w : World σ)
    (a : Attempt) (w' : World σ) : Prop where
  row : a.row = r
  misfit : ¬ t.schema.conforms r.values → w' = w
  unextended : (∀ w₁ d, ¬ t.Extends source txn r w w₁ d) → Asks source w w'
  extended : ∀ w₁ d, t.Extends source txn r w w₁ d → Asks source w w₁ ∧
    t.PutsBlank (t.pageCount w.disk) w₁.disk d ∧ Asks source { w₁ with disk := d } w'

theorem run_attempt : (t.attempt source txn r).run w =
    match (t.insert source txn r).outcome w with
    | (.error e, w') => (⟨r, .error e⟩, w')
    | (.ok s, w') => (⟨s.row, .ok s.handle⟩, w') := by
  unfold attempt
  rw [Pool.run_bind]
  simp only [Action.outcome]
  rcases (t.insert source txn r).run.run w with ⟨_ | _, w'⟩ <;> rfl

theorem attempt_eq_error {a : Attempt} (h : (t.attempt source txn r).run w = (a, w'))
    (ha : a.result = .error e) :
    a.row = r ∧ (t.insert source txn r).outcome w = (.error e, w') := by
  rw [run_attempt] at h
  generalize (t.insert source txn r).outcome w = out at h ⊢
  obtain ⟨e' | s, w''⟩ := out
  · obtain ⟨rfl, rfl⟩ := Prod.mk.inj h
    obtain rfl := Except.error.inj ha
    exact ⟨rfl, rfl⟩
  · obtain ⟨rfl, -⟩ := Prod.mk.inj h
    contradiction

theorem preserves_asks (source : PageSource σ) (w : World σ) (txn : TxnId) (id : PageId)
    (permission : Permission) : Action.Preserves (Asks source w) (source txn id permission) :=
  fun _ h => h.ask txn id permission

theorem insert_misfit (hmisfit : ¬ t.schema.conforms r.values) :
    (t.insert source txn r).outcome w = (.error (.error (.page (.schemaMismatch t.id))), w) := by
  unfold insert
  rw [if_neg hmisfit]
  rfl

/-- An attempt that fails before the table is extended has only asked for pages. -/
theorem asks_of_unextended (h : (t.insert source txn r).outcome w = (.error e, w'))
    (hnone : ∀ w₁ d, ¬ t.Extends source txn r w w₁ d) : Asks source w w' := by
  by_cases hconf : t.schema.conforms r.values
  · unfold insert at h
    simp only [if_pos hconf, Action.outcome_bind, Action.outcome_get] at h
    generalize hsearch :
      (t.insertFrom source txn r (t.pageCount w.disk).toNat 0).outcome w = out at h
    obtain ⟨e' | _ | stored, w₁⟩ := out
    · obtain rfl := (Prod.mk.inj h).2
      exact preserves_unstored (preserves_asks source w) .start hsearch nofun
    · -- no page had room; the empty page was not written, or the table would be extended
      have hasks := preserves_search (preserves_asks source w) .start hsearch
      cases hblank : t.putBlank w₁.disk (t.pageCount w.disk) with
      | ok d => exact absurd ⟨hconf, hsearch, hblank⟩ (hnone w₁ d)
      | error e' =>
        simp only [putBlank] at hblank
        simp only [insertAppended, Action.outcome_bind, Action.outcome_get, Action.outcome_lift,
          hblank] at h
        exact (Prod.mk.inj h).2 ▸ hasks
    · cases (Prod.mk.inj h).1
  · rw [insert_misfit hconf] at h
    exact (Prod.mk.inj h).2 ▸ .start

/-- An attempt that fails after the table was extended has only asked for the new page since. -/
theorem asks_of_extends (h : (t.insert source txn r).outcome w = (.error e, w'))
    (hextends : t.Extends source txn r w w₁ d) : Asks source { w₁ with disk := d } w' := by
  have hasked : Asks source { w₁ with disk := d }
      ((source txn ⟨t.id, t.pageCount w.disk⟩ .readWrite).outcome { w₁ with disk := d }).2 :=
    Asks.start.ask txn ⟨t.id, t.pageCount w.disk⟩ .readWrite
  rw [hextends.outcome_insert, Action.outcome_bind] at h
  rcases hgiven : (source txn ⟨t.id, t.pageCount w.disk⟩ .readWrite).outcome
    { w₁ with disk := d } with ⟨e' | handle, w₂⟩
  · rw [hgiven] at h hasked
    exact (Prod.mk.inj h).2 ▸ hasked
  · rw [hgiven] at h hasked
    have hsettles := settles_insertInto (t := t) rfl hasked ⟨_, .start, hgiven⟩ r
    dsimp only at h
    rw [h] at hsettles
    exact hsettles

theorem putsBlank_of_putBlank (hloc : t.location ≠ []) (hpos : 0 < t.pageSize)
    (h : t.putBlank d number = .ok d') : t.PutsBlank number d d' := by
  obtain ⟨p, -, himage, rfl⟩ := putBlank_eq_ok hpos h
  exact ⟨h, fun l hl => fileAt_putBytes_of_ne hl, staysInside_putBytes hloc hpos himage,
    fun hlength => growsAtEnd_of_last hloc hpos hlength h⟩

/-- Whatever hands out the pages, and wherever it fails: an attempt to store a row that fails leaves
the row as it was, and it leaves the file to the source of pages, but for the one empty page that it
writes if it finds no room. -/
theorem insert_fails_cleanly (ht : t.Opened k pageSize) {a : Attempt}
    (h : (t.attempt source txn r).run w = (a, w')) (ha : a.result = .error e) :
    t.Fails source txn r w a w' := by
  obtain ⟨hrow, hinsert⟩ := attempt_eq_error h ha
  refine ⟨hrow, fun hmisfit => ?_, asks_of_unextended hinsert, fun w₁ d hextends => ⟨?_, ?_, ?_⟩⟩
  · rw [insert_misfit hmisfit] at hinsert
    exact (Prod.mk.inj hinsert).2.symm
  · exact preserves_search (preserves_asks source w) .start hextends.searched
  · exact putsBlank_of_putBlank ht.location_ne ht.size_pos hextends.written
  · exact asks_of_extends hinsert hextends

/-- A catalog without tables. -/
def vacant : Catalog where
  pageSize := 9

/-- A pool without tables has no page to hand out, and changes nothing when it is asked for one. -/
theorem preserves_vacant {w : World PageCache} (hget : ∀ id, (w.source.get id).1 = none)
    (txn : TxnId) (id : PageId) (permission : Permission) :
    Action.Preserves (· = w) (Pool.source vacant txn id permission) := by
  rintro w rfl
  have hnone : vacant.table? id.table = none := Std.TreeMap.getElem?_emptyc
  rw [Pool.source, Action.outcome_mapError, Pool.outcome_fetch_none hnone (hget id)]

theorem insert_fails_cleanly_vacant : ∃ c, Pool.create 1 = .ok c ∧
    (∃ w', (numbers.attempt (Pool.source vacant) 7 ⟨[.integer 6], some ⟨⟨2, 3⟩, 4⟩⟩).run
        (Pool.fresh oneRow c) = (⟨⟨[.integer 6], some ⟨⟨2, 3⟩, 4⟩⟩,
          .error (.error (.access (.unknownTable 1)))⟩, w') ∧
      Asks (Pool.source vacant) (Pool.fresh oneRow c) w') ∧
    ∃ (w' w₁ : World PageCache) (d : Disk),
      (numbers.attempt (Pool.source vacant) 7 ⟨[.integer 6], none⟩).run (Pool.fresh {} c) =
        (⟨⟨[.integer 6], none⟩, .error (.error (.access (.unknownTable 1)))⟩, w') ∧
      numbers.GrowsAtEnd w₁.disk d ∧ Asks (Pool.source vacant) { w₁ with disk := d } w' := by
  have hc : Pool.create 1 = .ok (Pool.roomFor 1) := rfl
  have hsearched : numbers.Fails (Pool.source vacant) 7 ⟨[.integer 6], some ⟨⟨2, 3⟩, 4⟩⟩
      (Pool.fresh oneRow (Pool.roomFor 1)) _ _ := insert_fails_cleanly opened_numbers rfl rfl
  have hextended : numbers.Fails (Pool.source vacant) 7 ⟨[.integer 6], none⟩
      (Pool.fresh {} (Pool.roomFor 1)) _ _ := insert_fails_cleanly opened_numbers rfl rfl
  obtain ⟨-, hblank, hasks⟩ := hextended.extended _ _ ⟨rfl, rfl, rfl⟩
  refine ⟨_, hc, ⟨_, rfl, hsearched.unextended fun w₁ d hextends => ?_⟩,
    _, _, _, rfl, hblank.atEnd rfl, hasks⟩
  cases hextends.searched

/-- A pool that does not know the table hands out no page. A row that is to be stored in a file
without pages leaves an empty page there, which no request for a page has written. -/
theorem leaves_blank_page : ∃ c, Pool.create 1 = .ok c ∧
    ∃ w', (numbers.attempt (Pool.source vacant) 7 ⟨[.integer 6], none⟩).run (Pool.fresh {} c) =
        (⟨⟨[.integer 6], none⟩, .error (.error (.access (.unknownTable 1)))⟩, w') ∧
      (∀ w, Asks (Pool.source vacant) (Pool.fresh {} c) w → w = Pool.fresh {} c) ∧
      ((Pool.fresh {} c).disk.fileAt ["a"]).length = 0 ∧ (w'.disk.fileAt ["a"]).length = 9 := by
  refine ⟨Pool.roomFor 1, rfl, _, rfl, fun w h => ?_, rfl, rfl⟩
  exact h.kept (preserves_vacant fun _ => rfl) rfl

end TableFile
end RowStore
