import RowStore.Proofs.PageInvariant
import RowStore.Proofs.PoolScan

/-! What a table does with its source of pages: it asks for one page after the other, and in the end
changes the page that it got last, or fails. -/
namespace RowStore.TableFile

open RowStore.Action

variable {σ : Type} {t : TableFile} {source : PageSource σ} {P : World σ → Prop} {w : World σ}
  {txn : TxnId} {id : PageId} {h : Handle} {p : Page} {r : Row}

/-- A source was asked for a page in a world with a property, and handed it out in this one, which
has the property as well. -/
structure Handed (source : PageSource σ) (P : World σ → Prop) (txn : TxnId) (id : PageId)
    (h : Handle) (p : Page) (w : World σ) : Prop where
  holds : P w
  given : ∃ w₀, P w₀ ∧ (source txn id .readWrite).outcome w₀ = (.ok h, w)
  page : w.loaded[h.index]? = some p

/-- What comes of storing a row: it is on a page of the table that was handed out, or the requests
for pages were all. -/
def Settles (t : TableFile) (source : PageSource σ) (P : World σ → Prop) (txn : TxnId) (r : Row) :
    Except (Failure FileError) Stored × World σ → Prop
  | (.error _, w) => P w
  | (.ok st, w) => ∃ id p w₁ rid q, id.table = t.id ∧ Handed source P txn id st.handle p w₁ ∧
      p.insert r = .ok (rid, q) ∧ st.row = r.stamped rid ∧
        w = { w₁ with loaded := w₁.loaded.setIfInBounds st.handle.index (q.mark (some txn)) }

/-- What comes of deleting a row: it is gone from a page that was handed out, or the requests for
pages were all. -/
def Deletes (source : PageSource σ) (P : World σ → Prop) (txn : TxnId) (rid? : Option RecordId) :
    Except (Failure FileError) Handle × World σ → Prop
  | (.error _, w) => P w
  | (.ok h, w) => ∃ rid p w₁ q, rid? = some rid ∧ Handed source P txn rid.pageId h p w₁ ∧
      p.delete (some rid) = .ok q ∧
        w = { w₁ with loaded := w₁.loaded.setIfInBounds h.index (q.mark (some txn)) }

theorem settles_insertInto (hid : id.table = t.id) (hw : P w)
    (hgiven : ∃ w₀, P w₀ ∧ (source txn id .readWrite).outcome w₀ = (.ok h, w)) (r : Row) :
    t.Settles source P txn r ((insertInto h txn r).outcome w) := by
  unfold insertInto
  simp only [outcome_bind, World.outcome_page]
  cases hp : w.loaded[h.index]? with
  | none => exact hw
  | some p =>
    simp only [outcome_lift]
    cases hi : p.insert r with
    | error e => exact hw
    | ok stored => exact ⟨id, p, w, stored.1, stored.2, hid, ⟨hw, hgiven, hp⟩, hi, rfl, rfl⟩

section Requests
variable (hP : ∀ txn id permission, Preserves P (source txn id permission))
include hP

/-- The search for room asks for pages until it finds one. -/
theorem settles_insertFrom (hw : P w) (t : TableFile) (txn : TxnId) (r : Row) (count : Nat)
    (number : UInt32) :
    match (t.insertFrom source txn r count number).outcome w with
      | (.ok none, w') => P w'
      | (.ok (some st), w') => t.Settles source P txn r (.ok st, w')
      | (.error _, w') => P w' := by
  induction count generalizing number w with
  | zero => exact hw
  | succ count ih =>
    have hw' := hP txn ⟨t.id, number⟩ .readWrite w hw
    unfold insertFrom
    simp only [outcome_bind]
    rcases hout : (source txn ⟨t.id, number⟩ .readWrite).outcome w with ⟨e | h, w'⟩
    · rw [hout] at hw'
      exact hw'
    · rw [hout] at hw'
      simp only [World.outcome_page]
      cases hp : w'.loaded[h.index]? with
      | none => exact hw'
      | some p =>
        by_cases hfree : p.hasFree
        · have hsettles := settles_insertInto rfl hw' ⟨w, hw, hout⟩ r
          simp only [if_pos hfree, outcome_bind]
          generalize (insertInto h txn r).outcome w' = out at hsettles ⊢
          obtain ⟨e | st, w''⟩ := out
          · exact hsettles
          · exact hsettles
        · simp only [if_neg hfree]
          exact ih hw' (number + 1)

variable (hdisk : ∀ {w} d, P w → P { w with disk := d })
include hdisk

theorem settles_insertAppended (hw : P w) (t : TableFile) (txn : TxnId) (r : Row)
    (number : UInt32) :
    t.Settles source P txn r ((t.insertAppended source txn r number).outcome w) := by
  unfold insertAppended
  simp only [outcome_bind, outcome_get, outcome_lift]
  generalize (orFault (Page.empty ⟨t.id, number⟩ t.schema t.pageSize) >>= t.writePage w.disk :
    Except (Failure FileError) Disk) = written
  rcases written with e | d
  · exact hw
  · have hwritten : P { w with disk := d } := hdisk d hw
    have hw' := hP txn ⟨t.id, number⟩ .readWrite _ hwritten
    simp only [outcome_set]
    rcases hout : (source txn ⟨t.id, number⟩ .readWrite).outcome { w with disk := d } with
      ⟨e | h, w'⟩
    · rw [hout] at hw'
      exact hw'
    · rw [hout] at hw'
      exact settles_insertInto rfl hw' ⟨_, hwritten, hout⟩ r

theorem settles_insert (hw : P w) (t : TableFile) (txn : TxnId) (r : Row) :
    t.Settles source P txn r ((t.insert source txn r).outcome w) := by
  unfold insert
  split
  · have hsearch := settles_insertFrom hP hw t txn r (t.pageCount w.disk).toNat 0
    simp only [outcome_bind, outcome_get]
    generalize (t.insertFrom source txn r (t.pageCount w.disk).toNat 0).outcome w = out
      at hsearch ⊢
    obtain ⟨e | _ | st, w'⟩ := out
    · exact hsearch
    · exact settles_insertAppended hP hdisk hsearch t txn r _
    · exact hsearch
  · exact hw

omit hdisk in
theorem deletes_delete (hw : P w) (t : TableFile) (txn : TxnId) (rid? : Option RecordId) :
    Deletes source P txn rid? ((t.delete source txn rid?).outcome w) := by
  unfold delete
  cases rid? with
  | none => exact hw
  | some rid =>
    simp only [outcome_bind, outcome_get]
    split
    · have hw' := hP txn rid.pageId .readWrite w hw
      simp only [outcome_bind]
      rcases hout : (source txn rid.pageId .readWrite).outcome w with ⟨e | h, w'⟩
      · rw [hout] at hw'
        exact hw'
      · rw [hout] at hw'
        simp only [World.outcome_page]
        cases hp : w'.loaded[h.index]? with
        | none => exact hw'
        | some p =>
          simp only [outcome_lift]
          cases hdel : p.delete (some rid) with
          | error e => exact hw'
          | ok q => exact ⟨rid, p, w', q, rfl, ⟨hw', ⟨w, hw, hout⟩, hp⟩, hdel, rfl⟩
    · exact hw

end Requests
end RowStore.TableFile
