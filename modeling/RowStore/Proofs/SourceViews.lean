import RowStore.Proofs.PoolScan

/-! Tables and scans know their source of pages only by asking it for pages. What a source keeps
besides, for instance a record of its own states, makes no difference to them. -/
namespace RowStore

namespace Action
variable {σ τ ε δ α β : Type} {f : τ → σ}

/-- Seen through `f`, the states of `x` are those of `y`, and `x` has the same results. -/
def Views (f : τ → σ) (x : Action τ ε α) (y : Action σ ε α) : Prop :=
  ∀ s, y.outcome (f s) = ((x.outcome s).1, f (x.outcome s).2)

theorem views_pure (a : α) : Views f (pure a : Action τ ε α) (pure a) := fun _ => rfl

theorem views_throw (e : Failure ε) : Views f (throw e : Action τ ε α) (throw e) := fun _ => rfl

theorem views_lift (r : Except (Failure ε) α) : Views f (lift r) (lift r) := fun _ => rfl

theorem views_set (s : τ) : Views f (set s : Action τ ε PUnit) (set (f s)) := fun _ => rfl

theorem views_modify {g : τ → τ} {g' : σ → σ} (h : ∀ s, f (g s) = g' (f s)) :
    Views f (modify g : Action τ ε PUnit) (modify g') := fun s => by
  simp only [outcome_modify, h]

theorem Views.bind {x : Action τ ε α} {y : Action σ ε α} {g : α → Action τ ε β}
    {g' : α → Action σ ε β} (hx : Views f x y) (hg : ∀ a, Views f (g a) (g' a)) :
    Views f (x >>= g) (y >>= g') := by
  intro s
  rw [outcome_bind, outcome_bind, hx s]
  rcases x.outcome s with ⟨e | a, t⟩
  · rfl
  · exact hg a t

/-- What follows on looking at the state may depend on what was seen. -/
theorem views_get_bind {g : τ → Action τ ε β} {g' : σ → Action σ ε β}
    (hg : ∀ s, Views f (g s) (g' (f s))) : Views f (get >>= g) (get >>= g') :=
  fun s => hg s s

end Action

namespace World
variable {σ τ ε : Type}

/-- The world with the state of its source seen through `f`. -/
def view (f : τ → σ) (w : World τ) : World σ where
  disk := w.disk
  loaded := w.loaded
  source := f w.source

theorem views_page (f : τ → σ) (h : Handle) :
    Action.Views (view f) (page h : Action (World τ) ε Page) (page h) := by
  intro w
  have hloaded : (w.view f).loaded = w.loaded := rfl
  rw [outcome_page, outcome_page, hloaded]
  cases w.loaded[h.index]? <;> rfl

theorem views_setPage (f : τ → σ) (h : Handle) (p : Page) :
    Action.Views (view f) (setPage h p : Action (World τ) ε Unit) (setPage h p) := fun _ => rfl

end World

/-- Seen through `f`, a source hands out the pages that another one hands out. -/
def PageSource.Views {σ τ : Type} (f : τ → σ) (source : PageSource τ) (plain : PageSource σ) :
    Prop :=
  ∀ txn id permission, Action.Views (World.view f) (source txn id permission)
    (plain txn id permission)

variable {σ τ : Type} {f : τ → σ} {source : PageSource τ} {plain : PageSource σ}

open RowStore.Action

namespace TableFile
open World
variable {t : TableFile}

theorem views_insertInto (f : τ → σ) (h : Handle) (txn : TxnId) (r : Row) :
    Views (view f) (insertInto h txn r) (insertInto h txn r) :=
  (views_page f h).bind fun _ => (views_lift _).bind fun _ => (views_setPage f h _).bind fun _ =>
    views_pure _

section Source
variable (hsource : source.Views f plain)
include hsource

theorem views_insertFrom (t : TableFile) (txn : TxnId) (r : Row) (count : Nat) (number : UInt32) :
    Views (view f) (t.insertFrom source txn r count number)
      (t.insertFrom plain txn r count number) := by
  induction count generalizing number with
  | zero => exact views_pure none
  | succ count ih =>
    refine (hsource _ _ _).bind fun h => (views_page f h).bind fun p => ?_
    split
    · exact (views_insertInto f h txn r).bind fun stored => views_pure _
    · exact ih (number + 1)

theorem views_insertAppended (t : TableFile) (txn : TxnId) (r : Row) (number : UInt32) :
    Views (view f) (t.insertAppended source txn r number) (t.insertAppended plain txn r number) :=
  views_get_bind fun w => (views_lift _).bind fun d => Views.bind (views_set { w with disk := d })
    fun _ => (hsource _ _ _).bind fun h => views_insertInto f h txn r

theorem views_insert (t : TableFile) (txn : TxnId) (r : Row) :
    Views (view f) (t.insert source txn r) (t.insert plain txn r) := by
  unfold insert
  split
  · refine views_get_bind fun w => (views_insertFrom hsource t txn r _ 0).bind fun found => ?_
    cases found with
    | some stored => exact views_pure stored
    | none => exact views_insertAppended hsource t txn r _
  · exact views_lift _

theorem views_delete (t : TableFile) (txn : TxnId) (rid : Option RecordId) :
    Views (view f) (t.delete source txn rid) (t.delete plain txn rid) := by
  unfold delete
  cases rid with
  | none => exact views_lift _
  | some rid =>
    refine views_get_bind fun w => ?_
    have hcount : t.pageCount (w.view f).disk = t.pageCount w.disk := rfl
    simp only [hcount]
    split
    · exact (hsource _ _ _).bind fun h => (views_page f h).bind fun p => (views_lift _).bind
        fun p => (views_setPage f h _).bind fun _ => views_pure h
    · exact views_lift _

end Source
end TableFile

namespace Scan

/-- A scan in a world whose source is seen through `f`. -/
def view (f : τ → σ) (st : Scan × World τ) : Scan × World σ := (st.1, st.2.view f)

theorem views_inWorld {α : Type} {x : Action (World τ) FileError α}
    {y : Action (World σ) FileError α} (hx : Views (World.view f) x y) :
    Views (view f) (inWorld x) (inWorld y) := by
  rintro ⟨s, w⟩
  simp only [view, outcome_inWorld, hx w]

theorem views_update (f : τ → σ) (g : Scan → Scan) : Views (view f) (update g) (update g) :=
  views_modify fun _ => rfl

section Source
variable (hsource : source.Views f plain)
include hsource

theorem views_pageRows (s : Scan) (number : UInt32) :
    Views (World.view f) (pageRows source s number) (pageRows plain s number) := by
  refine views_get_bind fun w => ?_
  have hcount : s.table.pageCount (w.view f).disk = s.table.pageCount w.disk := rfl
  simp only [hcount]
  split
  · exact views_pure _
  · exact (hsource _ _ _).bind fun h => (World.views_page f h).bind fun p => views_pure _

theorem views_start : Views (view f) (start source) (start plain) :=
  (views_update f _).bind fun _ => views_get_bind fun st =>
    (views_inWorld (views_pageRows hsource st.1 0)).bind fun _ => views_update f _

theorem views_rewind : Views (view f) (rewind source) (rewind plain) :=
  (views_update f _).bind fun _ => views_start hsource

theorem views_advance (fuel : Nat) :
    Views (view f) (advance source fuel) (advance plain fuel) := by
  induction fuel with
  | zero => exact views_pure _
  | succ fuel ih =>
    unfold advance
    refine views_get_bind fun st => ?_
    obtain ⟨s, w⟩ := st
    have hcount : s.table.pageCount (w.view f).disk = s.table.pageCount w.disk := rfl
    simp only [view, hcount]
    split
    · exact views_lift _
    · exact views_pure _
    · split
      · split
        · exact views_pure _
        · exact (views_inWorld (views_pageRows hsource s _)).bind fun _ =>
            (views_update f _).bind fun _ => ih
      · exact views_throw _

theorem views_hasNext : Views (view f) (hasNext source) (hasNext plain) :=
  views_get_bind fun st => views_advance hsource st.1.pagesAhead

theorem views_next : Views (view f) (next source) (next plain) := by
  unfold next
  refine (views_hasNext hsource).bind fun more => ?_
  split
  · refine views_get_bind fun st => ?_
    obtain ⟨s, w⟩ := st
    simp only [view]
    split
    · exact (views_update f _).bind fun _ => views_pure _
    · exact views_lift _
  · exact views_lift _

theorem view_drain (fuel : Nat) (st : Scan × World τ) :
    (drain plain fuel).run (view f st) =
      (((drain source fuel).run st).1, view f ((drain source fuel).run st).2) := by
  induction fuel generalizing st with
  | zero => rfl
  | succ fuel ih =>
    rw [run_drain_succ, run_drain_succ, views_hasNext hsource st]
    rcases (hasNext source).outcome st with ⟨e | _ | _, s, w⟩
    · rfl
    · rfl
    · exact congrArg (fun out : _ × Scan × World σ =>
        ((s.current.getD [] ++ out.1.1, out.1.2), out.2)) (ih ({ s with current := some [] }, w))

end Source
end Scan

/-- The same source, which also records the state that each request for a page leaves it in. -/
def PageSource.recorded (source : PageSource σ) : PageSource (σ × List σ) :=
  fun txn id permission => ExceptT.mk fun w =>
    let (r, w') := (source txn id permission).outcome (w.view Prod.fst)
    (r, w'.view fun s => (s, w.source.2 ++ [s]))

theorem outcome_recorded (source : PageSource σ) (txn : TxnId) (id : PageId)
    (permission : Permission) (w : World (σ × List σ)) :
    (source.recorded txn id permission).outcome w =
      let out := (source txn id permission).outcome (w.view Prod.fst)
      (out.1, out.2.view fun s => (s, w.source.2 ++ [s])) := rfl

theorem views_recorded (source : PageSource σ) : source.recorded.Views Prod.fst source :=
  fun _ _ _ _ => rfl

end RowStore
