import RowStore.Action
import RowStore.Disk
import RowStore.Page

/-! What operations on tables work on: the disk, the loaded pages, and whatever hands out pages. -/
namespace RowStore

/-- Names a loaded page. All who hold the handle see the changes of the page. -/
structure Handle where
  index : Nat
  deriving DecidableEq, Repr

/-- The disk, the pages loaded from it, and the state of the source of pages. -/
structure World (σ : Type) where
  disk : Disk
  loaded : Array Page
  source : σ

namespace World
variable {σ ε : Type}

/-- The page of a handle. -/
def page (h : Handle) : Action (World σ) ε Page := do
  match (← get).loaded[h.index]? with
  | some p => return p
  | none => throw (.fault .danglingHandle)

def setPage (h : Handle) (p : Page) : Action (World σ) ε Unit :=
  modify fun w => { w with loaded := w.loaded.setIfInBounds h.index p }

/-- Keeps a page under a new handle. -/
def load (p : Page) : Action (World σ) ε Handle := do
  let w ← get
  set { w with loaded := w.loaded.push p }
  return ⟨w.loaded.size⟩

@[simp] theorem outcome_page (h : Handle) (w : World σ) :
    (page h : Action (World σ) ε Page).outcome w = match w.loaded[h.index]? with
      | some p => (.ok p, w)
      | none => (.error (.fault .danglingHandle), w) := by
  simp only [page, Action.outcome_bind, Action.outcome_get]
  cases w.loaded[h.index]? <;> rfl

@[simp] theorem outcome_setPage (h : Handle) (p : Page) (w : World σ) :
    (setPage h p : Action (World σ) ε Unit).outcome w =
      (.ok (), { w with loaded := w.loaded.setIfInBounds h.index p }) := rfl

@[simp] theorem outcome_load (p : Page) (w : World σ) :
    (load p : Action (World σ) ε Handle).outcome w =
      (.ok ⟨w.loaded.size⟩, { w with loaded := w.loaded.push p }) := rfl

end World
end RowStore
