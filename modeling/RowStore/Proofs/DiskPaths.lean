import RowStore.Proofs.CatalogInvariant
import RowStore.Proofs.FileBytes

/-! Where paths lead: that depends on the directories of a disk, and not on what its files hold. -/
namespace RowStore.Disk

variable {d d' d₁ : Disk} {l l' base : Location} {p : Path}

theorem entry?_setFile_self (d : Disk) (h : l ≠ []) (f : File) :
    Disk.entry? (d.setFile l f) l = some (.file f) := by
  unfold Disk.entry?
  simp [setFile, setEntry, h]

theorem entry?_setFile_of_ne (d : Disk) (h : l' ≠ l) (f : File) :
    Disk.entry? (d.setFile l f) l' = d.entry? l' := by
  unfold Disk.entry?
  rw [lookup_setFile_of_ne d h]

/-- Where relative paths start has no part in what stands at a place. -/
@[simp] theorem entry?_seenFrom (d : Disk) (base l : Location) :
    Disk.entry? (d.seenFrom base) l = d.entry? l := rfl

@[simp] theorem fileAt_seenFrom (d : Disk) (base l : Location) :
    (d.seenFrom base).fileAt l = d.fileAt l := rfl

theorem fileAt_of_none (h : d.entry? l = none) : d.fileAt l = {} := by
  simp only [fileAt, file?, h]
  rfl

/-- Disks that differ in one place at most, where neither has a directory. -/
structure SameBut (l : Location) (d d' : Disk) : Prop where
  elsewhere : ∀ l', l' ≠ l → d'.entry? l' = d.entry? l'
  here : d.entry? l ≠ some .directory
  there : d'.entry? l ≠ some .directory

namespace SameBut

theorem refl (h : d.entry? l ≠ some .directory) : SameBut l d d := ⟨fun _ _ => rfl, h, h⟩

theorem trans (h : SameBut l d d₁) (h' : SameBut l d₁ d') : SameBut l d d' :=
  ⟨fun l' hl => (h'.elsewhere l' hl).trans (h.elsewhere l' hl), h.here, h'.there⟩

theorem setFile (h : SameBut l d d') (hl : l ≠ []) (f : File) : SameBut l d (d'.setFile l f) :=
  ⟨fun l' hl' => (entry?_setFile_of_ne d' hl' f).trans (h.elsewhere l' hl'), h.here, by
    rw [entry?_setFile_self d' hl]
    simp⟩

@[simp] theorem seenFrom_left : SameBut l (d.seenFrom base) d' ↔ SameBut l d d' :=
  ⟨fun h => ⟨h.elsewhere, h.here, h.there⟩, fun h => ⟨h.elsewhere, h.here, h.there⟩⟩

@[simp] theorem seenFrom_right : SameBut l d (d'.seenFrom base) ↔ SameBut l d d' :=
  ⟨fun h => ⟨h.elsewhere, h.here, h.there⟩, fun h => ⟨h.elsewhere, h.here, h.there⟩⟩

/-- The same places are directories. -/
theorem directory (h : SameBut l d d') (hdir : d.entry? l' = some .directory) :
    d'.entry? l' = some .directory := by
  by_cases hl : l' = l
  · exact absurd (hl ▸ hdir) h.here
  · rw [h.elsewhere l' hl, hdir]

theorem descend (h : SameBut l d d') {start stop : Location} {steps : List String}
    (hdescend : d.descend start steps = .ok stop) : d'.descend start steps = .ok stop := by
  induction steps generalizing start with
  | nil => exact hdescend
  | cons step steps ih =>
    unfold Disk.descend at hdescend ⊢
    cases hchild : child start step with
    | error e =>
      rw [hchild] at hdescend
      contradiction
    | ok next =>
      rw [hchild] at hdescend
      dsimp only at hdescend ⊢
      split at hdescend
      · next hdir =>
        rw [h.directory hdir]
        exact ih hdescend
      · contradiction
      · contradiction

theorem lead (h : SameBut l d d') {dir : Location} (hlead : (d.seenFrom base).lead p = .ok dir) :
    (d'.seenFrom base).lead p = .ok dir := by
  have h : SameBut l (d.seenFrom base) (d'.seenFrom base) := by simpa using h
  unfold Disk.lead at hlead ⊢
  split at hlead
  · contradiction
  · next hnul =>
    split at hlead
    · contradiction
    · next hlong =>
      rw [if_neg hnul, if_neg hlong]
      exact h.descend hlead

/-- A path that leads to the place leads there on both disks. No file has other bytes once it is
opened. -/
theorem openFile (h : SameBut l d d') (hopen : (d.seenFrom base).openFile p = .ok (l, d₁)) :
    ∃ d₂, (d'.seenFrom base).openFile p = .ok (l, d₂) ∧ SameBut l d d₂ ∧
      ∀ l', d₂.fileAt l' = d'.fileAt l' := by
  have hl := openFile_ne_nil hopen
  have hthere : SameBut l d (d'.seenFrom base) := seenFrom_right.mpr h
  obtain ⟨dir, hlead, hopen⟩ := bind_eq_ok.mp hopen
  unfold Disk.openFile
  rw [h.lead hlead, ok_bind]
  split at hopen
  · contradiction
  · next last hlast =>
    split at hopen
    · contradiction
    · next hstep =>
      obtain ⟨l', hchild, hopen⟩ := bind_eq_ok.mp hopen
      have heq : l' = l := by
        split at hopen
        · contradiction
        · exact (Prod.mk.inj (Except.ok.inj hopen)).1
        · exact (Prod.mk.inj (Except.ok.inj hopen)).1
      subst heq
      simp only [if_neg hstep, hchild, ok_bind, entry?_seenFrom]
      cases hentry : d'.entry? l' with
      | none =>
        refine ⟨_, rfl, hthere.setFile hl {}, fun l => ?_⟩
        by_cases hsame : l = l'
        · rw [hsame, fileAt_setFile_self _ hl, fileAt_of_none hentry]
        · rw [fileAt_setFile_of_ne _ hsame, fileAt_seenFrom]
      | some entry =>
        cases entry with
        | directory => exact absurd hentry h.there
        | file f => exact ⟨_, rfl, hthere, fun _ => rfl⟩

end SameBut

/-- A file that is opened is there, or else it is made without bytes. -/
theorem openFile_cases (hopen : d.openFile p = .ok (l, d₁)) :
    (∃ f, d.entry? l = some (.file f) ∧ d₁ = d) ∨ d.entry? l = none ∧ d₁ = d.setFile l {} := by
  obtain ⟨dir, -, hopen⟩ := bind_eq_ok.mp hopen
  split at hopen
  · contradiction
  · split at hopen
    · contradiction
    · obtain ⟨l', -, hopen⟩ := bind_eq_ok.mp hopen
      split at hopen
      · contradiction
      · next f hentry =>
        obtain ⟨rfl, rfl⟩ := Prod.mk.inj (Except.ok.inj hopen)
        exact .inl ⟨f, hentry, rfl⟩
      · next hentry =>
        obtain ⟨rfl, rfl⟩ := Prod.mk.inj (Except.ok.inj hopen)
        exact .inr ⟨hentry, rfl⟩

theorem sameBut_of_openFile (hopen : d.openFile p = .ok (l, d₁)) :
    SameBut l d d₁ ∧ ∀ l', d₁.fileAt l' = d.fileAt l' := by
  have hl := openFile_ne_nil hopen
  rcases openFile_cases hopen with ⟨f, hentry, rfl⟩ | ⟨hentry, rfl⟩
  · exact ⟨.refl (by simp [hentry]), fun _ => rfl⟩
  · refine ⟨.setFile (.refl (by simp [hentry])) hl {}, fun l' => ?_⟩
    by_cases hsame : l' = l
    · rw [hsame, fileAt_setFile_self d hl, fileAt_of_none hentry]
    · rw [fileAt_setFile_of_ne d hsame]

end RowStore.Disk
