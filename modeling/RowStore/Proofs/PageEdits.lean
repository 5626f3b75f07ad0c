import RowStore.Proofs.FirstFit

/-! Storing and freeing rows of one page. A row that is stored changes one slot, and freeing that slot
gives the page back; freed slots may come in any order; a call that fails changes nothing. -/
namespace RowStore

namespace Page
variable {p q : Page} {slot : Nat} {r : Row} {rid : RecordId}

/-- Some slots apart, a page is as it was before: the same place, columns and geometry, the same tag,
the same bits, those behind the last slot among them, and the same rows. -/
structure ChangedIn (changed : List Nat) (p q : Page) : Prop where
  id : q.id = p.id
  schema : q.schema = p.schema
  layout : q.layout = p.layout
  tag : q.dirtiedBy = p.dirtiedBy
  header : q.bitmap.size = p.bitmap.size
  bits : ∀ i ∉ changed, q.bitmap.get i = p.bitmap.get i
  slots : q.slots.size = p.slots.size
  rows : ∀ i ∉ changed, q.row? i = p.row? i

/-- A record id of the page whose slot is taken. -/
def Holds (p : Page) (rid : RecordId) : Prop := rid.pageId = p.id ∧ p.isUsed rid.slot.toNat = true

/-- Frees the slots of several record ids, one after the other. -/
def deleteAll (p : Page) (rids : List RecordId) : Except PageError Page :=
  rids.foldlM (fun q rid => q.delete (some rid)) p

theorem changedIn_fill (h : slot < p.slots.size) (hbit : slot / 8 < p.bitmap.size) (r : Row) :
    ChangedIn [slot] p (p.fill slot r) := by
  refine ⟨rfl, rfl, rfl, rfl, Bitmap.size_set _ _, fun i hi => ?_, Array.size_setIfInBounds,
    fun i hi => ?_⟩
  · have hne : slot ≠ i := fun heq => hi (by simp [heq])
    exact (Bitmap.get_set _ hbit i).trans (by simp [hne])
  · rw [row?_fill h, if_neg fun heq => hi (by simp [heq])]

theorem vacate_comm (p : Page) (i j : Nat) : (p.vacate i).vacate j = (p.vacate j).vacate i := by
  unfold vacate
  simp only [Page.mk.injEq, true_and, and_true]
  refine ⟨Bitmap.clear_comm _ _ _, ?_⟩
  refine Array.ext_getElem? fun n => ?_
  simp only [Array.getElem?_setIfInBounds, Array.size_setIfInBounds]
  by_cases hi : i = n <;> by_cases hj : j = n <;> simp [hi, hj]

instance : RightCommutative vacate := ⟨vacate_comm⟩

theorem isUsed_vacate (p : Page) (slot i : Nat) :
    (p.vacate slot).isUsed i = (!decide (slot = i) && p.isUsed i) := by
  have hbit := Bitmap.get_clear p.bitmap slot i
  simp only [isUsed, vacate, hbit]
  exact Bool.and_left_comm _ _ _

/-- A slot that was free is so again after it was filled and freed, and the page is as before. -/
theorem Sound.vacate_fill (h : p.Sound) (hslot : p.LowestFree slot) (r : Row) :
    (p.fill slot r).vacate slot = p := by
  have hbit : slot / 8 < p.bitmap.size := by
    rw [h.bitmap]
    exact Layout.bit_lt h.layout hslot.lt
  have hfree : p.bitmap.get slot = false := by
    simpa [isUsed, hslot.lt] using hslot.free
  have hrow : p.row? slot = none := by
    simpa [h.isUsed_eq] using hslot.free
  have hsize : slot < p.slots.size := h.slots ▸ hslot.lt
  have hslots : (p.slots.setIfInBounds slot (some r)).setIfInBounds slot none = p.slots := by
    rw [Array.setIfInBounds_setIfInBounds]
    rw [row?, Array.getElem?_eq_getElem hsize, Option.join_some] at hrow
    refine Array.ext_getElem? fun i => ?_
    rw [Array.getElem?_setIfInBounds]
    by_cases heq : slot = i
    · rw [if_pos heq, if_pos hsize, ← heq, Array.getElem?_eq_getElem hsize, hrow]
    · rw [if_neg heq]
  have hbits : (p.bitmap.set slot).clear slot = p.bitmap := Bitmap.clear_set hbit hfree
  simp only [Page.vacate, Page.fill, hbits, hslots]

theorem delete_of_holds (h : p.Holds rid) : p.delete (some rid) = .ok (p.vacate rid.slot.toNat) :=
  delete_eq_ok.mpr ⟨rid, rfl, h.1, h.2, rfl⟩

/-- The other record ids of a page keep their slots when one is freed. -/
theorem Holds.vacate {other : RecordId} (h : p.Holds rid) (ho : p.Holds other) (hne : rid ≠ other) :
    (p.vacate rid.slot.toNat).Holds other := by
  refine ⟨ho.1, ?_⟩
  have hslot : rid.slot.toNat ≠ other.slot.toNat := by
    intro heq
    have hpage : rid.pageId = other.pageId := h.1.trans ho.1.symm
    cases rid
    cases other
    exact hne (by simp_all [UInt32.toNat_inj])
  rw [isUsed_vacate, ho.2, Bool.and_true, Bool.not_eq_true', decide_eq_false hslot]

/-- Different record ids whose slots are taken can all be freed. -/
theorem deleteAll_eq_ok {rids : List RecordId} (hnodup : rids.Nodup)
    (hheld : ∀ rid ∈ rids, p.Holds rid) :
    p.deleteAll rids = .ok ((rids.map (·.slot.toNat)).foldl vacate p) := by
  induction rids generalizing p with
  | nil => rfl
  | cons rid rids ih =>
    obtain ⟨hnew, hnodup⟩ := List.nodup_cons.mp hnodup
    have hrid := hheld rid (by simp)
    have hrest : ∀ other ∈ rids, (p.vacate rid.slot.toNat).Holds other := fun other hmem =>
      hrid.vacate (hheld other (by simp [hmem])) fun heq => hnew (heq ▸ hmem)
    rw [deleteAll, List.foldlM_cons, delete_of_holds hrid, ok_bind]
    exact ih hnodup hrest

theorem row?_foldl_vacate (slots : List Nat) (i : Nat) :
    (slots.foldl vacate p).row? i = if i ∈ slots then none else p.row? i := by
  induction slots generalizing p with
  | nil => simp
  | cons slot slots ih =>
    rw [List.foldl_cons, ih, row?_vacate]
    by_cases hi : i ∈ slots
    · simp [hi]
    · simp [hi, eq_comm]

theorem Sound.foldl_vacate (h : p.Sound) (slots : List Nat) : (slots.foldl Page.vacate p).Sound := by
  induction slots generalizing p with
  | nil => exact h
  | cons slot slots ih => exact ih (h.vacate slot)

theorem ChangedIn.vacate {changed : List Nat} (h : ChangedIn changed p q) (hs : slot ∈ changed) :
    ChangedIn changed p (q.vacate slot) := by
  refine ⟨h.id, h.schema, h.layout, h.tag, (Bitmap.size_clear _ _).trans h.header, fun i hi => ?_,
    Array.size_setIfInBounds.trans h.slots, fun i hi => ?_⟩
  · have hne : slot ≠ i := fun heq => hi (heq ▸ hs)
    rw [← h.bits i hi]
    exact (Bitmap.get_clear _ _ _).trans (by simp [hne])
  · have hne : slot ≠ i := fun heq => hi (heq ▸ hs)
    rw [row?_vacate, if_neg hne, h.rows i hi]

theorem ChangedIn.foldl_vacate {changed slots : List Nat} (h : ChangedIn changed p q)
    (hs : slots ⊆ changed) : ChangedIn changed p (slots.foldl Page.vacate q) := by
  induction slots generalizing q with
  | nil => exact h
  | cons slot slots ih =>
    obtain ⟨hslot, hslots⟩ := List.cons_subset.mp hs
    exact ih (h.vacate hslot) hslots

theorem ChangedIn.refl (changed : List Nat) (p : Page) : ChangedIn changed p p :=
  ⟨rfl, rfl, rfl, rfl, rfl, fun _ _ => rfl, rfl, fun _ _ => rfl⟩

theorem insert_eq_error {e : PageError} : p.insert r = .error e ↔
    (¬ p.schema.conforms r.values ∧ e = .schemaMismatch p.id.table) ∨
      (p.schema.conforms r.values ∧ p.Full ∧ e = .full p.id) := by
  unfold insert
  by_cases hr : p.schema.conforms r.values
  · rw [if_pos hr]
    cases hfirst : p.firstFree? with
    | none =>
      have hfull : p.Full := fun slot hs => firstFree?_eq_none hfirst hs
      simp [hr, hfull, eq_comm]
    | some slot =>
      have hroom : ¬ p.Full := fun hfull => by
        obtain ⟨hlt, hfree, -⟩ := firstFree?_eq_some hfirst
        rw [hfull slot hlt] at hfree
        contradiction
      simp [hr, hroom]
  · rw [if_neg hr]
    simp [hr, eq_comm]

theorem delete_eq_error {rid? : Option RecordId} {e : PageError} : p.delete rid? = .error e ↔
    (∀ rid, rid? = some rid → ¬ p.Holds rid) ∧ e = .invalidDelete rid? := by
  cases rid? with
  | none => simp [delete, eq_comm]
  | some rid =>
    by_cases hheld : p.Holds rid
    · simp [delete_of_holds hheld, hheld]
    · have hdelete : p.delete (some rid) = .error (.invalidDelete (some rid)) := if_neg hheld
      simp [hdelete, hheld, eq_comm]

end Page

/-- A page and a row of its caller. -/
structure Held where
  page : Page
  row : Row

namespace Held
variable {p q : Page} {r : Row} {rid : RecordId} {e : PageError}

/-- Stores the row in the page. The row, the bitmap and the slots are changed in this order, and an
error comes with what has changed by then. -/
def store (h : Held) : Except PageError RecordId × Held :=
  if h.page.schema.conforms h.row.values then
    match h.page.firstFree? with
    | none => (.error (.full h.page.id), h)
    | some slot =>
        let rid := h.page.recordId slot
        let h := { h with row := h.row.stamped rid }
        let h := { h with page.bitmap := h.page.bitmap.set slot }
        let h := { h with page.slots := h.page.slots.setIfInBounds slot (some h.row) }
        (.ok rid, h)
  else (.error (.schemaMismatch h.page.id.table), h)

/-- Frees the slot that the row has: the bitmap first, then the slots. -/
def free (h : Held) : Except PageError Unit × Held :=
  match h.row.rid with
  | none => (.error (.invalidDelete none), h)
  | some rid =>
      let slot := rid.slot.toNat
      if rid.pageId = h.page.id ∧ h.page.isUsed slot then
        let h := { h with page.bitmap := h.page.bitmap.clear slot }
        let h := { h with page.slots := h.page.slots.setIfInBounds slot none }
        (.ok (), h)
      else (.error (.invalidDelete (some rid)), h)

theorem store_of_insert (h : p.insert r = .ok (rid, q)) :
    store ⟨p, r⟩ = (.ok rid, ⟨q, r.stamped rid⟩) := by
  obtain ⟨hr, slot, hslot, rfl, rfl⟩ := Page.insert_eq_ok.mp h
  simp only [store, hr, hslot, if_true]
  rfl

theorem store_of_insert_error (h : p.insert r = .error e) : store ⟨p, r⟩ = (.error e, ⟨p, r⟩) := by
  obtain ⟨hr, rfl⟩ | ⟨hr, hfull, rfl⟩ := Page.insert_eq_error.mp h
  · simp [store, hr]
  · have hnone : p.firstFree? = none := by
      rw [← Page.hasFree_eq_false_iff] at hfull
      simpa [Page.hasFree] using hfull
    simp [store, hr, hnone]

theorem free_of_delete (h : p.delete r.rid = .ok q) : free ⟨p, r⟩ = (.ok (), ⟨q, r⟩) := by
  obtain ⟨rid, hrid, hpage, hused, rfl⟩ := Page.delete_eq_ok.mp h
  unfold free
  simp only [hrid]
  exact if_pos ⟨hpage, hused⟩

theorem free_of_delete_error (h : p.delete r.rid = .error e) : free ⟨p, r⟩ = (.error e, ⟨p, r⟩) := by
  obtain ⟨hnot, rfl⟩ := Page.delete_eq_error.mp h
  unfold free
  cases hrid : r.rid with
  | none => rfl
  | some rid => exact if_neg (hnot rid hrid)

end Held

namespace Page
variable {p q : Page} {slot : Nat} {r : Row} {rid : RecordId}

/-- What storing and freeing rows do to a page. -/
structure Reversible (p : Page) : Prop where
  /-- A row that fits goes into the lowest free slot, which can be numbered, and into no other one.
  Freed again at once, it leaves the page as it was. -/
  insert : ∀ r, p.schema.conforms r.values → ¬ p.Full → ∃ slot rid q, p.LowestFree slot ∧
    rid.pageId = p.id ∧ rid.slot.toNat = slot ∧ p.insert r = .ok (rid, q) ∧ ChangedIn [slot] p q ∧
      q.isUsed slot ∧ q.row? slot = some (r.stamped rid) ∧ q.delete (r.stamped rid).rid = .ok p
  /-- Different record ids can all be freed, in every order with the same page in the end. -/
  deleteAll : ∀ rids : List RecordId, rids.Nodup → (∀ rid ∈ rids, p.Holds rid) → ∃ q,
    (∀ order, order.Perm rids → p.deleteAll order = .ok q) ∧
      ChangedIn (rids.map (·.slot.toNat)) p q ∧
        ∀ rid ∈ rids, q.isUsed rid.slot.toNat = false ∧ q.row? rid.slot.toNat = none
  /-- A slot that has been freed cannot be freed again. -/
  twice : ∀ rid q, p.delete (some rid) = .ok q →
    q.delete (some rid) = .error (.invalidDelete (some rid))
  /-- After a slot was freed, a row goes into the lowest free slot, which is that one or is below. -/
  refill : ∀ rid q r, p.delete (some rid) = .ok q → p.schema.conforms r.values →
    ∃ slot rid' q', q.LowestFree slot ∧ slot ≤ rid.slot.toNat ∧
      rid'.pageId = p.id ∧ rid'.slot.toNat = slot ∧ q.insert r = .ok (rid', q')
  /-- What is not stored does not fit the columns, or the page is full. The page and the row of the
  caller stay as they were. -/
  insert_fails : ∀ r e, p.insert r = .error e →
    ((¬ p.schema.conforms r.values ∧ e = .schemaMismatch p.id.table) ∨
      (p.schema.conforms r.values ∧ p.Full ∧ e = .full p.id)) ∧
        Held.store ⟨p, r⟩ = (.error e, ⟨p, r⟩)
  /-- What is not freed is not in the page. The page and the row of the caller stay as they were. -/
  delete_fails : ∀ r e, p.delete r.rid = .error e →
    ((∀ rid, r.rid = some rid → ¬ p.Holds rid) ∧ e = .invalidDelete r.rid) ∧
      Held.free ⟨p, r⟩ = (.error e, ⟨p, r⟩)
  /-- The row of the caller gets its record id when it is stored, and keeps it when it is freed. -/
  calls : (∀ r rid q, p.insert r = .ok (rid, q) →
      Held.store ⟨p, r⟩ = (.ok rid, ⟨q, r.stamped rid⟩)) ∧
    ∀ r q, p.delete r.rid = .ok q → Held.free ⟨p, r⟩ = (.ok (), ⟨q, r⟩)

theorem not_full (hs : slot < p.layout.slotCount) (hfree : p.isUsed slot = false) : ¬ p.Full :=
  fun hfull => by
    rw [hfull slot hs] at hfree
    contradiction

theorem insert_lowest (hfits : p.layout.slotCount ≤ 2 ^ 32)
    (hr : p.schema.conforms r.values) (hslot : p.LowestFree slot) :
    (p.recordId slot).slot.toNat = slot ∧
      p.insert r = .ok (p.recordId slot, p.fill slot (r.stamped (p.recordId slot))) :=
  ⟨UInt32.toNat_ofNat_of_lt' (hslot.lt.trans_le hfits),
    insert_eq_ok.mpr ⟨hr, slot, firstFree?_eq_some_iff.mpr hslot, rfl, rfl⟩⟩

/-- A row that is stored fills one slot, and freeing that slot gives the page back. -/
theorem Sound.delete_insert (h : p.Sound) (hfits : p.layout.slotCount ≤ 2 ^ 32)
    (hr : p.schema.conforms r.values) (hslot : p.LowestFree slot) :
    (p.fill slot (r.stamped (p.recordId slot))).isUsed slot ∧
      (p.fill slot (r.stamped (p.recordId slot))).row? slot = some (r.stamped (p.recordId slot)) ∧
        (p.fill slot (r.stamped (p.recordId slot))).delete (some (p.recordId slot)) = .ok p := by
  have hnumber : (p.recordId slot).slot.toNat = slot := (insert_lowest hfits hr hslot).1
  have hrow : (p.fill slot (r.stamped (p.recordId slot))).row? slot =
      some (r.stamped (p.recordId slot)) := by
    rw [row?_fill (h.slots ▸ hslot.lt), if_pos rfl]
  have hused : (p.fill slot (r.stamped (p.recordId slot))).isUsed slot := by
    rw [(h.fill hslot.lt hr).isUsed_eq, hrow]
    rfl
  refine ⟨hused, hrow, delete_eq_ok.mpr ⟨_, rfl, rfl, hnumber.symm ▸ hused, ?_⟩⟩
  rw [hnumber]
  exact (h.vacate_fill hslot _).symm

theorem Sound.reversible (h : p.Sound) (hfits : p.layout.slotCount ≤ 2 ^ 32) : p.Reversible where
  insert r hr hroom := by
    obtain ⟨slot, hslot⟩ := exists_lowestFree hroom
    obtain ⟨hnumber, hins⟩ := insert_lowest hfits hr hslot
    obtain ⟨hused, hrow, hdel⟩ := h.delete_insert hfits hr hslot
    have hbit : slot / 8 < p.bitmap.size := h.bitmap ▸ Layout.bit_lt h.layout hslot.lt
    exact ⟨slot, p.recordId slot, _, hslot, rfl, hnumber, hins,
      changedIn_fill (h.slots ▸ hslot.lt) hbit _, hused, hrow, hdel⟩
  deleteAll rids hnodup hheld := by
    have hsound := h.foldl_vacate (rids.map (·.slot.toNat))
    have hfreed : ∀ rid ∈ rids,
        ((rids.map (·.slot.toNat)).foldl Page.vacate p).row? rid.slot.toNat = none :=
      fun rid hmem => by rw [row?_foldl_vacate, if_pos (List.mem_map_of_mem hmem)]
    refine ⟨_, fun order hperm => ?_, (ChangedIn.refl _ p).foldl_vacate (List.Subset.refl _),
      fun rid hmem => ⟨?_, hfreed rid hmem⟩⟩
    · rw [deleteAll_eq_ok (hperm.nodup_iff.mpr hnodup) fun rid hmem => hheld rid (hperm.subset hmem)]
      -- the slots are freed in another order only
      exact congrArg Except.ok ((hperm.map _).foldl_eq p)
    · rw [hsound.isUsed_eq, hfreed rid hmem]
      rfl
  twice rid q hdel := by
    obtain ⟨_, hrid, -, -, rfl⟩ := delete_eq_ok.mp hdel
    cases hrid
    refine delete_eq_error.mpr ⟨fun other hother hheld => ?_, rfl⟩
    cases hother
    have hfreed := hheld.2
    rw [isUsed_vacate, decide_eq_true rfl] at hfreed
    exact Bool.false_ne_true hfreed
  refill rid q r hdel hr := by
    obtain ⟨_, hrid, -, hused, rfl⟩ := delete_eq_ok.mp hdel
    cases hrid
    have hlt := lt_of_isUsed hused
    have hfree : (p.vacate rid.slot.toNat).isUsed rid.slot.toNat = false := by
      rw [isUsed_vacate, decide_eq_true rfl]
      rfl
    have hroom : ¬ (p.vacate rid.slot.toNat).Full := not_full hlt hfree
    obtain ⟨slot, hslot⟩ := exists_lowestFree hroom
    have hcount : (p.vacate rid.slot.toNat).layout.slotCount ≤ 2 ^ 32 := hfits
    obtain ⟨hnumber, hins⟩ := insert_lowest hcount hr hslot
    refine ⟨slot, _, _, hslot, ?_, rfl, hnumber, hins⟩
    -- all slots below the lowest free one are taken, and the freed one is not
    by_contra hbelow
    rw [hslot.below _ (not_le.mp hbelow)] at hfree
    contradiction
  insert_fails r e he := ⟨insert_eq_error.mp he, Held.store_of_insert_error he⟩
  delete_fails r e he := ⟨delete_eq_error.mp he, Held.free_of_delete_error he⟩
  calls := ⟨fun _ _ _ h => Held.store_of_insert h, fun _ _ h => Held.free_of_delete h⟩

/-- However a page was made and whatever calls it has seen: what is stored fills the lowest free slot
and nothing else, what is freed at once leaves the page as it was, slots may be freed in any order
but each only once, and a call that fails changes neither the page nor the row of its caller. -/
theorem reversible_after {id : PageId} {schema : Schema} {size : Nat} {start : Page}
    (h : Made id schema size start) (hfits : start.layout.slotCount ≤ 2 ^ 32) (cs : List Change) :
    (start.after cs).Reversible := by
  have hstart := belongs_of_made h
  have hafter := hstart.after cs
  have hlayout : (start.after cs).layout = start.layout := by
    have hmake := hafter.sound.layout
    rw [hafter.size_eq, hafter.schema_eq, ← hstart.size_eq, ← hstart.schema_eq,
      hstart.sound.layout] at hmake
    exact (Except.ok.inj hmake).symm
  exact hafter.sound.reversible (hlayout ▸ hfits)

/-- A page of two slots whose bitmap has stray bits: its row is freed, two others are stored, and the
second one of them is freed. -/
theorem reversible_after_stray_bits : ∃ start,
    decode ⟨1, 0⟩ ⟨[⟨"flag", .boolean⟩]⟩ [0x85, 1, 0] = .ok start ∧
      start.layout.slotCount ≤ 2 ^ 32 ∧ (start.after [.delete (some ⟨⟨1, 0⟩, 0⟩),
        .insert ⟨[.boolean false], none⟩, .insert ⟨[.boolean true], none⟩,
        .delete (some ⟨⟨1, 0⟩, 1⟩)]).Reversible := by
  obtain ⟨start, h, hfits⟩ : ∃ start, decode ⟨1, 0⟩ ⟨[⟨"flag", .boolean⟩]⟩ [0x85, 1, 0] = .ok start ∧
    start.layout.slotCount ≤ 2 ^ 32 := ⟨_, rfl, by decide⟩
  exact ⟨start, h, hfits, reversible_after (.inr ⟨_, rfl, h⟩) hfits _⟩

end Page
end RowStore
