import RowStore.Proofs.DiskPaths
import RowStore.Proofs.PoolCapacity
import RowStore.Proofs.SheetStore
import RowStore.Proofs.TableIsolation

/-! A command on an open table: what it prints and writes to the file is what the sheet of the
table says. -/
namespace RowStore

namespace Catalog
variable {t : TableFile} {l : Layout}

/-- A catalog with one table. -/
def single (t : TableFile) : Catalog where
  pageSize := t.pageSize
  tables := (∅ : Std.TreeMap TableId TableFile).insert t.id t

theorem table?_single : (single t).table? t.id = some t := by
  simp [table?, single]

theorem eq_of_table?_single {k : TableId} {t' : TableFile} (h : (single t).table? k = some t') :
    k = t.id ∧ t' = t := by
  simp only [table?, single, getElem?_insert, Std.TreeMap.getElem?_emptyc] at h
  split at h
  · next hk => exact ⟨hk, (Option.some.inj h).symm⟩
  · contradiction

theorem separate_single (ht : t.Opened t.id t.pageSize) : (single t).Separate where
  registered k t' h := by
    obtain ⟨rfl, rfl⟩ := eq_of_table?_single h
    exact ht
  distinct k k' t₁ t₂ h h' _ := by
    rw [(eq_of_table?_single h).1, (eq_of_table?_single h').1]

end Catalog

namespace Pool
variable {tables : Catalog} {A : Set TableId} {w w' : World PageCache} {t : TableFile}

/-- Where all tables have one file, a pool changes nothing else on the disk. -/
theorem Leads.sameBut {l : Location} (h : Leads tables A w w') (hl : l ≠ [])
    (hloc : ∀ k t, tables.table? k = some t → t.location = l)
    (hfile : w.disk.entry? l ≠ some .directory) : Disk.SameBut l w.disk w'.disk := by
  induction h with
  | refl _ => exact .refl hfile
  | tail _ hstep _ ih =>
    have hput : ∀ k (t : TableFile) d number data, tables.table? k = some t →
        Disk.SameBut l w.disk d → Disk.SameBut l w.disk (t.putBytes d number data) := by
      intro k t d number data ht hd
      rw [TableFile.putBytes, hloc k t ht]
      exact hd.setFile hl _
    cases hstep with
    | keep _ hdisk => exact hdisk ▸ ih
    | drop _ _ _ hdisk => exact hdisk ▸ ih
    | adopt _ _ _ _ _ _ _ _ _ hdisk => exact hdisk ▸ ih
    | change _ _ _ _ _ _ _ _ _ _ hdisk => exact hdisk ▸ ih
    | write id p t ht _ _ _ hdisk => exact hdisk ▸ hput _ t _ _ _ ht ih
    | extend t p _ ht _ _ _ _ hdisk => exact hdisk ▸ hput _ t _ _ _ ht ih

/-- A pool in which no page has changed changes none by itself. -/
theorem Leads.clean (h : Leads tables ∅ w w') (hclean : Clean w) : Clean w' := by
  induction h with
  | refl _ => exact hclean
  | tail _ hstep _ ih =>
    intro id p hp
    cases hstep with
    | keep hview _ => exact ih id p (hview id ▸ hp)
    | drop id' _ hview _ =>
      rw [hview] at hp
      split at hp
      · contradiction
      · exact ih id p hp
    | adopt id' q t _ _ hq _ _ hview _ =>
      rw [hview] at hp
      split at hp
      · exact Option.some.inj hp ▸ hq
      · exact ih id p hp
    | change id' q q' t hA => exact hA.elim
    | write id' q t _ hold hdirty _ _ =>
      rw [Page.isDirty, ih id' q hold] at hdirty
      contradiction
    | extend t q hA => exact hA.elim

variable {s s' : TableStore} {r row : Row} {p : Page} {rid : RecordId}

theorem exists_of_seen {res : Except (Failure PoolError) Handle} (h : seen w res = .ok p) :
    ∃ h', res = .ok h' := by
  cases res with
  | error e => cases h
  | ok h' => exact ⟨h', rfl⟩

/-- A handle that names no page is a fault, and not an error. -/
theorem eq_error_of_seen {res : Except (Failure PoolError) Handle} {e : PoolError}
    (h : seen w res = .error (.error e)) : res = .error (.error e) := by
  cases res with
  | error e' =>
    cases h
    rfl
  | ok h' =>
    simp only [seen, ok_bind] at h
    split at h <;> cases h

section Replies
variable (hb : tables.Separate) (hfits : s.Fits tables) (hsmall : s.Small tables) (hw : Keeps tables s w)
  (ht : tables.table? t.id = some t)
include hb hfits hsmall hw ht

/-- The pool stores a row if the store does, and else it fails as the store does. -/
theorem Keeps.outcome_insert (txn : TxnId) (r : Row) :
    ∃ row res w', (Pool.insert tables txn t.id r).run w = (⟨row, res⟩, w') ∧
      act tables w (.request (.insert txn t.id r)) = w' ∧ Keeps tables (s.insert t r).2 w' ∧
        Reply.stored row (seen w' res) = TableStore.storedReply r (s.insert t r).1 := by
  obtain ⟨hreply, hw'⟩ := hw.perform_eq hb hfits hsmall (.insert txn t.id r)
  simp only [TableStore.perform, Pool.perform, ht] at hreply hw'
  exact ⟨_, _, _, rfl, rfl, hw', hreply⟩

/-- A row that the store takes is stored by the pool. -/
theorem Keeps.run_insert (txn : TxnId) (hins : s.insert t r = (.ok (row, p), s')) :
    ∃ h w', (Pool.insert tables txn t.id r).run w = (⟨row, .ok h⟩, w') ∧
      act tables w (.request (.insert txn t.id r)) = w' ∧ Keeps tables s' w' := by
  obtain ⟨row', res, w', hrun, hact, hw', hreply⟩ := hw.outcome_insert hb hfits hsmall ht txn r
  rw [hins] at hw' hreply
  simp only [TableStore.storedReply, Reply.stored.injEq] at hreply
  obtain ⟨rfl, hseen⟩ := hreply
  obtain ⟨h, rfl⟩ := exists_of_seen hseen
  exact ⟨h, w', hrun, hact, hw'⟩

/-- A row that the store refuses stays as it is. -/
theorem Keeps.run_insert_error (txn : TxnId) {e : FileError}
    (hins : s.insert t r = (.error (.error e), s')) :
    ∃ w', (Pool.insert tables txn t.id r).run w = (⟨r, .error (.error (.file e))⟩, w') ∧
      act tables w (.request (.insert txn t.id r)) = w' ∧ Keeps tables s' w' := by
  obtain ⟨row', res, w', hrun, hact, hw', hreply⟩ := hw.outcome_insert hb hfits hsmall ht txn r
  rw [hins] at hw' hreply
  simp only [TableStore.storedReply, Reply.stored.injEq] at hreply
  obtain ⟨rfl, hseen⟩ := hreply
  obtain rfl := eq_error_of_seen hseen
  exact ⟨w', hrun, hact, hw'⟩

/-- The pool deletes a row if the store does, and else it fails as the store does. -/
theorem Keeps.outcome_delete (txn : TxnId) (hrid : rid.pageId.table = t.id) :
    ∃ res w', (Pool.delete tables txn (some rid)).outcome w = (res, w') ∧
      act tables w (.request (.delete txn (some rid))) = w' ∧ Keeps tables (s.delete t rid).2 w' ∧
        seen w' res = (s.delete t rid).1.mapError (Failure.map .file) := by
  obtain ⟨hreply, hw'⟩ := hw.perform_eq hb hfits hsmall (.delete txn (some rid))
  simp only [TableStore.perform, Pool.perform, hrid, ht, Reply.page.injEq] at hreply hw'
  exact ⟨_, _, rfl, rfl, hw', hreply⟩

end Replies

/-- Once all is written back no cached page has changed. -/
theorem Keeps.outcome_flushAll (hb : tables.Separate) (hfits : s.Fits tables)
    (hw : Keeps tables s w) : ∃ w', (Pool.flushAll tables).outcome w = (.ok (), w') ∧
      act tables w (.request .flushAll) = w' ∧ Keeps tables s w' ∧ Clean w' := by
  obtain ⟨res, w', hout, hw', -, hres⟩ := (quiet_keeps hb).flushAll hw
  obtain ⟨rfl, hclean⟩ := hres.resolve_right fun hlong => hlong.2 hfits
  refine ⟨w', hout, ?_, hw', hclean⟩
  simp only [act, Pool.perform, hout]

end Pool

namespace CommandLine

variable {ε α : Type}

@[simp] theorem outcome_onWorld (x : StateM (World PageCache) α) (c : Console) :
    (onWorld x).outcome c =
      (.ok (x.run c.world).1, { c with world := (x.run c.world).2 }) := rfl

theorem run_eq_outcome (x : Action (World PageCache) ε α) (w : World PageCache) :
    StateT.run (ExceptT.run x) w = x.outcome w := rfl

@[simp] theorem outcome_expect (f : ε → CommandError) (r : Except (Failure ε) α) (c : Console) :
    (expect f r).outcome c = (r.mapError (Failure.map f), c) := rfl

@[simp] theorem outcome_printLine (s : String) (c : Console) :
    (printLine s).outcome c = (.ok (), { c with output := c.output ++ s ++ "\n" }) := rfl

@[simp] theorem outcome_discard (x : Run α) (c : Console) :
    (discard x : Run Unit).outcome c = ((x.outcome c).1.map fun _ => (), (x.outcome c).2) := by
  show (x >>= fun _ => pure ()).outcome c = _
  rw [Action.outcome_bind]
  rcases x.outcome c with ⟨_ | _, c'⟩ <;> rfl

/-- A command prints a text and succeeds, or it prints nothing and fails. -/
def Ends (r : Except (Failure CommandError) Unit) (c : Console) : Option String → Prop
  | some text => r = .ok () ∧ c.output = text
  | none => (∃ e, r = .error (.error e)) ∧ c.output = ""

/-- A command on an open table ends with an answer, and the file then holds a sheet. All that it has
done are calls on the pool. -/
structure Yields (t : TableFile) (w : World PageCache) (command : Run Unit) (answer : Option String)
    (s : Sheet) : Prop where
  ends : Ends (command.outcome ⟨w, ""⟩).1 (command.outcome ⟨w, ""⟩).2 answer
  stored : s.Stored t.schema t.pageSize
    ((command.outcome ⟨w, ""⟩).2.world.disk.fileAt t.location)
  calls : ∃ calls, (command.outcome ⟨w, ""⟩).2.world = Pool.afterCalls (.single t) w calls

variable {t : TableFile} {l : Layout} {s : Sheet} {d : Disk} {w : World PageCache}
  {cache : PageCache} {capacity : Nat} {command : Run Unit} {answer : Option String}

section Commands
variable (hloc : t.location ≠ []) (hl : Layout.make t.pageSize t.schema.width = .ok l)
  (hroom : 0 < l.slotCount) (hslots : l.slotCount ≤ 2 ^ 32) (hc : Pool.create capacity = .ok cache)
  (hs : s.Stored t.schema t.pageSize (d.fileAt t.location))
include hloc hl hroom hslots hc hs

end Commands

end CommandLine
end RowStore
