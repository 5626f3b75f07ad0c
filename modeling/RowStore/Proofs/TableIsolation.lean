import RowStore.Proofs.OwnedTable
import RowStore.Proofs.PoolRefinement

/-! Tables are isolated from each other as long as their files are: whatever is done to one table, a
scan of another one gives the same rows, and so do its bytes once all is written back. A catalog does
not look at files, though: two of its tables may well have the same one. -/
namespace RowStore

/-- A catalog as it comes about: tables are registered one after the other, each over the disk as it
is then. A registration may fail. -/
inductive Catalog.Built : Catalog → Prop where
  | empty (pageSize : Nat) : Built { pageSize }
  | add {c : Catalog} (h : Built c) (path : Path) (schema : Schema) (d : Disk) :
      Built ((Catalog.add path schema).outcome (c, d)).2.1
  | addWithId {c : Catalog} (h : Built c) (path : Path) (id : TableId) (schema : Schema)
      (d : Disk) : Built ((Catalog.addWithId path id schema).outcome (c, d)).2.1

theorem Catalog.forall_of_toList {c : Catalog} {P : TableId → TableFile → Prop}
    (h : ∀ e ∈ c.tables.toList, P e.1 e.2) (k : TableId) (t : TableFile)
    (ht : c.table? k = some t) : P k t :=
  h (k, t) (Std.TreeMap.mem_toList_iff_getElem?_eq_some.mpr ht)

theorem Catalog.Built.registered {c : Catalog} (h : c.Built) : c.Registered := by
  induction h with
  | empty pageSize => exact registered_empty pageSize
  | add _ path schema d ih => exact ih.add
  | addWithId _ path id schema d ih => exact ih.addWithId id

namespace Pool

/-- The tables in which a call stores, deletes or throws away rows. -/
def Call.touched : Call → Set TableId
  | .request (.insert _ k _) => {k}
  | .request (.delete _ (some rid)) => {rid.pageId.table}
  | .discard id => {id.table}
  | _ => ∅

/-- A table that is the same for its users: a scan gives what it gave, and once all is written back
its file has the same length and the same pages, of which a new pool scans the same rows. -/
structure Undisturbed (tables : Catalog) (t : TableFile) (w w' : World PageCache) : Prop where
  scan : ∀ txn, (Pool.scan tables txn t w').1 = (Pool.scan tables txn t w).1
  flushed : ∃ v v', (flushAll tables).outcome w = (.ok (), v) ∧
    (flushAll tables).outcome w' = (.ok (), v') ∧
    (v'.disk.fileAt t.location).length = (v.disk.fileAt t.location).length ∧
    (∀ number, t.pageBytes v'.disk number = t.pageBytes v.disk number) ∧
    ∀ capacity c, create capacity = .ok c → ∀ txn,
      (Pool.scan tables txn t (fresh v'.disk c)).1 = (Pool.scan tables txn t (fresh v.disk c)).1

variable {tables : Catalog} {A : Set TableId} {w₀ w w₁ w' : World PageCache} {k : TableId}
  {id : PageId} {h : Handle} {p q : Page} {t : TableFile}

section Actions
variable (hb : tables.Registered)
include hb

theorem Sheltered.source (hw : Sheltered tables w) (ht : tables.table? id.table = some t)
    (txn : TxnId) (permission : Permission) :
    ∃ res w', (source tables txn id permission).outcome w = (res, w') ∧ Leads tables ∅ w w' ∧
      ∀ h, res = .ok h → ∃ p, Cached w' id h p := by
  obtain ⟨r, w', hout, hleads, hr⟩ := (quiet_leads hb).fetch (.refl hw) ht txn permission
  refine ⟨r.mapError (Failure.map PoolError.toFileError), w', ?_, hleads, fun h hok => ?_⟩
  · simp only [Pool.source, Action.outcome_mapError, hout]
  · rcases hr with ⟨h', p, rfl, hc, -⟩ | ⟨e, rfl, -⟩ | ⟨-, hfalse⟩
    · exact ⟨p, Except.ok.inj hok ▸ hc⟩
    · cases hok
    · exact hfalse.elim

theorem Sheltered.setPage (hw : Sheltered tables w) (hc : Cached w id h p)
    (hq : ∀ t, tables.table? id.table = some t → p.Belongs id t.schema t.pageSize →
      q.Belongs id t.schema t.pageSize) (hdirty : q.isDirty) :
    Leads tables {id.table} w { w with loaded := w.loaded.setIfInBounds h.index q } ∧
      Cached { w with loaded := w.loaded.setIfInBounds h.index q } id h q := by
  obtain ⟨t, ht, hhoused⟩ := hw.housed id p hc.cached?_eq
  have hbelongs := hq t ht hhoused.belongs
  refine ⟨hw.step hb (hw.toNamed.set hc hbelongs.id_eq w.disk) (.change id p q t rfl ht
    hc.cached?_eq hbelongs hdirty (hw.toNamed.cached?_set hc q w.disk) rfl), hc.1, ?_⟩
  simp [hw.named id h hc.1]

theorem Sheltered.insertInto (hw : Sheltered tables w) (hc : Cached w id h p) (txn : TxnId)
    (r : Row) :
    ∃ res w', (TableFile.insertInto h txn r).outcome w = (res, w') ∧
      Leads tables {id.table} w w' ∧ ∀ st, res = .ok st → ∃ q, Cached w' id st.handle q := by
  unfold TableFile.insertInto
  simp only [Action.outcome_bind, World.outcome_page, hc.2, Action.outcome_lift]
  cases hins : p.insert r with
  | error e => exact ⟨_, w, rfl, .refl hw, by simp⟩
  | ok stored =>
    obtain ⟨rid, q⟩ := stored
    obtain ⟨hleads, hc'⟩ := hw.setPage hb hc (q := q.mark (some txn))
      (fun t _ hp => (hp.insert hins).mark (some txn)) rfl
    refine ⟨_, _, rfl, hleads, fun st hst => ⟨q.mark (some txn), ?_⟩⟩
    rw [← Except.ok.inj hst]
    exact hc'

/-- A search that finds no room has fetched pages only, and all of them lie in the file. -/
theorem Sheltered.insertFrom (ht : tables.table? t.id = some t) (txn : TxnId) (r : Row)
    (count : Nat) (number : UInt32) (hw : Sheltered tables w) :
    ∃ res w', (t.insertFrom (Pool.source tables) txn r count number).outcome w = (res, w') ∧
      Leads tables {t.id} w w' ∧ match res with
        | .error _ => True
        | .ok none => Leads tables ∅ w w' ∧ ∀ i < count,
            ((number + UInt32.ofNat i).toNat + 1) * t.pageSize ≤
              (w.disk.fileAt t.location).length
        | .ok (some st) => ∃ id q, Cached w' id st.handle q := by
  induction count generalizing number w with
  | zero => exact ⟨_, w, rfl, .refl hw, .refl hw, by simp⟩
  | succ count ih =>
    unfold TableFile.insertFrom
    have ht' : tables.table? (PageId.mk t.id number).table = some t := ht
    obtain ⟨res, w₁, hout, hleads, hcached⟩ := hw.source hb ht' txn .readWrite
    simp only [Action.outcome_bind, hout]
    cases res with
    | error e => exact ⟨_, w₁, rfl, hleads.of_empty, trivial⟩
    | ok h =>
      obtain ⟨p, hc⟩ := hcached h rfl
      have hlength : ∀ l, (w₁.disk.fileAt l).length = (w.disk.fileAt l).length := fun _ =>
        hleads.length_eq hb fun _ _ _ _ => Set.notMem_empty _
      simp only [World.outcome_page, hc.2]
      by_cases hfree : p.hasFree
      · obtain ⟨res, w', hinto, hleads', hst⟩ := hleads.after.insertInto hb hc txn r
        simp only [if_pos hfree, Action.outcome_bind, hinto]
        cases res with
        | error e => exact ⟨_, w', rfl, hleads.of_empty.trans hleads', trivial⟩
        | ok st =>
          exact ⟨_, w', rfl, hleads.of_empty.trans hleads', ⟨t.id, number⟩, hst st rfl⟩
      · simp only [if_neg hfree]
        obtain ⟨res, w', hrest, hleads', hres⟩ := ih (number + 1) hleads.after
        refine ⟨res, w', hrest, hleads.of_empty.trans hleads', ?_⟩
        rcases res with e | _ | st
        · trivial
        · obtain ⟨hquiet, hwhole⟩ := hres
          refine ⟨hleads.trans hquiet, fun i hi => ?_⟩
          cases i with
          | zero =>
            have hhere := (hleads.after.housed_of_cached hc.cached?_eq ht').whole
            rw [hlength] at hhere
            simpa using hhere
          | succ i =>
            have hthere := hwhole i (by omega)
            rw [hlength] at hthere
            rwa [TableStore.succ_add_ofNat] at hthere
        · exact hres

theorem Sheltered.insertAppended (hw : Sheltered tables w) (ht : tables.table? t.id = some t)
    (hlast : ceilDiv (w.disk.fileAt t.location).length t.pageSize < 2 ^ 32 →
      (w.disk.fileAt t.location).length = (t.pageCount w.disk).toNat * t.pageSize)
    (txn : TxnId) (r : Row) :
    ∃ res w', (t.insertAppended (Pool.source tables) txn r (t.pageCount w.disk)).outcome w =
        (res, w') ∧ Leads tables {t.id} w w' ∧
      ∀ st, res = .ok st → ∃ id q, Cached w' id st.handle q := by
  have hpos := (hb t.id t ht).size_pos
  unfold TableFile.insertAppended
  simp only [Action.outcome_bind, Action.outcome_get, Action.outcome_lift]
  cases hempty : Page.empty ⟨t.id, t.pageCount w.disk⟩ t.schema t.pageSize with
  | error f => exact ⟨_, w, rfl, .refl hw, by simp⟩
  | ok p =>
    simp only [orFault_ok, ok_bind]
    cases hwrite : t.writePage w.disk p with
    | error e => exact ⟨_, w, rfl, .refl hw, by simp⟩
    | ok d =>
      obtain ⟨rfl, hend⟩ := TableFile.putBytes_of_writePage
        (Page.belongs_of_made (.inl hempty)) hpos rfl hwrite
      have hextend : Leads tables {t.id} w
          { w with disk := t.putBytes w.disk (t.pageCount w.disk) p.image } :=
        hw.step hb ⟨hw.live, hw.named, hw.toNamed.own⟩
          (.extend t p rfl ht hempty hlast hend (fun _ => rfl) rfl)
      have ht' : tables.table? (PageId.mk t.id (t.pageCount w.disk)).table = some t := ht
      obtain ⟨res, w₁, hout, hleads, hcached⟩ := hextend.after.source hb ht' txn .readWrite
      simp only [Action.outcome_set, hout]
      cases res with
      | error e => exact ⟨_, w₁, rfl, hextend.trans hleads.of_empty, by simp⟩
      | ok h =>
        obtain ⟨q, hc⟩ := hcached h rfl
        obtain ⟨res, w', hinto, hleads', hst⟩ := hleads.after.insertInto hb hc txn r
        exact ⟨res, w', hinto, (hextend.trans hleads.of_empty).trans hleads',
          fun st hok => ⟨_, hst st hok⟩⟩

theorem Sheltered.insertRow (hw : Sheltered tables w) (ht : tables.table? t.id = some t)
    (txn : TxnId) (r : Row) :
    ∃ res w', (t.insert (Pool.source tables) txn r).outcome w = (res, w') ∧
      Leads tables {t.id} w w' ∧ ∀ st, res = .ok st → ∃ id q, Cached w' id st.handle q := by
  unfold TableFile.insert
  by_cases hconf : t.schema.conforms r.values
  · simp only [if_pos hconf, Action.outcome_bind, Action.outcome_get]
    obtain ⟨res, w₁, hout, hleads, hres⟩ :=
      hw.insertFrom hb ht txn r (t.pageCount w.disk).toNat 0
    simp only [hout]
    rcases res with e | _ | st
    · exact ⟨_, w₁, rfl, hleads, by simp⟩
    · obtain ⟨hquiet, hwhole⟩ := hres
      have hcount := hquiet.pageCount_eq hb t
      have hsame : (w₁.disk.fileAt t.location).length = (w.disk.fileAt t.location).length :=
        hquiet.length_eq hb fun _ _ _ _ => Set.notMem_empty _
      obtain ⟨res, w', happend, hleads', hst⟩ := hquiet.after.insertAppended hb ht (by
        rw [hsame, hcount]
        exact fun hsmall => TableFile.length_of_whole (hb t.id t ht).size_pos hsmall hwhole) txn r
      rw [hcount] at happend
      exact ⟨res, w', happend, hleads.trans hleads', hst⟩
    · exact ⟨_, w₁, rfl, hleads, fun st' hst => Except.ok.inj hst ▸ hres⟩
  · simp only [if_neg hconf]
    exact ⟨_, w, rfl, .refl hw, by simp⟩

/-- Where no row is deleted, a page is fetched at most. -/
theorem Sheltered.deleteRow (hw : Sheltered tables w) (txn : TxnId) {rid : RecordId}
    (ht : tables.table? rid.pageId.table = some t) :
    ∃ res w', (t.delete (Pool.source tables) txn (some rid)).outcome w = (res, w') ∧
      match res with
        | .error _ => Leads tables ∅ w w'
        | .ok h => Leads tables {rid.pageId.table} w w' ∧ ∃ q, Cached w' rid.pageId h q := by
  unfold TableFile.delete
  simp only [Action.outcome_bind, Action.outcome_get]
  split
  · obtain ⟨res, w₁, hout, hleads, hcached⟩ := hw.source hb ht txn .readWrite
    simp only [Action.outcome_bind, hout]
    cases res with
    | error e => exact ⟨_, w₁, rfl, hleads⟩
    | ok h =>
      obtain ⟨p, hc⟩ := hcached h rfl
      simp only [World.outcome_page, hc.2, Action.outcome_lift]
      cases hdel : p.delete (some rid) with
      | error e => exact ⟨_, w₁, rfl, hleads⟩
      | ok q =>
        obtain ⟨hleads', hc'⟩ := hleads.after.setPage hb hc (q := q.mark (some txn))
          (fun t _ hp => (hp.delete hdel).mark (some txn)) rfl
        exact ⟨_, _, rfl, hleads.of_empty.trans hleads', q.mark (some txn), hc'⟩
  · exact ⟨_, w, rfl, .refl hw⟩

/-- A page that is cached is cached again. -/
theorem Sheltered.recache (hw : Sheltered tables w) (hc : Cached w id h p) :
    ∃ c, (recache tables h).outcome w = (.ok (), { w with source := c }) ∧
      Leads tables ∅ w { w with source := c } := by
  obtain ⟨c, hout, hleads, -⟩ := (quiet_leads hb).recache (.refl hw) hc
  exact ⟨c, hout, hleads⟩

theorem Sheltered.insert (hw : Sheltered tables w) (txn : TxnId) (k : TableId) (r : Row) :
    Leads tables {k} w ((insert tables txn k r).run w).2 := by
  cases ht : tables.table? k with
  | none =>
    rw [run_insert_none ht]
    exact .refl hw
  | some t =>
    obtain rfl := (hb k t ht).id_eq
    obtain ⟨res, w₁, hout, hleads, hst⟩ := hw.insertRow hb ht txn r
    rw [run_insert ht, hout]
    cases res with
    | error e => exact hleads
    | ok st =>
      obtain ⟨id, q, hc⟩ := hst st rfl
      obtain ⟨c, hre, hleads'⟩ := hleads.after.recache hb hc
      simp only [hre]
      exact hleads.trans hleads'.of_empty

theorem Sheltered.delete (hw : Sheltered tables w) (txn : TxnId) (rid : RecordId) :
    ∃ res w', (delete tables txn (some rid)).outcome w = (res, w') ∧
      match res with
        | .error _ => Leads tables ∅ w w'
        | .ok _ => Leads tables {rid.pageId.table} w w' := by
  unfold Pool.delete
  simp only [Action.outcome_bind]
  cases ht : tables.table? rid.pageId.table with
  | none =>
    rw [outcome_table_none ht]
    exact ⟨_, w, rfl, .refl hw⟩
  | some t =>
    obtain ⟨res, w₁, hout, hres⟩ := hw.deleteRow hb txn ht
    simp only [outcome_table ht, Action.outcome_mapError, hout]
    cases res with
    | error e => exact ⟨_, w₁, rfl, hres⟩
    | ok h =>
      obtain ⟨hleads, q, hc⟩ := hres
      obtain ⟨c, hre, hleads'⟩ := hleads.after.recache hb hc
      simp only [mapError_ok, hre]
      exact ⟨_, _, rfl, hleads.trans hleads'.of_empty⟩

theorem Sheltered.discard (hw : Sheltered tables w) (id : PageId) :
    Leads tables {id.table} w ((discard id).outcome w).2 :=
  hw.step hb (hw.toNamed.drop id) (.drop id (.inl rfl) (hw.toNamed.cached?_drop id) rfl)

/-- A call leads on, and stores, deletes and throws away rows only in the tables that it touches. -/
theorem Sheltered.act (hw : Sheltered tables w) (call : Call) :
    Leads tables call.touched w (act tables w call) := by
  have hquiet : Quiet tables (Leads tables ∅ w) False := quiet_leads hb
  have hrefl : Leads tables ∅ w w := .refl hw
  cases call with
  | request q =>
    cases q with
    | get txn id permission =>
      exact hquiet.preserves_fetch txn id permission w hrefl
    | insert txn k r => exact hw.insert hb txn k r
    | delete txn rid =>
      cases rid with
      | none => exact .refl hw
      | some rid =>
        obtain ⟨res, w', hout, hleads⟩ := hw.delete hb txn rid
        simp only [Pool.act, Pool.perform, hout]
        cases res with
        | error e => exact hleads.of_empty
        | ok h => exact hleads
    | scan txn k =>
      simp only [Pool.act, Pool.perform]
      cases tables.table? k with
      | none => exact .refl hw
      | some t => exact hquiet.outcome_scan hrefl txn t
    | flushTxn txn =>
      obtain ⟨r, w', hout, hleads, -⟩ := hquiet.flushTxn hrefl txn
      simp only [Pool.act, Pool.perform, hout]
      exact hleads
    | flushAll =>
      obtain ⟨r, w', hout, hleads, -⟩ := hquiet.flushAll hrefl
      simp only [Pool.act, Pool.perform, hout]
      exact hleads
  | fetchPage txn id permission => exact hquiet.preserves_source txn id permission w hrefl
  | flushPage id =>
    obtain ⟨r, w', hout, hleads, -⟩ := hquiet.flushPage hrefl id
    rw [Pool.act, hout]
    exact hleads
  | discard id => exact hw.discard hb id
  | evict =>
    obtain ⟨r, w', hout, hleads, -⟩ := hquiet.evict hrefl
    rw [Pool.act, hout]
    exact hleads
  | scanStep sc step => exact hquiet.act_scan hrefl sc step

theorem Sheltered.afterCalls (hw : Sheltered tables w) (calls : List Call) :
    Leads tables Set.univ w (afterCalls tables w calls) := by
  induction calls generalizing w with
  | nil => exact .refl hw
  | cons call calls ih =>
    have hstep := (hw.act hb call).mono (Set.subset_univ _)
    exact hstep.trans (ih hstep.after)

end Actions

theorem sheltered_fresh {capacity : Nat} {c : PageCache} (hc : create capacity = .ok c) {d : Disk}
    (haddressed : tables.Addressed d) : Sheltered tables (fresh d c) := by
  have hw : Coherent tables (fresh d c) := coherent_fresh hc d
  refine ⟨hw.live, hw.named, fun id p hp => ?_, haddressed⟩
  obtain ⟨t, ht, hplaced⟩ := hw.placed id p hp
  exact ⟨t, ht, hplaced.belongs, hplaced.whole⟩

theorem upToDate_fresh {capacity : Nat} {c : PageCache} (hc : create capacity = .ok c) (d : Disk)
    (k : TableId) (t : TableFile) : UpToDate k t (fresh d c) := by
  intro number p _ hp
  obtain ⟨-, hempty⟩ := RecencyCache.Live.create (mapError_eq_ok.mp hc)
  simp [cached?, fresh, hempty] at hp

/-- Once all is written back, the disk has what the table holds. -/
theorem Sheltered.flushed (hb : tables.Registered) (hw : Sheltered tables w)
    (howns : tables.Owns t.id t) :
    ∃ v, (flushAll tables).outcome w = (.ok (), v) ∧ tables.Addressed v.disk ∧
      (v.disk.fileAt t.location).length = (store tables w).length t.id ∧
        ∀ number, t.pageBytes v.disk number = (store tables w).bytes ⟨t.id, number⟩ := by
  obtain ⟨r, v, hout, hleads, -, hr⟩ := (quiet_leads hb).flushAll (.refl hw)
  obtain ⟨rfl, hclean⟩ := hr.resolve_right And.right
  obtain ⟨hlength, hbytes⟩ := hleads.alike hb howns (Set.notMem_empty _)
  refine ⟨v, hout, hleads.after.addressed, ?_, fun number => ?_⟩
  · rw [← hlength, length_owned howns]
  · rw [← hbytes, bytes_store howns.table, settled_of_unchanged fun p hp => hclean _ p hp]

/-- A table that holds the same is the same for its users. -/
theorem undisturbed_of_alike (hb : tables.Registered) (hw : Sheltered tables w)
    (hw' : Sheltered tables w') (howns : tables.Owns t.id t) (hf : UpToDate t.id t w)
    (hf' : UpToDate t.id t w') (halike : (store tables w).Alike t.id (store tables w')) :
    Undisturbed tables t w w' := by
  refine ⟨fun txn => ?_, ?_⟩
  · rw [hw'.scan_eq hb howns hf', hw.scan_eq hb howns hf, halike.rows]
  · obtain ⟨v, hv, haddressed, hlength, hbytes⟩ := hw.flushed hb howns
    obtain ⟨v', hv', haddressed', hlength', hbytes'⟩ := hw'.flushed hb howns
    have hsame : (v'.disk.fileAt t.location).length = (v.disk.fileAt t.location).length := by
      rw [hlength', hlength, halike.1]
    have hpages : ∀ number, t.pageBytes v'.disk number = t.pageBytes v.disk number := fun number => by
      rw [hbytes', hbytes, halike.2]
    refine ⟨v, v', hv, hv', hsame, hpages, fun capacity c hc txn => ?_⟩
    have hempty := (RecencyCache.Live.create (mapError_eq_ok.mp hc)).2
    have hfresh : (store tables (fresh v.disk c)).Alike t.id (store tables (fresh v'.disk c)) := by
      refine alike_of_settled howns.table hsame fun number => ?_
      rw [settled_of_absent (hempty _), settled_of_absent (hempty _)]
      exact hpages number
    rw [(sheltered_fresh hc haddressed').scan_eq hb howns (upToDate_fresh hc _ _ _),
      (sheltered_fresh hc haddressed).scan_eq hb howns (upToDate_fresh hc _ _ _), hfresh.rows]

/-- In every run of a pool over a catalog that registrations made, a call that touches other tables
leaves a table as it is for its users, if no other table has its file. -/
theorem isolated_of_owns {capacity : Nat} {c : PageCache} (hbuilt : tables.Built)
    (howns : tables.Owns k t) (hc : create capacity = .ok c) {d : Disk}
    (haddressed : tables.Addressed d) (calls : List Call) (call : Call) (hother : k ∉ call.touched) :
    Undisturbed tables t (afterCalls tables (fresh d c) calls)
      (act tables (afterCalls tables (fresh d c) calls) call) := by
  have hb := hbuilt.registered
  obtain rfl := (hb k t howns.table).id_eq
  have hrun := (sheltered_fresh hc haddressed).afterCalls hb calls
  have hf := hrun.upToDate hb howns (upToDate_fresh hc d t.id t)
  have hcall := hrun.after.act hb call
  exact undisturbed_of_alike hb hrun.after hcall.after howns hf (hcall.upToDate hb howns hf)
    (hcall.alike hb howns hother)

/-- Rows with one integer. -/
def integers : Schema := ⟨[⟨"n", .integer⟩]⟩

/-- Two tables that are registered with one path. -/
def shared : Catalog × Disk :=
  ((Catalog.add ⟨"a"⟩ integers).outcome
    ((Catalog.add ⟨"a"⟩ integers).outcome ({ pageSize := 9 }, {})).2).2

/-- The second table with the file `a`. -/
def sharer : TableFile := ⟨2, ⟨"a"⟩, ["a"], integers, 9⟩

theorem built_shared : shared.1.Built :=
  .add (.add (.empty 9) ⟨"a"⟩ integers {}) ⟨"a"⟩ integers _

/-- Tables that share a file are not isolated: once a page of the first one is flushed, a scan of the
second one gives a row that was stored in the first one. -/
theorem disturbed_of_shared : ∃ c, create 2 = .ok c ∧ shared.1.Built ∧
    shared.1.table? 2 = some sharer ∧ shared.1.Addressed shared.2 ∧
    2 ∉ (Call.request (.insert 7 1 ⟨[.integer 5], none⟩)).touched ∧
    2 ∉ (Call.flushPage ⟨1, 0⟩).touched ∧
    (scan shared.1 7 sharer (fresh shared.2 c)).1.1 = [] ∧
    (scan shared.1 7 sharer (afterCalls shared.1 (fresh shared.2 c)
      [.request (.insert 7 1 ⟨[.integer 5], none⟩), .flushPage ⟨1, 0⟩])).1.1 =
        [⟨[.integer 5], some ⟨⟨2, 0⟩, 0⟩⟩] := by
  have hc : create 2 = .ok (roomFor 2) := rfl
  refine ⟨_, hc, built_shared, rfl, Catalog.forall_of_toList (by decide +kernel),
    show (2 : TableId) ≠ 1 by decide, Set.notMem_empty _, ?_, ?_⟩
  · decide +kernel
  · decide +kernel

/-- The two tables with one file, and a third one with a file of its own. -/
def besides : Catalog × Disk := ((Catalog.add ⟨"b"⟩ integers).outcome shared).2

/-- The table with the file `b`. -/
def own : TableFile := ⟨3, ⟨"b"⟩, ["b"], integers, 9⟩

/-- A row for the third table, and others for the first two. -/
def rowForEach : List Call :=
  [.request (.insert 7 3 ⟨[.integer 5], none⟩), .request (.insert 7 1 ⟨[.integer 6], none⟩),
    .request (.insert 7 2 ⟨[.integer (-1)], none⟩)]

theorem isolated_of_owns_besides : ∃ c, create 1 = .ok c ∧
    besides.1.Built ∧ besides.1.Owns 3 own ∧ besides.1.Addressed besides.2 ∧
    3 ∉ (Call.request (.delete 8 (some ⟨⟨1, 0⟩, 0⟩))).touched ∧
    Undisturbed besides.1 own (afterCalls besides.1 (fresh besides.2 c) rowForEach)
      (act besides.1 (afterCalls besides.1 (fresh besides.2 c) rowForEach)
        (.request (.delete 8 (some ⟨⟨1, 0⟩, 0⟩)))) := by
  have hc : create 1 = .ok (roomFor 1) := rfl
  have hbuilt : besides.1.Built := .add built_shared ⟨"b"⟩ integers _
  have howns : besides.1.Owns 3 own :=
    ⟨rfl, Catalog.forall_of_toList (P := fun k t => t.location = own.location → k = 3)
      (by decide +kernel)⟩
  have haddressed : besides.1.Addressed besides.2 := Catalog.forall_of_toList (by decide +kernel)
  have hother : (3 : TableId) ∉ (Call.request (.delete 8 (some ⟨⟨1, 0⟩, 0⟩))).touched :=
    show (3 : TableId) ≠ 1 by decide
  exact ⟨_, hc, hbuilt, howns, haddressed, hother,
    isolated_of_owns hbuilt howns hc haddressed rowForEach _ hother⟩

end Pool
end RowStore
