import RowStore.Proofs.HousedPool
import RowStore.Proofs.PoolScan

/-! A table that shares its file with no other: no step of a pool changes what it holds, unless the
step stores, deletes or throws away something in this table. -/
namespace RowStore

/-- Stores with the same table under a number. -/
def TableStore.Alike (k : TableId) (s s' : TableStore) : Prop :=
  s'.length k = s.length k ∧ ∀ number, s'.bytes ⟨k, number⟩ = s.bytes ⟨k, number⟩

namespace TableStore
variable {s s' : TableStore} {t : TableFile} {k : TableId}

theorem Alike.refl (k : TableId) (s : TableStore) : Alike k s s := ⟨rfl, fun _ => rfl⟩

theorem Alike.trans {s₁ : TableStore} (h : Alike k s s₁) (h' : Alike k s₁ s') : Alike k s s' :=
  ⟨h'.1.trans h.1, fun number => (h'.2 number).trans (h.2 number)⟩

theorem Alike.read (h : Alike t.id s s') (number : UInt32) :
    s'.read t ⟨t.id, number⟩ = s.read t ⟨t.id, number⟩ := by
  simp only [TableStore.read, h.1, h.2]

theorem Alike.rowsFrom (h : Alike t.id s s') (count : Nat) (number : UInt32) :
    s'.rowsFrom t count number = s.rowsFrom t count number := by
  induction count generalizing number with
  | zero => rfl
  | succ count ih => simp only [TableStore.rowsFrom, h.read, ih]

theorem Alike.rows (h : Alike t.id s s') : s'.rows t = s.rows t := by
  simp only [TableStore.rows, h.1, h.rowsFrom]

end TableStore

namespace TableFile
variable {t : TableFile} {d : Disk} {number : UInt32}

/-- A page that 32 bits can count among those of a longer file lies in the file whole, and so does
the next one. -/
theorem whole_of_long (hlong : 2 ^ 32 ≤ ceilDiv (d.fileAt t.location).length t.pageSize) :
    ((t.pageCount d).toNat + 1) * t.pageSize ≤ (d.fileAt t.location).length := by
  unfold pageCount pagesIn
  rw [UInt32.toNat_ofNat']
  unfold ceilDiv at hlong ⊢
  generalize (d.fileAt t.location).length = n at hlong ⊢
  have hdiv := Nat.div_mul_le_self (n + (t.pageSize - 1)) t.pageSize
  generalize (n + (t.pageSize - 1)) / t.pageSize = count at hlong hdiv ⊢
  have hsmall : count % 2 ^ 32 + 1 + 1 ≤ count := by omega
  have hmul := (Nat.mul_le_mul_right t.pageSize hsmall).trans hdiv
  rw [Nat.succ_mul] at hmul
  omega

end TableFile

namespace Catalog.Owns
variable {tables : Catalog} {k : TableId} {t t₁ : TableFile} {id : PageId} {data : Bytes}
  {d : Disk}

/-- A page that is written is one of the table, or is written elsewhere. -/
theorem pageBytes_put (howns : tables.Owns k t) (hloc : t.location ≠ [])
    (ht₁ : tables.table? id.table = some t₁) (hdata : data.length = t₁.pageSize) (number : UInt32) :
    t.pageBytes (t₁.putBytes d id.page data) number =
      if id = ⟨k, number⟩ then data else t.pageBytes d number := by
  obtain ⟨k₁, n⟩ := id
  by_cases hk : k₁ = k
  · subst hk
    obtain rfl := Option.some.inj (howns.table.symm.trans ht₁)
    by_cases hn : n = number
    · subst hn
      rw [if_pos rfl]
      exact TableFile.pageBytes_putBytes_self hloc hdata
    · rw [if_neg (by simpa using hn)]
      exact TableFile.pageBytes_putBytes_of_ne hloc hdata hn
  · have hne : t.location ≠ t₁.location := fun e => hk (howns.alone _ _ ht₁ e.symm)
    rw [if_neg (by simp [hk]), TableFile.pageBytes, TableFile.fileAt_putBytes_of_ne hne]
    rfl

end Catalog.Owns

namespace Pool

/-- A page of a table that is counted is as on the disk, if it has not changed since it was read. -/
def UpToDate (k : TableId) (t : TableFile) (w : World PageCache) : Prop :=
  ∀ number p, number < t.pageCount w.disk → cached? w ⟨k, number⟩ = some p → p.dirtiedBy = none →
    Page.decode ⟨k, number⟩ t.schema (t.pageBytes w.disk number) = .ok p

variable {tables : Catalog} {A : Set TableId} {s : TableStore} {w₀ w w₁ w' : World PageCache}
  {k : TableId} {id : PageId} {h : Handle} {p q : Page} {t : TableFile}

theorem alike_of_settled (ht : tables.table? k = some t)
    (hlength : (w'.disk.fileAt t.location).length = (w.disk.fileAt t.location).length)
    (hbytes : ∀ number, settled t w' ⟨k, number⟩ = settled t w ⟨k, number⟩) :
    (store tables w).Alike k (store tables w') := by
  refine ⟨?_, fun number => ?_⟩
  · simp only [store, ht, Option.elim_some, hlength]
  · simp only [store, ht, Option.elim_some, hbytes]

section Step
variable (hb : tables.Registered) (hw : Sheltered tables w) (hstep : Step tables A w w')
  (howns : tables.Owns k t)
include hb hw hstep howns

/-- A step that concerns other tables leaves a table as it is. -/
theorem Step.alike (hk : k ∉ A) : (store tables w).Alike k (store tables w') := by
  have hloc := (hb k t howns.table).location_ne
  have hlength : (w'.disk.fileAt t.location).length = (w.disk.fileAt t.location).length :=
    hstep.length_eq hb hw fun k' t' ht' hl => howns.alone k' t' ht' hl ▸ hk
  refine alike_of_settled howns.table hlength fun number => ?_
  cases hstep with
  | keep hview hdisk => exact settled_congr (hview _) (by rw [hdisk])
  | drop id hdrop hview hdisk =>
    by_cases hid : id = ⟨k, number⟩
    · subst hid
      have hclean := hdrop.resolve_left hk
      rw [settled_of_unchanged hclean, settled_of_unchanged (by simp [hview]), hdisk]
    · exact settled_congr (by rw [hview, if_neg hid]) (by rw [hdisk])
  | adopt id p t₁ ht₁ hhoused hclean hread habs hview hdisk =>
    by_cases hid : id = ⟨k, number⟩
    · subst hid
      have hclean' : ∀ q, cached? w' ⟨k, number⟩ = some q → q.dirtiedBy = none := by
        intro q hq
        rw [hview, if_pos rfl] at hq
        exact Option.some.inj hq ▸ hclean
      rw [settled_of_unchanged hclean', settled_of_unchanged (by simp [habs]), hdisk]
    · exact settled_congr (by rw [hview, if_neg hid]) (by rw [hdisk])
  | change id p q t₁ hA ht₁ hold hq hdirty hview hdisk =>
    have hid : id ≠ ⟨k, number⟩ := by
      rintro rfl
      exact hk hA
    exact settled_congr (by rw [hview, if_neg hid]) (by rw [hdisk])
  | write id p t₁ ht₁ hold hdirty hview hdisk =>
    have himage := (hw.housed_of_cached hold ht₁).belongs.encode_decode.2.1
    have hbytes := howns.pageBytes_put (d := w.disk) hloc ht₁ himage number
    by_cases hid : id = ⟨k, number⟩
    · subst hid
      rw [settled_of_clean (by rw [hview, if_pos rfl]) rfl, settled_of_dirty hold hdirty, hdisk,
        hbytes, if_pos rfl]
    · exact settled_congr (by rw [hview, if_neg hid]) (by rw [hdisk, hbytes, if_neg hid])
  | extend t₁ p hA ht₁ hempty hlast hend hview hdisk =>
    have hne : t.location ≠ t₁.location := fun e => hk (howns.alone _ _ ht₁ e.symm ▸ hA)
    refine settled_congr (hview _) ?_
    rw [hdisk, TableFile.pageBytes, TableFile.fileAt_putBytes_of_ne hne]
    rfl

/-- Every step keeps the pages of a table as on the disk that are unchanged, also one that concerns
the table. -/
theorem Step.upToDate (hf : UpToDate k t w) : UpToDate k t w' := by
  have hloc := (hb k t howns.table).location_ne
  intro number p hlt hp hclean
  have hkept : number < t.pageCount w.disk → cached? w ⟨k, number⟩ = some p →
      t.pageBytes w'.disk number = t.pageBytes w.disk number →
        Page.decode ⟨k, number⟩ t.schema (t.pageBytes w'.disk number) = .ok p :=
    fun hlt hold hbytes => hbytes ▸ hf number p hlt hold hclean
  cases hstep with
  | keep hview hdisk => exact hkept (hdisk ▸ hlt) ((hview _).symm.trans hp) (by rw [hdisk])
  | drop id hdrop hview hdisk =>
    rw [hview] at hp
    split at hp
    · contradiction
    · exact hkept (hdisk ▸ hlt) hp (by rw [hdisk])
  | adopt id q t₁ ht₁ hhoused hclean' hread habs hview hdisk =>
    rw [hview] at hp
    split at hp
    · next hid =>
      subst hid
      obtain rfl := Option.some.inj hp
      obtain rfl := Option.some.inj (howns.table.symm.trans ht₁)
      rw [hdisk]
      exact hread howns
    · exact hkept (hdisk ▸ hlt) hp (by rw [hdisk])
  | change id q q' t₁ hA ht₁ hold hq hdirty hview hdisk =>
    rw [hview] at hp
    split at hp
    · obtain rfl := Option.some.inj hp
      simp [Page.isDirty, hclean] at hdirty
    · exact hkept (hdisk ▸ hlt) hp (by rw [hdisk])
  | write id q t₁ ht₁ hold hdirty hview hdisk =>
    obtain ⟨-, himage, hdecode⟩ := (hw.housed_of_cached hold ht₁).belongs.encode_decode
    have hbytes := howns.pageBytes_put (d := w.disk) hloc ht₁ himage number
    have hcount : t.pageCount w'.disk = t.pageCount w.disk := by
      rw [TableFile.pageCount, hdisk, hw.length_put hb ht₁ hold]
      rfl
    rw [hview] at hp
    split at hp
    · next hid =>
      obtain rfl := Option.some.inj hp
      rw [hdisk, hbytes, if_pos hid]
      subst hid
      obtain rfl := Option.some.inj (howns.table.symm.trans ht₁)
      exact hdecode
    · next hid => exact hkept (hcount ▸ hlt) hp (by rw [hdisk, hbytes, if_neg hid])
  | extend t₁ q hA ht₁ hempty hlast hend hview hdisk =>
    have hold := (hview _).symm.trans hp
    have himage := (Page.belongs_of_made (.inl hempty)).encode_decode.2.1
    by_cases hk : t₁.id = k
    · -- a page that comes behind the last one, or over one that is not counted, is not this one
      subst hk
      obtain rfl := Option.some.inj (howns.table.symm.trans ht₁)
      have hwhole := (hw.housed_of_cached hold ht₁).whole
      have hbefore : number < t.pageCount w.disk := by
        rcases Nat.lt_or_ge (ceilDiv (w.disk.fileAt t.location).length t.pageSize) (2 ^ 32)
          with hcount | hlong
        · rw [hlast hcount] at hwhole
          have hle := Nat.le_of_mul_le_mul_right hwhole (hb t.id t ht₁).size_pos
          exact UInt32.lt_iff_toNat_lt.mpr hle
        · have hsame : t.pageCount w'.disk = t.pageCount w.disk := by
            rw [TableFile.pageCount, hdisk, TableFile.length_putBytes_of_whole hloc
              (hb t.id t ht₁).size_pos himage (TableFile.whole_of_long hlong)]
            rfl
          exact hsame ▸ hlt
      refine hkept hbefore hold ?_
      rw [hdisk]
      exact TableFile.pageBytes_putBytes_of_ne hloc himage (UInt32.ne_of_lt hbefore).symm
    · have hne : t.location ≠ t₁.location := fun e => hk (howns.alone _ _ ht₁ e.symm)
      have hsame : w'.disk.fileAt t.location = w.disk.fileAt t.location := by
        rw [hdisk, TableFile.fileAt_putBytes_of_ne hne]
      refine hkept ?_ hold (by rw [TableFile.pageBytes, hsame]; rfl)
      rwa [TableFile.pageCount, hsame] at hlt

end Step

theorem Leads.alike (hb : tables.Registered) (h : Leads tables A w w') (howns : tables.Owns k t)
    (hk : k ∉ A) : (store tables w).Alike k (store tables w') := by
  induction h with
  | refl _ => exact .refl k _
  | tail h hstep _ ih => exact ih.trans (hstep.alike hb h.after howns hk)

theorem Leads.upToDate (hb : tables.Registered) (h : Leads tables A w w')
    (howns : tables.Owns k t) (hf : UpToDate k t w) : UpToDate k t w' := by
  induction h with
  | refl _ => exact hf
  | tail h hstep _ ih => exact hstep.upToDate hb h.after howns ih

/-- What a pool does by itself leads on. A page that it reads, and brings into the cache once another
one has gone, is still as on the disk then if its table shares the file with no other. -/
theorem quiet_leads (hb : tables.Registered) : Quiet tables (Leads tables ∅ w₀) False where
  registered := hb
  named h := h.after.toNamed
  housed {w id p} h hp := by
    obtain ⟨t, ht, hhoused⟩ := h.after.housed id p hp
    exact ⟨t, ht, hhoused.belongs, .inl (hhoused.whole.trans (h.after.addressed id.table t ht))⟩
  promote h hlive hpeek := h.trans
    (h.after.step hb (h.after.toNamed.promote hlive hpeek) (.keep (cached?_promote hpeek) rfl))
  load p h := h.trans
    (h.after.step hb (h.after.toNamed.load p) (.keep (h.after.toNamed.cached?_load p) rfl))
  drop {w id} h hclean := h.trans (h.after.step hb (h.after.toNamed.drop id)
    (.drop id (.inr hclean) (h.after.toNamed.cached?_drop id) rfl))
  adopt {w₁ w c id h p t} h₁ ht hread habs₁ hw habs hload hlive hpeek := by
    obtain ⟨hhoused, hdecode⟩ := housed_of_readPage (hb id.table t ht).id_eq.symm hread
    have hlength : ∀ {v}, Leads tables ∅ w₀ v → ∀ l,
        (v.disk.fileAt l).length = (w₀.disk.fileAt l).length := fun hv l =>
      hv.length_eq hb fun _ _ _ _ => Set.notMem_empty _
    have hhoused' : Housed t w.disk id p := by
      apply hhoused.mono
      rw [hlength h₁, hlength hw]
    obtain ⟨-, -, -, -, hclean⟩ := Page.sound_of_decode hdecode
    refine hw.trans (hw.after.step hb (hw.after.toNamed.adopt hload hhoused.belongs.id_eq hlive hpeek)
      (.adopt id p t ht hhoused' hclean (fun howns => ?_) (cached?_of_absent habs)
        (cached?_adopt hload hpeek) rfl))
    have halike := (hw.alike hb howns (Set.notMem_empty _)).2 id.page
    rw [← (h₁.alike hb howns (Set.notMem_empty _)).2 id.page, bytes_store ht, bytes_store ht,
      settled_of_absent habs, settled_of_absent habs₁] at halike
    rw [halike]
    exact hdecode
  write {w id h p t} hw ht hc hdirty := by
    have hbelongs := (hw.after.housed_of_cached hc.cached?_eq ht).belongs
    exact hw.trans (hw.after.step hb
      (hw.after.toNamed.set hc (hbelongs.mark none).id_eq (t.putBytes w.disk id.page p.image))
      (.write id p t ht hc.cached?_eq hdirty (hw.after.toNamed.cached?_set hc _ _) rfl))

section Reading
variable (howns : tables.Owns t.id t)
include howns

theorem length_owned (w : World PageCache) :
    (store tables w).length t.id = (w.disk.fileAt t.location).length := by
  simp only [store, howns.table, Option.elim_some]

/-- A page of the table that is cached is what the table holds. -/
theorem Sheltered.read_of_cached {number : UInt32} (hw : Sheltered tables w) (hf : UpToDate t.id t w)
    (hlt : number < t.pageCount w.disk) (hp : cached? w ⟨t.id, number⟩ = some p) :
    (store tables w).read t ⟨t.id, number⟩ = .ok (p.mark none) := by
  have hhoused := hw.housed_of_cached hp howns.table
  have hlong := hhoused.whole.trans (hw.addressed t.id t howns.table)
  refine TableStore.read_eq_ok.mpr ⟨lt_of_le_of_lt hlong (by decide),
    (length_owned howns w).symm ▸ hhoused.whole, ?_⟩
  rw [bytes_store howns.table]
  cases hd : p.dirtiedBy with
  | none =>
    rw [settled_of_clean hp hd, Page.mark_of_clean hd]
    exact hf number p hlt hp hd
  | some txn =>
    rw [settled_of_dirty hp (by simp [Page.isDirty, hd])]
    exact hhoused.belongs.encode_decode.2.2

theorem read_of_absent {number : UInt32} (hpeek : w.source.peek ⟨t.id, number⟩ = none) :
    (store tables w).read t ⟨t.id, number⟩ = t.readPage w.disk ⟨t.id, number⟩ := by
  rw [TableFile.readPage_eq rfl, TableStore.read, length_owned howns,
    bytes_store howns.table, settled_of_absent hpeek]

end Reading

/-- A page of the table that is fetched is the one that the table held at first, and cached. -/
theorem Leads.source {number : UInt32} (hb : tables.Registered) (howns : tables.Owns t.id t)
    (hf : UpToDate t.id t w₀) (h : Leads tables ∅ w₀ w) (hlt : number < t.pageCount w₀.disk)
    (txn : TxnId) (permission : Permission) :
    ∃ res w', (Pool.source tables txn ⟨t.id, number⟩ permission).outcome w = (res, w') ∧
      Leads tables ∅ w₀ w' ∧
      ((∃ handle p, res = .ok handle ∧ Cached w' ⟨t.id, number⟩ handle p ∧
          (store tables w₀).read t ⟨t.id, number⟩ = .ok (p.mark none)) ∨
        ∃ e, res = .error e ∧ (store tables w₀).read t ⟨t.id, number⟩ = .error e) := by
  have halike : ∀ {v}, Leads tables ∅ w₀ v →
      (store tables v).read t ⟨t.id, number⟩ = (store tables w₀).read t ⟨t.id, number⟩ :=
    fun hv => (hv.alike hb howns (Set.notMem_empty _)).read number
  have ht : tables.table? (PageId.mk t.id number).table = some t := howns.table
  obtain ⟨r, w', hout, h', hr⟩ := (quiet_leads hb).fetch h ht txn permission
  refine ⟨r.mapError (Failure.map PoolError.toFileError), w', ?_, h', ?_⟩
  · simp only [Pool.source, Action.outcome_mapError, hout]
  · rcases hr with ⟨handle, p, rfl, hc, -⟩ | ⟨e, rfl, hread, habs, rfl⟩ | ⟨-, hfalse⟩
    · have hlt' : number < t.pageCount w'.disk := by
        rw [h'.pageCount_eq hb t]
        exact hlt
      refine .inl ⟨handle, p, rfl, hc, ?_⟩
      rw [← halike h']
      exact h'.after.read_of_cached howns (h'.upToDate hb howns hf) hlt' hc.cached?_eq
    · refine .inr ⟨e, by rw [mapError_error, toFileError_file], ?_⟩
      rw [← halike h, read_of_absent howns habs, hread]
    · exact hfalse.elim

/-- A pool gives the pages of the table as it held them at first. -/
theorem serves_leads (hb : tables.Registered) (howns : tables.Owns t.id t)
    (hf : UpToDate t.id t w₀) :
    Serves tables (fun _ => Leads tables ∅ w₀) (store tables w₀) t where
  pageCount_eq {log w} h := by
    rw [h.pageCount_eq hb t, length_owned howns]
    rfl
  fetch {log w number} h hlt txn permission := by
    rw [length_owned howns] at hlt
    obtain ⟨r, w', hout, h', ⟨handle, p, rfl, hc, hread⟩ | ⟨e, rfl, hread⟩⟩ :=
      h.source hb howns hf hlt txn permission
    · exact ⟨_, w', hout, .inl ⟨handle, p, rfl, hc.2, hread, h'⟩⟩
    · exact ⟨_, w', hout, .inr ⟨e, rfl, hread, h'⟩⟩

/-- A complete scan of the table gives what it holds. -/
theorem Sheltered.scan_eq (hb : tables.Registered) (hw : Sheltered tables w)
    (howns : tables.Owns t.id t) (hf : UpToDate t.id t w) (txn : TxnId) :
    (scan tables txn t w).1 = (store tables w).rows t :=
  ((serves_leads hb howns hf).scan_eq [] (.refl hw) txn).1

end Pool
end RowStore
