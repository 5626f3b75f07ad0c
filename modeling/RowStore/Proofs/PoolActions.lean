import RowStore.Proofs.PoolQuiet

/-! What the actions of a pool do, from any state in which it agrees with its disk. None of them
changes the table store; those that bring pages in give back the page of the store. -/
namespace RowStore

/-- No file is longer than an offset can be, so that no page that a file has fails to be written. -/
def TableStore.Fits (tables : Catalog) (s : TableStore) : Prop :=
  ∀ k t, tables.table? k = some t → s.length k ≤ File.maxOffset

namespace Pool

variable {tables : Catalog} {s : TableStore} {w w' : World PageCache} {id : PageId} {h : Handle}
  {p q : Page} {t : TableFile}

/-- That a pool stands for a table store is kept by what it does by itself. A page that cannot be
written back is one of a file that is too long. -/
theorem quiet_keeps (hb : tables.Separate) : Quiet tables (Keeps tables s) (¬ s.Fits tables) where
  registered := hb.registered
  named hw := hw.coherent.toNamed
  housed {w id p} hw hp := by
    obtain ⟨t, ht, hplaced⟩ := hw.coherent.placed id p hp
    refine ⟨t, ht, hplaced.belongs, or_iff_not_imp_right.mpr fun hfits => ?_⟩
    rw [not_not] at hfits
    have hlength := hfits id.table t ht
    rw [← hb.id_eq ht, hw.length_eq hb ht] at hlength
    exact hplaced.whole.trans hlength
  promote hw hlive hpeek := hw.promote hlive hpeek
  load p hw := hw.load p
  drop hw hclean := hw.drop hclean
  adopt {w₀ w c id h p t} hw₀ ht hread habs₀ hw habs hload hlive hpeek := by
    -- the page that was read is that of the store, for which the pool still stands
    rw [← hw₀.read_of_absent hb ht habs₀] at hread
    obtain ⟨hreached, hwhole, hdecode⟩ := TableStore.read_eq_ok.mp hread
    rw [hw.length_eq hb ht] at hwhole
    rw [← hw.store_eq, bytes_store ht, settled_of_absent habs] at hdecode
    obtain ⟨-, -, -, -, hclean⟩ := Page.sound_of_decode hdecode
    have hmade : Page.Made id t.schema t.pageSize p := .inr ⟨_, File.length_read _ _ _, hdecode⟩
    exact (hw.adopt hload hclean ht
      ⟨Page.belongs_of_made hmade, hreached, hwhole, fun _ => hdecode⟩ habs hlive hpeek).1
  write hw ht hc hdirty := hw.written hb ht hc hdirty

/-- A page that is fetched is the page of the store, and cached; or else the store has none, or the
page found no room. -/
theorem Keeps.fetch (hb : tables.Separate) (hw : Keeps tables s w)
    (ht : tables.table? id.table = some t) (txn : TxnId) (permission : Permission) :
    ∃ r w', (fetch tables txn id permission).outcome w = (r, w') ∧ Keeps tables s w' ∧
      ((∃ h p, r = .ok h ∧ Cached w' id h p ∧ s.read t id = .ok (p.mark none)) ∨
        ∃ e, r = .error e ∧
          ((∃ e', e = e'.map .file ∧ s.read t id = .error e') ∨ ¬ s.Fits tables)) := by
  obtain ⟨r, w', hout, hw', hr⟩ := (quiet_keeps hb).fetch hw ht txn permission
  refine ⟨r, w', hout, hw', ?_⟩
  rcases hr with ⟨h, p, rfl, hc, -⟩ | ⟨e, rfl, hread, habs, rfl⟩ | ⟨⟨e, rfl⟩, hlong⟩
  · exact .inl ⟨h, p, rfl, hc, hw'.read_of_cached hb ht hc⟩
  · exact .inr ⟨_, rfl, .inl ⟨e, rfl, (hw.read_of_absent hb ht habs).trans hread⟩⟩
  · exact .inr ⟨e, rfl, .inr hlong⟩

end Pool
end RowStore
