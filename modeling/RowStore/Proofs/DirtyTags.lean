import RowStore.Proofs.PoolResidence

/-! The tags of the pages in a cache. A page is tagged with the transaction that was the last one to
store or delete a row on it since it came in or was written back, and with none if there was none.
-/
namespace RowStore.Pool

/-- The page that a call changes, and for which transaction: a row is stored on it or deleted from
it. A call that fails changes none. -/
def changed? (tables : Catalog) (w : World PageCache) : Call → Option (PageId × TxnId)
  | .request (.insert txn k r) =>
      match ((insert tables txn k r).run w).1 with
      | ⟨row, .ok _⟩ => row.rid.map fun rid => (rid.pageId, txn)
      | ⟨_, .error _⟩ => none
  | .request (.delete txn rid) =>
      match ((delete tables txn rid).outcome w).1 with
      | .ok _ => rid.map fun rid => (rid.pageId, txn)
      | .error _ => none
  | _ => none

namespace Call

/-- A call to store or to delete a row. -/
def Writes : Call → Prop
  | .request (.insert ..) => True
  | .request (.delete ..) => True
  | _ => False

/-- A call that writes a page back if it is cached and `txn` was the last to change it. -/
def WritesBack (id : PageId) (txn : TxnId) : Call → Prop
  | .request .flushAll => True
  | .request (.flushTxn txn') => txn' = txn
  | .flushPage id' => id' = id
  | _ => False

end Call

/-- A change of a page for `txn` lasts through a call: the page stays in the cache under its handle,
is not written back, and is not changed again. -/
structure Lasts (tables : Catalog) (w : World PageCache) (call : Call) (id : PageId) (txn : TxnId) :
    Prop where
  stays : (act tables w call).source.peek id = w.source.peek id
  unwritten : ¬ call.WritesBack id txn
  unchanged : ∀ txn', changed? tables w call ≠ some (id, txn')

/-- Call `n` of a run changed a page for `txn`, and what it changed has lasted since. -/
structure LastChange (tables : Catalog) (w : World PageCache) (calls : List Call) (id : PageId)
    (txn : TxnId) (n : Nat) : Prop where
  change : ∃ call, calls[n]? = some call ∧
    changed? tables (afterCalls tables w (calls.take n)) call = some (id, txn)
  lasts : ∀ m call, n < m → calls[m]? = some call →
    Lasts tables (afterCalls tables w (calls.take m)) call id txn

variable {tables : Catalog} {w w' : World PageCache} {id : PageId} {h : Handle} {p q : Page}
  {t : TableFile} {call : Call} {calls : List Call} {txn : TxnId} {n : Nat}

theorem afterCalls_concat (tables : Catalog) (w : World PageCache) (calls : List Call)
    (call : Call) :
    afterCalls tables w (calls ++ [call]) = act tables (afterCalls tables w calls) call := by
  simp [afterCalls]

/-- One more call is the last change of a page, or the last change before it lasts through it. -/
theorem lastChange_concat : LastChange tables w (calls ++ [call]) id txn n ↔
    n = calls.length ∧ changed? tables (afterCalls tables w calls) call = some (id, txn) ∨
      LastChange tables w calls id txn n ∧
        Lasts tables (afterCalls tables w calls) call id txn := by
  have hlast : (calls ++ [call])[calls.length]? = some call := by simp
  -- the calls before the last one are made in the same worlds
  have hbefore : ∀ {m}, m < calls.length → (calls ++ [call])[m]? = calls[m]? ∧
      (calls ++ [call]).take m = calls.take m := fun hm =>
    ⟨List.getElem?_append_left hm, List.take_append_of_le_length hm.le⟩
  have hwhole : (calls ++ [call]).take calls.length = calls := by simp
  constructor
  · rintro ⟨⟨call', hcall, hchange⟩, hlasts⟩
    have hn : n < calls.length + 1 := by
      simpa using (List.getElem?_eq_some_iff.mp hcall).1
    rcases Nat.lt_succ_iff_lt_or_eq.mp hn with hn | rfl
    · rw [(hbefore hn).1] at hcall
      rw [(hbefore hn).2] at hchange
      refine .inr ⟨⟨⟨call', hcall, hchange⟩, fun m call'' hm hcall' => ?_⟩, ?_⟩
      · have hm' := (List.getElem?_eq_some_iff.mp hcall').1
        have hlast' := hlasts m call'' hm ((hbefore hm').1.trans hcall')
        rwa [(hbefore hm').2] at hlast'
      · have hlast' := hlasts calls.length call hn hlast
        rwa [hwhole] at hlast'
    · obtain rfl := Option.some.inj (hlast.symm.trans hcall)
      rw [hwhole] at hchange
      exact .inl ⟨rfl, hchange⟩
  · rintro (⟨rfl, hchange⟩ | ⟨⟨⟨call', hcall, hchange⟩, hlasts⟩, hlast'⟩)
    · refine ⟨⟨call, hlast, by rwa [hwhole]⟩, fun m call' hm hcall' => ?_⟩
      have hm' := (List.getElem?_eq_some_iff.mp hcall').1
      simp only [List.length_append, List.length_cons, List.length_nil] at hm'
      omega
    · have hn := (List.getElem?_eq_some_iff.mp hcall).1
      refine ⟨⟨call', (hbefore hn).1.trans hcall, by rwa [(hbefore hn).2]⟩,
        fun m call'' hm hcall' => ?_⟩
      have hm' : m < calls.length + 1 := by
        simpa using (List.getElem?_eq_some_iff.mp hcall').1
      rcases Nat.lt_succ_iff_lt_or_eq.mp hm' with hm' | rfl
      · rw [(hbefore hm').1] at hcall'
        rw [(hbefore hm').2]
        exact hlasts m call'' hm hcall'
      · obtain rfl := Option.some.inj (hlast.symm.trans hcall')
        rwa [hwhole]

/-- A call to store or to delete a row has changed one page, or it failed and has changed none. -/
theorem settles_of_writes (hw : Named w) (hcall : call.Writes) :
    changed? tables w call = none ∧ Rested w (act tables w call) ∨
      ∃ id txn h, changed? tables w call = some (id, txn) ∧
        Altered w txn id h (act tables w call) := by
  match call, hcall with
  | .request (.insert txn k r), _ =>
    simp only [changed?, act, perform]
    cases ht : tables.table? k with
    | none =>
      rw [run_insert_none ht]
      exact .inl ⟨rfl, .refl hw⟩
    | some t =>
      have hstores := stores_insert tables hw t txn r
      rw [run_insert ht]
      generalize (t.insert (source tables) txn r).outcome w = out at hstores ⊢
      obtain ⟨e | st, w'⟩ := out
      · exact .inl ⟨rfl, hstores⟩
      · obtain ⟨rid, hrid, haltered⟩ := hstores
        obtain ⟨p, hc, -⟩ := haltered.page
        obtain ⟨c, hout, hlive, hpeek, -⟩ := haltered.outcome_recache tables hc
        simp only [hout, hrid]
        exact .inr ⟨rid.pageId, txn, st.handle, rfl, haltered.promote hlive hpeek⟩
  | .request (.delete txn none), _ => exact .inl ⟨rfl, .refl hw⟩
  | .request (.delete txn (some rid)), _ =>
    simp only [changed?, act, perform, delete, Action.outcome_bind]
    cases ht : tables.table? rid.pageId.table with
    | none =>
      rw [outcome_table_none ht]
      exact .inl ⟨rfl, .refl hw⟩
    | some t =>
      have halters := alters_delete tables hw t txn rid
      simp only [outcome_table ht, Action.outcome_mapError]
      generalize (t.delete (source tables) txn (some rid)).outcome w = out at halters ⊢
      obtain ⟨e | h, w'⟩ := out
      · exact .inl ⟨rfl, halters⟩
      · obtain ⟨p, hc, -⟩ := halters.page
        obtain ⟨c, hout, hlive, hpeek, -⟩ := halters.outcome_recache tables hc
        simp only [mapError_ok, hout]
        exact .inr ⟨rid.pageId, txn, h, rfl, halters.promote hlive hpeek⟩

/-- The tag that a page in the cache has after a call: it was changed, or has been in the cache
under its handle and keeps its tag unless it is written back, or it came in. -/
inductive Tags (tables : Catalog) (w : World PageCache) (call : Call) (id : PageId) (h : Handle) :
    Option TxnId → Prop where
  | changed {txn : TxnId} (hchange : changed? tables w call = some (id, txn)) :
      Tags tables w call id h (some txn)
  | kept {p : Page} {tag : Option TxnId} (hsame : ∀ txn, changed? tables w call ≠ some (id, txn))
      (hc : Cached w id h p)
      (htag : ∀ txn, tag = some txn ↔ p.dirtiedBy = some txn ∧ ¬ call.WritesBack id txn) :
      Tags tables w call id h tag
  | loaded (hsame : ∀ txn, changed? tables w call ≠ some (id, txn))
      (hnew : w.source.peek id ≠ some h) : Tags tables w call id h none

/-- A page that was as it is before a call, or has come in by it. -/
theorem tags_of_kept (hw : Named w) (hsame : ∀ txn, changed? tables w call ≠ some (id, txn))
    (hquiet : ∀ txn, ¬ call.WritesBack id txn)
    (hkept : Cached w id h p ∨ w.loaded.size ≤ h.index ∧ p.dirtiedBy = none) :
    Tags tables w call id h p.dirtiedBy := by
  rcases hkept with hc | ⟨hle, hclean⟩
  · exact .kept hsame hc fun txn => (and_iff_left (hquiet txn)).symm
  · rw [hclean]
    exact .loaded hsame fun hpeek => absurd (hw.named id h hpeek) (not_lt.mpr hle)

theorem Call.Writes.not_writesBack (hcall : call.Writes) (id : PageId) (txn : TxnId) :
    ¬ call.WritesBack id txn := by
  match call, hcall with
  | .request (.insert ..), _ => exact not_false
  | .request (.delete ..), _ => exact not_false

theorem tags_of_writes (hw : Named w) (hcall : call.Writes)
    (hc : Cached (act tables w call) id h p) : Tags tables w call id h p.dirtiedBy := by
  rcases settles_of_writes hw hcall with ⟨hnone, hrested⟩ | ⟨id₀, txn, h₀, hchange, haltered⟩
  · exact tags_of_kept hw (by simp [hnone]) (hcall.not_writesBack id) (hrested.cached hc)
  · by_cases hid : id = id₀
    · subst hid
      obtain ⟨q, hc', htag⟩ := haltered.page
      obtain rfl := Option.some.inj (hc.cached?_eq.symm.trans hc'.cached?_eq)
      rw [htag]
      exact .changed hchange
    · refine tags_of_kept hw (fun txn' heq => hid ?_) (hcall.not_writesBack id)
        (haltered.others hid hc)
      exact (congrArg Prod.fst (Option.some.inj (hchange.symm.trans heq))).symm

section Flush
variable {I : World PageCache → Prop} (hI : Quiet tables I False) (hw : I w)
include hI hw

/-- Writing cached pages back clears the tags of those that are asked for. -/
theorem dirtiedBy_flushThose (P : Page → Bool)
    (hc : Cached ((flushThose tables P (cachedPages w.source)).outcome w).2 id h q) :
    ∃ p, Cached w id h p ∧ q.dirtiedBy = if P p then none else p.dirtiedBy := by
  have hnamed := hI.named hw
  obtain ⟨r, w', hout, -, hretains, hr⟩ := hI.flushThose P (cachedPages w.source) hw
    fun _ hmem => hnamed.live.mem_values.mp hmem
  obtain ⟨-, hclean⟩ := hr.resolve_right And.right
  rw [hout] at hc
  have hpeek : w.source.peek id = some h := hretains.source ▸ hc.1
  obtain ⟨p, hp⟩ := hnamed.exists_cached hpeek
  refine ⟨p, hp, ?_⟩
  by_cases hP : P p
  · rw [if_pos hP]
    rcases hclean id h q hc with hnone | ⟨hold, hasked⟩
    · exact hnone
    · obtain rfl := Option.some.inj (hp.2.symm.trans hold.2)
      have hmem : h ∈ cachedPages w.source := hnamed.live.mem_values.mpr ⟨id, hpeek⟩
      simp [hasked hmem] at hP
  · have hkept := loaded_flushThose tables (cachedPages w.source) hp.2
      (Bool.eq_false_iff.mpr hP)
    rw [hout, hc.2] at hkept
    rw [if_neg hP, Option.some.inj hkept]

theorem dirtiedBy_flushPage {id' : PageId}
    (hc : Cached ((flushPage tables id').outcome w).2 id h q) :
    ∃ p, Cached w id h p ∧ q.dirtiedBy = if id' = id then none else p.dirtiedBy := by
  have hnamed := hI.named hw
  simp only [flushPage, Action.outcome_bind, outcome_getCache] at hc
  cases hpeek : w.source.peek id' with
  | none =>
    simp only [hpeek] at hc
    have hne : id' ≠ id := by
      rintro rfl
      cases hpeek.symm.trans hc.1
    exact ⟨q, hc, by rw [if_neg hne]⟩
  | some h' =>
    obtain ⟨p', hp'⟩ := hnamed.exists_cached hpeek
    obtain ⟨r, w', hout, -, hsource, hother, hr⟩ := hI.writeBack hw hp'
    obtain ⟨-, hwritten⟩ | ⟨_, -, -, ⟨⟩⟩ := hr
    simp only [hpeek, hout] at hc
    have hpeek' : w.source.peek id = some h := hsource ▸ hc.1
    by_cases hid : id' = id
    · subst hid
      obtain rfl := Option.some.inj (hpeek.symm.trans hpeek')
      obtain rfl := Option.some.inj (hwritten.2.symm.trans hc.2)
      exact ⟨p', hp', by rw [if_pos rfl]; rfl⟩
    · have hindex : h.index ≠ h'.index := fun e => hid (hnamed.id_eq_of_index hpeek hpeek' e.symm)
      exact ⟨q, ⟨hpeek', (hother _ hindex).symm.trans hc.2⟩, by rw [if_neg hid]⟩

end Flush

/-- The tags of the pages that are in the cache after a call. -/
theorem tags_of_act (hb : tables.Registered) (hw : Sheltered tables w) (call : Call)
    (hc : Cached (act tables w call) id h p) : Tags tables w call id h p.dirtiedBy := by
  have hnamed := hw.toNamed
  have hquiet : Quiet tables (Leads tables ∅ w) False := quiet_leads hb
  have hrefl : Leads tables ∅ w w := .refl hw
  have hsame (hnone : changed? tables w call = none) (txn : TxnId) :
      changed? tables w call ≠ some (id, txn) := by simp [hnone]
  have hrested (hnone : changed? tables w call = none)
      (hwrites : ∀ txn, ¬ call.WritesBack id txn) (hrested : Rested w (act tables w call)) :
      Tags tables w call id h p.dirtiedBy :=
    tags_of_kept hnamed (hsame hnone) hwrites (hrested.cached hc)
  cases call with
  | request q =>
    cases q with
    | insert txn k r => exact tags_of_writes hnamed trivial hc
    | delete txn rid => exact tags_of_writes hnamed trivial hc
    | get txn id permission =>
      exact hrested rfl (fun _ => not_false) (rested_fetch tables hnamed txn id permission rfl).1
    | scan txn k =>
      refine hrested rfl (fun _ => not_false) ?_
      simp only [act, perform]
      cases tables.table? k with
      | none => exact .refl hnamed
      | some t => exact preserves_scan preserves_rested (.refl hnamed) txn t
    | flushTxn txn =>
      obtain ⟨p₀, hc₀, htag⟩ := dirtiedBy_flushThose hquiet hrefl (·.dirtiedBy == some txn) hc
      refine .kept (hsame rfl) hc₀ fun txn' => ?_
      rw [htag]
      by_cases hasked : p₀.dirtiedBy = some txn
      · simp [hasked, Call.WritesBack]
      · have hother : p₀.dirtiedBy = some txn' → txn ≠ txn' := by
          rintro htag' rfl
          exact hasked htag'
        simpa [hasked, Call.WritesBack] using hother
    | flushAll =>
      obtain ⟨p₀, hc₀, htag⟩ := dirtiedBy_flushThose hquiet hrefl (fun _ => true) hc
      exact .kept (hsame rfl) hc₀ fun txn' => by simp [htag, Call.WritesBack]
  | fetchPage txn id permission =>
    exact hrested rfl (fun _ => not_false) (rested_source tables hnamed txn id permission rfl).1
  | flushPage id' =>
    obtain ⟨p₀, hc₀, htag⟩ := dirtiedBy_flushPage hquiet hrefl hc
    refine .kept (hsame rfl) hc₀ fun txn' => ?_
    rw [htag]
    by_cases hid : id' = id <;> simp [hid, Call.WritesBack]
  | discard id' =>
    have hpeek := hc.1
    simp only [act, discard, Action.outcome_bind, outcome_getCache, outcome_setCache,
      (hnamed.live.peek_remove id').2] at hpeek
    split at hpeek
    · cases hpeek
    · exact tags_of_kept hnamed (hsame rfl) (fun _ => not_false) (.inl ⟨hpeek, hc.2⟩)
  | evict => exact hrested rfl (fun _ => not_false) (rested_evict tables hnamed).1
  | scanStep sc step =>
    exact hrested rfl (fun _ => not_false)
      (preserves_stepped preserves_rested (.refl hnamed) sc step)

/-- In a run from a world with nothing in the cache, a page is tagged with the transaction of its
last change. -/
theorem dirtiedBy_iff (hb : tables.Registered) (hw : Sheltered tables w)
    (hempty : ∀ id, w.source.peek id = none) (calls : List Call)
    (hc : Cached (afterCalls tables w calls) id h p) (txn : TxnId) :
    p.dirtiedBy = some txn ↔ ∃ n, LastChange tables w calls id txn n := by
  induction calls using List.reverseRecOn generalizing id h p txn with
  | nil => cases (hempty id).symm.trans hc.1
  | append_singleton calls call ih =>
    have hw₁ := (hw.afterCalls hb calls).after
    rw [afterCalls_concat] at hc
    have htags := tags_of_act hb hw₁ call hc
    have hconcat : (∃ n, LastChange tables w (calls ++ [call]) id txn n) ↔
        changed? tables (afterCalls tables w calls) call = some (id, txn) ∨
          (∃ n, LastChange tables w calls id txn n) ∧
            Lasts tables (afterCalls tables w calls) call id txn := by
      simp only [lastChange_concat, exists_or, exists_and_right, exists_eq, true_and]
    rw [hconcat]
    -- the last call tells by itself, unless the page and its tag were there before it
    generalize htag : p.dirtiedBy = tag at htags ⊢
    cases htags with
    | changed hchange =>
      refine ⟨fun heq => .inl (by rw [hchange, Option.some.inj heq]), ?_⟩
      rintro (hchange' | ⟨-, hlasts⟩)
      · exact congrArg (·.map Prod.snd) (hchange.symm.trans hchange')
      · exact absurd hchange (hlasts.unchanged _)
    | kept hsame hc₀ htag' =>
      rw [htag', ih hc₀]
      refine ⟨fun ⟨hlast, hunwritten⟩ => .inr ⟨hlast, hc.1.trans hc₀.1.symm, hunwritten, hsame⟩, ?_⟩
      rintro (hchange | ⟨hlast, hlasts⟩)
      · exact absurd hchange (hsame txn)
      · exact ⟨hlast, hlasts.unwritten⟩
    | loaded hsame hnew =>
      refine ⟨(fun hnone => by cases hnone), ?_⟩
      rintro (hchange | ⟨-, hlasts⟩)
      · exact absurd hchange (hsame txn)
      · exact absurd (hlasts.stays.symm.trans hc.1) hnew

/-- What a call that fails does to the pages in the cache: those that are there afterwards were
there as they are, or came in with no tag, and those that are gone are written back, which clears
their tags. -/
structure Harmless (tables : Catalog) (w w' : World PageCache) : Prop where
  sets_none : ∀ {id h p}, Cached w' id h p →
    Cached w id h p ∨ w.source.peek id ≠ some h ∧ p.dirtiedBy = none
  clears : ∀ {id h p}, Cached w id h p → Cached w' id h p ∨
    (∀ id', w'.source.peek id' ≠ some h) ∧ w'.loaded[h.index]? = some (p.mark none) ∧
      diskContents tables w'.disk id = some (.ok (p.mark none))

/-- The tags in a pool after a run are exact: a page in the cache is one of a table and is tagged
with the transaction of its last change; if it has no tag, it is as its bytes on the disk say. A
call that fails to store or to delete a row is harmless. -/
structure ExactTags (tables : Catalog) (w₀ : World PageCache) (calls : List Call) : Prop where
  belongs : ∀ {id h p}, Cached (afterCalls tables w₀ calls) id h p → p.id = id ∧
    ∃ t, tables.table? id.table = some t ∧ p.schema = t.schema ∧ p.layout.pageSize = t.pageSize
  tag : ∀ {id h p}, Cached (afterCalls tables w₀ calls) id h p → ∀ txn,
    p.dirtiedBy = some txn ↔ ∃ n, LastChange tables w₀ calls id txn n
  clean : ∀ {id h p}, Cached (afterCalls tables w₀ calls) id h p → p.dirtiedBy = none →
    diskContents tables (afterCalls tables w₀ calls).disk id = some (.ok p)
  failed : ∀ call : Call, call.Writes → changed? tables (afterCalls tables w₀ calls) call = none →
    Harmless tables (afterCalls tables w₀ calls) (act tables (afterCalls tables w₀ calls) call)

theorem Coherent.diskContents_of_clean (hw : Coherent tables w) (hc : Cached w id h p)
    (hclean : p.dirtiedBy = none) : diskContents tables w.disk id = some (.ok p) := by
  obtain ⟨t, ht, hplaced⟩ := hw.placed id p hc.cached?_eq
  simp only [diskContents, ht, if_neg (not_lt.mpr hplaced.whole), hplaced.clean hclean]

/-- A call that fails to store or to delete a row leaves all pages as they are. -/
theorem contents_of_failed (heffect : CallEffect tables w call) (hcall : call.Writes)
    (hfailed : changed? tables w call = none) (hthere : contents tables w id ≠ none) :
    contents tables (act tables w call) id = contents tables w id := by
  match call, hcall with
  | .request (.insert txn k r), _ =>
    simp only [CallEffect, act, perform] at heffect ⊢
    simp only [changed?] at hfailed
    generalize (insert tables txn k r).run w = out at heffect hfailed ⊢
    obtain ⟨⟨row, result⟩, w'⟩ := out
    cases hseen : seen w' result with
    | error e =>
      simp only [hseen] at heffect
      exact heffect.2.pages id hthere
    | ok p =>
      simp only [hseen] at heffect
      obtain ⟨rid, rfl, -⟩ := heffect
      cases result with
      | error e => cases hseen
      | ok h => simp [Row.stamped] at hfailed
  | .request (.delete txn rid), _ =>
    simp only [CallEffect, act, perform] at heffect ⊢
    simp only [changed?] at hfailed
    generalize (delete tables txn rid).outcome w = out at heffect hfailed ⊢
    obtain ⟨result, w'⟩ := out
    cases hseen : seen w' result with
    | error e =>
      simp only [hseen] at heffect
      exact congrFun heffect id
    | ok p =>
      simp only [hseen] at heffect
      obtain ⟨rid', rfl, -⟩ := heffect
      cases result with
      | error e => cases hseen
      | ok h => simp at hfailed

theorem Coherent.harmless (hb : tables.Apart) (hw : Coherent tables w)
    (hcounted : tables.Counted w.disk) (hcall : call.Writes)
    (hfailed : changed? tables w call = none) : Harmless tables w (act tables w call) := by
  obtain ⟨hw', heffect⟩ := hw.step hb hcounted call
  have hrested : Rested w (act tables w call) := by
    rcases settles_of_writes hw.toNamed hcall with ⟨-, hrested⟩ | ⟨_, _, _, hchange, -⟩
    · exact hrested
    · cases hfailed.symm.trans hchange
  refine ⟨fun {id h p} hc => ?_, fun {id h p} hc => ?_⟩
  · refine (hrested.cached hc).imp_right fun ⟨hle, hclean⟩ => ⟨fun hpeek => ?_, hclean⟩
    exact absurd (hw.named id h hpeek) (not_lt.mpr hle)
  · refine (hrested.kept hc).imp_right fun ⟨hloose, hload⟩ => ⟨fun id' hpeek =>
      hloose id' h hpeek rfl, hload, ?_⟩
    -- the page holds what it held; as it is gone from the cache, its file has it
    have hthere : contents tables w id = some (.ok (p.mark none)) := by
      simp only [contents, hc.cached?_eq]
    have hcontents : contents tables (act tables w call) id = contents tables w id :=
      contents_of_failed heffect hcall hfailed (by simp [hthere])
    rw [hthere] at hcontents
    rw [← hcontents]
    cases hq : cached? (act tables w call) id with
    | none => simp only [contents, hq]
    | some q =>
      obtain ⟨h', hc'⟩ := cached_of_cached? hq
      rcases hrested.cached hc' with hold | ⟨-, hclean⟩
      · obtain rfl := Option.some.inj (hc.1.symm.trans hold.1)
        exact absurd rfl (hloose.not_cached hc')
      · simp only [contents, hq, hw'.diskContents_of_clean hc' hclean, Page.mark_of_clean hclean]

/-- In every run of a pool, over files of their own that are never longer than 32 bits can count
their pages nor than an offset can be, the tags are exact. -/
theorem exactTags_of_run {capacity : Nat} {c : PageCache} {d : Disk} (hb : tables.Apart)
    (hc : create capacity = .ok c) (haddressed : tables.Addressed d) (calls : List Call)
    (hcounted : ∀ n, tables.Counted (afterCalls tables (fresh d c) (calls.take n)).disk) :
    ExactTags tables (fresh d c) calls := by
  have hw := (coherent_fresh hc d).afterCalls hb calls hcounted
  have hend := hcounted calls.length
  rw [List.take_length] at hend
  have hempty := (RecencyCache.Live.create (mapError_eq_ok.mp hc)).2
  refine ⟨fun {id h p} hcached => ?_, fun hcached => ?_, hw.diskContents_of_clean,
    fun call hcall hfailed => hw.harmless hb hend hcall hfailed⟩
  · obtain ⟨t, ht, hplaced⟩ := hw.placed id p hcached.cached?_eq
    have hbelongs := hplaced.belongs
    exact ⟨hbelongs.id_eq, t, ht, hbelongs.schema_eq, hbelongs.size_eq⟩
  · exact dirtiedBy_iff hb.registered (sheltered_fresh hc haddressed) hempty calls hcached

/-- A file of a full page, an empty one, and a byte more. -/
def torn : Disk := TableFile.numbers.putBytes TableFile.oneRow 1 (Bytes.zeros 10)

/-- Two rows for that file. The first one is stored on the second page; for the other one there is
no page. -/
def lastPlace : List Call :=
  [.request (.insert 2 1 ⟨[.integer 6], none⟩), .request (.insert 3 1 ⟨[.integer 7], none⟩)]

theorem exactTags_of_run_lastPlace : ∃ c, create 1 = .ok c ∧
    ExactTags .pair (fresh torn c) lastPlace ∧ ExactTags .pair (fresh torn c) (lastPlace.take 1) ∧
    (cached? (afterCalls .pair (fresh torn c) (lastPlace.take 1)) ⟨1, 1⟩).bind (·.dirtiedBy) =
      some 2 := by
  obtain ⟨hc, haddressed, hcounted⟩ := pair_run (act .pair) 1 torn lastPlace (by decide)
    (by decide +kernel)
  refine ⟨_, hc, exactTags_of_run Catalog.backed_pair hc haddressed lastPlace hcounted,
    exactTags_of_run Catalog.backed_pair hc haddressed _ fun n => ?_, by decide +kernel⟩
  rw [List.take_take]
  exact hcounted _

/-- A row that finds no place clears a tag: the page that has it makes room for the one before it,
and is read again. -/
theorem clears_tag_of_failed : ∃ c, create 1 = .ok c ∧
    (cached? (afterCalls .pair (fresh torn c) (lastPlace.take 1)) ⟨1, 1⟩).map (·.dirtiedBy) =
      some (some 2) ∧
    changed? .pair (afterCalls .pair (fresh torn c) (lastPlace.take 1))
      (.request (.insert 3 1 ⟨[.integer 7], none⟩)) = none ∧
    (cached? (afterCalls .pair (fresh torn c) lastPlace) ⟨1, 1⟩).map (·.dirtiedBy) =
      some none := by
  have hc : create 1 = .ok (roomFor 1) := rfl
  exact ⟨_, hc, by decide +kernel, by decide +kernel, by decide +kernel⟩

end RowStore.Pool
