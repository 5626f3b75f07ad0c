import RowStore.CommandLine
import RowStore.Proofs.Computation

/-! A table as the users of the command line see it: places in pages, some of which hold values. -/
namespace RowStore

/-- A place in a table: the number of a page, and that of a slot of the page. -/
structure Place where
  page : UInt32
  slot : UInt32
  deriving DecidableEq, Repr

namespace Place

/-- The record id of a place in a table. -/
def inTable (k : TableId) (x : Place) : RecordId := ⟨⟨k, x.page⟩, x.slot⟩

/-- The order of places: by page, then by slot. -/
def Before (x y : Place) : Prop := x.page < y.page ∨ x.page = y.page ∧ x.slot < y.slot

/-- The places of pages with the same number of slots, in order. -/
def all (pageCount slotCount : Nat) : List Place :=
  (List.range pageCount).flatMap fun n =>
    (List.range slotCount).map fun i => ⟨UInt32.ofNat n, UInt32.ofNat i⟩

/-- The places of `count` pages from page `number` on, in order. -/
def onPages (slotCount : Nat) : (count : Nat) → (number : UInt32) → List Place
  | 0, _ => []
  | count + 1, number =>
      (List.range slotCount).map (fun i => ⟨number, UInt32.ofNat i⟩) ++
        onPages slotCount count (number + 1)

variable {pageCount slotCount : Nat} {x : Place}

theorem all_eq (pageCount slotCount : Nat) :
    all pageCount slotCount = onPages slotCount pageCount 0 := by
  have hfrom : ∀ first, ((List.range' first pageCount).flatMap fun n =>
      (List.range slotCount).map fun i => Place.mk (UInt32.ofNat n) (UInt32.ofNat i)) =
        onPages slotCount pageCount (UInt32.ofNat first) := by
    induction pageCount with
    | zero => exact fun _ => rfl
    | succ count ih =>
      intro first
      rw [List.range'_succ, List.flatMap_cons, ih, onPages, UInt32.ofNat_add]
      rfl
  rw [all, List.range_eq_range' (n := pageCount), hfrom]
  rfl

theorem mem_all (hpages : pageCount ≤ 2 ^ 32) (hslots : slotCount ≤ 2 ^ 32) :
    x ∈ all pageCount slotCount ↔ x.page.toNat < pageCount ∧ x.slot.toNat < slotCount := by
  simp only [all, List.mem_flatMap, List.mem_map, List.mem_range]
  constructor
  · rintro ⟨n, hn, i, hi, rfl⟩
    rw [UInt32.toNat_ofNat_of_lt' (hn.trans_le hpages), UInt32.toNat_ofNat_of_lt' (hi.trans_le hslots)]
    exact ⟨hn, hi⟩
  · rintro ⟨hpage, hslot⟩
    exact ⟨_, hpage, _, hslot, by rw [UInt32.ofNat_toNat, UInt32.ofNat_toNat]⟩

theorem ofNat_lt {a b n : Nat} (hab : a < b) (hb : b < n) (hn : n ≤ 2 ^ 32) :
    UInt32.ofNat a < UInt32.ofNat b := by
  rw [UInt32.lt_iff_toNat_lt, UInt32.toNat_ofNat_of_lt' (hab.trans (hb.trans_le hn)),
    UInt32.toNat_ofNat_of_lt' (hb.trans_le hn)]
  exact hab

theorem pairwise_all (hpages : pageCount ≤ 2 ^ 32) (hslots : slotCount ≤ 2 ^ 32) :
    (all pageCount slotCount).Pairwise Before := by
  have hrange : ∀ n, (List.range n).Pairwise fun a b => a < b ∧ b < n := fun n => by
    rw [List.pairwise_iff_getElem]
    intro i j hi hj hij
    simp only [List.getElem_range]
    exact ⟨hij, by simpa using hj⟩
  rw [all, List.pairwise_flatMap]
  constructor
  · intro n _
    rw [List.pairwise_map]
    exact (hrange slotCount).imp fun ⟨hij, hj⟩ => .inr ⟨rfl, ofNat_lt hij hj hslots⟩
  · refine (hrange pageCount).imp fun ⟨hnm, hm⟩ x hx y hy => .inl ?_
    obtain ⟨i, -, rfl⟩ := List.mem_map.mp hx
    obtain ⟨j, -, rfl⟩ := List.mem_map.mp hy
    exact ofNat_lt hnm hm hpages

end Place

/-- A number of pages, and the values in the places that are taken. -/
structure Sheet where
  pageCount : Nat := 0
  values? : Place → Option (List Value) := fun _ => none

namespace Sheet

/-- The place for the next row: the first free one, or the first one of a new page. -/
def home (s : Sheet) (slotCount : Nat) : Place :=
  ((Place.all s.pageCount slotCount).find? fun x => (s.values? x).isNone).getD
    ⟨UInt32.ofNat s.pageCount, 0⟩

/-- The sheet with values in a place, and with the page of the place. -/
def put (s : Sheet) (x : Place) (values : List Value) : Sheet where
  pageCount := max s.pageCount (x.page.toNat + 1)
  values? := Function.update s.values? x (some values)

def clear (s : Sheet) (x : Place) : Sheet :=
  { s with values? := Function.update s.values? x none }

/-- The rows of a sheet in the order of their places, as rows of a table. -/
def rows (s : Sheet) (slotCount : Nat) (k : TableId) : List Row :=
  (Place.all s.pageCount slotCount).filterMap fun x =>
    (s.values? x).map fun values => ⟨values, some (x.inTable k)⟩

variable {s : Sheet} {slotCount : Nat}

/-- The next row gets the least free place, or if no place is free the first one of a new page. -/
theorem home_least (hpages : s.pageCount ≤ 2 ^ 32) (hslots : slotCount ≤ 2 ^ 32) :
    ((s.home slotCount).page.toNat < s.pageCount ∧ (s.home slotCount).slot.toNat < slotCount ∧
        s.values? (s.home slotCount) = none ∧
          ∀ x : Place, x.slot.toNat < slotCount → x.Before (s.home slotCount) →
            (s.values? x).isSome) ∨
      s.home slotCount = ⟨UInt32.ofNat s.pageCount, 0⟩ ∧
        ∀ x : Place, x.page.toNat < s.pageCount → x.slot.toNat < slotCount →
          (s.values? x).isSome := by
  have hmem := fun x => Place.mem_all (x := x) hpages hslots
  unfold home
  cases hfind : (Place.all s.pageCount slotCount).find? fun x => (s.values? x).isNone with
  | none =>
    refine .inr ⟨rfl, fun x hpage hslot => ?_⟩
    simpa [Option.isSome_iff_ne_none] using
      List.find?_eq_none.mp hfind x ((hmem x).mpr ⟨hpage, hslot⟩)
  | some y =>
    left
    obtain ⟨hfree, before, after, hall, htaken⟩ := List.find?_eq_some_iff_append.mp hfind
    obtain ⟨hpage, hslot⟩ := (hmem y).mp (hall ▸ by simp)
    refine ⟨hpage, hslot, by simpa using hfree, fun x hx hlt => ?_⟩
    have hsorted := Place.pairwise_all hpages hslots
    rw [hall, List.pairwise_append, List.pairwise_cons] at hsorted
    obtain ⟨-, ⟨hafter, -⟩, -⟩ := hsorted
    have hin : x ∈ Place.all s.pageCount slotCount := by
      refine (hmem x).mpr ⟨?_, hx⟩
      rcases hlt with hlt | ⟨heq, -⟩
      · exact (UInt32.lt_iff_toNat_lt.mp hlt).trans hpage
      · exact heq ▸ hpage
    have hirrefl : ∀ x y : Place, x.Before y → ¬ (y.Before x ∨ y = x) := by
      rintro ⟨p, i⟩ ⟨q, j⟩ hxy hyx
      simp only [Place.Before, Place.mk.injEq, UInt32.lt_iff_toNat_lt, ← UInt32.toNat_inj]
        at hxy hyx
      omega
    rw [hall, List.mem_append, List.mem_cons] at hin
    rcases hin with hin | rfl | hin
    · simpa using htaken x hin
    · exact absurd (.inr rfl) (hirrefl _ _ hlt)
    · exact absurd (.inl (hafter x hin)) (hirrefl _ _ hlt)

theorem home_page_le (s : Sheet) (hpages : s.pageCount ≤ 2 ^ 32) (hslots : slotCount ≤ 2 ^ 32) :
    (s.home slotCount).page.toNat ≤ s.pageCount := by
  rcases home_least hpages hslots with ⟨hpage, -⟩ | ⟨hhome, -⟩
  · exact hpage.le
  · rw [hhome, UInt32.toNat_ofNat']
    exact Nat.mod_le _ _

end Sheet

namespace CommandLine

/-- A command on the rows of a table. -/
inductive RowCommand where
  | scan
  | insert (texts : List String)
  | delete (x : Place)

def RowCommand.toCommand : RowCommand → Command
  | .scan => .scan
  | .insert texts => .insert texts
  | .delete x => .delete x.page x.slot

/-- A row with its record id, as a line. -/
def rowLine (r : Row) : String := (r.rid.map (·.render)).getD "" ++ " " ++ r.render ++ "\n"

/-- What comes of a command on a sheet of rows of these columns: what it prints, unless it fails,
and the sheet after it. The table has the number `k`. -/
def RowCommand.act (schema : Schema) (slotCount : Nat) (k : TableId) (s : Sheet) :
    RowCommand → Option String × Sheet
  | .scan =>
      let rows := s.rows slotCount k
      (some (String.join (rows.map rowLine) ++ (s!"{rows.length} tuple(s)" ++ "\n")), s)
  | .insert texts =>
      if texts.length = schema.columns.length then
        match readValues schema.columns texts with
        | .error _ => (none, s)
        | .ok values =>
            let x := s.home slotCount
            (some ("inserted at " ++ (x.inTable k).render ++ "\n"), s.put x values)
      else (none, s)
  | .delete x =>
      if (s.values? x).isSome then
        (some ("deleted " ++ (x.inTable k).render ++ "\n"), s.clear x)
      else (none, s)

/-- Values that are read for columns are of their types. -/
theorem conforms_of_readValues {schema : Schema} {texts : List String} {values : List Value}
    (hlength : texts.length = schema.columns.length)
    (h : readValues schema.columns texts = .ok values) : schema.conforms values := by
  have hread := mapM_eq_ok.mp h
  have hcount := hread.length_eq
  rw [List.length_zip, hlength, min_self] at hcount
  rw [Schema.conforms, Bool.and_eq_true, beq_iff_eq, List.all_eq_true]
  refine ⟨hcount.symm, fun ⟨c, v⟩ hmem => ?_⟩
  obtain ⟨i, hi, hget⟩ := List.mem_iff_getElem.mp hmem
  rw [List.getElem_zip, Prod.mk.injEq] at hget
  obtain ⟨rfl, rfl⟩ := hget
  rw [List.length_zip, lt_min_iff] at hi
  have hparse := hread.get (i := i) (by simp [hlength, hi.1]) hi.2
  simp only [List.get_eq_getElem, List.getElem_zip, Value.parse] at hparse
  split at hparse
  · contradiction
  · split at hparse
    · next haccepts => exact Except.ok.inj hparse ▸ haccepts
    · contradiction

/-- A report of what was printed, or of a failure that printed nothing. -/
def Report.Answers (r : Report) : Option String → Prop
  | some text => r = ⟨0, text, ""⟩
  | none => r.exitCode = 1 ∧ r.output = ""

end CommandLine
end RowStore
