import RowStore.Disk
import RowStore.Proofs.TextFields

/-! The spellings of a path: texts that differ in repeated slashes, in slashes at the end and in `.`
components stand for one table number, and so does a path for its absolute form. -/
namespace RowStore.Path
open Text

variable {base names : List String} {a b : String} {p q : Path}

/-- A component of a path that is kept: the name of a file or a directory, or `..`. -/
structure IsName (n : String) : Prop where
  slash : '/' ∉ n.toList
  ne_empty : n ≠ ""
  ne_dot : n ≠ "."

/-- A directory by the names on the way to it from the root, without a slash at the end. -/
def directory (names : List String) : String := String.join (names.map ("/" ++ ·))

/-- Texts of paths that differ as the spellings of one place do. A path that does not begin with a
slash is taken from the directory `base`. -/
inductive Respelled (base : List String) : String → String → Prop where
  | refl (a : String) : Respelled base a a
  | symm {a b : String} (h : Respelled base a b) : Respelled base b a
  | trans {a b c : String} (h : Respelled base a b) (h' : Respelled base b c) : Respelled base a c
  | slashes (a b : String) : Respelled base (a ++ "//" ++ b) (a ++ "/" ++ b)
  | dot (a b : String) : Respelled base (a ++ "/./" ++ b) (a ++ "/" ++ b)
  | lastDot (a : String) : Respelled base (a ++ "/.") (a ++ "/")
  | lastSlash (a : String) (h : a ≠ "") : Respelled base (a ++ "/") a
  | relative (a : String) (hne : a ≠ "") (h : isAbsolute ⟨a⟩ = false) :
      Respelled base a (directory base ++ "/" ++ a)

theorem components_append (a b : String) :
    components ⟨a ++ "/" ++ b⟩ = components ⟨a⟩ ++ components ⟨b⟩ := by
  have htext : (a ++ "/" ++ b).toList = a.toList ++ '/' :: b.toList := by simp
  unfold components steps
  rw [htext, splitAt_append, List.map_append, List.filter_append, List.filter_append]

theorem components_of_isName {n : String} (h : IsName n) : components ⟨n⟩ = [n] := by
  unfold components steps
  rw [splitAt_eq_splitOn, List.splitOn_eq_singleton h.slash]
  simp [h.ne_empty, h.ne_dot]

theorem components_empty : components ⟨""⟩ = [] := rfl

theorem components_dot : components ⟨"."⟩ = [] := rfl

theorem append_slash_append_ne (a b : String) : a ++ "/" ++ b ≠ "" := by
  intro h
  have hlist := congrArg String.toList h
  simp at hlist

theorem isAbsolute_append (a b : String) :
    isAbsolute ⟨a ++ "/" ++ b⟩ = (decide (a = "") || isAbsolute ⟨a⟩) := by
  have htext : (a ++ "/" ++ b).toList = a.toList ++ '/' :: b.toList := by simp
  unfold isAbsolute
  rw [htext]
  by_cases ha : a = ""
  · subst ha
    rfl
  · have hne : a.toList ≠ [] := by simpa using ha
    rw [List.head?_append_of_ne_nil _ hne, decide_eq_false ha, Bool.false_or]

theorem exists_of_isAbsolute (h : isAbsolute ⟨a⟩ = true) : ∃ b, a = "" ++ "/" ++ b := by
  unfold isAbsolute at h
  obtain ⟨cs, hcs⟩ := List.head?_eq_some_iff.mp (beq_iff_eq.mp h)
  refine ⟨String.ofList cs, String.toList_inj.mp ?_⟩
  rw [hcs]
  simp

/-- The components of what stands before a slash; with nothing before it, it is the root. -/
def leading (base : List String) (a : String) : List String :=
  if a = "" then [] else fromRoot base ⟨a⟩

/-- What stands after a slash counts by its components only. -/
theorem fromRoot_append (base : List String) (a b : String) :
    fromRoot base ⟨a ++ "/" ++ b⟩ = leading base a ++ components ⟨b⟩ := by
  unfold leading fromRoot
  rw [isAbsolute_append, components_append]
  by_cases ha : a = ""
  · subst ha
    rfl
  · rw [decide_eq_false ha, Bool.false_or, if_neg ha]
    split
    · rfl
    · rw [List.append_assoc]

theorem directory_concat (names : List String) (n : String) :
    directory (names ++ [n]) = directory names ++ "/" ++ n := by
  unfold directory
  simp [String.append_assoc]

theorem directory_eq_empty_iff : directory names = "" ↔ names = [] := by
  constructor
  · intro h
    cases names using List.reverseRecOn with
    | nil => rfl
    | append_singleton names n =>
      rw [directory_concat] at h
      exact absurd h (append_slash_append_ne _ _)
  · rintro rfl
    rfl

theorem leading_directory (base : List String) (h : ∀ n ∈ names, IsName n) :
    leading base (directory names) = names := by
  induction names using List.reverseRecOn with
  | nil => rfl
  | append_singleton names n ih =>
    have hnames : ∀ n ∈ names, IsName n := fun m hm => h m (List.mem_append_left _ hm)
    have hn : IsName n := h n (by simp)
    have hne : directory (names ++ [n]) ≠ "" := by
      rw [directory_concat]
      exact append_slash_append_ne _ _
    rw [leading, if_neg hne, directory_concat, fromRoot_append, ih hnames, components_of_isName hn]

theorem append_slashes (a b : String) : a ++ "//" ++ b = a ++ "/" ++ ("" ++ "/" ++ b) :=
  String.toList_inj.mp (by simp)

theorem append_dot (a b : String) : a ++ "/./" ++ b = a ++ "/" ++ ("." ++ "/" ++ b) :=
  String.toList_inj.mp (by simp)

theorem append_lastDot (a : String) : a ++ "/." = a ++ "/" ++ "." := String.toList_inj.mp (by simp)

theorem append_lastSlash (a : String) : a ++ "/" = a ++ "/" ++ "" := String.toList_inj.mp (by simp)

theorem append_slash_ne (a : String) : a ++ "/" ≠ "" := by
  rw [append_lastSlash]
  exact append_slash_append_ne a ""

theorem fromRoot_append_slash (base : List String) (a : String) :
    fromRoot base ⟨a ++ "/"⟩ = leading base a := by
  rw [append_lastSlash, fromRoot_append, components_empty, List.append_nil]

/-- Spellings of one place have the same components, and are empty only together. -/
theorem Respelled.invariant (hbase : ∀ n ∈ base, IsName n) (h : Respelled base a b) :
    fromRoot base ⟨a⟩ = fromRoot base ⟨b⟩ ∧ (a = "" ↔ b = "") := by
  have hne (a b c d : String) : a ++ "/" ++ b = "" ↔ c ++ "/" ++ d = "" :=
    iff_of_false (append_slash_append_ne a b) (append_slash_append_ne c d)
  -- Each rule that changes a text leaves a slash in both texts, except `lastSlash` and `relative`.
  induction h with
  | refl a => exact ⟨rfl, Iff.rfl⟩
  | symm _ ih => exact ⟨ih.1.symm, ih.2.symm⟩
  | trans _ _ ih ih' => exact ⟨ih.1.trans ih'.1, ih.2.trans ih'.2⟩
  | slashes a b =>
    rw [append_slashes, fromRoot_append, fromRoot_append, components_append]
    exact ⟨rfl, hne ..⟩
  | dot a b =>
    rw [append_dot, fromRoot_append, fromRoot_append, components_append]
    exact ⟨rfl, hne ..⟩
  | lastDot a =>
    rw [fromRoot_append_slash, append_lastDot, fromRoot_append, components_dot, List.append_nil]
    exact ⟨rfl, iff_of_false (append_slash_append_ne _ _) (append_slash_ne a)⟩
  | lastSlash a h =>
    rw [fromRoot_append_slash, leading, if_neg h]
    exact ⟨rfl, iff_of_false (append_slash_ne a) h⟩
  | relative a ha h =>
    rw [fromRoot_append, leading_directory base hbase, fromRoot, h]
    exact ⟨rfl, iff_of_false ha (append_slash_append_ne _ _)⟩

/-- The shortest spelling of the place that names lead to. -/
def canonical (names : List String) : String := if names = [] then "/" else directory names

/-- What stands between two slashes: nothing, a dot, or a name. -/
theorem component_cases {f : String} (h : '/' ∉ f.toList) : f = "" ∨ f = "." ∨ IsName f := by
  by_cases hempty : f = ""
  · exact .inl hempty
  · by_cases hdot : f = "."
    · exact .inr (.inl hdot)
    · exact .inr (.inr ⟨h, hempty, hdot⟩)

/-- One step below a directory: a slash too many and a dot are left out, a name is gone into. -/
theorem respelled_step (base names : List String) {f : String} (h : '/' ∉ f.toList)
    (rest : String) : Respelled base (directory names ++ "/" ++ (f ++ "/" ++ rest))
      (directory (names ++ components ⟨f⟩) ++ "/" ++ rest) := by
  rcases component_cases h with rfl | rfl | hname
  · rw [← append_slashes, components_empty, List.append_nil]
    exact .slashes _ _
  · rw [← append_dot, components_dot, List.append_nil]
    exact .dot _ _
  · rw [components_of_isName hname, directory_concat]
    simp only [String.append_assoc]
    exact .refl _

/-- The directory itself with a slash after it. -/
theorem respelled_directory (base names : List String) :
    Respelled base (directory names ++ "/") (canonical names) := by
  unfold canonical
  split
  · next hnames =>
    subst hnames
    exact .refl _
  · next hnames => exact .lastSlash _ (directory_eq_empty_iff.not.mpr hnames)

theorem respelled_last (base names : List String) {f : String} (h : '/' ∉ f.toList) :
    Respelled base (directory names ++ "/" ++ f) (canonical (names ++ components ⟨f⟩)) := by
  rcases component_cases h with rfl | rfl | hname
  · rw [components_empty, List.append_nil, ← append_lastSlash]
    exact respelled_directory base names
  · rw [components_dot, List.append_nil, ← append_lastDot]
    exact (Respelled.lastDot _).trans (respelled_directory base names)
  · rw [components_of_isName hname, canonical, if_neg (by simp), directory_concat]
    exact .refl _

/-- A path below a directory is respelled step by step, from the left. -/
theorem respelled_below (base : List String) {fields : List String} (hne : fields ≠ [])
    (h : ∀ f ∈ fields, '/' ∉ f.toList) (names : List String) :
    Respelled base (directory names ++ "/" ++ "/".intercalate fields)
      (canonical (names ++ components ⟨"/".intercalate fields⟩)) := by
  induction fields generalizing names with
  | nil => contradiction
  | cons f fields ih =>
    have hf := h f (List.mem_cons_self ..)
    by_cases hlast : fields = []
    · subst hlast
      rw [String.intercalate_singleton]
      exact respelled_last base names hf
    · have hrest := ih hlast (fun g hg => h g (List.mem_cons_of_mem _ hg)) (names ++ components ⟨f⟩)
      rw [String.intercalate_cons_of_ne_nil hlast, components_append, ← List.append_assoc]
      exact (respelled_step base names hf _).trans hrest

theorem exists_fields (a : String) : ∃ fields : List String,
    fields ≠ [] ∧ (∀ f ∈ fields, '/' ∉ f.toList) ∧ a = "/".intercalate fields := by
  refine ⟨(splitAt '/' a.toList).map String.ofList, ?_, ?_, ?_⟩
  · rw [ne_eq, List.map_eq_nil_iff, splitAt_eq_splitOn]
    exact List.splitOn_ne_nil _ _
  · intro f hf
    obtain ⟨cs, hcs, rfl⟩ := List.mem_map.mp hf
    rw [String.toList_ofList]
    exact sep_notMem_of_mem_splitAt hcs
  · apply String.toList_inj.mp
    rw [String.toList_intercalate, List.map_map]
    simp
    exact (intercalate_splitAt '/' a.toList).symm

/-- Each path is a spelling of the shortest one of its place. -/
theorem respelled_canonical (base : List String) (ha : a ≠ "") :
    Respelled base a (canonical (fromRoot base ⟨a⟩)) := by
  cases habs : isAbsolute ⟨a⟩ with
  | true =>
    obtain ⟨b, rfl⟩ := exists_of_isAbsolute habs
    obtain ⟨fields, hne, hfields, rfl⟩ := exists_fields b
    have h := respelled_below base hne hfields []
    rw [fromRoot_append]
    exact h
  | false =>
    obtain ⟨fields, hne, hfields, rfl⟩ := exists_fields a
    have h := respelled_below base hne hfields base
    rw [fromRoot, habs]
    exact (Respelled.relative _ ha habs).trans h

/-- Two paths have the same components just if they are spellings of one place. -/
theorem respelled_iff (hbase : ∀ n ∈ base, IsName n) (ha : a ≠ "") (hb : b ≠ "") :
    Respelled base a b ↔ fromRoot base ⟨a⟩ = fromRoot base ⟨b⟩ := by
  constructor
  · intro h
    exact (h.invariant hbase).1
  · intro h
    have hcanonical := respelled_canonical base ha
    rw [h] at hcanonical
    exact hcanonical.trans (respelled_canonical base hb).symm

/-- A path that goes into a directory and out of it again is no spelling of the path that does
not. -/
theorem not_respelled_stepUp (hbase : ∀ n ∈ base, IsName n) (a : String) {x : String}
    (hx : IsName x) (b : String) :
    ¬ Respelled base (a ++ "/" ++ x ++ "/../" ++ b) (a ++ "/" ++ b) := by
  have hsplit : a ++ "/" ++ x ++ "/../" ++ b = a ++ "/" ++ (x ++ "/" ++ (".." ++ "/" ++ b)) :=
    String.toList_inj.mp (by simp)
  have hup : IsName ".." := ⟨by decide, by decide, by decide⟩
  intro h
  have heq := (h.invariant hbase).1
  rw [hsplit, fromRoot_append, fromRoot_append, components_append, components_append,
    components_of_isName hx, components_of_isName hup] at heq
  have hlength := congrArg List.length (List.append_cancel_left heq)
  simp at hlength
  omega

/-- One table number belongs to all spellings of a place: slashes may be repeated or stand at the
end, `.` components may come in, and a relative path may be written out. That is all: other paths
have other components, and a step up after the name of a directory is kept with that name. -/
theorem tableId?_respelled (hbase : ∀ n ∈ base, IsName n) :
    (∀ a b, a ≠ "" → Respelled base a b →
      ∃ id, tableId? base ⟨a⟩ = some id ∧ tableId? base ⟨b⟩ = some id) ∧
    (∀ a b, a ≠ "" → b ≠ "" →
      (Respelled base a b ↔ fromRoot base ⟨a⟩ = fromRoot base ⟨b⟩)) ∧
    ∀ a x b, IsName x → ¬ Respelled base (a ++ "/" ++ x ++ "/../" ++ b) (a ++ "/" ++ b) := by
  refine ⟨?_, ?_, ?_⟩
  · intro a b ha h
    obtain ⟨heq, hempty⟩ := h.invariant hbase
    have hb : b ≠ "" := hempty.not.mp ha
    refine ⟨locationId (fromRoot base ⟨a⟩), if_neg ha, ?_⟩
    rw [heq]
    exact if_neg hb
  · intro a b ha hb
    exact respelled_iff hbase ha hb
  · intro a x b hx
    exact not_respelled_stepUp hbase a hx b

/-- A path from the directory `/home`, and the same place from the root. -/
theorem tableId?_respelled_home : Respelled ["home"] "data//./t.dat" "/home/data/t.dat/" ∧
    ∃ id, tableId? ["home"] ⟨"data//./t.dat"⟩ = some id ∧
      tableId? ["home"] ⟨"/home/data/t.dat/"⟩ = some id := by
  have hbase : ∀ n ∈ ["home"], IsName n := by
    intro n hn
    rw [List.mem_singleton.mp hn]
    exact ⟨by decide, by decide, by decide⟩
  obtain ⟨hid, hiff, -⟩ := tableId?_respelled hbase
  have h := (hiff "data//./t.dat" "/home/data/t.dat/" (by decide) (by decide)).mpr rfl
  exact ⟨h, hid _ _ (by decide) h⟩

/-- Where components lead to if no name is a link: a step up takes back the name before it. -/
def settled (components : List String) : List String :=
  components.foldl (fun l n => if n = ".." then l.dropLast else l ++ [n]) []

/-- The paths `/some/x/../t` and `/some/t` settle on one place, and with a directory `x` they open
one file, but they have different table numbers. -/
theorem tableId?_stepUp :
    settled (fromRoot [] ⟨"/some/x/../t"⟩) = settled (fromRoot [] ⟨"/some/t"⟩) ∧
    (∃ d : Disk, d.openFile ⟨"/some/x/../t"⟩ = .ok (["some", "t"], d) ∧
      d.openFile ⟨"/some/t"⟩ = .ok (["some", "t"], d)) ∧
    tableId? [] ⟨"/some/x/../t"⟩ ≠ tableId? [] ⟨"/some/t"⟩ := by
  refine ⟨rfl, ?_, by decide +kernel⟩
  refine ⟨{ entries :=
    [(["some"], .directory), (["some", "x"], .directory), (["some", "t"], .file {})] }, ?_⟩
  exact ⟨rfl, rfl⟩

end RowStore.Path
