import RowStore.Proofs.Computation
import RowStore.Proofs.TypeNames
import RowStore.Schema

/-! The text of a schema: the columns that a text is written for are the columns that are read from
it, and texts that are joined are read one after the other. -/
namespace RowStore
open Text

namespace Column

variable {c : Column} {field : List Char}

/-- The name of the column can stand before a colon in a list: no separator is in it, and no white
space around it. -/
structure Plain (c : Column) : Prop where
  comma : ',' ∉ c.name.toList
  colon : ':' ∉ c.name.toList
  trimmed : trim c.name.toList = c.name.toList

/-- The texts that declare a column: its name and one of the spellings of its type, with a colon
between them and white space around both. -/
inductive Declared (c : Column) : List Char → Prop where
  | mk {before between after last type : List Char} (hbefore : Blank before)
      (hbetween : Blank between) (hafter : Blank after) (hlast : Blank last)
      (htype : c.type.Spelled type) :
      Declared c (before ++ c.name.toList ++ between ++ ':' :: (after ++ type ++ last))

/-- A declaration that is trimmed is read as the column that it declares. -/
theorem Declared.parse (h : c.Declared field) (hc : c.Plain) :
    Column.parse (trim field) = .ok c := by
  obtain ⟨hbefore, hbetween, hafter, hlast, htype⟩ := h
  next before between after last type =>
  have hcolon : ':' ∉ (before ++ c.name.toList ++ between).dropWhile isBlank := by
    intro hmem
    have hmem := (List.dropWhile_suffix isBlank).subset hmem
    simp only [List.mem_append] at hmem
    rcases hmem with (hmem | hmem) | hmem
    · exact hbefore.notMem rfl hmem
    · exact hc.colon hmem
    · exact hbetween.notMem rfl hmem
  have hname : trim ((before ++ c.name.toList ++ between).dropWhile isBlank) = c.name.toList := by
    rw [trim_dropWhile, trim_append hbefore hbetween, hc.trimmed]
  have hread : ColumnType.read? (dropWhileEnd isBlank (after ++ type ++ last)) = some c.type := by
    rw [← ColumnType.read?_trim, trim_dropWhileEnd, trim_append hafter hlast, ColumnType.read?_trim]
    exact htype.read?
  rw [trim_append_cons rfl, Column.parse, splitOnce?_append hcolon]
  simp only [ColumnType.parse, hread, hname, String.ofList_toList]
  rfl

theorem Declared.trim_ne_nil (h : c.Declared field) : trim field ≠ [] := by
  obtain ⟨-, -, -, -, -⟩ := h
  rw [trim_append_cons rfl]
  simp

theorem Declared.comma (h : c.Declared field) (hc : c.Plain) : ',' ∉ field := by
  obtain ⟨hbefore, hbetween, hafter, hlast, htype⟩ := h
  simp only [List.mem_append, List.mem_cons, not_or]
  exact ⟨⟨⟨hbefore.notMem rfl, hc.comma⟩, hbetween.notMem rfl⟩, by decide,
    ⟨hafter.notMem rfl, htype.comma⟩, hlast.notMem rfl⟩

/-- That a text has no columns is not for one declaration to say. -/
theorem parse_ne_noColumns (cs : List Char) : Column.parse cs ≠ .error .noColumns := by
  unfold Column.parse
  split
  · nofun
  · unfold ColumnType.parse
    split <;> nofun

end Column

namespace Schema

variable {columns : List Column} {fields : List (List Char)} {a b text : String} {s s' : Schema}
  {e : SchemaError}

/-- The fields in which columns are written down in their order; there may be blank ones among
them. -/
inductive Written : List Column → List (List Char) → Prop where
  | none : Written [] []
  | blank {field : List Char} {columns : List Column} {fields : List (List Char)}
      (hfield : Blank field) (h : Written columns fields) : Written columns (field :: fields)
  | column {c : Column} {field : List Char} {columns : List Column} {fields : List (List Char)}
      (hc : c.Plain) (hfield : c.Declared field) (h : Written columns fields) :
      Written (c :: columns) (field :: fields)

theorem Written.comma (h : Written columns fields) : ∀ f ∈ fields, ',' ∉ f := by
  induction h with
  | none => nofun
  | blank hfield _ ih => exact List.forall_mem_cons.mpr ⟨hfield.notMem rfl, ih⟩
  | column hc hfield _ ih => exact List.forall_mem_cons.mpr ⟨hfield.comma hc, ih⟩

/-- Columns read from a text; there may be none. -/
def read (cs : List Char) : Except SchemaError (List Column) := (declarations cs).mapM Column.parse

theorem parse_eq (text : String) : parse text = match read text.toList with
    | .error e => .error e
    | .ok [] => .error .noColumns
    | .ok columns => .ok ⟨columns⟩ := rfl

theorem read_append (as bs : List Char) :
    read (as ++ ',' :: bs) = read as >>= fun cs => read bs >>= fun ds => .ok (cs ++ ds) := by
  unfold read declarations
  rw [splitAt_append, List.map_append, List.filter_append, List.mapM_append]
  rfl

theorem read_cons (field : List Char) (fields : List (List Char)) :
    read ([','].intercalate (field :: fields)) =
      read field >>= fun cs => read ([','].intercalate fields) >>= fun ds => .ok (cs ++ ds) := by
  cases fields with
  | nil =>
    rw [List.intercalate_singleton]
    cases read field with
    | error e => rfl
    | ok cs => exact congrArg Except.ok (List.append_nil cs).symm
  | cons f fs =>
    rw [List.intercalate_cons_of_ne_nil (List.cons_ne_nil f fs), List.append_assoc]
    exact read_append field _

/-- A field is read as the declaration that is in it, if one is. -/
theorem read_field {field : List Char} (h : ',' ∉ field) : read field =
    if trim field = [] then .ok [] else (Column.parse (trim field)).map fun c => [c] := by
  unfold read declarations
  rw [splitAt_eq_splitOn, List.splitOn_eq_singleton h]
  by_cases hblank : trim field = []
  · simp [hblank]
    rfl
  · simp [hblank]
    rfl

/-- What is written down is read. -/
theorem Written.read (h : Written columns fields) :
    Schema.read ([','].intercalate fields) = .ok columns := by
  induction h with
  | none => rfl
  | blank hfield _ ih =>
    rw [read_cons, read_field (hfield.notMem rfl), if_pos hfield.trim_eq, ih]
    rfl
  | column hc hfield _ ih =>
    rw [read_cons, read_field (hfield.comma hc), if_neg hfield.trim_ne_nil, hfield.parse hc, ih]
    rfl

/-- That no columns were found is not said while reading. -/
theorem read_ne_noColumns (cs : List Char) : read cs ≠ .error .noColumns := by
  unfold read
  induction declarations cs with
  | nil => nofun
  | cons d ds ih =>
    rw [List.mapM_cons]
    cases hd : Column.parse d with
    | error e =>
      rintro ⟨⟩
      exact Column.parse_ne_noColumns d hd
    | ok c =>
      rw [ok_bind]
      cases hds : ds.mapM Column.parse with
      | error e =>
        rintro ⟨⟩
        exact ih hds
      | ok columns => nofun

/-- What comes of a text: an error of one of its declarations, or no columns, or columns. -/
theorem parse_cases (text : String) :
    (∃ e, e ≠ .noColumns ∧ read text.toList = .error e ∧ parse text = .error e) ∨
      (read text.toList = .ok [] ∧ parse text = .error .noColumns) ∨
        ∃ columns, columns ≠ [] ∧ read text.toList = .ok columns ∧ parse text = .ok ⟨columns⟩ := by
  rw [parse_eq]
  cases hread : read text.toList with
  | error e =>
    left
    refine ⟨e, ?_, rfl, rfl⟩
    rintro rfl
    exact read_ne_noColumns _ hread
  | ok columns =>
    right
    cases columns with
    | nil => exact .inl ⟨rfl, rfl⟩
    | cons c cs => exact .inr ⟨c :: cs, List.cons_ne_nil c cs, rfl, rfl⟩

theorem read_of_parse (h : parse text = .ok s) :
    s.columns ≠ [] ∧ read text.toList = .ok s.columns := by
  rcases parse_cases text with ⟨e, -, -, hparse⟩ | ⟨-, hparse⟩ | ⟨columns, hne, hread, hparse⟩
  · cases hparse.symm.trans h
  · cases hparse.symm.trans h
  · cases hparse.symm.trans h
    exact ⟨hne, hread⟩

theorem parse_of_read (h : read text.toList = .ok columns) (hne : columns ≠ []) :
    parse text = .ok ⟨columns⟩ := by
  rcases parse_cases text with ⟨e, -, hread, -⟩ | ⟨hread, -⟩ | ⟨columns', -, hread, hparse⟩
  · cases hread.symm.trans h
  · cases hread.symm.trans h
    contradiction
  · cases hread.symm.trans h
    exact hparse

theorem parse_of_read_error (h : read text.toList = .error e) : parse text = .error e := by
  rw [parse_eq, h]

theorem read_of_parse_error (h : parse text = .error e) (he : e ≠ .noColumns) :
    read text.toList = .error e := by
  rcases parse_cases text with ⟨e', -, hread, hparse⟩ | ⟨-, hparse⟩ | ⟨columns, -, -, hparse⟩
  · cases hparse.symm.trans h
    exact hread
  · cases hparse.symm.trans h
    contradiction
  · cases hparse.symm.trans h

/-- A text without columns, or with some, has no bad declaration. -/
theorem read_of_good (h : parse text = .error .noColumns ∨ ∃ s, parse text = .ok s) :
    ∃ columns, read text.toList = .ok columns := by
  rcases parse_cases text with ⟨e, he, -, hparse⟩ | ⟨hread, -⟩ | ⟨columns, -, hread, -⟩
  · rcases h with h | ⟨s, h⟩
    · cases hparse.symm.trans h
      contradiction
    · cases hparse.symm.trans h
  · exact ⟨_, hread⟩
  · exact ⟨_, hread⟩

/-- Of fields that are read one after the other, the first bad one decides. -/
theorem read_bad {good : List String} {bad : String} {rest : List String}
    (hgood : ∀ g ∈ good, parse g = .error .noColumns ∨ ∃ s, parse g = .ok s)
    (hbad : parse bad = .error e) (he : e ≠ .noColumns) :
    read ([','].intercalate ((good ++ bad :: rest).map String.toList)) = .error e := by
  -- A good field gives columns or none; the error passes through either way.
  induction good with
  | nil =>
    rw [List.nil_append, List.map_cons, read_cons, read_of_parse_error hbad he]
    rfl
  | cons g good ih =>
    obtain ⟨columns, hread⟩ := read_of_good (hgood g (List.mem_cons_self ..))
    rw [List.cons_append, List.map_cons, read_cons, hread,
      ih fun g' hg' => hgood g' (List.mem_cons_of_mem _ hg')]
    rfl

theorem totalSize_eq_sum (columns : List Column) :
    totalSize columns = (columns.map (·.type.size)).sum := by
  induction columns with
  | nil => rfl
  | cons c cs ih => rw [totalSize, ih, List.map_cons, List.sum_cons]

/-- The places of columns in a row: each begins where those before it end. -/
structure LaidOut (s : Schema) : Prop where
  offset : ∀ i < s.columns.length, s.offsetOf i = .ok ((s.columns.take i).map (·.type.size)).sum
  width : s.width = (s.columns.map (·.type.size)).sum

theorem laidOut (s : Schema) : s.LaidOut where
  offset := by
    intro i hi
    rw [offsetOf, if_pos hi, offset, totalSize_eq_sum]
  width := totalSize_eq_sum s.columns

/-- A text is read as the columns that it is written for, and these have the places that their sizes
give them. Of two texts with a comma between, the columns come one after the other; but if the first
text has a field that is bad, the first such field decides. -/
theorem parse_written_joined :
    (∀ columns fields, columns ≠ [] → Written columns fields → ∀ text : String,
      text.toList = [','].intercalate fields →
        parse text = .ok ⟨columns⟩ ∧ (Schema.mk columns).LaidOut) ∧
    (∀ a b s s', parse a = .ok s → parse b = .ok s' →
      parse (a ++ "," ++ b) = .ok ⟨s.columns ++ s'.columns⟩) ∧
    ∀ good bad rest e, (∀ g ∈ good, parse g = .error .noColumns ∨ ∃ s, parse g = .ok s) →
      parse bad = .error e → e ≠ .noColumns → ∀ b,
        parse (",".intercalate (good ++ bad :: rest)) = .error e ∧
          parse (",".intercalate (good ++ bad :: rest) ++ "," ++ b) = .error e := by
  have hjoin (a b : String) : (a ++ "," ++ b).toList = a.toList ++ ',' :: b.toList := by simp
  refine ⟨?_, ?_, ?_⟩
  · intro columns fields hne hwritten text htext
    have hread : read text.toList = .ok columns := by
      rw [htext]
      exact hwritten.read
    exact ⟨parse_of_read hread hne, laidOut _⟩
  · intro a b s s' ha hb
    obtain ⟨hne, ha⟩ := read_of_parse ha
    obtain ⟨-, hb⟩ := read_of_parse hb
    apply parse_of_read
    · rw [hjoin, read_append, ha, hb]
      rfl
    · exact List.append_ne_nil_of_left_ne_nil hne _
  · intro good bad rest e hgood hbad he b
    have hread : read (",".intercalate (good ++ bad :: rest)).toList = .error e := by
      rw [String.toList_intercalate]
      exact read_bad hgood hbad he
    refine ⟨parse_of_read_error hread, parse_of_read_error ?_⟩
    rw [hjoin, read_append, hread]
    rfl

/-- Three fields, of which one is blank, stand for two columns; two more columns are added; and of
two bad fields the first one counts. -/
theorem parse_written_joined_notes :
    parse " id : InTeGeR, ,note :VarChar(\u3000 16)\t" =
      .ok ⟨[⟨"id", .integer⟩, ⟨"note", .text 16⟩]⟩ ∧
    parse ("id:int" ++ "," ++ "b:BOOL,x:real") =
      .ok ⟨[⟨"id", .integer⟩, ⟨"b", .boolean⟩, ⟨"x", .float⟩]⟩ ∧
    parse ("id:int, ,b:wat,c" ++ "," ++ "d:int") = .error (.unknownType "wat") := by
  obtain ⟨hwritten, hjoined, hbad⟩ := parse_written_joined
  refine ⟨?_, ?_, ?_⟩
  · have hspace : Blank [' '] := by decide
    have hid : (⟨"id", .integer⟩ : Column).Declared
        ([' '] ++ "id".toList ++ [' '] ++ ':' :: ([' '] ++ "InTeGeR".toList ++ [])) := by
      have hword : "integer" ∈ ColumnType.integer.words := List.mem_cons_of_mem _ (by simp)
      exact .mk hspace hspace hspace blank_nil (.word hword rfl)
    have hnote : (⟨"note", .text 16⟩ : Column).Declared
        ([] ++ "note".toList ++ [' '] ++ ':' :: ([] ++ ("VarChar".toList ++
          '(' :: (['\u3000', ' '] ++ (toString (16 : UInt32)).toList ++ []) ++ [')']) ++
            ['\t'])) := by
      have hword : "varchar" ∈ ["text", "varchar"] := List.mem_cons_of_mem _ (by simp)
      have hwide : Blank ['\u3000', ' '] := by decide
      have htab : Blank ['\t'] := by decide
      exact .mk blank_nil hspace blank_nil htab (.limited 16 hword rfl hwide blank_nil)
    have hfields := Written.column ⟨by decide, by decide, by decide⟩ hid
      (.blank hspace (.column ⟨by decide, by decide, by decide⟩ hnote .none))
    exact (hwritten _ _ (List.cons_ne_nil _ _) hfields _ rfl).1
  · have ha : parse "id:int" = .ok ⟨[⟨"id", .integer⟩]⟩ := rfl
    have hb : parse "b:BOOL,x:real" = .ok ⟨[⟨"b", .boolean⟩, ⟨"x", .float⟩]⟩ := rfl
    exact hjoined _ _ _ _ ha hb
  · have hgood : ∀ g ∈ ["id:int", " "], parse g = .error .noColumns ∨ ∃ s, parse g = .ok s := by
      intro g hg
      simp only [List.mem_cons, List.not_mem_nil, or_false] at hg
      rcases hg with rfl | rfl
      · exact .inr ⟨_, rfl⟩
      · exact .inl rfl
    have hwat : parse "b:wat" = .error (.unknownType "wat") := rfl
    exact (hbad _ _ ["c"] _ hgood hwat nofun "d:int").2

end Schema
end RowStore
