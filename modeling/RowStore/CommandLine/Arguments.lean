import RowStore.Path
import RowStore.Settings
import RowStore.Text.Numeral

/-! The arguments of the command line: a file, options, and a command. -/
namespace RowStore.CommandLine
open Text

inductive Command where
  | info
  | scan
  | insert (values : List String)
  | delete (page slot : UInt32)
  deriving DecidableEq

structure Invocation where
  file : Path
  columns : String
  settings : Settings
  command : Command
  deriving DecidableEq

/-- Why arguments are no invocation. -/
inductive UsageError where
  | missing (what : String)
  | missingValue (option : String)
  | repeated (option : String)
  | unexpected (argument : String)
  | badNumber (text : String)
  deriving DecidableEq

def UsageError.message : UsageError → String
  | .missing what => s!"{what} is missing"
  | .missingValue option => s!"{option} needs a value"
  | .repeated option => s!"{option} was given twice"
  | .unexpected argument => s!"unexpected argument '{argument}'"
  | .badNumber text => s!"'{text}' is no number of the range"

/-- The options; each takes a value. -/
inductive Setting where
  | columns
  | pageSize
  | bufferSize
  deriving DecidableEq

def Setting.name : Setting → String
  | .columns => "--columns"
  | .pageSize => "--page-size"
  | .bufferSize => "--buffer-size"

def Setting.ofName? (cs : List Char) : Option Setting :=
  if cs = "columns".toList then some .columns
  else if cs = "page-size".toList then some .pageSize
  else if cs = "buffer-size".toList then some .bufferSize
  else none

def Setting.ofLetter? : Char → Option Setting
  | 'c' => some .columns
  | 'p' => some .pageSize
  | 'b' => some .bufferSize
  | _ => none

/-- What has been given before the command. -/
structure Given where
  file : Option String := none
  columns : Option String := none
  pageSize : Option String := none
  bufferSize : Option String := none

namespace Given

def value (g : Given) : Setting → Option String
  | .columns => g.columns
  | .pageSize => g.pageSize
  | .bufferSize => g.bufferSize

/-- An option is given once at most. -/
def setOption (g : Given) (s : Setting) (v : String) : Except UsageError Given :=
  if (g.value s).isSome then .error (.repeated s.name)
  else .ok <| match s with
    | .columns => { g with columns := some v }
    | .pageSize => { g with pageSize := some v }
    | .bufferSize => { g with bufferSize := some v }

/-- One file is given, and it has a name. -/
def setFile (g : Given) (v : String) : Except UsageError Given :=
  if g.file.isSome then .error (.unexpected v)
  else if v = "" then .error (.missing "the file")
  else .ok { g with file := some v }

end Given

/-- What one argument is. -/
inductive Argument where
  | plain
  /-- From here on nothing is an option. -/
  | endOfOptions
  /-- An option, with its value if that is attached. -/
  | option (s : Setting) (value : Option String)
  | unknown
  deriving DecidableEq

/-- A value after a name has an equals sign before it. -/
def Argument.ofLong (cs : List Char) : Argument :=
  let name := cs.takeWhile (· ≠ '=')
  let value := (splitOnce? '=' cs).map fun (_, v) => String.ofList v
  match Setting.ofName? name with
  | some s => .option s value
  | none => .unknown

/-- A value after a letter may have an equals sign before it. -/
def Argument.ofShort (letter : Char) (cs : List Char) : Argument :=
  let value := match cs with
    | [] => none
    | '=' :: v => some (String.ofList v)
    | v => some (String.ofList v)
  match Setting.ofLetter? letter with
  | some s => .option s value
  | none => .unknown

/-- A lone hyphen is a plain argument. -/
def Argument.read (a : String) : Argument :=
  match a.toList with
  | ['-', '-'] => .endOfOptions
  | '-' :: '-' :: cs => Argument.ofLong cs
  | '-' :: letter :: cs => Argument.ofShort letter cs
  | _ => .plain

/-- The arguments of a command. A hyphen begins none of them, unless the end of the options was
marked before. -/
def commandArguments : List String → Except UsageError (List String)
  | [] => .ok []
  | a :: rest =>
      match Argument.read a with
      | .plain => (commandArguments rest).map (a :: ·)
      | .endOfOptions => .ok rest
      | _ => .error (.unexpected a)

def readPageNumber (s : String) : Except UsageError UInt32 :=
  match readInt maxInt64 s.toList with
  | .ok n => if 0 ≤ n ∧ n ≤ maxUInt32 then .ok (UInt32.ofNat n.toNat) else .error (.badNumber s)
  | .error _ => .error (.badNumber s)

def readSize (s : String) : Except UsageError Nat :=
  (readNat maxUInt64 s.toList).mapError fun _ => .badNumber s

def isCommand (a : String) : Bool := a ∈ ["info", "scan", "insert", "delete"]

def readCommand (name : String) (arguments : List String) : Except UsageError Command := do
  match name, ← commandArguments arguments with
  | "info", [] => .ok .info
  | "scan", [] => .ok .scan
  | "insert", values => .ok (.insert values)
  | "delete", [page, slot] => return .delete (← readPageNumber page) (← readPageNumber slot)
  | "delete", [] => .error (.missing "the page")
  | "delete", [_] => .error (.missing "the slot")
  | "delete", _ :: _ :: a :: _ => .error (.unexpected a)
  | _, a :: _ => .error (.unexpected a)
  | _, [] => .error (.missing "the command")

/-- Reads arguments up to the command, and the command. -/
def readArguments (g : Given) : List String → Except UsageError (Given × Command)
  | [] => .error (.missing "the command")
  | a :: rest =>
      if isCommand a then (readCommand a rest).map fun c => (g, c)
      else match Argument.read a with
        | .endOfOptions => .error (.missing "the command")
        | .unknown => .error (.unexpected a)
        | .plain => do readArguments (← g.setFile a) rest
        | .option s (some v) => do readArguments (← g.setOption s v) rest
        | .option s none =>
            match rest with
            | [] => .error (.missingValue s.name)
            | v :: rest =>
                if Argument.read v = .plain then do readArguments (← g.setOption s v) rest
                else .error (.missingValue s.name)

def required (what : String) : Option String → Except UsageError String
  | some v => .ok v
  | none => .error (.missing what)

def optionalSize (otherwise : Nat) : Option String → Except UsageError Nat
  | some v => readSize v
  | none => .ok otherwise

/-- Reads the arguments of the program. -/
def Invocation.parse (arguments : List String) : Except UsageError Invocation := do
  let (g, command) ← readArguments {} arguments
  let file ← required "the file" g.file
  let columns ← required Setting.columns.name g.columns
  let pageSize ← optionalSize Settings.standard.pageSize g.pageSize
  let capacity ← optionalSize Settings.standard.cacheCapacity g.bufferSize
  return ⟨⟨file⟩, columns, ⟨pageSize, capacity⟩, command⟩

end RowStore.CommandLine
