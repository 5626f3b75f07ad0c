import RowStore.Bytes

/-! Text as UTF-8 bytes, and where bytes cease to be UTF-8. -/
namespace RowStore.Text

def toUtf8 (s : String) : Bytes := s.toByteArray.data.toList

/-- The text that the bytes spell, if they are UTF-8. -/
def ofUtf8? (bs : Bytes) : Option String := String.fromUTF8? ⟨bs.toArray⟩

/-- The first place where bytes are not UTF-8: the number of bytes before it, and the length of
the sequence refused there; that is absent where the bytes end inside a sequence. -/
structure Utf8Fault where
  index : Nat
  refused : Option Nat
  deriving DecidableEq, Repr

def Utf8Fault.message (f : Utf8Fault) : String :=
  match f.refused with
  | some n => s!"invalid utf-8 sequence of {n} bytes from index {f.index}"
  | none => s!"incomplete utf-8 byte sequence from index {f.index}"

/-- The bytes that may follow the first byte of a character, one range for each. -/
def continuations (lead : UInt8) : Option (List (UInt8 × UInt8)) :=
  if lead ≤ 0x7F then some []
  else if 0xC2 ≤ lead ∧ lead ≤ 0xDF then some [(0x80, 0xBF)]
  else if lead = 0xE0 then some [(0xA0, 0xBF), (0x80, 0xBF)]
  else if lead = 0xED then some [(0x80, 0x9F), (0x80, 0xBF)]
  else if 0xE1 ≤ lead ∧ lead ≤ 0xEF then some [(0x80, 0xBF), (0x80, 0xBF)]
  else if lead = 0xF0 then some [(0x90, 0xBF), (0x80, 0xBF), (0x80, 0xBF)]
  else if lead = 0xF4 then some [(0x80, 0x8F), (0x80, 0xBF), (0x80, 0xBF)]
  else if 0xF1 ≤ lead ∧ lead ≤ 0xF3 then some [(0x80, 0xBF), (0x80, 0xBF), (0x80, 0xBF)]
  else none

/-- Where the scan of one character stops: after it, or at a fault. `seen` counts the bytes of
the character so far. -/
def scanCharacter : (seen : Nat) → List (UInt8 × UInt8) → Bytes → Except (Option Nat) Nat
  | seen, [], _ => .ok seen
  | _, _ :: _, [] => .error none
  | seen, (low, high) :: ranges, b :: bs =>
      if low ≤ b ∧ b ≤ high then scanCharacter (seen + 1) ranges bs else .error (some seen)

/-- Scans from byte `index` on. `skip` bytes ahead belong to the character scanned last. -/
def scanUtf8 : (index skip : Nat) → Bytes → Option Utf8Fault
  | _, _, [] => none
  | index, skip + 1, _ :: bs => scanUtf8 (index + 1) skip bs
  | index, 0, b :: bs =>
      match continuations b with
      | none => some ⟨index, some 1⟩
      | some ranges =>
          match scanCharacter 1 ranges bs with
          | .error refused => some ⟨index, refused⟩
          | .ok n => scanUtf8 (index + 1) (n - 1) bs

/-- The first fault of bytes that are not UTF-8. -/
def utf8Fault (bs : Bytes) : Utf8Fault := (scanUtf8 0 0 bs).getD ⟨bs.length, none⟩

example : utf8Fault [0x61, 0xE2, 0x82, 0x28] = ⟨1, some 2⟩ := by decide

example : utf8Fault [0x61, 0xF0, 0x9F] = ⟨1, none⟩ := by decide

/-- Reads bytes as text. -/
def readUtf8 (bs : Bytes) : Except Utf8Fault String :=
  match ofUtf8? bs with
  | some s => .ok s
  | none => .error (utf8Fault bs)

end RowStore.Text
