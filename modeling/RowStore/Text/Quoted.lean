import RowStore.Text.Hidden

/-! Text between quotation marks, with escapes for what does not show. -/
namespace RowStore.Text

/-- A character by its number, in hexadecimal. -/
def escapeCode (n : Nat) : List Char :=
  '\\' :: 'u' :: '\x7b' :: (Nat.toDigits 16 n ++ ['\x7d'])

/-- What stands for a character in a quotation. An apostrophe stands for itself. -/
def escapeChar (c : Char) : List Char :=
  match c with
  | '\x00' => ['\\', '0']
  | '\t' => ['\\', 't']
  | '\r' => ['\\', 'r']
  | '\n' => ['\\', 'n']
  | '"' => ['\\', '"']
  | '\\' => ['\\', '\\']
  | _ => if isHidden c.toNat then escapeCode c.toNat else [c]

def quoted (s : String) : String :=
  String.ofList ('"' :: (s.toList.flatMap escapeChar ++ ['"']))

end RowStore.Text
