/-! White space, and text without the white space around it. -/
namespace RowStore.Text

/-- The characters with the Unicode property `White_Space`. -/
def isBlank (c : Char) : Bool :=
  let n := c.toNat
  (0x09 ≤ n && n ≤ 0x0D) || n == 0x20 || n == 0x85 || n == 0xA0 || n == 0x1680 ||
    (0x2000 ≤ n && n ≤ 0x200A) || n == 0x2028 || n == 0x2029 || n == 0x202F || n == 0x205F ||
    n == 0x3000

/-- The text without the characters at its end that satisfy `p`. -/
def dropWhileEnd (p : Char → Bool) (cs : List Char) : List Char :=
  (cs.reverse.dropWhile p).reverse

/-- The text without the white space at both ends. -/
def trim (cs : List Char) : List Char := dropWhileEnd isBlank (cs.dropWhile isBlank)

example : trim ['\t', 'a', ' ', 'b', ' ', '\n'] = ['a', ' ', 'b'] := by decide

/-- The fields between separators; there is one more field than there are separators. -/
def splitAt (sep : Char) : List Char → List (List Char)
  | [] => [[]]
  | c :: cs =>
      if c = sep then [] :: splitAt sep cs
      else match splitAt sep cs with
        | [] => [[c]]
        | f :: fs => (c :: f) :: fs

example : splitAt ',' ['a', ',', ','] = [['a'], [], []] := by decide

/-- What stands before and after the first separator. -/
def splitOnce? (sep : Char) (cs : List Char) : Option (List Char × List Char) :=
  match cs.dropWhile (· ≠ sep) with
  | [] => none
  | _ :: after => some (cs.takeWhile (· ≠ sep), after)

/-- The text after `start`, if it begins so. -/
def afterStart? : (start : List Char) → List Char → Option (List Char)
  | [], cs => some cs
  | _ :: _, [] => none
  | s :: start, c :: cs => if s = c then afterStart? start cs else none

/-- The text before its last character, if that is `e`. -/
def beforeEnd? (e : Char) (cs : List Char) : Option (List Char) :=
  if cs.getLast? = some e then some cs.dropLast else none

end RowStore.Text
