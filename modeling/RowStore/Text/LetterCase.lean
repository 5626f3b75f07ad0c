/-! Letter case of keywords: the case mappings of Unicode as far as they lead to ASCII. -/
namespace RowStore.Text

/-- The upper-case form of a character. A character whose full upper-case form is not ASCII
stays as it is: either way it occurs in no keyword. -/
def upperChar (c : Char) : List Char :=
  if 'a' ≤ c ∧ c ≤ 'z' then [Char.ofNat (c.toNat - 32)]
  else match c with
    | 'ß' => ['S', 'S']
    | 'ı' => ['I']
    | 'ſ' => ['S']
    | 'ﬀ' => ['F', 'F']
    | 'ﬁ' => ['F', 'I']
    | 'ﬂ' => ['F', 'L']
    | 'ﬃ' => ['F', 'F', 'I']
    | 'ﬄ' => ['F', 'F', 'L']
    | 'ﬅ' => ['S', 'T']
    | 'ﬆ' => ['S', 'T']
    | _ => [c]

def upper (cs : List Char) : List Char := cs.flatMap upperChar

/-- The lower-case form of a character, where that is ASCII: the Latin capitals and the
Kelvin sign. -/
def lowerChar (c : Char) : Char :=
  if 'A' ≤ c ∧ c ≤ 'Z' then Char.ofNat (c.toNat + 32)
  else if c.toNat = 0x212A then 'k'
  else c

def lower (cs : List Char) : List Char := cs.map lowerChar

end RowStore.Text
