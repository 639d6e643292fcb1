import UrlPolicy.Text.LowerCase.Table
import UrlPolicy.Text.LowerCase.Context

set_option autoImplicit false

namespace UrlPolicy.Text

def lowerCodePoint (n : Nat) : Nat := (caseRuns.findSome? (·.lower? n)).getD n

def lowerChar (c : Char) : List Char :=
  if c.toNat < 128 then [c.toLower]
  else if c = '\u0130' then ['i', '\u0307']
  else [Char.ofNat (lowerCodePoint c.toNat)]

/-- Lower case of the rest of a text. What comes before it is given backwards. -/
def lowerAfter (before : List Char) : List Char → List Char
  | [] => []
  | c :: rest =>
    if c = 'Σ' then (if isWordFinal before rest then 'ς' else 'σ') :: lowerAfter (c :: before) rest
    else lowerChar c ++ lowerAfter (c :: before) rest

def lower (t : List Char) : List Char := lowerAfter [] t

def lowerAscii (t : List Char) : List Char := t.map Char.toLower

end UrlPolicy.Text
