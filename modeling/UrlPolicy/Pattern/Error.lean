import UrlPolicy.Text.Blank

set_option autoImplicit false

namespace UrlPolicy

/-- Each error but the first carries the trimmed text in lower case. -/
inductive PatternError where
  | empty
  | invalidCharacter (pattern : Text) (c : Char)
  | invalidProtocol (pattern : Text)
  | emptyHost (pattern : Text)
  | misplacedWildcard (pattern : Text)
  | emptyLabel (pattern : Text)
  | invalidHost (pattern : Text)
  | emptySegment (pattern : Text)
  deriving DecidableEq, Repr

/-- A character in quotes. Those that do not show are written as escapes. -/
def quoteChar (c : Char) : Text :=
  let shown : Text :=
    if c = '\x00' then "\\0".toList
    else if c = '\t' then "\\t".toList
    else if c = '\n' then "\\n".toList
    else if c = '\r' then "\\r".toList
    else if c = '\'' ∨ c = '\\' then ['\\', c]
    else if c ≠ ' ' ∧ (Text.isBlank c ∨ Text.isControl c) then
      "\\u\x7b".toList ++ Nat.toDigits 16 c.toNat ++ ['}']
    else [c]
  '\'' :: shown ++ ['\'']

namespace PatternError

def about (pattern : Text) (what : String) : Text :=
  "pattern '".toList ++ pattern ++ '\'' :: what.toList

def message : PatternError → Text
  | .empty => "pattern is empty".toList
  | .invalidCharacter p c => about p " contains invalid character " ++ quoteChar c
  | .invalidProtocol p => about p " has a malformed protocol"
  | .emptyHost p => about p " has no host"
  | .misplacedWildcard p => about p " may only use '*' as a leading '*.' label in the host"
  | .emptyLabel p => about p " contains an empty host label"
  | .invalidHost p => about p " has an invalid host"
  | .emptySegment p => about p " contains an empty path segment"

end PatternError

end UrlPolicy
