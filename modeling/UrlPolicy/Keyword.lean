import UrlPolicy.Address
import UrlPolicy.Json.Basic

set_option autoImplicit false

namespace UrlPolicy

structure Keyword where
  /-- The entry without white space around it. -/
  raw : Text
  /-- What is looked for. -/
  text : Text
  deriving DecidableEq, Repr

namespace Keyword

/-- There is no keyword in blank text. -/
def ofText? (entry : Text) : Option Keyword :=
  let raw := Text.trim entry
  if raw = [] then none else some ⟨raw, Text.lower raw⟩

/-- An entry of a settings document: a string, or an object with a string as its pattern. -/
def ofJson? : Json → Option Keyword
  | .string t => ofText? t
  | .object members =>
    match members.lookup "pattern".toList with
    | some (.string t) => ofText? t
    | _ => none
  | _ => none

def occursIn (k : Keyword) (a : Address) : Bool :=
  Text.holds k.text a.text || Text.holds k.text a.host

def first? (keywords : List Keyword) (a : Address) : Option Keyword :=
  keywords.find? (·.occursIn a)

end Keyword

end UrlPolicy
