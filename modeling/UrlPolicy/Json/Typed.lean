import UrlPolicy.Json.Reader

/-!
Reading values of a kind that is known beforehand. A value of another kind is read up to where
its kind is clear, and a fault inside it is met first.
-/

set_option autoImplicit false

namespace UrlPolicy.Json

/-- Refuses a value of another kind, given from its first character on. -/
def refuse {α : Type} (c : Char) (t : Text) : Except Fault α :=
  if c = '[' ∨ c = '{' then .error .mismatched
  else match readScalar c t with
    | .error fault => .error fault
    | .ok _ => .error .mismatched

def readText (t : Text) : Except Fault (Text × Text) :=
  match skipBlanks t with
  | [] => .error .truncated
  | c :: t => if c = '"' then readString t else refuse c t

def readTextOrNull (t : Text) : Except Fault (Option Text × Text) :=
  match skipBlanks t with
  | 'n' :: t => do
    let t ← readWord "ull".toList t
    .ok (none, t)
  | t => do
    let (s, t) ← readText t
    .ok (some s, t)

def readList {α : Type} (item : Text → Except Fault (α × Text)) (t : Text) :
    Except Fault (List α × Text) :=
  match skipBlanks t with
  | [] => .error .truncated
  | c :: t => if c = '[' then readItems item t else refuse c t

end UrlPolicy.Json
