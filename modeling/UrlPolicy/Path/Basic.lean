import UrlPolicy.Text.Basic

/-!
Paths of addresses and of patterns. A query or a fragment belongs to the last segment of a path,
and a slash inside it separates nothing.
-/

set_option autoImplicit false

namespace UrlPolicy

def startsQuery (c : Char) : Bool := c == '?' || c == '#'

/-- The part before the query or fragment, and the query or fragment with its mark. -/
def splitQuery (t : Text) : Text × Text :=
  (t.takeWhile fun c => !startsQuery c, t.dropWhile fun c => !startsQuery c)

theorem splitQuery_append (t : Text) : (splitQuery t).1 ++ (splitQuery t).2 = t :=
  List.takeWhile_append_dropWhile

def rooted : Text → Text
  | '/' :: t => '/' :: t
  | t => '/' :: t

def appendToLast (query : Text) : List Text → List Text
  | [] => [query]
  | [w] => [w ++ query]
  | w :: v :: ws => w :: appendToLast query (v :: ws)

/-- The segments of a path, given without its first slash. One slash at the end of a path without
a query ends the last segment and starts no other. -/
def segmentTexts (body : Text) : List Text :=
  let (dirs, query) := splitQuery body
  if query = [] then Text.split '/' (Text.chop '/' dirs)
  else appendToLast query (Text.split '/' dirs)

/-- A path without the slash at its end. The root keeps its slash. -/
def withoutFinalSlash (path : Text) : Text := if path = ['/'] then path else Text.chop '/' path

end UrlPolicy
