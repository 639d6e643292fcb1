import UrlPolicy.Path.Basic

set_option autoImplicit false

namespace UrlPolicy

/-- The characters that take up the first `n` bytes, and the rest; nothing when the place lies
inside a character or past the end. -/
def Text.splitAt? : Nat → Text → Option (Text × Text)
  | 0, t => some ([], t)
  | _ + 1, [] => none
  | n + 1, c :: t =>
    if c.utf8Size ≤ n + 1 then
      (splitAt? (n + 1 - c.utf8Size) t).map fun (before, after) => (c :: before, after)
    else none

theorem Text.splitAt?_size_append (s t : Text) :
    Text.splitAt? (Text.size s) (s ++ t) = some (s, t) := by
  induction s with
  | nil => simp [Text.size, Text.splitAt?]
  | cons c s ih =>
    have hc := c.utf8Size_pos
    obtain ⟨n, hn⟩ : ∃ n, Text.size (c :: s) = n + 1 :=
      ⟨Text.size (c :: s) - 1, by rw [Text.size]; omega⟩
    have hs : n + 1 - c.utf8Size = Text.size s := by rw [← hn, Text.size]; omega
    have hle : c.utf8Size ≤ n + 1 := by rw [← hn, Text.size]; omega
    rw [hn, List.cons_append, Text.splitAt?, if_pos hle, hs, ih]
    rfl

/-- What is left of a path, and how much of it comes before the query. Nothing is left once the
last segment has been yielded. -/
structure SegmentCursor where
  rest : Option Text
  pathSize : Nat
  deriving DecidableEq, Repr

namespace SegmentCursor

/-- The cursor before the first segment of a path that is given without its first slash. -/
def start (body : Text) : SegmentCursor :=
  let (dirs, query) := splitQuery body
  let rest := if query = [] then Text.chop '/' body else body
  let pathSize := if query = [] then Text.size rest else Text.size dirs
  ⟨if rest = [] then none else some rest, pathSize⟩

def next? (c : SegmentCursor) : Option (Text × SegmentCursor) :=
  match c.rest with
  | none => none
  | some rest =>
    match Text.splitAt? c.pathSize rest with
    | none => none
    | some (dirs, query) =>
      let segment := dirs.takeWhile (· ≠ '/')
      match dirs.dropWhile (· ≠ '/') with
      | [] => some (rest, ⟨none, c.pathSize⟩)
      | _ :: dirs => some (segment, ⟨some (dirs ++ query), c.pathSize - (Text.size segment + 1)⟩)

def toListFrom : Nat → SegmentCursor → List Text
  | 0, _ => []
  | fuel + 1, c =>
    match c.next? with
    | none => []
    | some (segment, c) => segment :: toListFrom fuel c

/-- All segments from the cursor on. Each but the last is followed by a slash. -/
def toList (c : SegmentCursor) : List Text :=
  match c.rest with
  | none => []
  | some rest => toListFrom (rest.length + 1) c

end SegmentCursor

def pathSegments (path : Text) : List Text :=
  (SegmentCursor.start ((Text.dropStart? ['/'] path).getD path)).toList

end UrlPolicy
