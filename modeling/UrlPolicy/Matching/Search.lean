import UrlPolicy.Matching.Segment

/-!
Matching the segments of a path from left to right. Each `**` first takes one segment; on a
mismatch the last `**` that was passed takes one more, and the search goes on behind it.
-/

set_option autoImplicit false

namespace UrlPolicy

/-- The patterns and segments that are left, and the same behind the last `**`. -/
structure Search where
  patterns : List SegmentPattern
  segments : List Text
  star : Option (List SegmentPattern × List Text)
  deriving DecidableEq, Repr

inductive Search.Progress where
  | found
  | failed
  | more (s : Search)
  deriving DecidableEq, Repr

namespace Search

def retry (s : Search) : Progress :=
  match s.star with
  | some (patterns, _ :: segments) => .more ⟨patterns, segments, some (patterns, segments)⟩
  | _ => .failed

def step (s : Search) : Progress :=
  match s.patterns, s.segments with
  | [], [] => .found
  | [], _ :: _ => s.retry
  | .rest :: _, _ => .found
  | _ :: _, [] => s.retry
  | .anyMany :: patterns, _ :: segments => .more ⟨patterns, segments, some (patterns, segments)⟩
  | p :: patterns, segment :: segments =>
    if p.accepts segment then .more ⟨patterns, segments, s.star⟩ else s.retry

/-- The answer, if it comes within the given number of steps. -/
def run : Nat → Search → Option Bool
  | 0, _ => none
  | fuel + 1, s =>
    match s.step with
    | .found => some true
    | .failed => some false
    | .more s => run fuel s

def bound (patterns : List SegmentPattern) (segments : List Text) : Nat :=
  (patterns.length + 1) * (segments.length + 1)

end Search

def segmentsMatch (patterns : List SegmentPattern) (segments : List Text) : Bool :=
  (Search.run (Search.bound patterns segments) ⟨patterns, segments, none⟩).getD false

end UrlPolicy
