import UrlPolicy.Path.Basic
import UrlPolicy.Pattern.Segment

/-!
Patterns for the path of an address. Paths without a wildcard, and paths whose only wildcard is a
final `*`, are told from their text; every other path is matched segment by segment.
-/

set_option autoImplicit false

namespace UrlPolicy

inductive PathPattern where
  /-- No path: every page of the host. -/
  | anywhere
  /-- Written `/`: the root page. -/
  | root
  /-- Written `/*`: every page but the root. -/
  | belowRoot
  /-- Written `base/*`: the page `base` and everything below it. -/
  | under (base : Text)
  | segmented (segments : List SegmentPattern)
  /-- One path, with or without a slash at its end. -/
  | literal (path : Text)
  deriving DecidableEq, Repr

namespace PathPattern

def kind : PathPattern → Text
  | .anywhere => "none".toList
  | .root => "root-only".toList
  | .belowRoot => "any-non-empty".toList
  | .under _ => "prefix-wildcard".toList
  | .segmented _ => "segmented".toList
  | .literal _ => "exact".toList

def text : PathPattern → Text
  | .anywhere => []
  | .root => ['/']
  | .belowRoot => ['/', '*']
  | .under base => base ++ ['/', '*']
  | .segmented segments => segments.flatMap fun s => '/' :: s.text
  | .literal path => path

def lastSegment (s : Text) : SegmentPattern := if s = ['*'] then .rest else .ofText s

/-- Sorts a path by the place of its wildcards, given its segments and its whole text. -/
def ofSegments (path : Text) (leading : List Text) (last : Text) : PathPattern :=
  let wildcardBefore := leading.any (·.contains '*')
  if !wildcardBefore && !last.contains '*' then .literal path
  else if !wildcardBefore && last == ['*'] then .under ('/' :: ['/'].intercalate leading)
  else .segmented (leading.map .ofText ++ [lastSegment last])

/-- Reads a path with its first slash. There is none with an empty segment. -/
def parse? (path : Text) : Option PathPattern :=
  if path = ['/'] then some .root
  else
    let body := path.tail
    let (dirs, query) := splitQuery body
    let dirs := if query = [] then Text.chop '/' dirs else dirs
    if query = [] ∧ (dirs = ['*'] ∨ dirs = ['*', '*']) then some .belowRoot
    else
      let segments := segmentTexts body
      if segments.contains [] then none
      else match segments.getLast? with
        | none => none
        | some last => some (ofSegments ('/' :: dirs ++ query) segments.dropLast last)

end PathPattern

end UrlPolicy
