import UrlPolicy.Text.Basic

set_option autoImplicit false

namespace UrlPolicy

inductive SegmentPattern where
  | literal (text : Text)
  /-- Written `*`: one segment of any content. -/
  | any
  /-- Written `**`: one or more segments. -/
  | anyMany
  /-- Written `head*m1*...*tail`: a segment with these pieces in this order. -/
  | glob (head : Text) (middle : List Text) (tail : Text)
  /-- A final `*` after another wildcard: any number of segments. -/
  | rest
  deriving DecidableEq, Repr

namespace SegmentPattern

def isLiteral : SegmentPattern → Bool
  | .literal _ => true
  | _ => false

/-- Reads a segment that is not the last one of its path. -/
def ofText (s : Text) : SegmentPattern :=
  if s = ['*'] then .any
  else if s = ['*', '*'] then .anyMany
  else match Text.split '*' s with
    | head :: piece :: pieces =>
      let more := piece :: pieces
      .glob head (more.dropLast.filter (· ≠ [])) (more.getLast (by simp [more]))
    | _ => .literal s

def text : SegmentPattern → Text
  | .literal s => s
  | .any | .rest => ['*']
  | .anyMany => ['*', '*']
  | .glob head middle tail => head ++ middle.flatMap ('*' :: ·) ++ '*' :: tail

end SegmentPattern

end UrlPolicy
