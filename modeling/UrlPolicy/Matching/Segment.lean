import UrlPolicy.Pattern.Segment

set_option autoImplicit false

namespace UrlPolicy

/-- Whether the pieces occur one after another, each searched for right behind the last. -/
def holdsInOrder : List Text → Text → Bool
  | [], _ => true
  | piece :: pieces, t =>
    match Text.cut? piece t with
    | none => false
    | some (_, rest) => holdsInOrder pieces rest

/-- Whether a text starts with `head`, ends with `tail` behind it, and has the pieces of `middle`
in between. -/
def globMatches (head : Text) (middle : List Text) (tail t : Text) : Bool :=
  match (Text.dropStart? head t).bind (Text.dropEnd? tail) with
  | none => false
  | some window => holdsInOrder middle window

def SegmentPattern.accepts : SegmentPattern → Text → Bool
  | .literal s, t => t == s
  | .any, _ | .anyMany, _ | .rest, _ => true
  | .glob head middle tail, t => globMatches head middle tail t

end UrlPolicy
