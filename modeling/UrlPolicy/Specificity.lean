import UrlPolicy.Pattern.Basic

set_option autoImplicit false

namespace UrlPolicy

/-- First segments that introduce a named forum, category, channel or user. -/
def collectionMarkers : List Text := [
  "board".toList, "boards".toList, "c".toList, "categories".toList, "category".toList,
  "channel".toList, "community".toList, "communities".toList, "forum".toList, "forums".toList,
  "g".toList, "groups".toList, "r".toList, "t".toList, "tag".toList, "tags".toList,
  "topic".toList, "topics".toList, "u".toList, "user".toList, "users".toList]

def namesCollection (path : Text) : Bool :=
  match Text.split '/' (path.dropWhile (· == '/')) with
  | marker :: name :: _ => collectionMarkers.contains marker && name != [] && !name.any startsQuery
  | _ => false

def segmentsNameCollection : List SegmentPattern → Bool
  | .literal marker :: .literal _ :: _ => collectionMarkers.contains marker
  | _ => false

def PathPattern.baseScore : PathPattern → Nat
  | .anywhere | .root => 5
  | .belowRoot => 10
  | .under _ | .segmented _ => 20
  | .literal _ => 30

def PathPattern.isInCollection : PathPattern → Bool
  | .anywhere | .root | .belowRoot => false
  | .under path | .literal path => namesCollection path
  | .segmented segments => segmentsNameCollection segments

def PathPattern.score (p : PathPattern) : Nat :=
  p.baseScore + if p.isInCollection then 10 else 0

namespace Pattern

def domainScore (p : Pattern) : Nat :=
  if p.subdomainsOnly then 10 else if 3 ≤ p.labelCount then 30 else 20

def specificity (p : Pattern) : Nat := p.domainScore + p.path.score

end Pattern

end UrlPolicy
