import UrlPolicy.Proofs.Pattern.Collection
import UrlPolicy.Proofs.Pattern.Spelling

set_option autoImplicit false

namespace UrlPolicy

def writtenSegments (path : Text) : List Text :=
  if path = ['/'] then [] else segmentTexts path.tail

theorem writtenSegments_cons {body : Text} (h : body ≠ []) :
    writtenSegments ('/' :: body) = segmentTexts body := by
  rw [writtenSegments, if_neg (by simp [h]), List.tail_cons]

theorem not_namesMember_root : ¬ NamesMember (writtenSegments ['/']) := by
  rw [writtenSegments, if_pos rfl]
  exact PathPattern.not_namesMember_nil

theorem PathPattern.score_eq {path : PathPattern} {segments : List Text}
    (h : path.isInCollection = true ↔ NamesMember segments) :
    path.score = path.baseScore + if NamesMember segments then 10 else 0 := by
  rw [score, if_congr h rfl rfl]

namespace Pattern

theorem isInCollection_iff_of_parsePath? {remainder : Text} {path : PathPattern}
    {matchesQuery : Bool} (h : parsePath? remainder = some (path, matchesQuery)) :
    path.isInCollection = true ↔ NamesMember (writtenSegments (rooted remainder)) := by
  rcases parsePath?_cases h with ⟨rfl, rfl, _⟩ | ⟨body, hrooted, _, hparse, _⟩
  · exact iff_of_false Bool.false_ne_true not_namesMember_root
  rw [hrooted]
  by_cases hbody : body = []
  · subst hbody
    cases hparse
    exact iff_of_false Bool.false_ne_true not_namesMember_root
  · obtain ⟨leading, last, hsegments, hwell, rfl⟩ := PathPattern.parse?_eq_some hbody hparse
    rw [writtenSegments_cons hbody, hsegments]
    exact PathPattern.isInCollection_ofTexts_iff hwell

def Spelling.segments (s : Spelling) : List Text := writtenSegments (rooted s.remainder)

/-- The score of a path follows one rule for all its forms, in whichever way it is spelled: that of
its form, and 10 more if its first segment is a marker of collections and its second one a name
without stars and without a query. -/
theorem score_of_parse {raw : Text} {p : Pattern} (h : parse raw = .ok p) :
    (∃ s : Spelling, s.Valid ∧ s.text = Text.lower (Text.trim raw)) ∧
      ∀ s : Spelling, s.Valid → s.text = Text.lower (Text.trim raw) →
        p.path.score = p.path.baseScore + if NamesMember s.segments then 10 else 0 := by
  refine ⟨exists_spelling h, fun s hs ht => PathPattern.score_eq ?_⟩
  exact isInCollection_iff_of_parsePath? (hs.parsePath?_remainder ht h)

/-- A slash in the query makes no segment, but the slash in front of it ends the name. -/
theorem score_of_parse_query :
    let raw := "Reddit.com/R/Rust/?q=/a".toList
    let s : Spelling := ⟨none, false, ["reddit".toList, "com".toList], false, none,
      "/r/rust/?q=/a".toList⟩
    let p : Pattern := ⟨none, false, "reddit.com".toList, .literal "/r/rust/?q=/a".toList, true⟩
    parse raw = .ok p ∧ s.Valid ∧ s.text = Text.lower (Text.trim raw) ∧
      s.segments = [['r'], "rust".toList, "?q=/a".toList] ∧ p.path.score = 40 := by
  intro raw s p
  have hread : parse raw = .ok p := by decide +kernel
  have hvalid : s.Valid := by decide +kernel
  have ht : s.text = Text.lower (Text.trim raw) := by decide +kernel
  have hsegments : s.segments = [['r'], "rust".toList, "?q=/a".toList] := by decide
  refine ⟨hread, hvalid, ht, hsegments, ?_⟩
  rw [(score_of_parse hread).2 s hvalid ht, hsegments]
  decide +kernel

example : ¬ NamesMember (writtenSegments "/r/rust?q=/a".toList) := by decide +kernel

end Pattern

end UrlPolicy
