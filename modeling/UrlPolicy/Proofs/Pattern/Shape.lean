import UrlPolicy.Proofs.Matching.Path
import UrlPolicy.Proofs.Pattern.Canonical

/-!
What the path of every pattern that is read looks like. Main statement: each form of path has the
shape that matching counts on, down to its segments; the marks of a query are in it exactly if the
pattern looks at the query; and segments that are matched one by one never accept the root.
-/

set_option autoImplicit false

namespace UrlPolicy

theorem IsSegmentation.plainSegments_concat {leading : List Text} {last : Text}
    (h : IsSegmentation leading last) (hquery : ∀ c ∈ last, startsQuery c = false) :
    PlainSegments (leading ++ [last]) := by
  have hlast : '/' ∉ last := by
    have hslash := h.last_slash
    rwa [splitQuery_of_no_query hquery] at hslash
  refine ⟨by simp, h.nil_not_mem, ?_, ?_⟩
  · simpa [or_imp, forall_and] using ⟨h.leading_slash, hlast⟩
  · simpa [or_imp, forall_and] using ⟨h.leading_query, hquery⟩

namespace SegmentPattern

inductive HasShape : SegmentPattern → Prop where
  | literal {text : Text} (hne : text ≠ []) (hstar : '*' ∉ text) : HasShape (.literal text)
  | any : HasShape .any
  | anyMany : HasShape .anyMany
  /-- All pieces may be empty but those between two stars. -/
  | glob {head tail : Text} {middle : List Text} (hfree : StarFree (head :: (middle ++ [tail])))
      (hmiddle : [] ∉ middle) : HasShape (.glob head middle tail)
  | rest : HasShape .rest

theorem hasShape_ofText {s : Text} (h : s ≠ []) : (ofText s).HasShape := by
  rcases ofText_cases s with ⟨_, hs⟩ | ⟨_, hs⟩ | ⟨hstar, hs⟩ | ⟨_, _, _, hfree, _, _, _, hs⟩
  · rw [hs]
    exact .any
  · rw [hs]
    exact .anyMany
  · rw [hs]
    exact .literal h hstar
  · rw [hs]
    exact .glob hfree.filter (by simp)

theorem isLiteral_ofText_iff {s : Text} : (ofText s).isLiteral = false ↔ '*' ∈ s := by
  rcases ofText_cases s with ⟨rfl, hs⟩ | ⟨rfl, hs⟩ | ⟨hstar, hs⟩ | ⟨_, _, _, _, rfl, _, _, hs⟩
  · simp [hs, isLiteral]
  · simp [hs, isLiteral]
  · simp [hs, isLiteral, hstar]
  · simp [hs, isLiteral, star_mem_joinGlob]

end SegmentPattern

namespace PathPattern

open SegmentPattern (StarFree)

/-- Segments that are matched one by one. The last one may hold a query, which may hold slashes. -/
structure SegmentsShape (leading : List SegmentPattern) (last : SegmentPattern) : Prop where
  each : ∀ s ∈ leading ++ [last], s.HasShape
  not_literal : ∃ s ∈ leading ++ [last], s.isLiteral = false
  rest_not_mem : .rest ∉ leading
  rest_last : last = .rest → ∃ s ∈ leading, s.isLiteral = false
  last_ne : last ≠ .any
  leading_marks : ∀ s ∈ leading, '/' ∉ s.text ∧ '?' ∉ s.text ∧ '#' ∉ s.text
  last_slash : '/' ∉ (splitQuery last.text).1

inductive HasShape : PathPattern → Prop where
  | anywhere : HasShape .anywhere
  | root : HasShape .root
  | belowRoot : HasShape .belowRoot
  | under {base : Text} (hroot : base.head? = some '/') (hlast : base.getLast? ≠ some '/')
      (hsegments : [] ∉ List.splitOn '/' base.tail)
      (hmarks : '*' ∉ base ∧ '?' ∉ base ∧ '#' ∉ base) : HasShape (.under base)
  /-- A slash at the end is part of the query. -/
  | literal {path : Text} (hroot : path.head? = some '/') (hstar : '*' ∉ path)
      (hlast : path.getLast? = some '/' → (splitQuery path).2 ≠ []) : HasShape (.literal path)
  | segmented {leading : List SegmentPattern} {last : SegmentPattern}
      (h : SegmentsShape leading last) : HasShape (.segmented (leading ++ [last]))

theorem lastSegment_cases (s : Text) : s = ['*'] ∧ lastSegment s = .rest ∨
    s ≠ ['*'] ∧ lastSegment s = .ofText s := by
  by_cases h : s = ['*']
  · exact .inl ⟨h, if_pos h⟩
  · exact .inr ⟨h, if_neg h⟩

theorem hasShape_lastSegment {s : Text} (h : s ≠ []) : (lastSegment s).HasShape := by
  rcases lastSegment_cases s with ⟨_, hs⟩ | ⟨_, hs⟩
  · rw [hs]
    exact .rest
  · rw [hs]
    exact SegmentPattern.hasShape_ofText h

theorem isLiteral_lastSegment_iff {s : Text} : (lastSegment s).isLiteral = false ↔ '*' ∈ s := by
  rcases lastSegment_cases s with ⟨rfl, hs⟩ | ⟨_, hs⟩
  · simp [hs, SegmentPattern.isLiteral]
  · rw [hs, SegmentPattern.isLiteral_ofText_iff]

section

variable {leading : List Text} {last : Text}

theorem not_starFree_iff : ¬ StarFree leading ↔
    ∃ s ∈ leading.map SegmentPattern.ofText, s.isLiteral = false := by
  simp [StarFree, SegmentPattern.isLiteral_ofText_iff]

theorem segmentsShape_ofTexts (h : IsSegmentation leading last)
    (hstars : ¬ StarFree leading ∨ '*' ∈ last ∧ last ≠ ['*']) :
    SegmentsShape (leading.map .ofText) (lastSegment last) := by
  refine ⟨?each, ?not_literal, ?rest_not_mem, ?rest_last, ?last_ne, ?leading_marks, ?last_slash⟩
  case each =>
    intro s hs
    rcases List.mem_append.1 hs with hs | hs
    · obtain ⟨w, hw, rfl⟩ := List.mem_map.1 hs
      exact SegmentPattern.hasShape_ofText (h.leading_ne w hw)
    · rw [List.mem_singleton.1 hs]
      exact hasShape_lastSegment h.last_ne
  case not_literal =>
    rcases hstars with hfree | ⟨hstar, _⟩
    · obtain ⟨s, hs, hliteral⟩ := not_starFree_iff.1 hfree
      exact ⟨s, List.mem_append_left _ hs, hliteral⟩
    · exact ⟨_, List.mem_append_right _ (List.mem_singleton_self _),
        isLiteral_lastSegment_iff.2 hstar⟩
  case rest_not_mem =>
    intro hrest
    obtain ⟨w, _, hw⟩ := List.mem_map.1 hrest
    exact SegmentPattern.ofText_ne_rest w hw
  case rest_last =>
    intro hrest
    rcases lastSegment_cases last with ⟨hlast, _⟩ | ⟨_, hs⟩
    · exact not_starFree_iff.1 (hstars.resolve_right fun hstar => hstar.2 hlast)
    · exact absurd (hs ▸ hrest) (SegmentPattern.ofText_ne_rest last)
  case last_ne =>
    intro hany
    rcases lastSegment_cases last with ⟨_, hs⟩ | ⟨hne, hs⟩
    · rw [hs] at hany
      cases hany
    · exact hne (SegmentPattern.ofText_eq_any_iff.1 (hs ▸ hany))
  case leading_marks =>
    intro s hs
    obtain ⟨w, hw, rfl⟩ := List.mem_map.1 hs
    refine ⟨fun hslash => ?_, not_mem_of_no_query (startsQuery_canonical (h.leading_query w hw))⟩
    exact h.leading_slash w hw ((SegmentPattern.mem_canonical_iff (by decide)).1 hslash)
  case last_slash =>
    rw [text_lastSegment, slash_mem_canonical_iff]
    exact h.last_slash

theorem getLast?_cons_intercalate {ws : List Text} (h : PlainSegments ws) :
    ('/' :: ['/'].intercalate ws).getLast? ≠ some '/' := by
  rw [List.getLast?_cons_of_ne_nil h.intercalate_ne_nil]
  exact h.getLast?_intercalate

theorem hasShape_under (h : PlainSegments leading) (hfree : StarFree leading) :
    HasShape (.under ('/' :: ['/'].intercalate leading)) := by
  have hquery : ∀ c ∈ '/' :: ['/'].intercalate leading, startsQuery c = false := by
    simpa [startsQuery] using h.no_query_intercalate
  refine .under rfl (getLast?_cons_intercalate h) ?_
    ⟨star_not_mem_intercalate hfree, not_mem_of_no_query hquery⟩
  rw [List.tail_cons, h.splitOn_intercalate]
  exact h.segment_ne

theorem hasShape_literal (h : IsSegmentation leading last) (hfree : StarFree (leading ++ [last])) :
    HasShape (.literal ('/' :: ['/'].intercalate (leading ++ [last]))) := by
  refine .literal rfl (star_not_mem_intercalate hfree) fun hslash hquery => ?_
  -- without a query the path ends with its last segment, which has no slash
  have hcut := splitQuery_append ('/' :: ['/'].intercalate (leading ++ [last]))
  rw [hquery, List.append_nil] at hcut
  have hlast : ∀ c ∈ last, startsQuery c = false := by
    intro c hc
    have hmem : c ∈ ['/'].intercalate (leading ++ [last]) :=
      (Text.infix_intercalate (List.mem_append_right leading (by simp))).subset hc
    exact not_startsQuery_of_mem (hcut ▸ List.mem_cons_of_mem _ hmem)
  exact getLast?_cons_intercalate (h.plainSegments_concat hlast) hslash

theorem hasShape_ofTexts (h : IsSegmentation leading last) : (ofTexts leading last).HasShape := by
  rcases ofTexts_cases leading last with ⟨_, hread⟩ | ⟨hfree, hread⟩ | ⟨⟨hne, hfree, _⟩, hread⟩ |
    ⟨⟨_, hstars⟩, hread⟩
  · rw [hread]
    exact .belowRoot
  · rw [hread]
    exact hasShape_literal h hfree
  · rw [hread]
    exact hasShape_under (h.plainSegments hne) hfree
  · rw [hread]
    exact .segmented (segmentsShape_ofTexts h hstars)

end

theorem hasShape_of_parse? {body : Text} {p : PathPattern} (h : parse? ('/' :: body) = some p) :
    p.HasShape := by
  by_cases hbody : body = []
  · subst hbody
    cases h
    exact .root
  · obtain ⟨leading, last, _, hsegments, rfl⟩ := parse?_eq_some hbody h
    exact hasShape_ofTexts hsegments

namespace HasShape

variable {path : PathPattern}

theorem of_startsQuery (h : path.HasShape) (hquery : '?' ∈ path.text ∨ '#' ∈ path.text) :
    (∃ t, path = .literal t) ∨ ∃ segments, path = .segmented segments := by
  cases h with
  | anywhere => simp [text] at hquery
  | root => simp [text] at hquery
  | belowRoot => simp [text] at hquery
  | under _ _ _ hmarks => simp [text, hmarks] at hquery
  | literal => exact .inl ⟨_, rfl⟩
  | segmented => exact .inr ⟨_, rfl⟩

theorem segmented_rejects_root {segments : List SegmentPattern}
    (h : (PathPattern.segmented segments).HasShape) :
    (PathPattern.segmented segments).accepts ['/'] = false := by
  cases h with
  | @segmented leading last h =>
    have hnone : pathSegments ['/'] = [] := by decide
    rw [← Bool.not_eq_true, accepts, segmentsMatch_iff, hnone]
    cases leading with
    | nil =>
      refine Fits.not_nil_of_ne_rest fun hrest => ?_
      simpa using h.rest_last hrest
    | cons s leading =>
      exact Fits.not_nil_of_ne_rest fun hrest => h.rest_not_mem (by simp [hrest])

end HasShape

end PathPattern

namespace Pattern

theorem hasShape_of_parsePath? {remainder : Text} {path : PathPattern} {matchesQuery : Bool}
    (h : parsePath? remainder = some (path, matchesQuery)) : path.HasShape := by
  rcases parsePath?_cases h with ⟨_, rfl, _⟩ | ⟨_, _, _, hparse, _⟩
  · exact .anywhere
  · exact PathPattern.hasShape_of_parse? hparse

theorem matchesQuery_iff {remainder : Text} {path : PathPattern} {matchesQuery : Bool}
    (h : parsePath? remainder = some (path, matchesQuery)) :
    matchesQuery = true ↔ '?' ∈ path.text ∨ '#' ∈ path.text := by
  obtain ⟨q, hq, _⟩ := (parsePath?_text h).parse
  have hany : matchesQuery = path.text.any startsQuery := by
    rw [parsePath?] at hq
    split at hq
    · next hnil =>
      cases hq
      rw [hnil]
      rfl
    · obtain ⟨_, _, heq⟩ := Option.map_eq_some_iff.1 hq
      exact (Prod.mk.inj heq).2.symm
  rw [hany, List.any_eq_true]
  simp only [startsQuery_iff, and_or_left, exists_or, exists_eq_right]

/-- A pattern looks at the query exactly if its path names one, which only two forms of path can. -/
theorem shape_of_parse {raw : Text} {p : Pattern} (h : parse raw = .ok p) :
    p.path.HasShape ∧
      (p.matchesQuery = true ↔ '?' ∈ p.path.text ∨ '#' ∈ p.path.text) ∧
      (p.matchesQuery = true →
        (∃ t, p.path = .literal t) ∨ ∃ segments, p.path = .segmented segments) ∧
      ∀ segments, p.path = .segmented segments → p.path.accepts ['/'] = false := by
  obtain ⟨_, _, _, rest, _, hread⟩ := parse_eq_ok_iff.1 h
  obtain ⟨_, _, _, hpath⟩ := parseHierarchy_eq_ok_iff.1 hread
  have hshape := hasShape_of_parsePath? hpath
  have hquery := matchesQuery_iff hpath
  refine ⟨hshape, hquery, fun hmatches => hshape.of_startsQuery (hquery.1 hmatches), ?_⟩
  intro segments hsegments
  rw [hsegments] at hshape ⊢
  exact hshape.segmented_rejects_root

theorem shape_of_parse_query :
    parse "https://*.a.com/v*1***b/**/?q=/*".toList = .ok ⟨some "https".toList, true,
        "a.com".toList, .segmented [.glob "v".toList ["1".toList] "b".toList, .anyMany,
          .glob "?q=/".toList [] []], true⟩ ∧
      PathPattern.HasShape (.segmented [.glob "v".toList ["1".toList] "b".toList, .anyMany,
        .glob "?q=/".toList [] []]) ∧
      PathPattern.accepts (.segmented [.glob "v".toList ["1".toList] "b".toList, .anyMany,
        .glob "?q=/".toList [] []]) ['/'] = false := by
  have hparse : parse "https://*.a.com/v*1***b/**/?q=/*".toList = .ok ⟨some "https".toList, true,
      "a.com".toList, .segmented [.glob "v".toList ["1".toList] "b".toList, .anyMany,
        .glob "?q=/".toList [] []], true⟩ := by decide +kernel
  obtain ⟨hshape, _, _, hroot⟩ := shape_of_parse hparse
  exact ⟨hparse, hshape, hroot _ rfl⟩

end Pattern

end UrlPolicy
