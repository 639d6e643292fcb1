import UrlPolicy.Proofs.Matching.Search
import UrlPolicy.Proofs.Path.Cursor
import UrlPolicy.Proofs.Pattern.Path

/-!
Patterns for paths that are compared as texts. Main statement: for a path without a query, a
pattern without wildcards and one whose only wildcard is a final `*` accept what their segments,
read one by one, accept.
-/

set_option autoImplicit false

namespace UrlPolicy

namespace Fits

theorem literals_append_iff {ws : List Text} {ps : List SegmentPattern} {ts : List Text} :
    Fits (ws.map .literal ++ ps) ts ↔ ∃ more, ts = ws ++ more ∧ Fits ps more := by
  induction ws generalizing ts with
  | nil => simp
  | cons w ws ih =>
    cases ts with
    | nil =>
      refine iff_of_false (not_nil_of_ne_rest (by simp)) ?_
      rintro ⟨more, h, _⟩
      cases h
    | cons t ts =>
      rw [List.map_cons, List.cons_append, single_cons_iff rfl, ih]
      constructor
      · rintro ⟨ht, more, rfl, h⟩
        cases beq_iff_eq.1 ht
        exact ⟨more, rfl, h⟩
      · rintro ⟨more, heq, h⟩
        obtain ⟨rfl, rfl⟩ := List.cons.inj heq
        exact ⟨beq_self_eq_true t, more, rfl, h⟩

theorem literals_iff {ws ts : List Text} : Fits (ws.map .literal) ts ↔ ts = ws := by
  have h : Fits (ws.map .literal ++ []) ts ↔ ∃ more, ts = ws ++ more ∧ Fits [] more :=
    literals_append_iff
  rw [List.append_nil] at h
  simp [h, nil_iff]

theorem literals_rest_iff {ws ts : List Text} :
    Fits (ws.map .literal ++ [.rest]) ts ↔ ws <+: ts := by
  rw [literals_append_iff]
  constructor
  · rintro ⟨more, rfl, _⟩
    exact List.prefix_append ws more
  · rintro ⟨more, rfl⟩
    exact ⟨more, rfl, .rest [] more⟩

end Fits

theorem withoutFinalSlash_cons (body : Text) :
    withoutFinalSlash ('/' :: body) = '/' :: Text.chop '/' body := by
  by_cases hbody : body = []
  · subst hbody
    rfl
  · rw [withoutFinalSlash, if_neg (by simp [hbody])]
    exact Text.chop_append_of_ne_nil '/' ['/'] hbody

structure PlainSegments (ws : List Text) : Prop where
  ne_nil : ws ≠ []
  segment_ne : [] ∉ ws
  no_slash : ∀ w ∈ ws, '/' ∉ w
  no_query : ∀ w ∈ ws, ∀ c ∈ w, startsQuery c = false

namespace PlainSegments

variable {ws : List Text} {body : Text}

theorem splitOn_intercalate (h : PlainSegments ws) : List.splitOn '/' (['/'].intercalate ws) = ws :=
  List.splitOn_intercalate '/' h.no_slash h.ne_nil

theorem intercalate_ne_nil (h : PlainSegments ws) : ['/'].intercalate ws ≠ [] := by
  intro hjoin
  have hsplit := h.splitOn_intercalate
  rw [hjoin] at hsplit
  exact h.segment_ne (hsplit ▸ by decide)

theorem getLast?_intercalate (h : PlainSegments ws) : (['/'].intercalate ws).getLast? ≠ some '/' :=
  Text.getLast?_ne_of_splitOn (by rw [h.splitOn_intercalate]; exact h.segment_ne)

theorem chop_intercalate (h : PlainSegments ws) :
    Text.chop '/' (['/'].intercalate ws) = ['/'].intercalate ws :=
  Text.chop_eq_self_of_getLast? h.getLast?_intercalate

theorem no_query_intercalate (h : PlainSegments ws) :
    ∀ c ∈ ['/'].intercalate ws, startsQuery c = false := by
  intro c hc
  by_cases hslash : c = '/'
  · rw [hslash]
    rfl
  · obtain ⟨w, hw, hcw⟩ := (Text.mem_intercalate_iff hslash).1 hc
    exact h.no_query w hw c hcw

theorem isSegmentation {leading : List Text} {last : Text}
    (h : PlainSegments (leading ++ [last])) : IsSegmentation leading last where
  leading_ne w hw hnil := h.segment_ne (hnil ▸ List.mem_append_left _ hw)
  leading_slash w hw := h.no_slash w (by simp [hw])
  leading_query w hw := h.no_query w (by simp [hw])
  last_ne hnil := h.segment_ne (by simp [hnil])
  last_slash hmem := h.no_slash last (by simp) (mem_of_mem_splitQuery_fst hmem)

end PlainSegments

theorem IsSegmentation.plainSegments {leading : List Text} {last : Text}
    (h : IsSegmentation leading last) (hne : leading ≠ []) : PlainSegments leading :=
  ⟨hne, fun hmem => h.leading_ne [] hmem rfl, h.leading_slash, h.leading_query⟩

theorem splitQuery_of_no_query {t : Text} (h : ∀ c ∈ t, startsQuery c = false) :
    splitQuery t = (t, []) := by
  have hsplit : splitQuery (t ++ []) = (t, []) := splitQuery_append_query h (by simp)
  rwa [List.append_nil] at hsplit

theorem segmentTexts_of_no_query {body : Text} (h : ∀ c ∈ body, startsQuery c = false) :
    segmentTexts body = List.splitOn '/' (Text.chop '/' body) := by
  simp [segmentTexts, splitQuery_of_no_query h]

section

variable {ws : List Text} {body : Text}

theorem pathSegments_eq_iff (h : PlainSegments ws) (hbody : ∀ c ∈ body, startsQuery c = false) :
    pathSegments ('/' :: body) = ws ↔ Text.chop '/' body = ['/'].intercalate ws := by
  rw [pathSegments_cons, segmentTexts_of_no_query hbody]
  split
  · next hchop =>
    rw [hchop]
    exact iff_of_false h.ne_nil.symm h.intercalate_ne_nil.symm
  · exact ⟨fun hsplit => by rw [← hsplit, List.intercalate_splitOn], fun hchop => by
      rw [hchop, h.splitOn_intercalate]⟩

theorem exists_of_prefix_pathSegments (h : PlainSegments ws)
    (hbody : ∀ c ∈ body, startsQuery c = false) (hws : ws <+: pathSegments ('/' :: body)) :
    ∃ rest, body = ['/'].intercalate ws ++ rest ∧ (rest = [] ∨ rest.head? = some '/') := by
  obtain ⟨more, hmore⟩ := hws
  have hne : Text.chop '/' body ≠ [] := by
    intro hchop
    rw [pathSegments_cons, if_pos hchop] at hmore
    exact h.ne_nil (List.append_eq_nil_iff.1 hmore).1
  rw [pathSegments_cons, if_neg hne, segmentTexts_of_no_query hbody] at hmore
  have hjoin : Text.chop '/' body = ['/'].intercalate (ws ++ more) := by
    rw [hmore, List.intercalate_splitOn]
  obtain ⟨final, hfinal, hcut⟩ : ∃ final, (final = [] ∨ final = ['/']) ∧
      body = Text.chop '/' body ++ final := by
    rcases Text.chop_cases '/' body with hslash | hsame
    · exact ⟨['/'], .inr rfl, hslash⟩
    · exact ⟨[], .inl rfl, by rw [hsame, List.append_nil]⟩
  by_cases hnone : more = []
  · rw [hnone, List.append_nil] at hjoin
    refine ⟨final, by rw [← hjoin, ← hcut], ?_⟩
    exact hfinal.imp id fun hslash => by rw [hslash]; rfl
  · rw [Text.intercalate_append h.ne_nil hnone] at hjoin
    refine ⟨'/' :: ['/'].intercalate more ++ final, ?_, .inr rfl⟩
    rw [hcut, hjoin, List.append_assoc, List.cons_append]

theorem prefix_pathSegments_append_slash (h : PlainSegments ws) {more : Text}
    (hbody : ∀ c ∈ ['/'].intercalate ws ++ '/' :: more, startsQuery c = false) :
    ws <+: pathSegments ('/' :: (['/'].intercalate ws ++ '/' :: more)) := by
  rw [pathSegments_cons, segmentTexts_of_no_query hbody,
    Text.chop_append_of_ne_nil _ _ (by simp), if_neg (by simp [h.intercalate_ne_nil])]
  by_cases hmore : more = []
  · refine ⟨[], ?_⟩
    rw [hmore, show Text.chop '/' ['/'] = [] from rfl, List.append_nil, List.append_nil,
      h.splitOn_intercalate]
  · have hchop := Text.chop_append_of_ne_nil '/' ['/'] hmore
    rw [List.singleton_append] at hchop
    rw [hchop, List.singleton_append, List.splitOn_append_cons_self, h.splitOn_intercalate]
    exact List.prefix_append ws _

theorem prefix_pathSegments_iff (h : PlainSegments ws)
    (hbody : ∀ c ∈ body, startsQuery c = false) :
    ws <+: pathSegments ('/' :: body) ↔
      ∃ rest, body = ['/'].intercalate ws ++ rest ∧ (rest = [] ∨ rest.head? = some '/') := by
  refine ⟨exists_of_prefix_pathSegments h hbody, ?_⟩
  rintro ⟨rest, rfl, rfl | hhead⟩
  · rw [List.append_nil] at hbody ⊢
    have hsegments := (pathSegments_eq_iff h hbody).2 h.chop_intercalate
    exact ⟨[], by rw [hsegments, List.append_nil]⟩
  · obtain ⟨more, rfl⟩ := List.head?_eq_some_iff.1 hhead
    exact prefix_pathSegments_append_slash h hbody

theorem literal_accepts_iff_fits (h : PlainSegments ws)
    (hbody : ∀ c ∈ body, startsQuery c = false) :
    (PathPattern.literal ('/' :: ['/'].intercalate ws)).accepts ('/' :: body) = true ↔
      Fits (ws.map .literal) (pathSegments ('/' :: body)) := by
  rw [Fits.literals_iff, pathSegments_eq_iff h hbody, PathPattern.accepts, beq_iff_eq,
    withoutFinalSlash_cons, withoutFinalSlash_cons, h.chop_intercalate, List.cons_inj_right]

theorem under_accepts_iff_fits (h : PlainSegments ws)
    (hbody : ∀ c ∈ body, startsQuery c = false) :
    (PathPattern.under ('/' :: ['/'].intercalate ws)).accepts ('/' :: body) = true ↔
      Fits (ws.map .literal ++ [.rest]) (pathSegments ('/' :: body)) := by
  rw [Fits.literals_rest_iff, prefix_pathSegments_iff h hbody, PathPattern.accepts]
  constructor
  · intro haccepts
    cases hdrop : Text.dropStart? ('/' :: ['/'].intercalate ws) ('/' :: body) with
    | none =>
      rw [hdrop] at haccepts
      cases haccepts
    | some rest =>
      rw [hdrop] at haccepts
      have hbody := Text.dropStart?_eq_some_iff.1 hdrop
      exact ⟨rest, (List.cons.inj hbody).2, by simpa using haccepts⟩
  · rintro ⟨rest, rfl, hrest⟩
    have hdrop : Text.dropStart? ('/' :: ['/'].intercalate ws)
        ('/' :: (['/'].intercalate ws ++ rest)) = some rest := Text.dropStart?_eq_some_iff.2 rfl
    rw [hdrop]
    simpa using hrest

end

namespace PathPattern

/-- The patterns of the segments, read one by one. A `*` behind other segments takes any number of
them. -/
def segmentwise (leading : List Text) (last : Text) : List SegmentPattern :=
  leading.map .ofText ++ [if leading ≠ [] ∧ last = ['*'] then .rest else .ofText last]

theorem map_ofText_of_starFree {ws : List Text} (h : SegmentPattern.StarFree ws) :
    ws.map SegmentPattern.ofText = ws.map .literal :=
  List.map_congr_left fun w hw => SegmentPattern.ofText_of_star_not_mem (h w hw)

theorem segmentwise_eq_lastSegment {leading : List Text} {last : Text}
    (h : ¬ (leading = [] ∧ (last = ['*'] ∨ last = ['*', '*']))) :
    segmentwise leading last = leading.map .ofText ++ [lastSegment last] := by
  rw [segmentwise, lastSegment]
  by_cases hlast : last = ['*']
  · have hne : leading ≠ [] := fun hleading => h ⟨hleading, .inl hlast⟩
    rw [if_pos ⟨hne, hlast⟩, if_pos hlast]
  · rw [if_neg fun hboth => hlast hboth.2, if_neg hlast]

theorem ofTexts_accepts_eq_segmentwise {leading : List Text} {last body : Text}
    (h : PlainSegments (leading ++ [last])) (hbody : ∀ c ∈ body, startsQuery c = false)
    (hlone : ¬ (leading = [] ∧ (last = ['*'] ∨ last = ['*', '*']))) :
    (ofTexts leading last).accepts ('/' :: body) =
      (segmented (segmentwise leading last)).accepts ('/' :: body) := by
  rw [Bool.eq_iff_iff, accepts, segmentsMatch_iff]
  rcases ofTexts_cases leading last with ⟨hstars, _⟩ | ⟨hfree, hread⟩ |
    ⟨⟨hne, hfree, rfl⟩, hread⟩ | ⟨_, hread⟩
  · exact absurd hstars hlone
  · have hlast : '*' ∉ last := hfree last (by simp)
    have hsegments : segmentwise leading last = (leading ++ [last]).map .literal := by
      rw [segmentwise_eq_lastSegment hlone, lastSegment, if_neg, ← map_ofText_of_starFree hfree,
        List.map_append, List.map_singleton]
      rintro rfl
      simp at hlast
    rw [hread, hsegments]
    exact literal_accepts_iff_fits h hbody
  · have hleading : PlainSegments leading :=
      ⟨hne, fun hw => h.segment_ne (by simp [hw]), fun w hw => h.no_slash w (by simp [hw]),
        fun w hw => h.no_query w (by simp [hw])⟩
    have hsegments : segmentwise leading ['*'] = leading.map .literal ++ [.rest] := by
      rw [segmentwise_eq_lastSegment hlone, map_ofText_of_starFree hfree]
      rfl
    rw [hread, hsegments]
    exact under_accepts_iff_fits hleading hbody
  · rw [hread, segmentwise_eq_lastSegment hlone, accepts, segmentsMatch_iff]

theorem parse?_join {leading : List Text} {last : Text} (h : PlainSegments (leading ++ [last]))
    (slash : Bool) :
    parse? ('/' :: ['/'].intercalate (leading ++ [last]) ++ if slash then ['/'] else []) =
      some (ofTexts leading last) := by
  have hquery : ∀ c ∈ ['/'].intercalate (leading ++ [last]) ++ (if slash then ['/'] else []),
      startsQuery c = false := by
    intro c hc
    rcases List.mem_append.1 hc with hc | hc
    · exact h.no_query_intercalate c hc
    · cases slash <;> simp at hc
      rw [hc]
      rfl
  have hchop : Text.chop '/'
      (['/'].intercalate (leading ++ [last]) ++ if slash then ['/'] else []) =
        ['/'].intercalate (leading ++ [last]) := by
    cases slash with
    | false => rw [if_neg (by simp), List.append_nil, h.chop_intercalate]
    | true => exact Text.chop_append '/' _
  have hsegments := segmentTexts_of_no_query hquery
  rw [hchop, h.splitOn_intercalate] at hsegments
  rw [List.cons_append, parse?_of_segmentTexts (by simp [h.intercalate_ne_nil]) hsegments,
    if_neg h.segment_ne]

/-- Whether a path pattern is compared as a text or segment by segment makes no difference for
paths without a query. A lone `*` or `**` takes every page but the root. -/
theorem parse?_accepts_eq_segmentwise {leading : List Text} {last path : Text}
    (hne : ∀ w ∈ leading ++ [last], w ≠ [])
    (hplain : ∀ w ∈ leading ++ [last], ∀ c ∈ w, c ≠ '/' ∧ c ≠ '?' ∧ c ≠ '#') (slash : Bool)
    (hrooted : path.head? = some '/') (hquery : ∀ c ∈ path, c ≠ '?' ∧ c ≠ '#') :
    ∃ p, parse? ('/' :: ['/'].intercalate (leading ++ [last]) ++ if slash then ['/'] else []) =
        some p ∧
      if leading = [] ∧ (last = ['*'] ∨ last = ['*', '*']) then
        (p.accepts path = true ↔ path ≠ ['/'])
      else p.accepts path = (segmented (segmentwise leading last)).accepts path := by
  have hsegments : PlainSegments (leading ++ [last]) :=
    ⟨by simp, fun hmem => hne [] hmem rfl, fun w hw hmem => (hplain w hw '/' hmem).1 rfl,
      fun w hw c hc => by simp [startsQuery, hplain w hw c hc]⟩
  refine ⟨_, parse?_join hsegments slash, ?_⟩
  split
  · next hlone =>
    rw [ofTexts, if_pos hlone]
    have hpath : path ≠ [] := by
      rintro rfl
      cases hrooted
    simp [accepts, isRoot, hpath]
  · next hlone =>
    obtain ⟨body, rfl⟩ := List.head?_eq_some_iff.1 hrooted
    refine ofTexts_accepts_eq_segmentwise hsegments (fun c hc => ?_) hlone
    simp [startsQuery, hquery c (by simp [hc])]

theorem parse?_accepts_eq_segmentwise_under :
    let path := "/a/b//c/".toList
    (∀ w ∈ ["a".toList, "b".toList] ++ [['*']], w ≠ []) ∧
      (∀ w ∈ ["a".toList, "b".toList] ++ [['*']], ∀ c ∈ w, c ≠ '/' ∧ c ≠ '?' ∧ c ≠ '#') ∧
      path.head? = some '/' ∧ (∀ c ∈ path, c ≠ '?' ∧ c ≠ '#') ∧
      ∃ p, parse? "/a/b/*/".toList = some p ∧ p = .under "/a/b".toList ∧ p.accepts path = true ∧
        p.accepts path =
          (segmented [.literal "a".toList, .literal "b".toList, .rest]).accepts path := by
  intro path
  have hne : ∀ w ∈ ["a".toList, "b".toList] ++ [['*']], w ≠ [] := by simp
  have hplain : ∀ w ∈ ["a".toList, "b".toList] ++ [['*']], ∀ c ∈ w,
      c ≠ '/' ∧ c ≠ '?' ∧ c ≠ '#' := by simp
  have hquery : ∀ c ∈ path, c ≠ '?' ∧ c ≠ '#' := by simp [path]
  have hrooted : path.head? = some '/' := rfl
  obtain ⟨p, hp, hsame⟩ := parse?_accepts_eq_segmentwise hne hplain true hrooted hquery
  have hunder : p = .under "/a/b".toList := by
    have hread : parse? "/a/b/*/".toList = some (.under "/a/b".toList) := by decide
    exact Option.some.inj (hp.symm.trans hread)
  rw [if_neg (by decide)] at hsame
  exact ⟨hne, hplain, hrooted, hquery, p, hp, hunder, by rw [hunder]; decide, hsame⟩

end PathPattern

end UrlPolicy
