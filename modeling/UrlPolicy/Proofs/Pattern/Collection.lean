import UrlPolicy.Proofs.Pattern.Path
import UrlPolicy.Specificity

set_option autoImplicit false

namespace UrlPolicy

theorem Text.exists_splitOn_append {sep : Char} {s : Text} (t : Text) (h : sep ∉ s) :
    ∃ u more, List.splitOn sep (s ++ t) = (s ++ u) :: more := by
  induction s with
  | nil =>
    obtain ⟨u, more, hsplit⟩ := List.exists_cons_of_ne_nil (List.splitOn_ne_nil sep t)
    exact ⟨u, more, hsplit⟩
  | cons c s ih =>
    rw [List.mem_cons, not_or] at h
    obtain ⟨u, more, hsplit⟩ := ih h.2
    refine ⟨u, more, ?_⟩
    rw [List.cons_append, List.splitOn_cons_eq_if_modifyHead, if_neg (by simpa using Ne.symm h.1),
      hsplit]
    rfl

theorem exists_split_last {last : Text} (hslash : '/' ∉ (splitQuery last).1) :
    ∃ first more, List.splitOn '/' last = first :: more ∧
      ((∀ c ∈ last, startsQuery c = false) ∧ first = last ∧ more = [] ∨
        ∃ c ∈ first, startsQuery c = true) := by
  have hlast := splitQuery_append last
  cases hquery : (splitQuery last).2 with
  | nil =>
    rw [hquery, List.append_nil] at hlast
    have hplain : ∀ c ∈ last, startsQuery c = false := fun c hc =>
      not_startsQuery_of_mem (t := last) (by rwa [hlast])
    rw [hlast] at hslash
    exact ⟨last, [], List.splitOn_eq_singleton hslash, .inl ⟨hplain, rfl, rfl⟩⟩
  | cons c query =>
    have hc : startsQuery c = true := startsQuery_of_head (t := last) (by simp [hquery])
    have hfront : '/' ∉ (splitQuery last).1 ++ [c] := by
      rw [List.mem_append, List.mem_singleton]
      refine not_or_intro hslash ?_
      rintro rfl
      cases hc
    obtain ⟨u, more, hsplit⟩ := Text.exists_splitOn_append query hfront
    rw [List.append_assoc, List.singleton_append, ← hquery, hlast] at hsplit
    exact ⟨_, more, hsplit, .inr ⟨c, by simp, hc⟩⟩

theorem plain_of_mem_collectionMarkers {marker : Text} (h : marker ∈ collectionMarkers) :
    '*' ∉ marker ∧ ∀ c ∈ marker, startsQuery c = false := by
  have hall : collectionMarkers.all (fun marker =>
      !marker.contains '*' && marker.all (fun c => !startsQuery c)) = true := by decide
  simpa using List.all_eq_true.1 hall marker h

theorem IsSegmentation.head?_intercalate {leading : List Text} {last : Text}
    (h : IsSegmentation leading last) :
    (['/'].intercalate (leading ++ [last])).head? ≠ some '/' := by
  intro hhead
  obtain ⟨body, hbody⟩ := List.head?_eq_some_iff.1 hhead
  cases leading with
  | nil =>
    have hlast : last = '/' :: body := by
      rwa [List.nil_append, List.intercalate_singleton] at hbody
    exact h.last_slash (by simp [hlast, splitQuery, startsQuery])
  | cons w leading =>
    obtain ⟨c, more, rfl⟩ := List.exists_cons_of_ne_nil (h.leading_ne w (by simp))
    rw [List.cons_append, Text.intercalate_cons _ (by simp)] at hbody
    exact h.leading_slash _ (List.mem_cons_self) (by rw [(List.cons.inj hbody).1]; simp)

theorem IsSegmentation.dropLast {front : List Text} {final last : Text}
    (h : IsSegmentation (front ++ [final]) last) : IsSegmentation front final where
  leading_ne w hw := h.leading_ne w (by simp [hw])
  leading_slash w hw := h.leading_slash w (by simp [hw])
  leading_query w hw := h.leading_query w (by simp [hw])
  last_ne := h.leading_ne final (by simp)
  last_slash hmem := h.leading_slash final (by simp) (mem_of_mem_splitQuery_fst hmem)

/-- The first two segments name a member of a collection. -/
def NamesMember (segments : List Text) : Prop :=
  ∃ marker name rest, segments = marker :: name :: rest ∧ marker ∈ collectionMarkers ∧
    '*' ∉ name ∧ ∀ c ∈ name, startsQuery c = false

namespace PathPattern

open SegmentPattern (StarFree)

variable {leading : List Text} {last : Text}

theorem not_namesMember_nil : ¬ NamesMember [] := by
  rintro ⟨_, _, _, heq, _⟩
  cases heq

theorem not_namesMember_singleton (w : Text) : ¬ NamesMember [w] := by
  rintro ⟨_, _, _, heq, _⟩
  cases heq

theorem namesMember_cons_cons_iff {marker name : Text} {rest : List Text} :
    NamesMember (marker :: name :: rest) ↔
      marker ∈ collectionMarkers ∧ '*' ∉ name ∧ ∀ c ∈ name, startsQuery c = false := by
  simp [NamesMember, and_assoc]

theorem namesMember_iff {segments : List Text} : NamesMember segments ↔
    segments[0]?.any collectionMarkers.contains = true ∧
      segments[1]?.any (fun name => !name.contains '*' && !name.any startsQuery) = true := by
  rcases segments with _ | ⟨marker, _ | ⟨name, rest⟩⟩
  · exact iff_of_false not_namesMember_nil (by simp)
  · exact iff_of_false (not_namesMember_singleton marker) (by simp)
  · simp [namesMember_cons_cons_iff]

instance (segments : List Text) : Decidable (NamesMember segments) :=
  decidable_of_iff _ namesMember_iff.symm

/-- A path of literal segments: a slash in its query makes no segment of its own. -/
theorem namesCollection_intercalate_iff (h : IsSegmentation leading last)
    (hfree : StarFree (leading ++ [last])) :
    namesCollection ('/' :: ['/'].intercalate (leading ++ [last])) = true ↔
      NamesMember (leading ++ [last]) := by
  have hbody : ('/' :: ['/'].intercalate (leading ++ [last])).dropWhile (· == '/') =
      ['/'].intercalate (leading ++ [last]) := by
    rw [List.dropWhile_cons_of_pos rfl]
    refine Text.dropWhile_eq_self fun c hc => beq_eq_false_iff_ne.2 ?_
    rintro rfl
    exact h.head?_intercalate hc
  obtain ⟨first, more, hsplit, hfirst⟩ := exists_split_last h.last_slash
  rw [namesCollection, hbody, Text.split, Text.splitOn_intercalate_concat last h.leading_slash,
    hsplit]
  -- a query can cut the second piece off only where that piece is in the last segment
  cases leading with
  | nil =>
    refine iff_of_false ?_ (not_namesMember_singleton last)
    cases more with
    | nil => simp
    | cons name more =>
      obtain ⟨c, hc, hquery⟩ := hfirst.resolve_left fun hwhole => by cases hwhole.2.2
      have hmarker : first ∉ collectionMarkers := fun hmem => by
        rw [(plain_of_mem_collectionMarkers hmem).2 c hc] at hquery
        cases hquery
      simp [hmarker]
  | cons marker names =>
    cases names with
    | nil =>
      refine Iff.trans ?_ namesMember_cons_cons_iff.symm
      rcases hfirst with ⟨_, rfl, rfl⟩ | ⟨c, hc, hquery⟩
      · simp [h.last_ne, hfree first (by simp)]
      · have hpiece : first ∈ List.splitOn '/' last := by simp [hsplit]
        have hlast : c ∈ last := Text.mem_of_mem_splitOn hpiece hc
        have hany : first.any startsQuery = true := List.any_eq_true.2 ⟨c, hc, hquery⟩
        refine iff_of_false (by simp [hany]) fun hmember => ?_
        rw [hmember.2.2 c hlast] at hquery
        cases hquery
    | cons name rest =>
      refine Iff.trans ?_ namesMember_cons_cons_iff.symm
      simp [h.leading_ne name (by simp), hfree name (by simp)]

theorem namesMember_concat_star_iff : NamesMember (leading ++ [['*']]) ↔ NamesMember leading := by
  match leading with
  | [] => exact iff_of_false (not_namesMember_singleton _) (by simp [NamesMember])
  | [marker] => exact iff_of_false (by simp [NamesMember]) (not_namesMember_singleton _)
  | marker :: name :: rest =>
    rw [List.cons_append, List.cons_append, namesMember_cons_cons_iff, namesMember_cons_cons_iff]

theorem ofText_eq_literal_iff {s w : Text} :
    SegmentPattern.ofText s = .literal w ↔ '*' ∉ s ∧ s = w := by
  constructor
  · intro h
    rcases SegmentPattern.ofText_cases s with ⟨_, hs⟩ | ⟨_, hs⟩ | ⟨hstar, hs⟩ |
      ⟨_, _, _, _, _, _, _, hs⟩
    case inr.inr.inl =>
      rw [hs] at h
      cases h
      exact ⟨hstar, rfl⟩
    all_goals cases hs.symm.trans h
  · rintro ⟨hstar, rfl⟩
    exact SegmentPattern.ofText_of_star_not_mem hstar

theorem star_not_mem_of_lastSegment {s w : Text} (h : lastSegment s = .literal w) : '*' ∉ s := by
  rw [lastSegment] at h
  split at h
  · cases h
  · exact (ofText_eq_literal_iff.1 h).1

theorem segmentsNameCollection_iff (h : IsSegmentation leading last)
    (hstars : ¬ StarFree (leading ++ [last])) :
    segmentsNameCollection (leading.map .ofText ++ [lastSegment last]) = true ↔
      NamesMember (leading ++ [last]) := by
  have hliteral {segments : List SegmentPattern} : segmentsNameCollection segments = true ↔
      ∃ marker name rest, segments = .literal marker :: .literal name :: rest ∧
        marker ∈ collectionMarkers := by
    rw [segmentsNameCollection.eq_def]
    split
    · simp
    · next hno =>
      refine iff_of_false (by simp) ?_
      rintro ⟨marker, name, rest, heq, _⟩
      exact hno marker name rest heq
  rw [hliteral]
  match leading, h, hstars with
  | [], _, _ => exact iff_of_false (by simp) (not_namesMember_singleton last)
  | [s], _, hstars =>
    -- the star is in one of the two segments, so they are not both literal
    have hno : ¬ ('*' ∉ s ∧ '*' ∉ last) := by simpa [StarFree] using hstars
    refine iff_of_false ?_ fun hmember => ?_
    · rintro ⟨_, _, _, heq, _⟩
      obtain ⟨hs, hmore⟩ := List.cons.inj heq
      obtain ⟨hlast, _⟩ := List.cons.inj hmore
      exact hno ⟨(ofText_eq_literal_iff.1 hs).1, star_not_mem_of_lastSegment hlast⟩
    · obtain ⟨hmarker, hname, _⟩ := namesMember_cons_cons_iff.1 hmember
      exact hno ⟨(plain_of_mem_collectionMarkers hmarker).1, hname⟩
  | marker :: name :: rest, h, _ =>
    refine Iff.trans ?_ namesMember_cons_cons_iff.symm
    constructor
    · rintro ⟨_, _, _, heq, hmarker⟩
      obtain ⟨hs, hmore⟩ := List.cons.inj heq
      obtain ⟨_, rfl⟩ := ofText_eq_literal_iff.1 hs
      exact ⟨hmarker, (ofText_eq_literal_iff.1 (List.cons.inj hmore).1).1,
        h.leading_query name (by simp)⟩
    · rintro ⟨hmarker, hname, _⟩
      have hs := (plain_of_mem_collectionMarkers hmarker).1
      refine ⟨marker, name, rest.map .ofText ++ [lastSegment last], ?_, hmarker⟩
      rw [List.map_cons, List.map_cons, SegmentPattern.ofText_of_star_not_mem hs,
        SegmentPattern.ofText_of_star_not_mem hname]
      rfl

/-- The two computations, on a text and on patterns of segments, follow one rule. -/
theorem isInCollection_ofTexts_iff (h : IsSegmentation leading last) :
    (ofTexts leading last).isInCollection = true ↔ NamesMember (leading ++ [last]) := by
  rcases ofTexts_cases leading last with ⟨⟨rfl, _⟩, hread⟩ | ⟨hfree, hread⟩ |
    ⟨⟨hne, hfree, rfl⟩, hread⟩ | ⟨⟨_, hstars⟩, hread⟩
  · rw [hread]
    exact iff_of_false (by simp [isInCollection]) (not_namesMember_singleton last)
  · rw [hread]
    exact namesCollection_intercalate_iff h hfree
  · obtain ⟨front, final, rfl⟩ := (List.eq_nil_or_concat leading).resolve_left hne
    rw [List.concat_eq_append] at h hfree hread ⊢
    rw [hread, namesMember_concat_star_iff]
    exact namesCollection_intercalate_iff h.dropLast hfree
  · rw [hread]
    refine segmentsNameCollection_iff h fun hfree => ?_
    exact hstars.elim (fun hno => hno fun w hw => hfree w (by simp [hw]))
      fun hstar => hfree last (by simp) hstar.1

end PathPattern

end UrlPolicy
