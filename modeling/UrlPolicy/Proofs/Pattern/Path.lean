import UrlPolicy.Pattern.Path
import UrlPolicy.Proofs.Path.Segments
import UrlPolicy.Proofs.Pattern.Segment

/-!
The canonical text of the path of a pattern. Its segments are the canonical texts of the segments
that were read, so reading it gives the same pattern unless one of them was a run of stars.
-/

set_option autoImplicit false

namespace UrlPolicy.PathPattern

open SegmentPattern (canonical starRun StarFree)

def ofTexts (leading : List Text) (last : Text) : PathPattern :=
  if leading = [] ∧ (last = ['*'] ∨ last = ['*', '*']) then .belowRoot
  else ofSegments ('/' :: ['/'].intercalate (leading ++ [last])) leading last

theorem parse?_cons (body : Text) : parse? ('/' :: body) =
    if body = [] then some .root
    else if (splitQuery body).2 = [] ∧
        (trimmedDirs body = ['*'] ∨ trimmedDirs body = ['*', '*']) then some .belowRoot
    else if (segmentTexts body).contains [] then none
    else match (segmentTexts body).getLast? with
      | none => none
      | some last => some (ofSegments ('/' :: trimmedDirs body ++ (splitQuery body).2)
          (segmentTexts body).dropLast last) := by
  cases body with
  | nil => rfl
  | cons c body => rfl

theorem parse?_of_segmentTexts {body : Text} {leading : List Text} {last : Text}
    (hbody : body ≠ []) (h : segmentTexts body = leading ++ [last]) :
    parse? ('/' :: body) =
      if [] ∈ leading ++ [last] then none else some (ofTexts leading last) := by
  have hlone : ((splitQuery body).2 = [] ∧
      (trimmedDirs body = ['*'] ∨ trimmedDirs body = ['*', '*'])) ↔
      leading = [] ∧ (last = ['*'] ∨ last = ['*', '*']) := by
    rw [and_or_left, ← segmentTexts_eq_singleton_iff (by simp) (by simp [startsQuery]),
      ← segmentTexts_eq_singleton_iff (by simp) (by simp [startsQuery]), h]
    simp [List.append_eq_singleton_iff, and_or_left]
  rw [parse?_cons, if_neg hbody, List.cons_append, ← intercalate_segmentTexts, h]
  simp only [hlone, ofTexts, List.contains_iff_mem, List.getLast?_concat, List.dropLast_concat]
  by_cases hstars : leading = [] ∧ (last = ['*'] ∨ last = ['*', '*'])
  · have hne : [] ∉ leading ++ [last] := by
      rcases hstars with ⟨rfl, rfl | rfl⟩ <;> simp
    rw [if_pos hstars, if_neg hne, if_pos hstars]
  · rw [if_neg hstars, if_neg hstars]

theorem parse?_isSome_iff (body : Text) :
    (parse? ('/' :: body)).isSome = true ↔ body = [] ∨ HasNoEmptySegment body := by
  by_cases hbody : body = []
  · simp [hbody, parse?_cons]
  · obtain ⟨leading, last, _, hsegments⟩ := segmentTexts_eq body
    rw [parse?_of_segmentTexts hbody hsegments, or_iff_right hbody,
      ← nil_not_mem_segmentTexts_iff, hsegments]
    split <;> simp_all

theorem parse?_eq_some {body : Text} {p : PathPattern} (hbody : body ≠ [])
    (h : parse? ('/' :: body) = some p) :
    ∃ leading last, segmentTexts body = leading ++ [last] ∧ IsSegmentation leading last ∧
      p = ofTexts leading last := by
  obtain ⟨leading, last, _, hsegments⟩ := segmentTexts_eq body
  rw [parse?_of_segmentTexts hbody hsegments] at h
  split at h
  · cases h
  · next hne =>
    rw [← hsegments] at hne
    obtain ⟨leading', last', hsegments', hwell⟩ := isSegmentation_segmentTexts hne
    obtain ⟨rfl, heq⟩ := List.append_inj' (hsegments.symm.trans hsegments') rfl
    cases heq
    exact ⟨leading, _, hsegments, hwell, (Option.some.inj h).symm⟩

theorem contains_star_eq_false_iff {w : Text} : w.contains '*' = false ↔ '*' ∉ w := by
  rw [← Bool.not_eq_true, List.contains_iff_mem]

theorem any_star_eq_false_iff {ws : List Text} :
    ws.any (·.contains '*') = false ↔ StarFree ws := by
  rw [List.any_eq_false]
  exact forall₂_congr fun w _ => by rw [List.contains_iff_mem]

theorem starFree_segmentTexts_iff {body : Text} : StarFree (segmentTexts body) ↔ '*' ∉ body := by
  rw [← mem_segmentTexts_iff (by decide)]
  simp [StarFree]

theorem star_not_mem_intercalate {ws : List Text} (h : StarFree ws) :
    '*' ∉ '/' :: ['/'].intercalate ws := by
  rw [List.mem_cons, Text.mem_intercalate_iff (by decide)]
  refine not_or_intro (by decide) ?_
  rintro ⟨w, hw, hmem⟩
  exact h w hw hmem

theorem ofTexts_literal {leading : List Text} {last : Text} (h : StarFree (leading ++ [last])) :
    ofTexts leading last = .literal ('/' :: ['/'].intercalate (leading ++ [last])) := by
  have hleading : StarFree leading := fun w hw => h w (by simp [hw])
  have hlast : '*' ∉ last := h last (by simp)
  rw [ofTexts, if_neg, ofSegments, any_star_eq_false_iff.2 hleading,
    contains_star_eq_false_iff.2 hlast]
  · rfl
  · rintro ⟨_, rfl | rfl⟩ <;> simp at hlast

theorem ofTexts_under {leading : List Text} (hne : leading ≠ []) (h : StarFree leading) :
    ofTexts leading ['*'] = .under ('/' :: ['/'].intercalate leading) := by
  rw [ofTexts, if_neg (by simp [hne]), ofSegments, any_star_eq_false_iff.2 h]
  rfl

theorem ofTexts_segmented {leading : List Text} {last : Text}
    (hlone : ¬ (leading = [] ∧ (last = ['*'] ∨ last = ['*', '*'])))
    (h : ¬ StarFree leading ∨ '*' ∈ last ∧ last ≠ ['*']) :
    ofTexts leading last = .segmented (leading.map .ofText ++ [lastSegment last]) := by
  rw [ofTexts, if_neg hlone, ofSegments]
  rcases h with h | ⟨hstar, hne⟩
  · rw [← any_star_eq_false_iff, Bool.not_eq_false] at h
    simp only [h]
    rfl
  · have hlast : last.contains '*' = true := List.contains_iff_mem.2 hstar
    have hne' : (last == ['*']) = false := beq_eq_false_iff_ne.2 hne
    simp only [hlast, hne', Bool.not_true, Bool.and_false]
    rfl

theorem ofTexts_cases (leading : List Text) (last : Text) :
    (leading = [] ∧ (last = ['*'] ∨ last = ['*', '*'])) ∧ ofTexts leading last = .belowRoot ∨
      StarFree (leading ++ [last]) ∧
        ofTexts leading last = .literal ('/' :: ['/'].intercalate (leading ++ [last])) ∨
      (leading ≠ [] ∧ StarFree leading ∧ last = ['*']) ∧
        ofTexts leading last = .under ('/' :: ['/'].intercalate leading) ∨
      (¬ (leading = [] ∧ (last = ['*'] ∨ last = ['*', '*'])) ∧
        (¬ StarFree leading ∨ '*' ∈ last ∧ last ≠ ['*'])) ∧
        ofTexts leading last = .segmented (leading.map .ofText ++ [lastSegment last]) := by
  by_cases hlone : leading = [] ∧ (last = ['*'] ∨ last = ['*', '*'])
  · exact .inl ⟨hlone, if_pos hlone⟩
  by_cases hleading : StarFree leading
  · by_cases hstar : '*' ∈ last
    · by_cases hlast : last = ['*']
      · have hne : leading ≠ [] := fun h => hlone ⟨h, .inl hlast⟩
        refine .inr (.inr (.inl ⟨⟨hne, hleading, hlast⟩, ?_⟩))
        rw [hlast]
        exact ofTexts_under hne hleading
      · exact .inr (.inr (.inr ⟨⟨hlone, .inr ⟨hstar, hlast⟩⟩,
          ofTexts_segmented hlone (.inr ⟨hstar, hlast⟩)⟩))
    · have hfree : StarFree (leading ++ [last]) := by
        intro w hw
        rcases List.mem_append.1 hw with hw | hw
        · exact hleading w hw
        · rwa [List.mem_singleton.1 hw]
      exact .inr (.inl ⟨hfree, ofTexts_literal hfree⟩)
  · exact .inr (.inr (.inr ⟨⟨hlone, .inl hleading⟩, ofTexts_segmented hlone (.inl hleading)⟩))

/-- The canonical text of the last segment. A lone `**` is read as `*`. -/
def canonicalLast (leading : List Text) (last : Text) : Text :=
  canonical (if leading = [] ∧ last = ['*', '*'] then ['*'] else last)

section

variable {leading : List Text} {last : Text}

theorem canonicalLast_eq (h : ¬ (leading = [] ∧ last = ['*', '*'])) :
    canonicalLast leading last = canonical last := by
  rw [canonicalLast, if_neg h]

theorem text_lastSegment (s : Text) : (lastSegment s).text = canonical s := by
  rw [lastSegment]
  split
  · next h =>
    rw [h]
    rfl
  · rfl

theorem text_segmented (segments : List SegmentPattern) (last : SegmentPattern) :
    (segmented (segments ++ [last])).text =
      '/' :: ['/'].intercalate (segments.map (·.text) ++ [last.text]) := by
  induction segments with
  | nil => simp [text]
  | cons s segments ih =>
    rw [List.map_cons, List.cons_append, List.cons_append, Text.intercalate_cons _ (by simp), ← ih]
    simp [text]

theorem map_canonical_eq_self {ws : List Text} (h : StarFree ws) : ws.map canonical = ws := by
  refine (List.map_congr_left fun w hw => ?_).trans (List.map_id ws)
  exact SegmentPattern.canonical_of_star_not_mem (h w hw)

theorem text_ofTexts (leading : List Text) (last : Text) : (ofTexts leading last).text =
    '/' :: ['/'].intercalate (leading.map canonical ++ [canonicalLast leading last]) := by
  rcases ofTexts_cases leading last with ⟨⟨rfl, rfl | rfl⟩, h⟩ | ⟨hfree, h⟩ |
    ⟨⟨hne, hfree, rfl⟩, h⟩ | ⟨⟨hlone, _⟩, h⟩
  · rfl
  · rfl
  · have hmap : leading.map canonical ++ [canonical last] = leading ++ [last] := by
      simpa using map_canonical_eq_self hfree
    rw [h, canonicalLast_eq, hmap]
    · rfl
    · rintro ⟨_, rfl⟩
      exact hfree ['*', '*'] (by simp) (by simp)
  · rw [h, canonicalLast_eq (by simp), map_canonical_eq_self hfree, Text.intercalate_concat _ hne]
    simp [text, canonical, SegmentPattern.ofText, SegmentPattern.text]
  · rw [h, canonicalLast_eq fun hmany => hlone ⟨hmany.1, .inr hmany.2⟩, text_segmented,
      text_lastSegment, List.map_map]
    rfl

theorem splitQuery_withoutStars (t : Text) :
    (splitQuery (SegmentPattern.withoutStars t)).1 =
      SegmentPattern.withoutStars (splitQuery t).1 := by
  induction t with
  | nil => rfl
  | cons c t ih =>
    simp only [splitQuery, SegmentPattern.withoutStars] at ih ⊢
    by_cases hc : c = '*'
    · subst hc
      simpa [startsQuery] using ih
    · by_cases hquery : startsQuery c = true
      · simp [hc, hquery]
      · simpa [hc, hquery] using ih

theorem slash_mem_canonical_iff (s : Text) :
    '/' ∈ (splitQuery (canonical s)).1 ↔ '/' ∈ (splitQuery s).1 := by
  have hstars : ∀ t, '/' ∈ t ↔ '/' ∈ SegmentPattern.withoutStars t := fun t => by
    simp [SegmentPattern.mem_withoutStars_iff]
  rw [hstars, hstars (splitQuery s).1, ← splitQuery_withoutStars, ← splitQuery_withoutStars,
    SegmentPattern.withoutStars_canonical]

theorem startsQuery_canonical {s : Text} (h : ∀ c ∈ s, startsQuery c = false) :
    ∀ c ∈ canonical s, startsQuery c = false := by
  intro c hc
  by_cases hstar : c = '*'
  · rw [hstar]
    rfl
  · exact h c ((SegmentPattern.mem_canonical_iff hstar).1 hc)

theorem isSegmentation_canonical (h : IsSegmentation leading last) :
    IsSegmentation (leading.map canonical) (canonicalLast leading last) := by
  refine ⟨?_, ?_, ?_, ?_, ?_⟩
  · simp only [List.mem_map, forall_exists_index, and_imp, forall_apply_eq_imp_iff₂]
    exact fun w hw => SegmentPattern.canonical_ne_nil (h.leading_ne w hw)
  · simp only [List.mem_map, forall_exists_index, and_imp, forall_apply_eq_imp_iff₂]
    intro w hw
    rw [SegmentPattern.mem_canonical_iff (by decide)]
    exact h.leading_slash w hw
  · simp only [List.mem_map, forall_exists_index, and_imp, forall_apply_eq_imp_iff₂]
    exact fun w hw => startsQuery_canonical (h.leading_query w hw)
  · rw [canonicalLast]
    split
    · exact SegmentPattern.canonical_ne_nil (by simp)
    · exact SegmentPattern.canonical_ne_nil h.last_ne
  · rw [canonicalLast, slash_mem_canonical_iff]
    split
    · decide
    · exact h.last_slash

theorem parse?_text_ofTexts (h : IsSegmentation leading last) :
    parse? (ofTexts leading last).text =
      some (ofTexts (leading.map canonical) (canonicalLast leading last)) := by
  have hcanonical := isSegmentation_canonical h
  rw [text_ofTexts, parse?_of_segmentTexts hcanonical.intercalate_ne_nil
    (segmentTexts_intercalate hcanonical), if_neg hcanonical.nil_not_mem]

theorem canonicalLast_canonical (leading : List Text) (last : Text) :
    canonicalLast (leading.map canonical) (canonicalLast leading last) =
      canonicalLast leading last := by
  by_cases hlone : leading = [] ∧ last = ['*', '*']
  · obtain ⟨rfl, rfl⟩ := hlone
    rfl
  · rw [canonicalLast_eq hlone, canonicalLast_eq, SegmentPattern.canonical_canonical]
    rwa [List.map_eq_nil_iff, SegmentPattern.canonical_eq_anyMany_iff]

theorem text_ofTexts_canonical (leading : List Text) (last : Text) :
    (ofTexts (leading.map canonical) (canonicalLast leading last)).text =
      (ofTexts leading last).text := by
  have hmap : (leading.map canonical).map canonical = leading.map canonical := by
    rw [List.map_map]
    exact List.map_congr_left fun w _ => SegmentPattern.canonical_canonical w
  rw [text_ofTexts, text_ofTexts, canonicalLast_canonical, hmap]

theorem starFree_map_canonical_iff {ws : List Text} :
    StarFree (ws.map canonical) ↔ StarFree ws := by
  simp [StarFree, SegmentPattern.star_mem_canonical_iff]

theorem lastSegment_canonical {s : Text} (h : SegmentPattern.ofText s ≠ starRun) :
    lastSegment (canonical s) = lastSegment s := by
  have hany : canonical s = ['*'] ↔ s = ['*'] := by
    rw [SegmentPattern.canonical_eq_any_iff, or_iff_left h]
  rw [lastSegment, lastSegment, SegmentPattern.ofText_canonical, if_neg h]
  simp only [hany]

theorem ofTexts_canonical (hleading : ∀ w ∈ leading, SegmentPattern.ofText w ≠ starRun)
    (hlast : SegmentPattern.ofText last ≠ starRun) :
    ofTexts (leading.map canonical) (canonicalLast leading last) = ofTexts leading last := by
  rcases ofTexts_cases leading last with ⟨⟨rfl, rfl | rfl⟩, h⟩ | ⟨hfree, h⟩ |
    ⟨⟨hne, hfree, rfl⟩, h⟩ | ⟨⟨hlone, hstars⟩, h⟩
  · rfl
  · rfl
  · have hleading : StarFree leading := fun w hw => hfree w (by simp [hw])
    have hlast : '*' ∉ last := hfree last (by simp)
    rw [map_canonical_eq_self hleading, canonicalLast_eq,
      SegmentPattern.canonical_of_star_not_mem hlast]
    rintro ⟨_, rfl⟩
    simp at hlast
  · rw [map_canonical_eq_self hfree, canonicalLast_eq (by simp)]
    rfl
  · have hany : canonical last = ['*'] ↔ last = ['*'] := by
      rw [SegmentPattern.canonical_eq_any_iff, or_iff_left hlast]
    rw [h, canonicalLast_eq fun hmany => hlone ⟨hmany.1, .inr hmany.2⟩, ofTexts_segmented,
      lastSegment_canonical hlast, List.map_map]
    · have hmap : leading.map (SegmentPattern.ofText ∘ canonical) = leading.map .ofText := by
        refine List.map_congr_left fun w hw => ?_
        rw [Function.comp_apply, SegmentPattern.ofText_canonical, if_neg (hleading w hw)]
      rw [hmap]
    · rwa [List.map_eq_nil_iff, hany, SegmentPattern.canonical_eq_anyMany_iff]
    · rwa [starFree_map_canonical_iff, SegmentPattern.star_mem_canonical_iff, Ne, hany]

end

def segments : PathPattern → List SegmentPattern
  | .segmented segments => segments
  | _ => []

theorem ofText_ne_starRun {s : Text} (h : '*' ∉ s ∨ s = ['*'] ∨ s = ['*', '*']) :
    SegmentPattern.ofText s ≠ starRun := by
  rcases h with h | rfl | rfl
  · rw [SegmentPattern.ofText_of_star_not_mem h]
    simp [starRun]
  · decide
  · decide

theorem lastSegment_eq_starRun_iff {s : Text} :
    lastSegment s = starRun ↔ SegmentPattern.ofText s = starRun := by
  rw [lastSegment]
  split
  · next h => exact iff_of_false (by simp [starRun]) (ofText_ne_starRun (.inr (.inl h)))
  · rfl

theorem starRun_mem_segments_iff {leading : List Text} {last : Text} :
    starRun ∈ (ofTexts leading last).segments ↔
      (∃ w ∈ leading, SegmentPattern.ofText w = starRun) ∨
        SegmentPattern.ofText last = starRun := by
  have hleading (hfree : StarFree leading) :
      ¬ ∃ w ∈ leading, SegmentPattern.ofText w = starRun := by
    rintro ⟨w, hw, hrun⟩
    exact ofText_ne_starRun (.inl (hfree w hw)) hrun
  rcases ofTexts_cases leading last with ⟨⟨rfl, hlast⟩, h⟩ | ⟨hfree, h⟩ |
    ⟨⟨_, hfree, rfl⟩, h⟩ | ⟨_, h⟩
  · rw [h]
    simpa [segments] using ofText_ne_starRun (.inr hlast)
  · rw [h]
    refine iff_of_false (by simp [segments]) (not_or_intro ?_ ?_)
    · exact hleading fun w hw => hfree w (by simp [hw])
    · exact ofText_ne_starRun (.inl (hfree last (by simp)))
  · rw [h]
    exact iff_of_false (by simp [segments]) (not_or_intro (hleading hfree) (by decide))
  · rw [h, ← lastSegment_eq_starRun_iff]
    simp [segments, eq_comm]

theorem starRun_not_mem_canonical (leading : List Text) (last : Text) :
    starRun ∉ (ofTexts (leading.map canonical) (canonicalLast leading last)).segments := by
  rw [starRun_mem_segments_iff, canonicalLast]
  refine not_or_intro ?_ (SegmentPattern.ofText_canonical_ne_starRun _)
  simp [SegmentPattern.ofText_canonical_ne_starRun]

/-- A path is read back from its canonical text exactly when it has no segment of three or more
stars. Otherwise the text is read as another path, which has the same canonical text. -/
theorem parse?_text {body : Text} {p : PathPattern} (h : parse? ('/' :: body) = some p) :
    ∃ q, parse? p.text = some q ∧ q.text = p.text ∧ (q = p ↔ starRun ∉ p.segments) := by
  by_cases hbody : body = []
  · subst hbody
    cases h
    exact ⟨.root, rfl, rfl, by simp [segments]⟩
  · obtain ⟨leading, last, _, hsegments, rfl⟩ := parse?_eq_some hbody h
    refine ⟨_, parse?_text_ofTexts hsegments, text_ofTexts_canonical leading last, ?_⟩
    constructor
    · intro heq
      rw [← heq]
      exact starRun_not_mem_canonical leading last
    · intro hrun
      rw [starRun_mem_segments_iff, not_or] at hrun
      exact ofTexts_canonical (fun w hw hrun' => hrun.1 ⟨w, hw, hrun'⟩) hrun.2

theorem text_eq_cons {body : Text} {p : PathPattern} (h : parse? ('/' :: body) = some p) :
    ∃ t, p.text = '/' :: t := by
  by_cases hbody : body = []
  · subst hbody
    cases h
    exact ⟨[], rfl⟩
  · obtain ⟨leading, last, _, _, rfl⟩ := parse?_eq_some hbody h
    exact ⟨_, text_ofTexts leading last⟩

theorem mem_text_iff {body : Text} {p : PathPattern} (h : parse? ('/' :: body) = some p)
    {c : Char} (hslash : c ≠ '/') (hstar : c ≠ '*') : c ∈ p.text ↔ c ∈ body := by
  by_cases hbody : body = []
  · subst hbody
    cases h
    simp [text, hslash]
  · obtain ⟨leading, last, hsegments, _, rfl⟩ := parse?_eq_some hbody h
    have hlast : c ∈ canonicalLast leading last ↔ c ∈ last := by
      rw [canonicalLast, SegmentPattern.mem_canonical_iff hstar]
      split
      · next hmany => simp [hmany.2, hstar]
      · rfl
    rw [text_ofTexts, List.mem_cons, or_iff_right hslash, Text.mem_intercalate_iff hslash,
      ← mem_segmentTexts_iff hslash, hsegments]
    simp [hlast, SegmentPattern.mem_canonical_iff hstar]

end UrlPolicy.PathPattern
