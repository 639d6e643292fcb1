import UrlPolicy.Proofs.Matching.Expansion
import UrlPolicy.Proofs.Matching.Filling

/-!
Patterns that cover others: they accept every path of a page that the others accept. Main
statement: the fixed segments at the start of a pattern are fixed segments of every pattern that it
covers. What a pattern accepts gives them away: filled in with two different letters, a segment
stays the same only if it has no star.
-/

set_option autoImplicit false

namespace UrlPolicy

open SegmentPattern (StarFree)

def fillStars (x : Char) (s : Text) : Text := s.map fun c => if c = '*' then x else c

theorem expands_fillStars (x : Char) (s : Text) : Expands s (fillStars x s) := by
  induction s with
  | nil => exact .nil
  | cons c s ih =>
    rw [fillStars, List.map_cons]
    split
    · next hc =>
      rw [hc]
      exact .star [x] ih
    · next hc => exact .char hc ih

theorem fillStars_of_star_not_mem (x : Char) {s : Text} (h : '*' ∉ s) : fillStars x s = s := by
  refine (List.map_congr_left fun c hc => if_neg ?_).trans (List.map_id s)
  rintro rfl
  exact h hc

theorem star_not_mem_of_fillStars_eq {x y : Char} {s : Text} (hxy : x ≠ y)
    (h : fillStars x s = fillStars y s) : '*' ∉ s := by
  intro hmem
  have hstar := List.map_inj_left.1 h '*' hmem
  rw [if_pos rfl, if_pos rfl] at hstar
  exact hxy hstar

/-- A fixed start of the segments that two fillings leave alone is the start of the segments. -/
theorem eq_append_of_map_fillStars {x y : Char} {ws front mx my : List Text} (hxy : x ≠ y)
    (hx : ws.map (fillStars x) = front ++ mx) (hy : ws.map (fillStars y) = front ++ my) :
    StarFree front ∧ ∃ more, ws = front ++ more ∧ mx = more.map (fillStars x) := by
  induction front generalizing ws with
  | nil => exact ⟨by simp [StarFree], ws, rfl, hx.symm⟩
  | cons w front ih =>
    obtain ⟨s, ws, rfl, hs, hws⟩ := List.map_eq_cons_iff.1 hx
    obtain ⟨hs', hws'⟩ := List.cons.inj hy
    have hstar : '*' ∉ s := star_not_mem_of_fillStars_eq hxy (hs.trans hs'.symm)
    rw [fillStars_of_star_not_mem x hstar] at hs
    obtain ⟨hfree, more, rfl, hmore⟩ := ih hws hws'
    rw [← hs]
    refine ⟨?_, more, rfl, hmore⟩
    rintro v hv
    rcases List.mem_cons.1 hv with rfl | hv
    · exact hstar
    · exact hfree v hv

theorem PlainSegments.map_fillStars {x : Char} {ws : List Text} (h : PlainSegments ws)
    (hslash : x ≠ '/') (hquery : startsQuery x = false) : PlainSegments (ws.map (fillStars x)) := by
  have hmem {c : Char} {w : Text} (hc : c ∈ fillStars x w) : c = x ∨ c ∈ w := by
    obtain ⟨d, hd, hdc⟩ := List.mem_map.1 hc
    split at hdc
    · exact .inl hdc.symm
    · exact .inr (hdc ▸ hd)
  refine ⟨by simp [h.ne_nil], ?_, ?_, ?_⟩
  · intro hnil
    obtain ⟨w, hw, hempty⟩ := List.mem_map.1 hnil
    rw [List.map_eq_nil_iff.1 hempty] at hw
    exact h.segment_ne hw
  · rintro _ hu hc
    obtain ⟨w, hw, rfl⟩ := List.mem_map.1 hu
    exact (hmem hc).elim (fun heq => hslash heq.symm) (h.no_slash w hw)
  · rintro _ hu c hc
    obtain ⟨w, hw, rfl⟩ := List.mem_map.1 hu
    exact (hmem hc).elim (fun heq => heq ▸ hquery) (h.no_query w hw c)

theorem Fits.ofText_fillStars (x : Char) (s : Text) {ps : List SegmentPattern} {ts : List Text}
    (h : Fits ps ts) : Fits (.ofText s :: ps) (fillStars x s :: ts) := by
  by_cases hmany : s = ['*', '*']
  · rw [hmany]
    exact .last _ h
  refine .single (SegmentPattern.isSingle_ofText hmany) ?_ h
  by_cases hstar : '*' ∈ s
  · exact (SegmentPattern.ofText_accepts_iff_expands hstar hmany).2 (expands_fillStars x s)
  · rw [SegmentPattern.ofText_of_star_not_mem hstar, fillStars_of_star_not_mem x hstar]
    exact beq_self_eq_true s

namespace PathPattern

/-- A path as an address has it, without the query. -/
structure IsPagePath (path : Text) : Prop where
  rooted : path.head? = some '/'
  no_query : ∀ c ∈ path, c ≠ '?' ∧ c ≠ '#'

theorem IsPagePath.exists_eq {path : Text} (h : IsPagePath path) :
    ∃ body, path = '/' :: body ∧ ∀ c ∈ body, startsQuery c = false := by
  obtain ⟨body, rfl⟩ := List.head?_eq_some_iff.1 h.rooted
  exact ⟨body, rfl, fun c hc => by simp [startsQuery, h.no_query c (by simp [hc])]⟩

theorem exists_isPagePath {ws : List Text} (h : PlainSegments ws) :
    ∃ path, IsPagePath path ∧ path ≠ ['/'] ∧ pathSegments path = ws := by
  refine ⟨'/' :: ['/'].intercalate ws, ⟨rfl, ?_⟩, by simp [h.intercalate_ne_nil],
    (pathSegments_eq_iff h h.no_query_intercalate).2 h.chop_intercalate⟩
  rw [List.forall_mem_cons]
  refine ⟨by decide, fun c hc => ?_⟩
  simpa [startsQuery] using h.no_query_intercalate c hc

/-- Every path of a page that `p` accepts is accepted by `q` too. -/
def Covers (q p : PathPattern) : Prop :=
  ∀ path, IsPagePath path → p.accepts path = true → q.accepts path = true

inductive IsPlain : PathPattern → Prop where
  | anywhere : IsPlain .anywhere
  | root : IsPlain .root
  | ofTexts {leading : List Text} {last : Text} (h : PlainSegments (leading ++ [last])) :
      IsPlain (ofTexts leading last)

section

variable {leading : List Text} {last path : Text}

/-- A lone `*` or `**`. -/
def IsLone (leading : List Text) (last : Text) : Prop :=
  leading = [] ∧ (last = ['*'] ∨ last = ['*', '*'])

theorem ofTexts_of_isLone (h : IsLone leading last) : ofTexts leading last = .belowRoot := if_pos h

theorem ofTexts_accepts_iff_fits (h : PlainSegments (leading ++ [last]))
    (hlone : ¬ IsLone leading last) (hpath : IsPagePath path) :
    (ofTexts leading last).accepts path = true ↔
      Fits (segmentwise leading last) (pathSegments path) := by
  obtain ⟨body, rfl, hbody⟩ := hpath.exists_eq
  rw [ofTexts_accepts_eq_segmentwise h hbody hlone, accepts, segmentsMatch_iff]

theorem fits_fillStars (x : Char) (leading : List Text) (last : Text) :
    Fits (segmentwise leading last) ((leading ++ [last]).map (fillStars x)) := by
  have hlast {p : SegmentPattern} (h : Fits [p] [fillStars x last]) :
      Fits (leading.map .ofText ++ [p]) ((leading ++ [last]).map (fillStars x)) := by
    induction leading with
    | nil => exact h
    | cons w leading ih => exact .ofText_fillStars x w ih
  rw [segmentwise]
  split
  · exact hlast (.rest [] _)
  · exact hlast (.ofText_fillStars x last .nil)

theorem exists_accepts_fillStars {x : Char} (h : PlainSegments (leading ++ [last]))
    (hslash : x ≠ '/') (hquery : startsQuery x = false) :
    ∃ path, IsPagePath path ∧ (ofTexts leading last).accepts path = true ∧
      pathSegments path = (leading ++ [last]).map (fillStars x) := by
  obtain ⟨path, hpath, hroot, hsegments⟩ := exists_isPagePath (h.map_fillStars hslash hquery)
  refine ⟨path, hpath, ?_, hsegments⟩
  by_cases hlone : IsLone leading last
  · obtain ⟨body, rfl, _⟩ := hpath.exists_eq
    rw [ofTexts_of_isLone hlone]
    simpa [accepts, isRoot] using hroot
  · rw [ofTexts_accepts_iff_fits h hlone hpath, hsegments]
    exact fits_fillStars x leading last

/-- The fixed segments at the start of a pattern are patterns for just these segments. -/
theorem segmentwise_eq_literals {front more : List Text} (h : leading ++ [last] = front ++ more)
    (hfree : StarFree front) :
    ∃ ps, segmentwise leading last = front.map .literal ++ ps ∧ (more = [] → ps = []) := by
  rcases List.eq_nil_or_concat more with rfl | ⟨more, final, rfl⟩
  · rw [List.append_nil] at h
    have hlast : '*' ∉ last := hfree last (by simp [← h])
    refine ⟨[], ?_, fun _ => rfl⟩
    rw [List.append_nil, ← map_ofText_of_starFree hfree, ← h, segmentwise, if_neg]
    · simp
    · rintro ⟨_, rfl⟩
      simp at hlast
  · rw [List.concat_eq_append, ← List.append_assoc] at h
    obtain ⟨rfl, _⟩ := List.append_inj' h rfl
    refine ⟨more.map .ofText ++ [if front ++ more ≠ [] ∧ last = ['*'] then .rest
      else .ofText last], ?_, by simp⟩
    rw [segmentwise, List.map_append, map_ofText_of_starFree hfree, List.append_assoc]

theorem pathSegments_of_accepts {front more : List Text} (h : PlainSegments (leading ++ [last]))
    (hfront : leading ++ [last] = front ++ more) (hfree : StarFree front)
    (hlone : ¬ IsLone leading last) (hpath : IsPagePath path)
    (haccepts : (ofTexts leading last).accepts path = true) :
    ∃ rest, pathSegments path = front ++ rest ∧ (more = [] → rest = []) := by
  obtain ⟨ps, hps, hnil⟩ := segmentwise_eq_literals hfront hfree
  rw [ofTexts_accepts_iff_fits h hlone hpath, hps, Fits.literals_append_iff] at haccepts
  obtain ⟨rest, hsegments, hfits⟩ := haccepts
  refine ⟨rest, hsegments, fun hmore => ?_⟩
  rw [hnil hmore] at hfits
  exact Fits.nil_iff.1 hfits

theorem accepts_eq_false_of_no_segments (h : PlainSegments (leading ++ [last]))
    (hlone : ¬ IsLone leading last) (hpath : IsPagePath path) (hnone : pathSegments path = []) :
    (ofTexts leading last).accepts path = false := by
  rw [← Bool.not_eq_true, ofTexts_accepts_iff_fits h hlone hpath, hnone, segmentwise]
  cases leading with
  | nil =>
    rw [if_neg (by simp)]
    exact Fits.not_nil_of_ne_rest (SegmentPattern.ofText_ne_rest last)
  | cons w leading => exact Fits.not_nil_of_ne_rest (SegmentPattern.ofText_ne_rest w)

theorem isPagePath_root : IsPagePath ['/'] := ⟨rfl, by simp⟩

theorem isPagePath_doubleSlash : IsPagePath ['/', '/'] := ⟨rfl, by simp⟩

theorem ofTexts_rejects_root (h : PlainSegments (leading ++ [last])) :
    (ofTexts leading last).accepts ['/'] = false := by
  by_cases hlone : IsLone leading last
  · rw [ofTexts_of_isLone hlone]
    rfl
  · exact accepts_eq_false_of_no_segments h hlone isPagePath_root (by decide)

variable {leading' : List Text} {last' : Text}

/-- Only a lone star accepts a path that is the root with another slash behind it. -/
theorem Covers.not_isLone (hcovers : Covers (ofTexts leading last) (ofTexts leading' last'))
    (h : PlainSegments (leading ++ [last])) (hlone : ¬ IsLone leading last) :
    ¬ IsLone leading' last' := by
  intro hlone'
  rw [ofTexts_of_isLone hlone'] at hcovers
  have haccepts := hcovers ['/', '/'] isPagePath_doubleSlash rfl
  rw [accepts_eq_false_of_no_segments h hlone isPagePath_doubleSlash (by decide)] at haccepts
  cases haccepts

theorem Covers.eq_append (hcovers : Covers (ofTexts leading last) (ofTexts leading' last'))
    (h : PlainSegments (leading ++ [last])) (h' : PlainSegments (leading' ++ [last']))
    (hlone : ¬ IsLone leading last) {front more : List Text}
    (hfront : leading ++ [last] = front ++ more) (hfree : StarFree front) :
    ∃ more', leading' ++ [last'] = front ++ more' ∧ (more = [] → more' = []) := by
  have hfill {x : Char} (hslash : x ≠ '/') (hquery : startsQuery x = false) :
      ∃ rest, (leading' ++ [last']).map (fillStars x) = front ++ rest ∧
        (more = [] → rest = []) := by
    obtain ⟨path, hpath, haccepts, hsegments⟩ := exists_accepts_fillStars h' hslash hquery
    rw [← hsegments]
    exact pathSegments_of_accepts h hfront hfree hlone hpath (hcovers path hpath haccepts)
  obtain ⟨ma, ha, hma⟩ := hfill (x := 'a') (by decide) (by decide)
  obtain ⟨mb, hb, _⟩ := hfill (x := 'b') (by decide) (by decide)
  obtain ⟨_, more', hmore', hmap⟩ := eq_append_of_map_fillStars (by decide) ha hb
  exact ⟨more', hmore', fun hnil => List.map_eq_nil_iff.1 (hmap.symm.trans (hma hnil))⟩

/-- Only a pattern for every page and one for the root accept the root. -/
theorem Covers.exists_ofTexts {p : PathPattern} (hcovers : Covers (ofTexts leading last) p)
    (h : PlainSegments (leading ++ [last])) (hp : p.IsPlain) :
    ∃ leading' last', PlainSegments (leading' ++ [last']) ∧ p = ofTexts leading' last' := by
  have hroot : p.accepts ['/'] ≠ true := fun haccepts => by
    have hno := hcovers ['/'] isPagePath_root haccepts
    rw [ofTexts_rejects_root h] at hno
    cases hno
  cases hp with
  | anywhere => exact absurd rfl hroot
  | root => exact absurd rfl hroot
  | ofTexts hp => exact ⟨_, _, hp, rfl⟩

end

end PathPattern

end UrlPolicy
