import UrlPolicy.Address
import UrlPolicy.Matching.Outcome
import UrlPolicy.Proofs.Matching.Path
import UrlPolicy.Proofs.Pattern.Spelling

/-!
Patterns that name a query and have no wildcard. Read segment by segment, such a pattern accepts
the one target that is written like it. Main statement: compared as a text, it accepts besides this
one the target that differs from it in a slash at the end of the query, and no other.
-/

set_option autoImplicit false

namespace UrlPolicy

/-- One of two texts does not end with a slash, and the other is this one with a slash behind it. -/
def DifferInFinalSlash (t u : Text) : Prop :=
  ∃ v : Text, v.getLast? ≠ some '/' ∧ (t = v ∧ u = v ++ ['/'] ∨ t = v ++ ['/'] ∧ u = v)

namespace DifferInFinalSlash

variable {t u : Text}

theorem ne (h : DifferInFinalSlash t u) : t ≠ u := by
  obtain ⟨v, _, ⟨rfl, rfl⟩ | ⟨rfl, rfl⟩⟩ := h <;> simp

theorem iff_chop : DifferInFinalSlash t u ↔ t ≠ u ∧ Text.chop '/' t = Text.chop '/' u := by
  rw [Text.chop_eq_chop_iff]
  constructor
  · intro h
    exact ⟨h.ne, .inr h⟩
  · intro ⟨hne, h⟩
    exact h.resolve_left hne

instance : Decidable (DifferInFinalSlash t u) := decidable_of_iff _ iff_chop.symm

/-- What accepts a text, and those that differ from it in a final slash, accepts the text alone
wherever there is no such difference. -/
theorem exact_iff {accepted : Prop} (h : accepted ↔ t = u ∨ DifferInFinalSlash t u) :
    (accepted ↔ t = u) ↔ ¬ DifferInFinalSlash t u := by
  constructor
  · intro hexact hdiffer
    exact hdiffer.ne (hexact.1 (h.2 (.inr hdiffer)))
  · intro hno
    rw [h, or_iff_left hno]

end DifferInFinalSlash

theorem literal_accepts_iff_of_query {e target : Text} (h : ∃ c ∈ e, startsQuery c = true) :
    (PathPattern.literal e).accepts target = true ↔
      target = e ∨ DifferInFinalSlash target e := by
  obtain ⟨c, hc, hstart⟩ := h
  have hslash := ne_slash_of_startsQuery hstart
  have hchop : c ∈ Text.chop '/' e := (Text.mem_chop_iff hslash).2 hc
  have hroot : e ≠ ['/'] := by
    rintro rfl
    exact hslash (List.mem_singleton.1 hc)
  rw [PathPattern.accepts, beq_iff_eq, withoutFinalSlash, withoutFinalSlash, if_neg hroot,
    DifferInFinalSlash, ← Text.chop_eq_chop_iff]
  split
  · next htarget =>
    -- the root has no query, with its slash or without it
    subst htarget
    constructor
    · intro heq
      rw [← heq] at hchop
      exact absurd (List.mem_singleton.1 hchop) hslash
    · intro heq
      rw [← heq] at hchop
      cases hchop
  · rfl

section

variable {body written : Text}

theorem pathSegments_eq_iff_of_query (h : (splitQuery written).2 ≠ []) :
    pathSegments ('/' :: body) = segmentTexts written ↔ body = written := by
  constructor
  · intro heq
    have hne : segmentTexts written ≠ [] := by
      obtain ⟨leading, last, _, hsegments⟩ := segmentTexts_eq written
      simp [hsegments]
    rw [pathSegments_cons] at heq
    split at heq
    · exact absurd heq.symm hne
    · -- the mark of the query is in some segment, so that the other text has a query, too
      obtain ⟨c, hc, hstart⟩ := splitQuery_snd_ne_nil_iff.1 h
      have hslash := ne_slash_of_startsQuery hstart
      have hbody : c ∈ body := by
        rw [← mem_segmentTexts_iff hslash, heq]
        exact (mem_segmentTexts_iff hslash).2 hc
      rw [← intercalate_segmentTexts_of_query h, ← heq,
        intercalate_segmentTexts_of_query (splitQuery_snd_ne_nil_iff.2 ⟨c, hbody, hstart⟩)]
  · rintro rfl
    rw [pathSegments_cons, if_neg (chop_ne_nil_of_query h)]

theorem literals_accept_iff_of_query (h : (splitQuery written).2 ≠ []) :
    (PathPattern.segmented ((segmentTexts written).map .literal)).accepts ('/' :: body) = true ↔
      body = written := by
  rw [PathPattern.accepts, segmentsMatch_iff, Fits.literals_iff, pathSegments_eq_iff_of_query h]

end

namespace Pattern

theorem parsePath?_of_query {remainder : Text} {path : PathPattern} {matchesQuery : Bool}
    (h : parsePath? remainder = some (path, matchesQuery))
    (hquery : ∃ c ∈ remainder, startsQuery c = true) (hstar : '*' ∉ remainder) :
    ∃ body, rooted remainder = '/' :: body ∧ (splitQuery body).2 ≠ [] ∧
      path = .literal ('/' :: body) ∧ matchesQuery = true := by
  obtain ⟨c, hc, hstart⟩ := hquery
  rcases parsePath?_cases h with ⟨rfl, _⟩ | ⟨body, hrooted, hmem, hparse, hany⟩
  · cases hc
  have hbody : c ∈ body := (hmem c (ne_slash_of_startsQuery hstart)).2 hc
  have hsplit : (splitQuery body).2 ≠ [] := splitQuery_snd_ne_nil_iff.2 ⟨c, hbody, hstart⟩
  obtain ⟨leading, last, hsegments, _, rfl⟩ :=
    PathPattern.parse?_eq_some (List.ne_nil_of_mem hbody) hparse
  have hfree : SegmentPattern.StarFree (leading ++ [last]) := by
    rw [← hsegments, PathPattern.starFree_segmentTexts_iff]
    exact fun hbodyStar => hstar ((hmem '*' (by decide)).1 hbodyStar)
  refine ⟨body, hrooted, hsplit, ?_, ?_⟩
  · rw [PathPattern.ofTexts_literal hfree, ← hsegments, intercalate_segmentTexts_of_query hsplit]
  · rw [hany, List.any_eq_true]
    exact ⟨c, List.mem_cons_of_mem _ hbody, hstart⟩

/-- A pattern without stars that names a query accepts the target that is written like its path.
It accepts one other target, with a slash more or less at its end, and only there it differs from
its segments read one by one. -/
theorem acceptsPath_of_query {raw : Text} {p : Pattern} {s : Spelling} (h : parse raw = .ok p)
    (hs : s.Valid) (ht : s.text = Text.lower (Text.trim raw))
    (hquery : ∃ c ∈ s.remainder, startsQuery c = true) (hstar : '*' ∉ s.remainder) :
    let written := rooted s.remainder
    p.path = .literal written ∧ p.matchesQuery = true ∧
      (∀ a : Address,
        (p.acceptsPath a = true ↔ a.target = written ∨ DifferInFinalSlash a.target written) ∧
        ((p.acceptsPath a = true ↔ a.target = written) ↔
          ¬ DifferInFinalSlash a.target written)) ∧
      ∀ target : Text, target.head? = some '/' →
        let segmentwise := PathPattern.segmented ((segmentTexts written.tail).map .literal)
        (segmentwise.accepts target = true ↔ target = written) ∧
        (p.path.accepts target = segmentwise.accepts target ↔
          ¬ DifferInFinalSlash target written) := by
  obtain ⟨body, hrooted, hsplit, hpath, hmatches⟩ :=
    parsePath?_of_query (hs.parsePath?_remainder ht h) hquery hstar
  obtain ⟨c, hc, hstart⟩ := splitQuery_snd_ne_nil_iff.1 hsplit
  have haccepts (target : Text) : p.path.accepts target = true ↔
      target = '/' :: body ∨ DifferInFinalSlash target ('/' :: body) := by
    rw [hpath]
    exact literal_accepts_iff_of_query ⟨c, List.mem_cons_of_mem _ hc, hstart⟩
  rw [hrooted]
  refine ⟨hpath, hmatches, fun a => ?address, fun target htarget => ?segmentwise⟩
  case address =>
    rw [acceptsPath, if_pos hmatches]
    exact ⟨haccepts a.target, DifferInFinalSlash.exact_iff (haccepts a.target)⟩
  case segmentwise =>
    obtain ⟨t, rfl⟩ := List.head?_eq_some_iff.1 htarget
    have hsegments : (PathPattern.segmented ((segmentTexts body).map .literal)).accepts
        ('/' :: t) = true ↔ '/' :: t = '/' :: body := by
      rw [literals_accept_iff_of_query hsplit, List.cons_inj_right]
    refine ⟨hsegments, ?_⟩
    rw [Bool.eq_iff_iff, List.tail_cons, hsegments]
    exact DifferInFinalSlash.exact_iff (haccepts _)

theorem acceptsPath_of_query_slashes :
    let raw := " A.com:80/X?Next=/B/ ".toList
    let s : Spelling := ⟨none, false, [['a'], "com".toList], false, some "80".toList,
      "/x?next=/b/".toList⟩
    let p : Pattern := ⟨none, false, "a.com".toList, .literal "/x?next=/b/".toList, true⟩
    parse raw = .ok p ∧ s.Valid ∧ s.text = Text.lower (Text.trim raw) ∧
      (∃ c ∈ s.remainder, startsQuery c = true) ∧ '*' ∉ s.remainder ∧
      p.acceptsPath (Address.read "https://www.a.com/x?next=/b/".toList) = true ∧
      p.acceptsPath (Address.read "https://www.a.com/x?next=/b//".toList) = false := by
  intro raw s p
  have hread : parse raw = .ok p := by decide +kernel
  have hvalid : s.Valid := by decide +kernel
  have ht : s.text = Text.lower (Text.trim raw) := by decide +kernel
  have hquery : ∃ c ∈ s.remainder, startsQuery c = true := ⟨'?', by decide, rfl⟩
  have hstar : '*' ∉ s.remainder := by decide
  obtain ⟨_, _, haccepts, _⟩ := acceptsPath_of_query hread hvalid ht hquery hstar
  refine ⟨hread, hvalid, ht, hquery, hstar, (haccepts _).1.2 (.inl (by decide +kernel)), ?_⟩
  rw [← Bool.not_eq_true, (haccepts _).1]
  decide +kernel

/-- A slash at the end of a query belongs to the query, but an address without it is accepted. -/
theorem acceptsPath_of_query_finalSlash : ¬ ∀ (raw : Text) (p : Pattern) (e url : Text),
    parse raw = .ok p → p.path = .literal e → p.matchesQuery = true →
      (Address.read url).location.isSome = true →
        (p.acceptsPath (Address.read url) = true ↔ (Address.read url).target = e) := by
  intro h
  have hiff := h "a.com/x?q=/".toList
    ⟨none, false, "a.com".toList, .literal "/x?q=/".toList, true⟩ "/x?q=/".toList
    "https://a.com/x?q=".toList (by decide +kernel) rfl rfl (by decide +kernel)
  exact absurd (hiff.1 (by decide +kernel)) (by decide +kernel)

end Pattern

end UrlPolicy
