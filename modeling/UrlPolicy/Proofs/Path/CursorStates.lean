import UrlPolicy.Proofs.Path.Cursor
import UrlPolicy.Proofs.Pattern.Path

/-!
The states that a cursor goes through. Main statement: in front of any path the cursor yields the
segments of the path and comes to the end, no step on the way cuts behind what is left or inside a
character, and a pattern with that path is made from the same segments.
-/

set_option autoImplicit false

namespace UrlPolicy

/-- A place, counted in bytes, that is not behind the end of a text and not inside one of its
characters. -/
def Text.IsBoundary (n : Nat) (t : Text) : Prop :=
  n ≤ Text.size t ∧ (Text.splitAt? n t).isSome = true

theorem Text.isBoundary_size (before after : Text) :
    Text.IsBoundary (Text.size before) (before ++ after) := by
  rw [IsBoundary, Text.size_append, Text.splitAt?_size_append]
  exact ⟨Nat.le_add_right _ _, rfl⟩

def bodySegments (body : Text) : List Text :=
  let (dirs, query) := splitQuery body
  if query = [] then
    if Text.chop '/' dirs = [] then [] else List.splitOn '/' (Text.chop '/' dirs)
  else appendToLast query (List.splitOn '/' dirs)

theorem bodySegments_eq (body : Text) :
    bodySegments body = if Text.chop '/' body = [] then [] else segmentTexts body := by
  have hbody := splitQuery_append body
  by_cases hquery : (splitQuery body).2 = []
  · rw [hquery, List.append_nil] at hbody
    simp only [bodySegments, segmentTexts, hquery, hbody, if_true]
  · rw [if_neg (chop_ne_nil_of_query hquery)]
    simp only [bodySegments, segmentTexts, hquery, if_false]

/-- Only the root has no segment. Read as a path of a pattern, it has an empty one. -/
theorem bodySegments_eq_segmentTexts {body : Text} (h : [] ∉ segmentTexts body) :
    bodySegments body = segmentTexts body := by
  rw [bodySegments_eq, if_neg]
  intro hchop
  rcases Text.chop_cases '/' body with hbody | hbody
  · rw [hbody, hchop] at h
    exact h (by decide)
  · rw [← hbody, hchop] at h
    exact h (by decide)

namespace SegmentCursor

inductive Reaches : SegmentCursor → SegmentCursor → Prop where
  | refl (c : SegmentCursor) : Reaches c c
  | next {c d e : SegmentCursor} {segment : Text} (h : Reaches c d)
      (hnext : d.next? = some (segment, e)) : Reaches c e

/-- What the step of a cursor takes for granted: that what is left can be cut where its directories
end, and, if there is a slash in them, in front of the first one and behind it, which is no further
on than their end. -/
structure Safe (rest : Text) (pathSize : Nat) : Prop where
  boundary : Text.IsBoundary pathSize rest
  slash : ∀ dirs query, Text.splitAt? pathSize rest = some (dirs, query) → '/' ∈ dirs →
    let place := Text.size (dirs.takeWhile (· ≠ '/'))
    place + 1 ≤ pathSize ∧ Text.IsBoundary place rest ∧ Text.IsBoundary (place + 1) rest

theorem safe_before (dirs query : Text) : Safe (dirs ++ query) (Text.size dirs) := by
  refine ⟨Text.isBoundary_size dirs query, fun dirs' query' hsplit hslash => ?_⟩
  -- the cut gives back the very directories and query that the text was put together from
  rw [Text.splitAt?_size_append] at hsplit
  cases hsplit
  obtain ⟨w, dirs, rfl, hw⟩ := List.eq_append_cons_of_mem hslash
  have hpass : ∀ c ∈ w, decide (c ≠ '/') = true := by
    simpa using fun c hc => ne_of_mem_of_not_mem hc hw
  have hsize : Text.size w + 1 = Text.size (w ++ ['/']) := by
    rw [Text.size_append]
    rfl
  have hdirs : w ++ '/' :: dirs = (w ++ ['/']) ++ dirs := by simp
  simp only [Text.takeWhile_append_stop hpass (u := '/' :: dirs) (by simp), hsize]
  refine ⟨?_, ?_, ?_⟩
  · rw [hdirs, Text.size_append _ dirs]
    exact Nat.le_add_right _ _
  · rw [List.append_assoc]
    exact Text.isBoundary_size w _
  · rw [hdirs, List.append_assoc]
    exact Text.isBoundary_size _ _

theorem Safe.exists_next? {c : SegmentCursor} {rest : Text} (hrest : c.rest = some rest)
    (h : Safe rest c.pathSize) : ∃ segment d, c.next? = some (segment, d) := by
  obtain ⟨⟨dirs, query⟩, hsplit⟩ := Option.isSome_iff_exists.1 h.boundary.2
  simp only [next?, hrest, hsplit]
  split
  · exact ⟨_, _, rfl⟩
  · exact ⟨_, _, rfl⟩

/-- Nothing is left, or some directories and the whole query. -/
def KeepsQuery (query : Text) (c : SegmentCursor) : Prop :=
  c.rest = none ∨ ∃ dirs, c = before dirs query

theorem keepsQuery_start (body : Text) : KeepsQuery (splitQuery body).2 (start body) := by
  rw [start_eq]
  split
  · exact .inl rfl
  · exact .inr ⟨_, rfl⟩

theorem KeepsQuery.next {query segment : Text} {c d : SegmentCursor} (h : KeepsQuery query c)
    (hnext : c.next? = some (segment, d)) : KeepsQuery query d := by
  rcases h with hnone | ⟨dirs, rfl⟩
  · rw [next?, hnone] at hnext
    cases hnext
  by_cases hslash : '/' ∈ dirs
  · obtain ⟨w, dirs', rfl, hw⟩ := List.eq_append_cons_of_mem hslash
    rw [next?_before_slash dirs' query hw] at hnext
    cases hnext
    exact .inr ⟨dirs', rfl⟩
  · rw [next?_before_end query hslash] at hnext
    cases hnext
    exact .inl rfl

theorem Reaches.keepsQuery {query : Text} {c d : SegmentCursor} (h : Reaches c d)
    (hc : KeepsQuery query c) : KeepsQuery query d := by
  induction h with
  | refl => exact hc
  | next _ hnext ih => exact ih.next hnext

theorem Reaches.safe {body rest : Text} {c : SegmentCursor} (h : Reaches (start body) c)
    (hrest : c.rest = some rest) : Safe rest c.pathSize := by
  rcases h.keepsQuery (keepsQuery_start body) with hnone | ⟨dirs, rfl⟩
  · rw [hnone] at hrest
    cases hrest
  · cases hrest
    exact safe_before dirs _

theorem yields_start_iff {body : Text} {segments : List Text} :
    Yields (start body) segments ↔ segments = bodySegments body := by
  have hyields := yields_start body
  rw [← bodySegments_eq] at hyields
  constructor
  · exact fun h => h.unique hyields
  · rintro rfl
    exact hyields

end SegmentCursor

theorem PathPattern.parse?_eq_ofSegments {body : Text} {p : PathPattern}
    (h : PathPattern.parse? ('/' :: body) = some p) (hroot : p ≠ .root) (hbelow : p ≠ .belowRoot) :
    ∃ leading last, segmentTexts body = leading ++ [last] ∧ [] ∉ segmentTexts body ∧
      p = .ofSegments ('/' :: ['/'].intercalate (leading ++ [last])) leading last := by
  have hbody : body ≠ [] := by
    rintro rfl
    exact hroot (Option.some.inj h).symm
  obtain ⟨leading, last, hsegments, hwell, rfl⟩ := PathPattern.parse?_eq_some hbody h
  refine ⟨leading, last, hsegments, hsegments ▸ hwell.nil_not_mem, ?_⟩
  rw [ofTexts] at hbelow ⊢
  split at hbelow
  · exact absurd rfl hbelow
  · next hlone => rw [if_neg hlone]

/-- The cursor in front of a path yields the segments of the path and nothing else before it comes
to the end; in all its states the places where it cuts are there, and there is a next segment as
long as something is left. A pattern with that path, unless it is for the root page or for every
page below it, is made from the same segments. -/
theorem SegmentCursor.start_iterates (body : Text) :
    (∀ segments, Yields (start body) segments ↔ segments = bodySegments body) ∧
      pathSegments ('/' :: body) = bodySegments body ∧
      (∀ c rest, Reaches (start body) c → c.rest = some rest →
        Safe rest c.pathSize ∧ ∃ segment d, c.next? = some (segment, d)) ∧
      ∀ p, PathPattern.parse? ('/' :: body) = some p → p ≠ .root → p ≠ .belowRoot →
        ∃ leading last, segmentTexts body = leading ++ [last] ∧
          bodySegments body = leading ++ [last] ∧
          p = .ofSegments ('/' :: ['/'].intercalate (leading ++ [last])) leading last := by
  refine ⟨fun _ => yields_start_iff, ?_, fun c rest hc hrest => ?_, fun p hp hroot hbelow => ?_⟩
  · rw [pathSegments_cons, bodySegments_eq]
  · have hsafe := hc.safe hrest
    exact ⟨hsafe, hsafe.exists_next? hrest⟩
  · obtain ⟨leading, last, hsegments, hne, rfl⟩ :=
      PathPattern.parse?_eq_ofSegments hp hroot hbelow
    exact ⟨leading, last, hsegments, (bodySegments_eq_segmentTexts hne).trans hsegments, rfl⟩

theorem SegmentCursor.start_iterates_query :
    let body := "é/**/x?q=/é/".toList
    let segments := [['é'], "**".toList, "x?q=/é/".toList]
    let p : PathPattern := .segmented [.literal ['é'], .anyMany, .literal "x?q=/é/".toList]
    let c : SegmentCursor := ⟨some "**/x?q=/é/".toList, 4⟩
    Yields (start body) segments ∧ pathSegments ('/' :: body) = segments ∧
      Reaches (start body) c ∧ Safe "**/x?q=/é/".toList 4 ∧
      PathPattern.parse? ('/' :: body) = some p ∧
      ∃ leading last, segmentTexts body = leading ++ [last] ∧ segments = leading ++ [last] ∧
        p = .ofSegments ('/' :: ['/'].intercalate (leading ++ [last])) leading last := by
  intro body segments p c
  obtain ⟨hyields, hsegments, hsafe, hparse⟩ := start_iterates body
  have hbody : bodySegments body = segments := by decide
  have hnext : (start body).next? = some (['é'], c) := by decide
  have hreaches : Reaches (start body) c := .next (.refl _) hnext
  have hread : PathPattern.parse? ('/' :: body) = some p := by decide
  obtain ⟨leading, last, htexts, heq, hp⟩ := hparse p hread (by decide) (by decide)
  rw [hbody] at hyields hsegments heq
  exact ⟨(hyields _).2 rfl, hsegments, hreaches, (hsafe c _ hreaches rfl).1, hread,
    leading, last, htexts, heq, hp⟩

end UrlPolicy
