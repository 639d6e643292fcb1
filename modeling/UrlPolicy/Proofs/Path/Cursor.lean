import UrlPolicy.Path.Cursor
import UrlPolicy.Proofs.Path.Segments

set_option autoImplicit false

namespace UrlPolicy

theorem Text.splitAt?_eq_some_iff {n : Nat} {t before after : Text} :
    Text.splitAt? n t = some (before, after) ↔ t = before ++ after ∧ Text.size before = n := by
  constructor
  · intro h
    induction t generalizing n before with
    | nil =>
      cases n with
      | zero =>
        cases h
        exact ⟨rfl, rfl⟩
      | succ n => cases h
    | cons c t ih =>
      cases n with
      | zero =>
        cases h
        exact ⟨rfl, rfl⟩
      | succ n =>
        rw [Text.splitAt?] at h
        split at h
        · obtain ⟨⟨s, u⟩, hs, heq⟩ := Option.map_eq_some_iff.1 h
          cases heq
          obtain ⟨rfl, hsize⟩ := ih hs
          refine ⟨rfl, ?_⟩
          rw [Text.size]
          omega
        · cases h
  · rintro ⟨rfl, rfl⟩
    exact Text.splitAt?_size_append before after

namespace SegmentCursor

/-- What a cursor yields, one segment after the other, until nothing is left of the path. -/
inductive Yields : SegmentCursor → List Text → Prop where
  | done (pathSize : Nat) : Yields ⟨none, pathSize⟩ []
  | next {c d : SegmentCursor} {segment : Text} {segments : List Text}
      (hnext : c.next? = some (segment, d)) (h : Yields d segments) :
      Yields c (segment :: segments)

theorem Yields.unique {c : SegmentCursor} {ws vs : List Text} (h : Yields c ws)
    (h' : Yields c vs) : ws = vs := by
  induction h generalizing vs with
  | done =>
    cases h' with
    | done => rfl
    | next hnext => cases hnext
  | next hnext _ ih =>
    cases h' with
    | done => cases hnext
    | next hnext' h' =>
      rw [hnext] at hnext'
      cases hnext'
      rw [ih h']

def fuel (c : SegmentCursor) : Nat := (c.rest.map fun rest => rest.length + 1).getD 0

theorem fuel_next? {c d : SegmentCursor} {segment : Text} (h : c.next? = some (segment, d)) :
    d.fuel < c.fuel := by
  rw [next?] at h
  split at h
  · cases h
  next rest hrest =>
  split at h
  · cases h
  next dirs query hsplit =>
  obtain ⟨rfl, -⟩ := Text.splitAt?_eq_some_iff.1 hsplit
  rw [fuel, fuel, hrest]
  split at h
  · cases h
    exact Nat.succ_pos _
  · next c dirs' hdrop =>
    cases h
    have hlength := (List.dropWhile_sublist (l := dirs) fun c => decide (c ≠ '/')).length_le
    rw [hdrop, List.length_cons] at hlength
    simp only [Option.map_some, Option.getD_some, List.length_append]
    omega

theorem Yields.toListFrom {c : SegmentCursor} {segments : List Text} (h : Yields c segments)
    {n : Nat} (hn : c.fuel ≤ n) : toListFrom n c = segments := by
  induction h generalizing n with
  | done => cases n <;> rfl
  | next hnext _ ih =>
    have hlt := fuel_next? hnext
    obtain ⟨n, rfl⟩ := Nat.exists_eq_succ_of_ne_zero (Nat.ne_zero_of_lt (Nat.lt_of_lt_of_le hlt hn))
    rw [SegmentCursor.toListFrom, hnext]
    simp only [ih (Nat.le_of_lt_succ (Nat.lt_of_lt_of_le hlt hn))]

theorem Yields.toList {c : SegmentCursor} {segments : List Text} (h : Yields c segments) :
    c.toList = segments := by
  rw [SegmentCursor.toList]
  split
  · next hrest =>
    cases h with
    | done => rfl
    | next hnext => simp [next?, hrest] at hnext
  · next hrest => exact h.toListFrom (by simp [fuel, hrest])

def before (dirs query : Text) : SegmentCursor := ⟨some (dirs ++ query), Text.size dirs⟩

theorem next?_before_slash {w : Text} (dirs query : Text) (h : '/' ∉ w) :
    (before (w ++ '/' :: dirs) query).next? = some (w, before dirs query) := by
  have hpass : ∀ c ∈ w, decide (c ≠ '/') = true := by
    simpa using fun c hc => ne_of_mem_of_not_mem hc h
  have hstop : ∀ c ∈ ('/' :: dirs).head?, decide (c ≠ '/') = false := by simp
  have hsize : Text.size (w ++ '/' :: dirs) - (Text.size w + 1) = Text.size dirs := by
    have hslash : ('/' : Char).utf8Size = 1 := by decide
    rw [Text.size_append, Text.size, hslash]
    omega
  simp only [next?, before, Text.splitAt?_size_append, Text.takeWhile_append_stop hpass hstop,
    Text.dropWhile_append_stop hpass hstop, hsize]

theorem next?_before_end {dirs : Text} (query : Text) (h : '/' ∉ dirs) :
    (before dirs query).next? = some (dirs ++ query, ⟨none, Text.size dirs⟩) := by
  have hpass : ∀ c ∈ dirs, decide (c ≠ '/') = true := by
    simpa using fun c hc => ne_of_mem_of_not_mem hc h
  have hdrop := Text.dropWhile_append_stop (u := []) hpass (by simp)
  rw [List.append_nil] at hdrop
  simp only [next?, before, Text.splitAt?_size_append, hdrop]

theorem yields_before (dirs query : Text) :
    Yields (before dirs query) (appendToLast query (List.splitOn '/' dirs)) := by
  induction hlength : dirs.length using Nat.strongRecOn generalizing dirs with
  | ind n ih =>
    by_cases hslash : '/' ∈ dirs
    · obtain ⟨w, dirs, rfl, hw⟩ := List.eq_append_cons_of_mem hslash
      rw [List.length_append, List.length_cons] at hlength
      have htail := ih dirs.length (by omega) dirs rfl
      rw [List.splitOn_append_cons_self_of_not_mem hw dirs]
      cases hsplit : List.splitOn '/' dirs with
      | nil => exact absurd hsplit (List.splitOn_ne_nil '/' dirs)
      | cons v vs =>
        rw [appendToLast, ← hsplit]
        exact .next (next?_before_slash dirs query hw) htail
    · rw [List.splitOn_eq_singleton hslash, appendToLast]
      exact .next (next?_before_end query hslash) (.done _)

end SegmentCursor

theorem appendToLast_nil {ws : List Text} (h : ws ≠ []) : appendToLast [] ws = ws := by
  rw [← List.dropLast_concat_getLast h, appendToLast_concat, List.append_nil]

theorem chop_ne_nil_of_query {body : Text} (h : (splitQuery body).2 ≠ []) :
    Text.chop '/' body ≠ [] := by
  obtain ⟨c, hc, hstart⟩ := splitQuery_snd_ne_nil_iff.1 h
  exact List.ne_nil_of_mem ((Text.mem_chop_iff (ne_slash_of_startsQuery hstart)).2 hc)

/-- A cursor starts at the end, if nothing is left but perhaps a slash, or else in front of the
directories and the query. -/
theorem SegmentCursor.start_eq (body : Text) :
    start body =
      if Text.chop '/' body = [] then ⟨none, 0⟩
      else before (trimmedDirs body) (splitQuery body).2 := by
  have hbody := splitQuery_append body
  by_cases hquery : (splitQuery body).2 = []
  · rw [hquery, List.append_nil] at hbody
    by_cases hchop : Text.chop '/' body = [] <;>
      simp [start, before, trimmedDirs, hquery, hchop, hbody, Text.size]
  · have hne : body ≠ [] := by
      rintro rfl
      exact hquery rfl
    rw [if_neg (chop_ne_nil_of_query hquery)]
    simp [start, before, trimmedDirs, hquery, hne, hbody]

theorem segmentTexts_eq_appendToLast (body : Text) : segmentTexts body =
    appendToLast (splitQuery body).2 (List.splitOn '/' (trimmedDirs body)) := by
  by_cases hquery : (splitQuery body).2 = []
  · simp only [segmentTexts, trimmedDirs, hquery, if_true]
    exact (appendToLast_nil (List.splitOn_ne_nil _ _)).symm
  · simp only [segmentTexts, trimmedDirs, hquery, if_false]

theorem SegmentCursor.yields_start (body : Text) :
    Yields (start body) (if Text.chop '/' body = [] then [] else segmentTexts body) := by
  rw [start_eq, segmentTexts_eq_appendToLast]
  split
  · exact .done 0
  · exact yields_before _ _

theorem SegmentCursor.toList_start (body : Text) :
    (SegmentCursor.start body).toList =
      if Text.chop '/' body = [] then [] else segmentTexts body :=
  (yields_start body).toList

theorem pathSegments_cons (body : Text) :
    pathSegments ('/' :: body) = if Text.chop '/' body = [] then [] else segmentTexts body :=
  SegmentCursor.toList_start body

theorem pathSegments_intercalate {leading : List Text} {last : Text}
    (h : IsSegmentation leading last) :
    pathSegments ('/' :: ['/'].intercalate (leading ++ [last])) = leading ++ [last] := by
  have hsegments := segmentTexts_intercalate h
  rw [pathSegments_cons, hsegments, if_neg]
  intro hchop
  rcases Text.chop_cases '/' (['/'].intercalate (leading ++ [last])) with hslash | hsame
  · rw [hslash, hchop] at hsegments
    exact h.nil_not_mem (hsegments ▸ by decide)
  · exact h.intercalate_ne_nil (hsame.symm.trans hchop)

end UrlPolicy
