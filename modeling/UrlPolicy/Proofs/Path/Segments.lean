import UrlPolicy.Path.Basic
import UrlPolicy.Proofs.Text.Cut

set_option autoImplicit false

namespace UrlPolicy

theorem startsQuery_iff {c : Char} : startsQuery c = true ↔ c = '?' ∨ c = '#' := by
  simp [startsQuery]

theorem ne_slash_of_startsQuery {c : Char} (h : startsQuery c = true) : c ≠ '/' := by
  rintro rfl
  cases h

theorem mem_of_mem_splitQuery_fst {c : Char} {t : Text} (h : c ∈ (splitQuery t).1) : c ∈ t := by
  rw [← splitQuery_append t]
  exact List.mem_append_left _ h

theorem not_startsQuery_of_mem {c : Char} {t : Text} (h : c ∈ (splitQuery t).1) :
    startsQuery c = false := by
  simpa using List.mem_takeWhile_imp h

theorem startsQuery_of_head {c : Char} {t : Text} (h : c ∈ (splitQuery t).2.head?) :
    startsQuery c = true := by
  simpa using Text.head?_dropWhile h

theorem splitQuery_append_query {dirs query : Text} (hdirs : ∀ c ∈ dirs, startsQuery c = false)
    (hquery : ∀ c ∈ query.head?, startsQuery c = true) :
    splitQuery (dirs ++ query) = (dirs, query) := by
  have hstop : ∀ c ∈ query.head?, (!startsQuery c) = false := by simpa using hquery
  have hpass : ∀ c ∈ dirs, (!startsQuery c) = true := by simpa using hdirs
  rw [splitQuery, Text.takeWhile_append_stop hpass hstop, Text.dropWhile_append_stop hpass hstop]

theorem splitQuery_snd_ne_nil_iff {t : Text} :
    (splitQuery t).2 ≠ [] ↔ ∃ c ∈ t, startsQuery c = true := by
  constructor
  · intro h
    obtain ⟨c, query, hquery⟩ := List.exists_cons_of_ne_nil h
    refine ⟨c, ?_, startsQuery_of_head (t := t) (by simp [hquery])⟩
    rw [← splitQuery_append t, hquery]
    simp
  · rintro ⟨c, hc, hstart⟩ hnil
    rw [← splitQuery_append t, hnil, List.append_nil] at hc
    rw [not_startsQuery_of_mem hc] at hstart
    cases hstart

theorem rooted_eq (t : Text) :
    ∃ body, rooted t = '/' :: body ∧ ∀ c, c ≠ '/' → (c ∈ body ↔ c ∈ t) := by
  rw [rooted.eq_def]
  split
  · next t => exact ⟨t, rfl, fun c hc => by simp [hc]⟩
  · exact ⟨t, rfl, fun c _ => Iff.rfl⟩

theorem not_mem_of_no_query {t : Text} (h : ∀ c ∈ t, startsQuery c = false) :
    '?' ∉ t ∧ '#' ∉ t :=
  ⟨fun hc => absurd (h _ hc) (by decide), fun hc => absurd (h _ hc) (by decide)⟩

theorem prefix_splitQuery {t u : Text} (h : u <+: t) (hu : '?' ∉ u ∧ '#' ∉ u) :
    u <+: (splitQuery t).1 := by
  refine Text.prefix_takeWhile h fun c hc => ?_
  rw [Bool.not_eq_true', ← Bool.not_eq_true, startsQuery_iff]
  rintro (rfl | rfl)
  · exact hu.1 hc
  · exact hu.2 hc

theorem rooted_cases (t : Text) :
    rooted t = t ∨ rooted t = '/' :: t ∧ t.head? ≠ some '/' := by
  rw [rooted.eq_def]
  split
  · exact .inl rfl
  · next hslash =>
    refine .inr ⟨rfl, fun hhead => ?_⟩
    obtain ⟨body, rfl⟩ := List.head?_eq_some_iff.1 hhead
    exact hslash body rfl

theorem rooted_append (s : Text) {t : Text} (ht : t.head? ≠ some '/') :
    rooted (s ++ t) = rooted s ++ t := by
  cases s with
  | nil =>
    rw [List.nil_append, rooted.eq_def]
    split
    · exact absurd rfl ht
    · rfl
  | cons c s =>
    rw [List.cons_append, rooted.eq_def, rooted.eq_def]
    by_cases hc : c = '/'
    · subst hc
      rfl
    · simp [hc]

theorem appendToLast_concat (query : Text) (ws : List Text) (w : Text) :
    appendToLast query (ws ++ [w]) = ws ++ [w ++ query] := by
  induction ws with
  | nil => rfl
  | cons v ws ih =>
    cases ws with
    | nil => rfl
    | cons u ws =>
      rw [List.cons_append, List.cons_append, appendToLast, ← List.cons_append, ih]
      rfl

/-- The directories of a path, without the slash at their end if no query follows. -/
def trimmedDirs (body : Text) : Text :=
  if (splitQuery body).2 = [] then Text.chop '/' (splitQuery body).1 else (splitQuery body).1

theorem mem_of_mem_trimmedDirs {c : Char} {body : Text} (h : c ∈ trimmedDirs body) :
    c ∈ (splitQuery body).1 := by
  rw [trimmedDirs] at h
  split at h
  · exact Text.mem_of_mem_chop h
  · exact h

theorem segmentTexts_eq (body : Text) :
    ∃ leading last, List.splitOn '/' (trimmedDirs body) = leading ++ [last] ∧
      segmentTexts body = leading ++ [last ++ (splitQuery body).2] := by
  have hne := List.splitOn_ne_nil '/' (trimmedDirs body)
  refine ⟨_, _, (List.dropLast_concat_getLast hne).symm, ?_⟩
  by_cases hquery : (splitQuery body).2 = []
  · simp only [segmentTexts, trimmedDirs, hquery, if_true, List.append_nil]
    exact (List.dropLast_concat_getLast _).symm
  · rw [← appendToLast_concat, List.dropLast_concat_getLast hne]
    simp only [segmentTexts, trimmedDirs, hquery, if_false]

theorem intercalate_segmentTexts (body : Text) :
    ['/'].intercalate (segmentTexts body) = trimmedDirs body ++ (splitQuery body).2 := by
  obtain ⟨leading, last, hsplit, hsegments⟩ := segmentTexts_eq body
  rw [hsegments, Text.intercalate_concat_append, ← hsplit, List.intercalate_splitOn]

theorem intercalate_segmentTexts_of_query {body : Text} (h : (splitQuery body).2 ≠ []) :
    ['/'].intercalate (segmentTexts body) = body := by
  rw [intercalate_segmentTexts, trimmedDirs, if_neg h, splitQuery_append]

theorem mem_segmentTexts_iff {c : Char} {body : Text} (hc : c ≠ '/') :
    (∃ w ∈ segmentTexts body, c ∈ w) ↔ c ∈ body := by
  have hdirs : c ∈ trimmedDirs body ↔ c ∈ (splitQuery body).1 := by
    rw [trimmedDirs]
    split
    · exact Text.mem_chop_iff hc
    · exact Iff.rfl
  rw [← Text.mem_intercalate_iff hc, intercalate_segmentTexts, List.mem_append, hdirs,
    ← List.mem_append, splitQuery_append]

theorem segmentTexts_eq_singleton_iff {body w : Text} (hslash : '/' ∉ w)
    (hquery : ∀ c ∈ w, startsQuery c = false) :
    segmentTexts body = [w] ↔ (splitQuery body).2 = [] ∧ trimmedDirs body = w := by
  constructor
  · intro h
    have hjoin : w = trimmedDirs body ++ (splitQuery body).2 := by
      rw [← intercalate_segmentTexts, h, List.intercalate_singleton]
    cases hrest : (splitQuery body).2 with
    | nil => simp [hjoin, hrest]
    | cons c query =>
      have hstart : startsQuery c = true := startsQuery_of_head (t := body) (by simp [hrest])
      rw [hquery c (by simp [hjoin, hrest])] at hstart
      cases hstart
  · rintro ⟨hrest, hdirs⟩
    obtain ⟨leading, last, hsplit, hsegments⟩ := segmentTexts_eq body
    rw [hdirs, List.splitOn_eq_singleton hslash] at hsplit
    rw [hsegments, hrest, List.append_nil, hsplit]

/-- No piece of the directories is empty, but for the last one if a query follows. -/
def HasNoEmptySegment (body : Text) : Prop :=
  if (splitQuery body).2 = [] then [] ∉ List.splitOn '/' (Text.chop '/' (splitQuery body).1)
  else [] ∉ (List.splitOn '/' (splitQuery body).1).dropLast

theorem nil_not_mem_segmentTexts_iff (body : Text) :
    [] ∉ segmentTexts body ↔ HasNoEmptySegment body := by
  obtain ⟨leading, last, hsplit, hsegments⟩ := segmentTexts_eq body
  rw [HasNoEmptySegment, hsegments]
  by_cases hquery : (splitQuery body).2 = []
  · simp only [trimmedDirs, hquery, if_true] at hsplit ⊢
    rw [hsplit, List.append_nil]
  · simp only [trimmedDirs, hquery, if_false] at hsplit ⊢
    rw [hsplit, List.dropLast_concat]
    simp [hquery]

instance (body : Text) : Decidable (HasNoEmptySegment body) :=
  decidable_of_iff _ (nil_not_mem_segmentTexts_iff body)

theorem not_hasNoEmptySegment_slash (t : Text) : ¬ HasNoEmptySegment ('/' :: t) := by
  have hdirs : (splitQuery ('/' :: t)).1 = '/' :: (splitQuery t).1 := by
    simp [splitQuery, startsQuery]
  rw [HasNoEmptySegment, hdirs]
  split
  · rcases Text.chop_cases '/' ('/' :: (splitQuery t).1) with hchop | hchop
    · cases hstart : Text.chop '/' ('/' :: (splitQuery t).1) with
      | nil => simp
      | cons c u =>
        rw [hstart] at hchop
        obtain ⟨rfl, -⟩ := List.cons.inj hchop
        simp [List.splitOn_cons_eq_if_modifyHead]
    · rw [hchop]
      simp [List.splitOn_cons_eq_if_modifyHead]
  · obtain ⟨w, ws, hsplit⟩ := List.exists_cons_of_ne_nil (List.splitOn_ne_nil '/' (splitQuery t).1)
    simp [List.splitOn_cons_eq_if_modifyHead, hsplit]

/-- Texts that can be the segments of a path: none is empty, slashes stand in the query alone, and
the query in the last one. -/
structure IsSegmentation (leading : List Text) (last : Text) : Prop where
  leading_ne : ∀ w ∈ leading, w ≠ []
  leading_slash : ∀ w ∈ leading, '/' ∉ w
  leading_query : ∀ w ∈ leading, ∀ c ∈ w, startsQuery c = false
  last_ne : last ≠ []
  last_slash : '/' ∉ (splitQuery last).1

theorem isSegmentation_segmentTexts {body : Text} (h : [] ∉ segmentTexts body) :
    ∃ leading last, segmentTexts body = leading ++ [last] ∧ IsSegmentation leading last := by
  obtain ⟨leading, last, hsplit, hsegments⟩ := segmentTexts_eq body
  have hslash : ∀ w ∈ leading ++ [last], '/' ∉ w := by
    rw [← hsplit]
    exact fun w hw => Text.not_mem_of_mem_splitOn hw
  have hpass : ∀ w ∈ leading ++ [last], ∀ c ∈ w, startsQuery c = false := by
    rw [← hsplit]
    exact fun w hw c hc =>
      not_startsQuery_of_mem (mem_of_mem_trimmedDirs (Text.mem_of_mem_splitOn hw hc))
  rw [hsegments] at h ⊢
  refine ⟨_, _, rfl, ⟨?_, ?_, ?_, ?_, ?_⟩⟩
  · rintro w hw rfl
    exact h (List.mem_append_left _ hw)
  · exact fun w hw => hslash w (List.mem_append_left _ hw)
  · exact fun w hw => hpass w (List.mem_append_left _ hw)
  · intro hlast
    exact h (by simp [hlast])
  · rw [splitQuery_append_query (hpass last (by simp)) fun c hc => startsQuery_of_head hc]
    exact hslash last (by simp)

theorem segmentTexts_intercalate {leading : List Text} {last : Text}
    (h : IsSegmentation leading last) :
    segmentTexts (['/'].intercalate (leading ++ [last])) = leading ++ [last] := by
  -- only the last segment has a query, so the path is cut in front of it
  obtain ⟨dirs, query, hsplit⟩ : ∃ dirs query, splitQuery last = (dirs, query) := ⟨_, _, rfl⟩
  have hlast : last = dirs ++ query := by rw [← splitQuery_append last, hsplit]
  have hslash : ∀ w ∈ leading ++ [dirs], '/' ∉ w := by
    intro w hw
    rcases List.mem_append.1 hw with hw | hw
    · exact h.leading_slash w hw
    · rw [List.mem_singleton.1 hw]
      simpa [hsplit] using h.last_slash
  have hpieces : List.splitOn '/' (['/'].intercalate (leading ++ [dirs])) = leading ++ [dirs] :=
    List.splitOn_intercalate '/' hslash (by simp)
  have hpass : ∀ c ∈ ['/'].intercalate (leading ++ [dirs]), startsQuery c = false := by
    intro c hc
    by_cases hc' : c = '/'
    · rw [hc']
      rfl
    · obtain ⟨w, hw, hcw⟩ := (Text.mem_intercalate_iff hc').1 hc
      rcases List.mem_append.1 hw with hw | hw
      · exact h.leading_query w hw c hcw
      · rw [List.mem_singleton.1 hw] at hcw
        exact not_startsQuery_of_mem (t := last) (by rwa [hsplit])
  have hstop : ∀ c ∈ query.head?, startsQuery c = true := by
    intro c hc
    exact startsQuery_of_head (t := last) (by rwa [hsplit])
  rw [hlast, Text.intercalate_concat_append, segmentTexts, splitQuery_append_query hpass hstop]
  by_cases hquery : query = []
  · have hne : [] ∉ leading ++ [dirs] := by
      intro hw
      rcases List.mem_append.1 hw with hw | hw
      · exact h.leading_ne [] hw rfl
      · exact h.last_ne (by rw [hlast, hquery, ← List.mem_singleton.1 hw, List.append_nil])
    simp only [hquery, if_true, List.append_nil, Text.split]
    rw [Text.chop_eq_self (by rwa [hpieces]), hpieces]
  · simp only [hquery, if_false, Text.split]
    rw [hpieces, appendToLast_concat]

theorem IsSegmentation.nil_not_mem {leading : List Text} {last : Text}
    (h : IsSegmentation leading last) : [] ∉ leading ++ [last] := by
  intro hmem
  rcases List.mem_append.1 hmem with hmem | hmem
  · exact h.leading_ne [] hmem rfl
  · exact h.last_ne (List.mem_singleton.1 hmem).symm

theorem IsSegmentation.intercalate_ne_nil {leading : List Text} {last : Text}
    (h : IsSegmentation leading last) : ['/'].intercalate (leading ++ [last]) ≠ [] := by
  intro hjoin
  have hsegments := segmentTexts_intercalate h
  rw [hjoin] at hsegments
  exact h.nil_not_mem (hsegments ▸ by decide)

end UrlPolicy
