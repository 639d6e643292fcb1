import UrlPolicy.Proofs.Text.Cut
import UrlPolicy.RuleList

/-!
Rule lists that are written out and read back. A list is read line by line, wherever its text is
divided, and a rule with line feeds in it comes back as the rules on its lines.
-/

set_option autoImplicit false

namespace UrlPolicy.RuleList

theorem eq_cons_of_isComment {t : Text} (h : isComment t = true) :
    ∃ c u, t = c :: u ∧ (c = '#' ∨ c = '!') := by
  rw [isComment.eq_def] at h
  split at h
  · exact ⟨_, _, rfl, .inl rfl⟩
  · exact ⟨_, _, rfl, .inr rfl⟩
  · cases h

def isRuleLine (line : Text) : Bool := line ≠ [] && !isComment line

theorem trim_chop_return (t : Text) : Text.trim (Text.chop '\r' t) = Text.trim t := by
  rcases Text.chop_cases '\r' t with h | h
  · have hblank : Text.isBlank '\r' = true := by decide
    rw [← Text.trim_concat_of_isBlank (Text.chop '\r' t) hblank, ← h]
  · rw [h]

/-- Neither the carriage return of a line nor an empty last line makes a difference. -/
theorem parse_eq (t : Text) :
    parse t = ((List.splitOn '\n' t).map Text.trim).filter isRuleLine := by
  obtain ⟨pieces, last, hsplit⟩ : ∃ pieces last, List.splitOn '\n' t = pieces ++ [last] :=
    ⟨_, _, (List.dropLast_concat_getLast (List.splitOn_ne_nil '\n' t)).symm⟩
  have hlines : Text.lines t = pieces.map (Text.chop '\r') ++ [last].filter (· ≠ []) := by
    simp [Text.lines, hsplit]
  have htrim : (pieces.map (Text.chop '\r')).map Text.trim = pieces.map Text.trim := by
    simp [trim_chop_return]
  have hlast : (([last].filter (· ≠ [])).map Text.trim).filter isRuleLine =
      ([last].map Text.trim).filter isRuleLine := by
    by_cases hlast : last = []
    · simp [hlast, isRuleLine, Text.trim]
    · simp [hlast]
  rw [show parse t = ((Text.lines t).map Text.trim).filter isRuleLine from rfl, hlines, hsplit]
  simp only [List.map_append, List.filter_append, htrim, hlast]

theorem parse_append (s t : Text) : parse (s ++ '\n' :: t) = parse s ++ parse t := by
  simp only [parse_eq, List.splitOn_append_cons_self, List.map_append, List.filter_append]

theorem parse_of_not_mem {t : Text} (h : '\n' ∉ t) :
    parse t = [Text.trim t].filter isRuleLine := by
  rw [parse_eq, List.splitOn_eq_singleton h]
  rfl

theorem parse_cons_of_isBlank {c : Char} (t : Text) (h : Text.isBlank c = true) :
    parse (c :: t) = parse t := by
  by_cases hc : c = '\n'
  · subst hc
    exact parse_append [] t
  · obtain ⟨w, ws, hsplit⟩ := List.exists_cons_of_ne_nil (List.splitOn_ne_nil '\n' t)
    have hcons : List.splitOn '\n' (c :: t) = (c :: w) :: ws := by
      simp [List.splitOn_cons_eq_if_modifyHead, hc, hsplit]
    rw [parse_eq, parse_eq, hcons, hsplit, List.map_cons, List.map_cons,
      Text.trim_cons_of_isBlank w h]

theorem parse_concat_of_isBlank {c : Char} (t : Text) (h : Text.isBlank c = true) :
    parse (t ++ [c]) = parse t := by
  by_cases hc : c = '\n'
  · subst hc
    exact (parse_append t []).trans (List.append_nil _)
  · obtain ⟨ws, w, hsplit, hconcat⟩ := Text.splitOn_concat t hc
    rw [parse_eq, parse_eq, hconcat, hsplit, List.map_append, List.map_append, List.map_singleton,
      List.map_singleton, Text.trim_concat_of_isBlank w h]

theorem parse_trim (t : Text) : parse (Text.trim t) = parse t := by
  have hstart : ∀ u : Text, parse (u.dropWhile Text.isBlank) = parse u := by
    intro u
    induction u with
    | nil => rfl
    | cons c u ih =>
      by_cases hc : Text.isBlank c = true
      · rw [List.dropWhile_cons_of_pos hc, ih, parse_cons_of_isBlank u hc]
      · rw [List.dropWhile_cons_of_neg hc]
  have hend : ∀ u : Text, parse (u.dropWhile Text.isBlank).reverse = parse u.reverse := by
    intro u
    induction u with
    | nil => rfl
    | cons c u ih =>
      by_cases hc : Text.isBlank c = true
      · rw [List.dropWhile_cons_of_pos hc, ih, List.reverse_cons, parse_concat_of_isBlank _ hc]
      · rw [List.dropWhile_cons_of_neg hc]
  rw [Text.trim, hend, List.reverse_reverse, hstart]

theorem parse_format (entries : List Text) : parse (format entries) = entries.flatMap parse := by
  induction entries with
  | nil => rfl
  | cons e entries ih =>
    rw [List.flatMap_cons, ← ih, ← parse_trim e]
    by_cases he : Text.trim e = []
    · rw [show format (e :: entries) = format entries by simp [format, he], he]
      rfl
    · rw [show format (e :: entries) = Text.trim e ++ '\n' :: format entries by simp [format, he],
        parse_append]

theorem parse_of_mem {t r : Text} (h : r ∈ parse t) : parse r = [r] := by
  rw [parse_eq] at h
  obtain ⟨htrim, hkeep⟩ := List.mem_filter.1 h
  obtain ⟨line, hline, rfl⟩ := List.mem_map.1 htrim
  have hnewline : '\n' ∉ Text.trim line := fun hmem =>
    Text.not_mem_of_mem_splitOn hline (Text.mem_of_mem_trim hmem)
  rw [parse_of_not_mem hnewline, Text.trim_trim, List.filter_cons_of_pos hkeep, List.filter_nil]

theorem flatMap_parse_of_forall {rules : List Text} (h : ∀ r ∈ rules, parse r = [r]) :
    rules.flatMap parse = rules := by
  induction rules with
  | nil => rfl
  | cons r rules ih =>
    rw [List.flatMap_cons, h r (by simp), ih fun q hq => h q (by simp [hq])]
    rfl

/-- The rules that come back unchanged are those that some text is read as. -/
theorem parse_format_eq_self_iff {rules : List Text} :
    parse (format rules) = rules ↔ ∀ r ∈ rules, ∃ t, r ∈ parse t := by
  rw [parse_format]
  constructor
  · intro h r hr
    rw [← h] at hr
    obtain ⟨t, _, ht⟩ := List.mem_flatMap.1 hr
    exact ⟨t, ht⟩
  · intro h
    refine flatMap_parse_of_forall fun r hr => ?_
    obtain ⟨t, ht⟩ := h r hr
    exact parse_of_mem ht

/-- Reading turns texts one behind another into lists one behind another, whether the texts are
divided by a line feed or written out as rules. So a list that was read comes back unchanged. -/
theorem parse_distributes (rules : List Text) (s t : Text) :
    parse (format rules) = rules.flatMap parse ∧
      parse (s ++ '\n' :: t) = parse s ++ parse t ∧
      (parse (format rules) = rules ↔ ∀ r ∈ rules, ∃ u, r ∈ parse u) ∧
      parse (format (parse t)) = parse t := by
  refine ⟨parse_format rules, parse_append s t, parse_format_eq_self_iff, ?_⟩
  exact parse_format_eq_self_iff.2 fun r hr => ⟨t, hr⟩

end UrlPolicy.RuleList
