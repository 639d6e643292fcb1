import UrlPolicy.Proofs.Address
import UrlPolicy.Proofs.Matching.Outcome
import UrlPolicy.Proofs.Matching.Path

set_option autoImplicit false

namespace UrlPolicy

/-- Without wildcards a path is accepted by its own pattern, with the slash at its end if it has
one. -/
theorem PathPattern.accepts_self {body : Text} {p : PathPattern} (h : parse? ('/' :: body) = some p)
    (hstar : '*' ∉ body) : p.accepts ('/' :: body) = true := by
  by_cases hbody : body = []
  · subst hbody
    cases h
    rfl
  obtain ⟨leading, last, hsegments, hwell, rfl⟩ := parse?_eq_some hbody h
  have hfree : SegmentPattern.StarFree (leading ++ [last]) := by
    rwa [← hsegments, starFree_segmentTexts_iff]
  have hjoin := intercalate_segmentTexts body
  have hcut := splitQuery_append body
  rw [ofTexts_literal hfree, accepts, beq_iff_eq, withoutFinalSlash_cons, withoutFinalSlash_cons,
    ← hsegments, hjoin]
  by_cases hquery : (splitQuery body).2 = []
  · -- a second slash at the end would leave an empty segment
    have hsplit : List.splitOn '/' (trimmedDirs body) = segmentTexts body := by
      simp only [segmentTexts, trimmedDirs, hquery, if_true]
    have hchop : Text.chop '/' (trimmedDirs body) = trimmedDirs body := by
      refine Text.chop_eq_self ?_
      rw [hsplit, hsegments]
      exact hwell.nil_not_mem
    rw [hquery, List.append_nil] at hcut
    rw [hquery, List.append_nil, hchop, trimmedDirs, if_pos hquery, hcut]
  · rw [trimmedDirs, if_neg hquery, hcut]

namespace Pattern

theorem accepts_rooted_of_parsePath? {remainder : Text} {path : PathPattern} {matchesQuery : Bool}
    (h : parsePath? remainder = some (path, matchesQuery)) (hstar : '*' ∉ remainder) :
    path.accepts (if matchesQuery then rooted remainder else (splitQuery (rooted remainder)).1) =
      true := by
  rcases parsePath?_cases h with ⟨_, rfl, _⟩ | ⟨body, hrooted, hmem, hparse, hquery⟩
  · rfl
  have haccepts := PathPattern.accepts_self hparse fun hbody =>
    hstar ((hmem '*' (by decide)).1 hbody)
  rw [hrooted]
  cases matchesQuery with
  | true => exact haccepts
  | false =>
    rw [splitQuery_of_no_query (by simpa using List.any_eq_false.1 hquery.symm)]
    exact haccepts

theorem read_of_star_not_mem {raw : Text} {p : Pattern} (h : parse raw = .ok p)
    (hstar : '*' ∉ raw) :
    ∃ remainder, '*' ∉ remainder ∧ parsePath? remainder = some (p.path, p.matchesQuery) ∧
      p.subdomainsOnly = false ∧
      Address.read raw = ⟨Text.lower (Text.trim raw), p.protocol,
        some ⟨p.domain, rooted remainder⟩⟩ := by
  obtain ⟨_, hplain, protocol, rest, hsplit, hread⟩ := parse_eq_ok_iff.1 h
  obtain ⟨rfl, hdomain, ⟨dot, hdot, hhost⟩, hpath⟩ := parseHierarchy_eq_ok_iff.1 hread
  obtain ⟨_, htext⟩ := eq_of_schemeSplit hsplit
  have hcut := splitAuthority_fst_append_snd rest
  have hrest : '*' ∉ (splitAuthority rest).1 ++ (splitAuthority rest).2 := by
    intro hmem
    refine hstar (Text.mem_of_mem_trim (Text.mem_of_mem_lower (by decide) ?_))
    rw [htext, ← hcut]
    exact List.mem_append_right _ hmem
  rw [List.mem_append, not_or] at hrest
  have hno := not_mem_splitAuthority_fst htext hplain
  have hsub : p.subdomainsOnly = false := by
    obtain ⟨_, port, hport, _⟩ :=
      (hostOf?_eq_some_iff (hno '@' (by decide)) (hno '[' (by decide))).1 hhost
    cases hsub : p.subdomainsOnly with
    | false => rfl
    | true =>
      rw [hport, hsub] at hrest
      exact absurd (by simp [subdomainMark]) hrest.1
  rw [hsub] at hhost
  refine ⟨_, hrest.2, hpath, hsub, Address.read_eq hsplit ?_ hdomain.isHost⟩
  rw [hhost, Option.map_some, subdomainMark, if_neg (by simp), List.nil_append,
    hdomain.chop_append_dot hdot]

/-- A pattern without wildcards matches its own text as an address. Port, final dot, case, white
space around it, slash at the end, query and fragment are read alike by both. -/
theorem outcome_of_star_not_mem {raw : Text} {p : Pattern} (h : parse raw = .ok p)
    (hstar : '*' ∉ raw) :
    let a := Address.read raw
    a.location.isSome = true ∧ a.scheme = p.protocol ∧ a.host = p.domain ∧
      p.outcome a = .matched := by
  obtain ⟨remainder, hremainder, hpath, hsub, hread⟩ := read_of_star_not_mem h hstar
  rw [hread]
  refine ⟨rfl, rfl, rfl, outcome_eq_matched_iff.2 ⟨rfl, acceptsProtocol_of_scheme rfl, ?_, ?_⟩⟩
  · exact acceptsHost_iff.2 (.inl ⟨rfl, hsub⟩)
  · exact accepts_rooted_of_parsePath? hpath hremainder

theorem outcome_of_star_not_mem_query :
    let raw := " HTTPS://WWW.Example.COM.:8443/A/B?next=/C/ ".toList
    let p : Pattern := ⟨some "https".toList, false, "www.example.com".toList,
      .literal "/a/b?next=/c/".toList, true⟩
    parse raw = .ok p ∧ '*' ∉ raw ∧ (Address.read raw).scheme = some "https".toList ∧
      (Address.read raw).host = "www.example.com".toList ∧
      p.outcome (Address.read raw) = .matched := by
  intro raw p
  have hread : parse raw = .ok p := by decide +kernel
  have hstar : '*' ∉ raw := by decide
  obtain ⟨_, hscheme, hhost, hmatched⟩ := outcome_of_star_not_mem hread hstar
  exact ⟨hread, hstar, hscheme, hhost, hmatched⟩

end Pattern

end UrlPolicy
