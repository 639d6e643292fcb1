import UrlPolicy.Proofs.Decoration
import UrlPolicy.Proofs.Matching.Outcome
import UrlPolicy.Proofs.Matching.Path

set_option autoImplicit false

namespace UrlPolicy

structure IsBareBody (body : Text) : Prop where
  ne_nil : body ≠ []
  no_query : ∀ c ∈ body, startsQuery c = false
  no_slash : body.getLast? ≠ some '/'

namespace IsBareBody

variable {body : Text}

theorem no_query_slash (h : IsBareBody body) : ∀ c ∈ body ++ ['/'], startsQuery c = false := by
  intro c hc
  rcases List.mem_append.1 hc with hc | hc
  · exact h.no_query c hc
  · rw [List.mem_singleton.1 hc]
    rfl

theorem pathSegments_slash (h : IsBareBody body) :
    pathSegments ('/' :: (body ++ ['/'])) = pathSegments ('/' :: body) := by
  rw [pathSegments_cons, pathSegments_cons, segmentTexts_of_no_query h.no_query_slash,
    segmentTexts_of_no_query h.no_query, Text.chop_append,
    Text.chop_eq_self_of_getLast? h.no_slash]

theorem withoutFinalSlash_slash (h : IsBareBody body) :
    withoutFinalSlash ('/' :: (body ++ ['/'])) = withoutFinalSlash ('/' :: body) := by
  rw [withoutFinalSlash_cons, withoutFinalSlash_cons, Text.chop_append,
    Text.chop_eq_self_of_getLast? h.no_slash]

theorem isRoot_slash (h : IsBareBody body) :
    isRoot ('/' :: (body ++ ['/'])) = isRoot ('/' :: body) := by
  have hnot {t : Text} (ht : t ≠ []) : isRoot ('/' :: t) = false := by simpa [isRoot] using ht
  rw [hnot h.ne_nil, hnot (by simp)]

end IsBareBody

/-- No path pattern sees the slash at the end of a path that is not the root. -/
theorem PathPattern.accepts_slash {pattern body : Text} {p : PathPattern}
    (h : parse? ('/' :: pattern) = some p) (hbody : IsBareBody body) :
    p.accepts ('/' :: (body ++ ['/'])) = p.accepts ('/' :: body) := by
  by_cases hroot : pattern = []
  · subst hroot
    cases h
    exact hbody.isRoot_slash
  obtain ⟨leading, last, _, hwell, rfl⟩ := parse?_eq_some hroot h
  rcases ofTexts_cases leading last with ⟨_, hread⟩ | ⟨_, hread⟩ | ⟨⟨hne, _⟩, hread⟩ | ⟨_, hread⟩
  · rw [hread, accepts, accepts, hbody.isRoot_slash]
  · rw [hread, accepts, accepts, hbody.withoutFinalSlash_slash]
  · have hleading := hwell.plainSegments hne
    rw [hread, Bool.eq_iff_iff, under_accepts_iff_fits hleading hbody.no_query_slash,
      under_accepts_iff_fits hleading hbody.no_query, hbody.pathSegments_slash]
  · rw [hread, accepts, accepts, hbody.pathSegments_slash]

namespace Page

variable {g : Page} {d : Decoration}

theorem Valid.path_cases (hg : g.Valid) :
    g.path = [] ∨ ∃ body, g.path = '/' :: body ∧ IsBareBody body := by
  cases hpath : g.path with
  | nil => exact .inl rfl
  | cons c body =>
    cases hg.path_start c (by rw [hpath]; rfl)
    have hquery := hg.path_query
    have hend := hg.path_end
    rw [hpath] at hquery hend
    have hbody : body ≠ [] := by
      rintro rfl
      exact hend rfl
    refine .inr ⟨body, rfl, hbody, fun c hc => hquery c (by simp [hc]), ?_⟩
    rwa [List.getLast?_cons_of_ne_nil hbody] at hend

theorem Valid.accepts_slash (hg : g.Valid) {remainder : Text} {path : PathPattern}
    {matchesQuery : Bool} (h : Pattern.parsePath? remainder = some (path, matchesQuery)) :
    path.accepts (rooted (g.path ++ d.slash)) = path.accepts (rooted g.path) := by
  rw [Decoration.slash]
  split
  · rcases hg.path_cases with hpath | ⟨body, hpath, hbody⟩
    · rw [hpath]
      rfl
    · rw [hpath]
      rcases Pattern.parsePath?_cases h with ⟨_, rfl, _⟩ | ⟨pattern, _, _, hparse, _⟩
      · rfl
      · exact PathPattern.accepts_slash hparse hbody
  · rw [List.append_nil]

theorem Valid.splitQuery_target (hg : g.Valid) {query : Text}
    (hquery : ∀ c ∈ query.head?, startsQuery c = true) :
    (splitQuery (rooted (g.path ++ d.slash ++ query))).1 = rooted (g.path ++ d.slash) := by
  have hslash : query.head? ≠ some '/' := fun hc => absurd (hquery '/' hc) (by decide)
  obtain ⟨body, hrooted, hmem⟩ := rooted_eq (g.path ++ d.slash)
  have hplain : ∀ c ∈ rooted (g.path ++ d.slash), startsQuery c = false := by
    intro c hc
    by_cases hc' : c = '/'
    · rw [hc']
      rfl
    · rw [hrooted, List.mem_cons, or_iff_right hc', hmem c hc'] at hc
      rcases List.mem_append.1 hc with hc | hc
      · exact hg.path_query c hc
      · exact absurd (Decoration.mem_slash hc) hc'
  rw [rooted_append _ hslash, splitQuery_append_query hplain hquery]

end Page

namespace Pattern

/-- User, port, one dot behind the host, one slash at the end, query and fragment never change
what a pattern without a query says about an address. -/
theorem outcome_read_text {raw : Text} {p : Pattern} (h : parse raw = .ok p)
    (hquery : p.matchesQuery = false) {g : Page} (hg : g.Valid) {d : Decoration} (hd : d.Valid) :
    p.outcome (Address.read (g.text d)) = p.outcome (Address.read g.plainText) := by
  obtain ⟨_, _, _, _, _, hhierarchy⟩ := parse_eq_ok_iff.1 h
  obtain ⟨_, _, _, hpath⟩ := parseHierarchy_eq_ok_iff.1 hhierarchy
  have hsame (e : Decoration) (he : e.Valid) : ∃ a, Address.read (g.text e) = a ∧
      a.location.isNone = false ∧ a.scheme = some g.scheme ∧ a.host = g.host ∧
      p.path.accepts a.path = p.path.accepts (rooted g.path) := by
    obtain ⟨query, hstart, hread⟩ := hg.exists_read_text he
    refine ⟨_, hread, rfl, rfl, rfl, ?_⟩
    rw [← hg.accepts_slash hpath, ← hg.splitQuery_target hstart]
    rfl
  obtain ⟨a, ha, hlocation, hscheme, hhost, haccepts⟩ := hsame d hd
  obtain ⟨b, hb, hlocation', hscheme', hhost', haccepts'⟩ := hsame .bare Decoration.bare_valid
  rw [← g.text_bare, ha, hb]
  exact outcome_congr hquery (hlocation.trans hlocation'.symm) (hscheme.trans hscheme'.symm)
    (hhost.trans hhost'.symm) (haccepts.trans haccepts'.symm)

/-- A user with an `@`, a colon, capitals and a blank; a dot behind the host; a port; a slash at
the end; and a query that looks like an address. -/
theorem outcome_read_text_user :
    let raw := "https://*.example.com/docs/*".toList
    let p : Pattern := ⟨some "https".toList, true, "example.com".toList, .under "/docs".toList,
      false⟩
    let g : Page := ⟨"https".toList, "a.example.com".toList, "/docs/v2".toList⟩
    let d : Decoration := ⟨some "ΟΔΟΣ x:p@evil.org".toList, true, some "8443".toList, true,
      "?next=HTTP://u@evil.org/# ".toList⟩
    g.text d =
        "https://ΟΔΟΣ x:p@evil.org@a.example.com.:8443/docs/v2/?next=HTTP://u@evil.org/# ".toList ∧
      parse raw = .ok p ∧ p.matchesQuery = false ∧ g.Valid ∧ d.Valid ∧
      p.outcome (Address.read (g.text d)) = .matched := by
  intro raw p g d
  have hread : parse raw = .ok p := by decide +kernel
  have hg : g.Valid := by
    have hlower : [g.scheme, g.host, g.path].all (fun t => Text.lower t == t) = true := by
      decide +kernel
    have hblank : [g.scheme, g.host, g.path].all (·.all (!Text.isBlank ·)) = true := by
      decide +kernel
    refine ⟨by decide, by decide, List.all_eq_true.1 (by decide), by decide, ?_, ?_, by decide,
      fun t ht => beq_iff_eq.1 (List.all_eq_true.1 hlower t ht), fun t ht => ?_⟩
    · rintro _ ⟨⟩
      rfl
    · simp [g, startsQuery]
    · simpa using List.all_eq_true.1 hblank t ht
  have hd : d.Valid := by
    refine ⟨?_, ?_, ?_⟩
    · rintro _ ⟨⟩
      simp [endsAuthority]
    · rintro _ ⟨⟩
      exact List.all_eq_true.1 (by decide)
    · rintro _ ⟨⟩
      rfl
  refine ⟨by decide +kernel, hread, rfl, hg, hd, ?_⟩
  rw [outcome_read_text hread rfl hg hd]
  decide +kernel

end Pattern

end UrlPolicy
