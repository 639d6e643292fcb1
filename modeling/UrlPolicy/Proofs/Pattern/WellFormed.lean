import UrlPolicy.Proofs.Pattern.Canonical
import UrlPolicy.Proofs.Pattern.Spelling
import UrlPolicy.Proofs.Text.Ascii

/-!
Patterns put together by hand. A pattern of well-formed parts is read back from its text, which no
other such pattern has. The one exception is a path of nothing but `**`: its text is another way
to write `/*`.
-/

set_option autoImplicit false

namespace UrlPolicy

theorem CharacterSet.contains_eq_false {s t : CharacterSet}
    (h : ∀ r ∈ s, ∀ u ∈ t, r.2 < u.1 ∨ u.2 < r.1) {c : Char} (hc : s.contains c = true) :
    t.contains c = false := by
  obtain ⟨r, hr, hcr⟩ := contains_iff.1 hc
  rw [← Bool.not_eq_true, contains_iff]
  intro ⟨u, hu, hcu⟩
  have hdisjoint := h r hr u hu
  omega

theorem Text.cons_intercalate (sep : Char) {ws : List Text} (h : ws ≠ []) :
    sep :: [sep].intercalate ws = ws.flatMap (sep :: ·) := by
  obtain ⟨w, ws, rfl⟩ := List.exists_cons_of_ne_nil h
  rw [intercalate_cons_flatMap, List.flatMap_cons, List.cons_append]

namespace SegmentPattern

inductive WellFormed : SegmentPattern → Prop where
  | literal {text : Text} (hne : text ≠ []) (hstar : '*' ∉ text) : WellFormed (.literal text)
  | any : WellFormed .any
  | anyMany : WellFormed .anyMany
  | glob {head tail : Text} {middle : List Text} (hfree : StarFree (head :: (middle ++ [tail])))
      (hmiddle : [] ∉ middle) (hne : glob head middle tail ≠ starRun) :
      WellFormed (.glob head middle tail)
  | rest : WellFormed .rest

namespace WellFormed

variable {s : SegmentPattern}

theorem ofText_text (h : s.WellFormed) (hrest : s ≠ .rest) : ofText s.text = s := by
  cases h with
  | literal _ hstar => exact ofText_of_star_not_mem hstar
  | any => rfl
  | anyMany => rfl
  | glob hfree hmiddle hne => rw [text_glob, ofText_joinGlob hfree hmiddle, if_neg hne]
  | rest => exact absurd rfl hrest

theorem star_mem_text_iff (h : s.WellFormed) : '*' ∈ s.text ↔ s.isLiteral = false := by
  cases h with
  | literal _ hstar => exact iff_of_false hstar (by simp [isLiteral])
  | any => simp [text, isLiteral]
  | anyMany => simp [text, isLiteral]
  | glob => exact iff_of_true (text_glob ▸ star_mem_joinGlob) rfl
  | rest => simp [text, isLiteral]

theorem text_ne_nil (h : s.WellFormed) : s.text ≠ [] := by
  cases h with
  | literal hne _ => exact hne
  | any => simp [text]
  | anyMany => simp [text]
  | glob => exact List.ne_nil_of_mem (text_glob ▸ star_mem_joinGlob)
  | rest => simp [text]

theorem text_eq_any_iff (h : s.WellFormed) : s.text = ['*'] ↔ s = .any ∨ s = .rest := by
  by_cases hrest : s = .rest
  · simp [hrest, text]
  · rw [or_iff_left hrest, ← ofText_eq_any_iff, h.ofText_text hrest]

theorem text_eq_anyMany_iff (h : s.WellFormed) : s.text = ['*', '*'] ↔ s = .anyMany := by
  by_cases hrest : s = .rest
  · simp [hrest, text]
  · rw [← ofText_eq_anyMany_iff, h.ofText_text hrest]

theorem lastSegment_text (h : s.WellFormed) (hany : s ≠ .any) :
    PathPattern.lastSegment s.text = s := by
  by_cases hrest : s = .rest
  · rw [hrest]
    rfl
  · have hstar : s.text ≠ ['*'] := fun htext => (h.text_eq_any_iff.1 htext).elim hany hrest
    rw [PathPattern.lastSegment, if_neg hstar, h.ofText_text hrest]

end WellFormed

end SegmentPattern

namespace PathPattern

open SegmentPattern (StarFree)

structure IsName (w : Text) : Prop where
  slash : '/' ∉ w
  star : '*' ∉ w
  query : ∀ c ∈ w, startsQuery c = false

/-- Segments that are matched one by one. A slash is no more than a character in the query or
fragment, which is part of the last segment. -/
structure WellFormedSegments (leading : List SegmentPattern) (last : SegmentPattern) : Prop where
  each : ∀ s ∈ leading ++ [last], s.WellFormed
  leading_slash : ∀ s ∈ leading, '/' ∉ s.text
  leading_query : ∀ s ∈ leading, ∀ c ∈ s.text, startsQuery c = false
  last_slash : '/' ∉ (splitQuery last.text).1
  rest_not_mem : .rest ∉ leading
  rest_last : last = .rest → ∃ s ∈ leading, s.isLiteral = false
  last_ne : last ≠ .any
  not_literal : ∃ s ∈ leading ++ [last], s.isLiteral = false

inductive WellFormed : PathPattern → Prop where
  | anywhere : WellFormed .anywhere
  | root : WellFormed .root
  | belowRoot : WellFormed .belowRoot
  | under {segments : List Text} (hne : segments ≠ [])
      (h : ∀ w ∈ segments, w ≠ [] ∧ IsName w) : WellFormed (.under (segments.flatMap ('/' :: ·)))
  /-- The last segment may be empty before a query. -/
  | literal {leading : List Text} {last query : Text} (hleading : ∀ w ∈ leading, w ≠ [] ∧ IsName w)
      (hlast : IsName last) (hquery : ∀ c ∈ query.head?, startsQuery c = true)
      (hstar : '*' ∉ query) (hne : last ++ query ≠ []) :
      WellFormed (.literal ((leading ++ [last ++ query]).flatMap ('/' :: ·)))
  | segmented {leading : List SegmentPattern} {last : SegmentPattern}
      (h : WellFormedSegments leading last) : WellFormed (.segmented (leading ++ [last]))

def reading (path : PathPattern) : PathPattern :=
  if path = .segmented [.anyMany] then .belowRoot else path

theorem parsePath?_intercalate {leading : List Text} {last : Text}
    (h : IsSegmentation leading last) :
    Pattern.parsePath? ('/' :: ['/'].intercalate (leading ++ [last])) = some (ofTexts leading last,
      ('/' :: ['/'].intercalate (leading ++ [last])).any startsQuery) := by
  rw [Pattern.parsePath?, if_neg (by simp), rooted, parse?_of_segmentTexts h.intercalate_ne_nil
    (segmentTexts_intercalate h), if_neg h.nil_not_mem]
  rfl

theorem WellFormedSegments.isSegmentation {leading : List SegmentPattern} {last : SegmentPattern}
    (h : WellFormedSegments leading last) :
    IsSegmentation (leading.map (·.text)) last.text := by
  refine ⟨?_, ?_, ?_, (h.each last (by simp)).text_ne_nil, h.last_slash⟩
  · simpa using fun s hs => (h.each s (by simp [hs])).text_ne_nil
  · simpa using h.leading_slash
  · simpa using h.leading_query

theorem WellFormedSegments.ofTexts_eq {leading : List SegmentPattern} {last : SegmentPattern}
    (h : WellFormedSegments leading last) : ofTexts (leading.map (·.text)) last.text =
      reading (.segmented (leading ++ [last])) := by
  have hlast := h.each last (by simp)
  -- a lone `**` is the one list that is read as another form of path
  by_cases hmany : leading = [] ∧ last = .anyMany
  · rw [hmany.1, hmany.2]
    rfl
  have hlone : ¬ (leading.map (·.text) = [] ∧
      (last.text = ['*'] ∨ last.text = ['*', '*'])) := by
    rw [List.map_eq_nil_iff, hlast.text_eq_any_iff, hlast.text_eq_anyMany_iff]
    intro ⟨hnil, hstars⟩
    rcases hstars with (hany | hrest) | hlast
    · exact h.last_ne hany
    · simpa [hnil] using h.rest_last hrest
    · exact hmany ⟨hnil, hlast⟩
  have hstars : (∃ s ∈ leading, s.isLiteral = false) → ¬ StarFree (leading.map (·.text)) := by
    intro ⟨s, hs, hliteral⟩ hfree
    exact hfree s.text (List.mem_map_of_mem hs)
      ((h.each s (by simp [hs])).star_mem_text_iff.2 hliteral)
  have hwild : ¬ StarFree (leading.map (·.text)) ∨ '*' ∈ last.text ∧ last.text ≠ ['*'] := by
    obtain ⟨s, hs, hliteral⟩ := h.not_literal
    rcases List.mem_append.1 hs with hs | hs
    · exact .inl (hstars ⟨s, hs, hliteral⟩)
    · rw [List.mem_singleton.1 hs] at hliteral
      by_cases htext : last.text = ['*']
      · have hrest := (hlast.text_eq_any_iff.1 htext).resolve_left h.last_ne
        exact .inl (hstars (h.rest_last hrest))
      · exact .inr ⟨hlast.star_mem_text_iff.2 hliteral, htext⟩
  have hread : leading.map (SegmentPattern.ofText ∘ (·.text)) = leading := by
    refine (List.map_congr_left fun s hs => ?_).trans (List.map_id leading)
    exact (h.each s (by simp [hs])).ofText_text (ne_of_mem_of_not_mem hs h.rest_not_mem)
  rw [ofTexts_segmented hlone hwild, List.map_map, hread, hlast.lastSegment_text h.last_ne,
    reading, if_neg]
  simpa [List.append_eq_singleton_iff] using hmany

theorem WellFormed.parsePath?_text {path : PathPattern} (h : path.WellFormed) :
    Pattern.parsePath? path.text = some (path.reading, path.text.any startsQuery) := by
  cases h with
  | anywhere => rfl
  | root => rfl
  | belowRoot => rfl
  | @under segments hne hnames =>
    have hsegments : IsSegmentation segments ['*'] :=
      ⟨fun w hw => (hnames w hw).1, fun w hw => (hnames w hw).2.slash,
        fun w hw => (hnames w hw).2.query, by simp, by decide⟩
    have htext : (PathPattern.under (segments.flatMap ('/' :: ·))).text =
        '/' :: ['/'].intercalate (segments ++ [['*']]) := by
      rw [Text.cons_intercalate '/' (by simp)]
      simp [text]
    rw [htext, parsePath?_intercalate hsegments, ofTexts_under hne fun w hw => (hnames w hw).2.star,
      Text.cons_intercalate '/' hne]
    rfl
  | @literal leading last query hleading hlast hquery hstar hne =>
    have hsplit := splitQuery_append_query hlast.query hquery
    have hsegments : IsSegmentation leading (last ++ query) :=
      ⟨fun w hw => (hleading w hw).1, fun w hw => (hleading w hw).2.slash,
        fun w hw => (hleading w hw).2.query, hne, by rw [hsplit]; exact hlast.slash⟩
    have hfree : StarFree (leading ++ [last ++ query]) := by
      intro w hw
      rcases List.mem_append.1 hw with hw | hw
      · exact (hleading w hw).2.star
      · rw [List.mem_singleton.1 hw, List.mem_append]
        exact not_or_intro hlast.star hstar
    rw [text, ← Text.cons_intercalate '/' (by simp), parsePath?_intercalate hsegments,
      ofTexts_literal hfree]
    rfl
  | @segmented leading last h =>
    rw [text_segmented, parsePath?_intercalate h.isSegmentation, h.ofTexts_eq]

theorem WellFormed.rooted {path : PathPattern} (h : path.WellFormed) :
    ∀ c ∈ path.text.head?, c = '/' := by
  cases h with
  | anywhere => simp [text]
  | root => simp [text]
  | belowRoot => simp [text]
  | @under segments hne _ => simp [text, ← Text.cons_intercalate '/' hne]
  | literal => rw [text, ← Text.cons_intercalate '/' (by simp)]; simp
  | segmented => rw [text_segmented]; simp

theorem eq_of_reading {path path' : PathPattern} (h : path.reading = path'.reading)
    (htext : path.text = path'.text) : path = path' := by
  rw [reading, reading] at h
  split at h
  · next hmany =>
    split at h
    · next hmany' => rw [hmany, hmany']
    · rw [hmany, ← h] at htext
      exact absurd htext (by decide)
  · split at h
    · next hmany' =>
      rw [hmany', h] at htext
      exact absurd htext (by decide)
    · exact h

end PathPattern

namespace Pattern

/-- A pattern that is put together from parts as they are read from a text. -/
structure WellFormed (p : Pattern) : Prop where
  scheme : ∀ s ∈ p.protocol, isScheme s = true ∧ ∀ c ∈ s, Text.IsLower c
  domain : ∃ labels : List Text, labels ≠ [] ∧ p.domain = ['.'].intercalate labels ∧
    ∀ w ∈ labels, w ≠ [] ∧ ∀ c ∈ w, isLabelChar c = true ∧ Text.IsLower c
  path : p.path.WellFormed
  path_plain : ∀ c ∈ p.path.text, IsPlain c
  matchesQuery : p.matchesQuery = p.path.text.any startsQuery

theorem toNat_lt_of_mem_forbiddenMarks : ∀ c ∈ forbiddenMarks, c.toNat < 128 :=
  Text.forall_mem_of_all (by decide)

theorem isForbidden_of_isLabelChar {c : Char} (h : isLabelChar c = true) :
    isForbidden c = false := by
  by_cases hc : c.toNat < 128
  · have hascii := Text.forall_of_toNat_lt (P := fun c => isLabelChar c = true →
      isForbidden c = false) (by decide +kernel) hc
    exact hascii h
  · have hset : Text.alphanumericSet.contains c = true := by
      simp only [isLabelChar, Text.isAlphanumeric, if_neg hc, Bool.or_eq_true, beq_iff_eq] at h
      rcases h with (h | rfl) | rfl
      · exact h
      · exact absurd (by decide) hc
      · exact absurd (by decide) hc
    have hblank : Text.isBlank c = false :=
      CharacterSet.contains_eq_false (by decide +kernel) hset
    have hcontrol : Text.isControl c = false :=
      CharacterSet.contains_eq_false (by decide +kernel) hset
    have hmark : c ∉ forbiddenMarks := fun hmem => hc (toNat_lt_of_mem_forbiddenMarks c hmem)
    rw [isForbidden, hblank, hcontrol]
    simpa using hmark

theorem isForbidden_of_mem_scheme {s : Text} (h : isScheme s = true) {c : Char} (hc : c ∈ s) :
    isForbidden c = false := by
  have hchar : c.isAlphanum = true ∨ c = '+' ∨ c = '-' ∨ c = '.' := by
    cases s with
    | nil => cases hc
    | cons d s =>
      rw [isScheme, Bool.and_eq_true, List.all_eq_true] at h
      rcases List.mem_cons.1 hc with rfl | hc
      · exact .inl (by simp [Char.isAlphanum, h.1])
      · simpa [or_assoc] using h.2 c hc
  rcases hchar with halpha | rfl | rfl | rfl
  · have hascii := Text.toNat_lt_of_isAlphanum halpha
    refine isForbidden_of_isLabelChar ?_
    simp [isLabelChar, Text.isAlphanumeric, hascii, halpha]
  · decide
  · decide
  · decide

namespace WellFormed

variable {p q : Pattern}

theorem domain_spec (h : p.WellFormed) : IsDomain p.domain ∧ ∀ c ∈ p.domain, IsPlain c := by
  obtain ⟨labels, hne, hdomain, hlabels⟩ := h.domain
  rw [hdomain]
  constructor
  · exact isDomain_intercalate hne (fun hmem => (hlabels [] hmem).1 rfl)
      fun w hw c hc => ((hlabels w hw).2 c hc).1
  · intro c hc
    by_cases hdot : c = '.'
    · rw [hdot]
      exact isPlain_of_printed (by decide)
    · obtain ⟨w, hw, hcw⟩ := (Text.mem_intercalate_iff hdot).1 hc
      obtain ⟨hchar, hlower⟩ := (hlabels w hw).2 c hcw
      exact ⟨hlower, isForbidden_of_isLabelChar hchar⟩

theorem printable (h : p.WellFormed) : Printable p := by
  obtain ⟨hdomain, hplain⟩ := h.domain_spec
  refine ⟨fun s hs => (h.scheme s hs).1, hdomain, h.path.rooted, fun c hc => ?_⟩
  rw [Printable.text_eq, List.mem_append, List.mem_append, List.mem_append] at hc
  rcases hc with hc | (hc | hc) | hc
  · cases hprotocol : p.protocol with
    | none =>
      rw [hprotocol] at hc
      cases hc
    | some s =>
      obtain ⟨hscheme, hlower⟩ := h.scheme s hprotocol
      rw [hprotocol, Option.elim_some, List.mem_append] at hc
      rcases hc with hc | hc
      · exact ⟨hlower c hc, isForbidden_of_mem_scheme hscheme hc⟩
      · have hmark : c = ':' ∨ c = '/' := by simpa using hc
        rcases hmark with rfl | rfl <;> exact isPlain_of_printed (by decide)
  · rcases mem_subdomainMark hc with rfl | rfl <;> exact isPlain_of_printed (by decide)
  · exact hplain c hc
  · exact h.path_plain c hc

theorem parse_text (h : p.WellFormed) : parse p.text = .ok { p with path := p.path.reading } := by
  rw [h.printable.parse_text h.path.parsePath?_text, ← h.matchesQuery]

theorem eq_of_text (hp : p.WellFormed) (hq : q.WellFormed) (h : p.text = q.text) : p = q := by
  have hread : parse p.text = parse q.text := by rw [h]
  rw [hp.parse_text, hq.parse_text] at hread
  obtain ⟨protocol, subdomainsOnly, domain, path, matchesQuery⟩ := p
  obtain ⟨protocol', subdomainsOnly', domain', path', matchesQuery'⟩ := q
  simp only [Except.ok.injEq, Pattern.mk.injEq] at hread
  obtain ⟨rfl, rfl, rfl, hpath, rfl⟩ := hread
  have htext : path.text = path'.text := List.append_cancel_left h
  rw [PathPattern.eq_of_reading hpath htext]

end WellFormed

/-- A pattern of well-formed parts is read back from its text, unless its path is nothing but `**`,
which is read as `/*`. No two of these patterns have the same text. -/
theorem parse_text_of_wellFormed {p : Pattern} (h : p.WellFormed) :
    (p.path ≠ .segmented [.anyMany] → parse p.text = .ok p) ∧
      (p.path = .segmented [.anyMany] → parse p.text = .ok { p with path := .belowRoot }) ∧
      ∀ q : Pattern, q.WellFormed → q.text = p.text → q = p := by
  have hparse := h.parse_text
  refine ⟨fun hpath => ?_, fun hpath => ?_, fun q hq htext => hq.eq_of_text h htext⟩
  · rwa [PathPattern.reading, if_neg hpath] at hparse
  · rwa [PathPattern.reading, if_pos hpath] at hparse

theorem parse_text_of_wellFormed_query :
    let p : Pattern := ⟨some "https".toList, true, "bücher.example".toList,
      .segmented [.literal "docs".toList, .glob ['v'] [['2']] [], .anyMany,
        .glob "page?at=/".toList [] "#top".toList], true⟩
    p.WellFormed ∧ p.text = "https://*.bücher.example/docs/v*2*/**/page?at=/*#top".toList ∧
      parse p.text = .ok p := by
  intro p
  have hsegments : PathPattern.WellFormedSegments
      [.literal "docs".toList, .glob ['v'] [['2']] [], .anyMany]
      (.glob "page?at=/".toList [] "#top".toList) := by
    have hquery : ∀ s ∈ [SegmentPattern.literal "docs".toList, .glob ['v'] [['2']] [], .anyMany],
        s.text.all (fun c => decide (startsQuery c = false)) = true := by decide
    refine ⟨?_, by decide, fun s hs => Text.forall_mem_of_all (hquery s hs), by decide, by decide,
      by simp, by decide, by decide⟩
    simp only [List.cons_append, List.nil_append, List.forall_mem_cons]
    refine ⟨.literal (by decide) (by decide), .glob ?_ (by decide) (by decide), .anyMany,
      .glob ?_ (by decide) (by decide), by simp⟩
    · simp [SegmentPattern.StarFree]
    · simp [SegmentPattern.StarFree]
  have hwell : p.WellFormed := by
    refine ⟨?_, ⟨["bücher".toList, "example".toList], by decide, rfl, ?_⟩, .segmented hsegments,
      Text.forall_mem_of_all (by decide +kernel), rfl⟩
    · intro s hs
      cases hs
      exact ⟨by decide, Text.forall_mem_of_all (by decide +kernel)⟩
    · simp only [List.forall_mem_cons]
      exact ⟨⟨by decide, Text.forall_mem_of_all (by decide +kernel)⟩,
        ⟨by decide, Text.forall_mem_of_all (by decide +kernel)⟩, by simp⟩
  exact ⟨hwell, by decide, (parse_text_of_wellFormed hwell).1 (by decide)⟩

/-- A lone `**` is well-formed, but is written like, and read as, every page below the root. -/
theorem parse_text_anyMany :
    let p : Pattern := ⟨none, false, "a.com".toList, .segmented [.anyMany], false⟩
    p.WellFormed ∧ p.text = "a.com/**".toList ∧
      parse p.text = .ok { p with path := .belowRoot } ∧ parse p.text ≠ .ok p := by
  intro p
  have hsegments : PathPattern.WellFormedSegments [] .anyMany :=
    ⟨by simpa using SegmentPattern.WellFormed.anyMany, by simp, by simp, by decide, by simp,
      by simp, by simp, by decide⟩
  have hwell : p.WellFormed := by
    refine ⟨by simp [p], ⟨["a".toList, "com".toList], by decide, rfl, ?_⟩, .segmented hsegments,
      Text.forall_mem_of_all (by decide), rfl⟩
    simp only [List.forall_mem_cons]
    exact ⟨⟨by decide, Text.forall_mem_of_all (by decide)⟩,
      ⟨by decide, Text.forall_mem_of_all (by decide)⟩, by simp⟩
  have hread : parse p.text = .ok { p with path := .belowRoot } := hwell.parse_text
  refine ⟨hwell, rfl, hread, ?_⟩
  rw [hread]
  simp [p]

end Pattern

end UrlPolicy
