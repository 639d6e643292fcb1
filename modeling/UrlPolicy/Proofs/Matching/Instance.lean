import UrlPolicy.Proofs.Address
import UrlPolicy.Proofs.Matching.Filling
import UrlPolicy.Proofs.Matching.Outcome
import UrlPolicy.Proofs.Pattern.Canonical
import UrlPolicy.Proofs.Text.Ascii

set_option autoImplicit false

namespace UrlPolicy

theorem toNat_lt_of_isFillChar {c : Char} (h : isFillChar c = true) : c.toNat < 128 := by
  simp only [isFillChar, Bool.or_eq_true, beq_iff_eq] at h
  rcases h with (hlower | hdigit) | rfl
  · have halpha : (c.isUpper || c.isLower || c.isDigit) = true := by simp [hlower]
    exact Text.toNat_lt_of_isAlphanum halpha
  · have halpha : (c.isUpper || c.isLower || c.isDigit) = true := by simp [hdigit]
    exact Text.toNat_lt_of_isAlphanum halpha
  · decide

theorem forall_isFillChar {P : Char → Prop}
    (h : ∀ n < 128, isFillChar (Char.ofNat n) = true → P (Char.ofNat n)) {c : Char}
    (hc : isFillChar c = true) : P c :=
  Text.forall_of_toNat_lt (P := fun c => isFillChar c = true → P c) h (toNat_lt_of_isFillChar hc) hc

theorem isPlain_of_isFillChar {c : Char} : isFillChar c = true → Pattern.IsPlain c :=
  forall_isFillChar (by decide +kernel)

theorem isHostChar_of_isFillChar {c : Char} : isFillChar c = true → isHostChar c = true :=
  forall_isFillChar (P := fun c => isHostChar c = true) (by decide +kernel)

theorem star_not_mem_of_isScheme {s : Text} (h : isScheme s = true) : '*' ∉ s := by
  intro hmem
  cases s with
  | nil => cases hmem
  | cons c s =>
    rw [isScheme, Bool.and_eq_true, List.all_eq_true] at h
    rcases List.mem_cons.1 hmem with rfl | hmem
    · exact absurd h.1 (by decide)
    · exact absurd (h.2 '*' hmem) (by decide)

namespace Pattern

def textWith (p : Pattern) (mark path : Text) : Text :=
  p.protocol.elim [] (· ++ "://".toList) ++ (mark ++ p.domain ++ path)

/-- What may stand in place of the mark of subdomains: labels, each with a dot behind it. -/
def FillsMark (subdomainsOnly : Bool) (mark : Text) : Prop :=
  if subdomainsOnly then
    ∃ labels : List Text, labels ≠ [] ∧ (∀ w ∈ labels, IsFilling w) ∧
      mark = labels.flatMap (· ++ ['.'])
  else mark = []

/-- The text is the canonical text of the pattern with all its wildcards filled in. -/
def IsInstance (p : Pattern) (t : Text) : Prop :=
  ∃ mark path, FillsMark p.subdomainsOnly mark ∧ FilledPath p.path.text path ∧
    t = p.textWith mark path

namespace FillsMark

variable {p : Pattern} {b : Bool} {mark : Text}

theorem mem (h : FillsMark b mark) {c : Char} (hc : c ∈ mark) :
    isFillChar c = true ∨ c = '.' := by
  cases b with
  | false =>
    rw [show mark = [] from h] at hc
    cases hc
  | true =>
    obtain ⟨labels, _, hlabels, rfl⟩ := h
    obtain ⟨w, hw, hcw⟩ := List.mem_flatMap.1 hc
    rcases List.mem_append.1 hcw with hcw | hcw
    · exact .inl ((hlabels w hw).char c hcw)
    · exact .inr (List.mem_singleton.1 hcw)

theorem eq_append_dot (h : FillsMark true mark) :
    ∃ labels, labels ≠ [] ∧ mark = labels ++ ['.'] := by
  obtain ⟨ws, hne, hws, rfl⟩ := h
  obtain ⟨more, final, rfl⟩ := (List.eq_nil_or_concat ws).resolve_left hne
  rw [List.concat_eq_append] at hws ⊢
  have hfinal := (hws final (by simp)).ne_nil
  exact ⟨more.flatMap (· ++ ['.']) ++ final, by simp [hfinal], by simp⟩

theorem acceptsHost (h : FillsMark p.subdomainsOnly mark) :
    p.acceptsHost (mark ++ p.domain) = true := by
  rw [acceptsHost_iff]
  cases hsub : p.subdomainsOnly with
  | false =>
    rw [hsub] at h
    rw [show mark = [] from h]
    exact .inl ⟨rfl, rfl⟩
  | true =>
    rw [hsub] at h
    obtain ⟨labels, hlabels, rfl⟩ := h.eq_append_dot
    exact .inr ⟨labels, hlabels, by simp⟩

end FillsMark

/-- A path pattern that was read behind a host accepts its canonical text filled in, also where
the query of the address is left out. -/
theorem accepts_of_parsePath? {remainder t : Text} {path : PathPattern} {matchesQuery : Bool}
    (h : parsePath? remainder = some (path, matchesQuery)) (ht : FilledPath path.text t) :
    path.accepts (if matchesQuery then rooted t else (splitQuery (rooted t)).1) = true := by
  have hmem := (parsePath?_text h).mem
  by_cases hremainder : remainder = []
  · rw [parsePath?, if_pos hremainder] at h
    cases h
    rfl
  obtain ⟨body, hrooted, _⟩ := rooted_eq remainder
  rw [parsePath?, if_neg hremainder, hrooted] at h
  obtain ⟨path', hparse, heq⟩ := Option.map_eq_some_iff.1 h
  cases heq
  have haccepts := PathPattern.accepts_of_filled hparse ht
  obtain ⟨rest, htext⟩ := PathPattern.text_eq_cons hparse
  rw [htext] at ht
  obtain ⟨u, rfl, _⟩ := ht.exists_of_slash
  have hself : rooted ('/' :: u) = '/' :: u := rfl
  rw [hself]
  cases hquery : remainder.any startsQuery with
  | true => exact haccepts
  | false =>
    -- neither the canonical text nor a filling has the mark of a query
    have hnone : ∀ c ∈ '/' :: u, startsQuery c = false := by
      intro c hc
      rcases ht.mem hc with rfl | hchar | hc
      · rfl
      · exact startsQuery_of_isFillChar hchar
      · rw [← htext] at hc
        rcases hmem c hc with rfl | rfl | hc
        · rfl
        · rfl
        · simpa using List.any_eq_false.1 hquery c hc
    rw [splitQuery_of_no_query hnone]
    exact haccepts

namespace Printable

variable {p : Pattern} {b : Bool} {mark path : Text}

theorem isHost_append (h : Printable p) (hmark : FillsMark b mark) :
    isHost (mark ++ p.domain) = true ∧ '[' ∉ mark ++ p.domain := by
  have hdomain : '[' ∉ p.domain := fun hmem =>
    h.not_mem_hostMarks (List.mem_append_right _ hmem) (by decide)
  have hchar : ∀ c ∈ mark, isHostChar c = true := by
    intro c hc
    rcases hmark.mem hc with hfill | rfl
    · exact isHostChar_of_isFillChar hfill
    · decide
  have hbracket : '[' ∉ mark ++ p.domain := by
    rw [List.mem_append]
    exact not_or_intro (fun hmem => absurd (hchar '[' hmem) (by decide)) hdomain
  refine ⟨(isHost_iff hbracket).2 ⟨by simp [h.domain.ne_nil], fun c hc => ?_⟩, hbracket⟩
  rcases List.mem_append.1 hc with hc | hc
  · exact hchar c hc
  · exact ((isHost_iff hdomain).1 h.domain.isHost).2 c hc

theorem isPlain_textWith (h : Printable p) (hmark : FillsMark b mark)
    (hpath : FilledPath p.path.text path) : ∀ c ∈ p.textWith mark path, IsPlain c := by
  intro c hc
  have hown : ∀ d ∈ p.protocol.elim [] (· ++ "://".toList) ++
      (subdomainMark p.subdomainsOnly ++ p.domain ++ p.path.text), IsPlain d := by
    rw [← text_eq]
    exact h.plain
  rw [textWith, List.mem_append, List.mem_append, List.mem_append] at hc
  rcases hc with hc | (hc | hc) | hc
  · exact hown c (List.mem_append_left _ hc)
  · rcases hmark.mem hc with hfill | rfl
    · exact isPlain_of_isFillChar hfill
    · exact isPlain_of_printed (by decide)
  · exact hown c (by simp [hc])
  · rcases hpath.mem hc with rfl | hfill | hc
    · exact isPlain_of_printed (by decide)
    · exact isPlain_of_isFillChar hfill
    · exact hown c (by simp [hc])

theorem read_textWith (h : Printable p) (hmark : FillsMark b mark)
    (hpath : FilledPath p.path.text path) :
    Address.read (p.textWith mark path) =
      ⟨p.textWith mark path, p.protocol, some ⟨mark ++ p.domain, UrlPolicy.rooted path⟩⟩ := by
  obtain ⟨hhost, hbracket⟩ := h.isHost_append hmark
  have hdot : Text.chop '.' (mark ++ p.domain) = mark ++ p.domain := by
    rw [Text.chop_append_of_ne_nil '.' mark h.domain.ne_nil, Text.chop_eq_self h.domain.labels_ne]
  have hstart : ∀ c ∈ path.head?, endsAuthority c = true := by
    intro c hc
    cases htext : p.path.text with
    | nil =>
      rw [htext] at hpath
      rw [hpath.eq_of_star_not_mem (by simp)] at hc
      cases hc
    | cons d rest =>
      cases h.rooted d (by rw [htext]; rfl)
      rw [htext] at hpath
      obtain ⟨u, rfl, _⟩ := hpath.exists_of_slash
      cases hc
      rfl
  exact Address.read_append h.scheme hhost hbracket hdot hstart (h.isPlain_textWith hmark hpath)

end Printable

/-- The wildcards of a canonical text are the mark of subdomains and the stars in the path, and
whatever they are filled with, the pattern matches the text as an address. -/
theorem outcome_of_isInstance {raw : Text} {p : Pattern} (h : parse raw = .ok p) :
    (p.text = p.textWith (subdomainMark p.subdomainsOnly) p.path.text ∧
      (∀ s ∈ p.protocol, '*' ∉ s) ∧ '*' ∉ p.domain) ∧
    ∀ t, p.IsInstance t → p.outcome (Address.read t) = .matched := by
  obtain ⟨hprintable, _⟩ := printable_of_parse h
  obtain ⟨_, _, _, _, _, hread⟩ := parse_eq_ok_iff.1 h
  obtain ⟨_, _, _, hremainder⟩ := parseHierarchy_eq_ok_iff.1 hread
  refine ⟨⟨Printable.text_eq p, fun s hs => star_not_mem_of_isScheme (hprintable.scheme s hs),
    hprintable.domain.no_star⟩, ?_⟩
  rintro t ⟨mark, path, hmark, hpath, rfl⟩
  have haddress := hprintable.read_textWith hmark hpath
  have hprotocol : p.acceptsProtocol (Address.read (p.textWith mark path)) = true :=
    acceptsProtocol_of_scheme (by rw [haddress])
  have hhost : p.acceptsHost (Address.read (p.textWith mark path)).host = true := by
    rw [haddress]
    exact hmark.acceptsHost
  have haccepts : p.acceptsPath (Address.read (p.textWith mark path)) = true := by
    rw [haddress]
    exact accepts_of_parsePath? hremainder hpath
  have hlocation : (Address.read (p.textWith mark path)).location.isNone = false := by
    rw [haddress]
    rfl
  simp [outcome, hlocation, hprotocol, hhost, haccepts]

theorem outcome_of_isInstance_query :
    let p : Pattern := ⟨some "https".toList, true, "example.com".toList,
      .segmented [.literal "docs".toList, .anyMany, .glob ['v'] ["?id=".toList] []], true⟩
    let t := "https://a.b-1.example.com/docs/x/y/z/v2?id=7".toList
    parse "https://*.Example.com/docs/**/v*?id=*".toList = .ok p ∧ p.IsInstance t ∧
      p.outcome (Address.read t) = .matched := by
  intro p t
  have hread : parse "https://*.Example.com/docs/**/v*?id=*".toList = .ok p := by rfl
  have hmark : FillsMark true "a.b-1.".toList :=
    ⟨["a".toList, "b-1".toList], by decide, by decide, by decide⟩
  have hfinal : Filled (['v'] ++ (['*'] ++ ("?id=".toList ++ ['*'])))
      (['v'] ++ (['2'] ++ ("?id=".toList ++ ['7']))) :=
    (Filled.of_star_not_mem (by decide)).append <| (Filled.of_isFilling (by decide)).append <|
      (Filled.of_star_not_mem (by decide)).append (.of_isFilling (by decide))
  have hmany : FilledPieces (['*', '*'] :: ["v*?id=*".toList])
      ([['x'], ['y'], ['z']] ++ ["v2?id=7".toList]) :=
    .many (by decide) (by decide) (.one (by decide) hfinal .nil)
  have hpieces : FilledPieces [[], "docs".toList, ['*', '*'], "v*?id=*".toList]
      [[], "docs".toList, ['x'], ['y'], ['z'], "v2?id=7".toList] :=
    .one (by decide) .nil (.one (by decide) (.of_star_not_mem (by decide)) hmany)
  have hinstance : p.IsInstance t :=
    ⟨"a.b-1.".toList, "/docs/x/y/z/v2?id=7".toList, hmark, ⟨_, hpieces, by decide⟩, by decide⟩
  exact ⟨hread, hinstance, (outcome_of_isInstance hread).2 t hinstance⟩

end Pattern

end UrlPolicy
