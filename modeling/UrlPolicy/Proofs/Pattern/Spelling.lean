import UrlPolicy.Proofs.Pattern.Parser

/-!
Spellings of patterns: the parts from which the text of a pattern is put together. Main statement:
a text is a pattern exactly when, in lower case and without white space around it, it has no
forbidden mark and is put together from valid parts; and the pattern is read off these parts.
-/

set_option autoImplicit false

namespace UrlPolicy.Pattern

def isLabelChar (c : Char) : Bool := Text.isAlphanumeric c || c == '-' || c == '_'

/-- What the text of a pattern is put together from. -/
structure Spelling where
  scheme : Option Text
  subdomainsOnly : Bool
  labels : List Text
  /-- Whether a dot follows the last label. -/
  finalDot : Bool
  /-- What follows a colon behind the host. -/
  port : Option Text
  /-- The path, the query and the fragment. -/
  remainder : Text
  deriving DecidableEq, Repr

namespace Spelling

def domain (s : Spelling) : Text := ['.'].intercalate s.labels

def dot (s : Spelling) : Text := if s.finalDot then ['.'] else []

def host (s : Spelling) : Text := subdomainMark s.subdomainsOnly ++ s.domain ++ s.dot

def portText (s : Spelling) : Text := s.port.elim [] (':' :: ·)

def text (s : Spelling) : Text :=
  s.scheme.elim [] (· ++ "://".toList) ++ (s.host ++ s.portText ++ s.remainder)

structure Valid (s : Spelling) : Prop where
  scheme : ∀ scheme ∈ s.scheme, isScheme scheme = true
  labels_ne : s.labels ≠ []
  label_ne : [] ∉ s.labels
  label_char : ∀ w ∈ s.labels, ∀ c ∈ w, isLabelChar c = true
  port_digit : ∀ digits ∈ s.port, ∀ c ∈ digits, c.isDigit = true
  /-- A host that could be a scheme is not followed by a bare colon. -/
  port_ne : s.port = some [] → s.scheme ≠ none ∨ isScheme s.host = false
  remainder_start : ∀ c ∈ s.remainder.head?, endsAuthority c = true
  path : rooted s.remainder = ['/'] ∨ HasNoEmptySegment (rooted s.remainder).tail

theorem valid_iff {s : Spelling} : s.Valid ↔
    s.scheme.all isScheme = true ∧ s.labels ≠ [] ∧
      s.labels.all (fun w => w != [] && w.all isLabelChar) = true ∧
      s.port.all (·.all Char.isDigit) = true ∧
      (s.port = some [] → s.scheme ≠ none ∨ isScheme s.host = false) ∧
      s.remainder.head?.all endsAuthority = true ∧
      (rooted s.remainder = ['/'] ∨ HasNoEmptySegment (rooted s.remainder).tail) := by
  simp only [Option.all_eq_true, List.all_eq_true, Bool.and_eq_true, bne_iff_ne]
  constructor
  · intro h
    exact ⟨h.scheme, h.labels_ne,
      fun w hw => ⟨ne_of_mem_of_not_mem hw h.label_ne, h.label_char w hw⟩, h.port_digit,
      h.port_ne, h.remainder_start, h.path⟩
  · intro ⟨scheme, labels_ne, hlabels, port_digit, port_ne, start, path⟩
    exact ⟨scheme, labels_ne, fun hmem => (hlabels [] hmem).1 rfl, fun w hw => (hlabels w hw).2,
      port_digit, port_ne, start, path⟩

instance (s : Spelling) : Decidable s.Valid := decidable_of_iff _ valid_iff.symm

end Spelling

theorem isHostChar_iff (c : Char) : isHostChar c = true ↔ isLabelChar c = true ∨ c = '.' := by
  simp only [isHostChar, isLabelChar, Bool.or_eq_true, beq_iff_eq]
  constructor
  · rintro (((h | h) | h) | h) <;> simp [h]
  · rintro (((h | h) | h) | h) <;> simp [h]

theorem isHostChar_of_mem_intercalate {labels : List Text}
    (hchar : ∀ w ∈ labels, ∀ c ∈ w, isLabelChar c = true) {c : Char}
    (hc : c ∈ ['.'].intercalate labels) : isHostChar c = true := by
  rw [isHostChar_iff]
  by_cases hdot : c = '.'
  · exact .inr hdot
  · obtain ⟨w, hw, hcw⟩ := (Text.mem_intercalate_iff hdot).1 hc
    exact .inl (hchar w hw c hcw)

theorem isDomain_intercalate {labels : List Text} (hne : labels ≠ []) (hempty : [] ∉ labels)
    (hchar : ∀ w ∈ labels, ∀ c ∈ w, isLabelChar c = true) :
    IsDomain (['.'].intercalate labels) := by
  have hsplit : List.splitOn '.' (['.'].intercalate labels) = labels := by
    refine List.splitOn_intercalate '.' (fun w hw hdot => ?_) hne
    exact absurd (hchar w hw '.' hdot) (by decide)
  have hno : ∀ c, isHostChar c = false → c ∉ ['.'].intercalate labels := by
    intro c hc hmem
    rw [isHostChar_of_mem_intercalate hchar hmem] at hc
    cases hc
  refine ⟨by rwa [hsplit], hno '*' (by decide), ?_⟩
  rw [isHost_iff (hno '[' (by decide))]
  refine ⟨fun hjoin => ?_, fun c hc => isHostChar_of_mem_intercalate hchar hc⟩
  rw [hjoin] at hsplit
  exact hempty (hsplit ▸ by decide)

theorem IsDomain.isLabelChar {domain : Text} (h : IsDomain domain) (hbracket : '[' ∉ domain) :
    ∀ w ∈ List.splitOn '.' domain, ∀ c ∈ w, isLabelChar c = true := by
  intro w hw c hc
  have hhost := ((isHost_iff hbracket).1 h.isHost).2 c (Text.mem_of_mem_splitOn hw hc)
  refine ((isHostChar_iff c).1 hhost).resolve_right ?_
  rintro rfl
  exact Text.not_mem_of_mem_splitOn hw hc

theorem exists_parsePath?_iff (remainder : Text) (matchesQuery : Bool) :
    (∃ path, parsePath? remainder = some (path, matchesQuery)) ↔
      (rooted remainder = ['/'] ∨ HasNoEmptySegment (rooted remainder).tail) ∧
        remainder.any startsQuery = matchesQuery := by
  by_cases hremainder : remainder = []
  · simp [parsePath?, hremainder, rooted, eq_comm]
  · obtain ⟨body, hrooted, _⟩ := rooted_eq remainder
    have hsome := PathPattern.parse?_isSome_iff body
    rw [Option.isSome_iff_exists] at hsome
    have hroot : '/' :: body = ['/'] ↔ body = [] := by simp
    rw [parsePath?, if_neg hremainder, hrooted, hroot, List.tail_cons, ← hsome]
    constructor
    · rintro ⟨path, hpath⟩
      obtain ⟨_, hparse, heq⟩ := Option.map_eq_some_iff.1 hpath
      cases heq
      exact ⟨⟨path, hparse⟩, rfl⟩
    · rintro ⟨⟨path, hparse⟩, rfl⟩
      exact ⟨path, by rw [hparse]; rfl⟩

namespace Spelling

variable {s : Spelling}

theorem Valid.isDomain (h : s.Valid) : IsDomain s.domain :=
  isDomain_intercalate h.labels_ne h.label_ne h.label_char

theorem mem_dot {c : Char} (h : c ∈ s.dot) : c = '.' := by
  rw [dot] at h
  split at h
  · simpa using h
  · cases h

theorem Valid.not_mem_hostMarks (h : s.Valid) : ∀ c ∈ s.host, c ∉ hostMarks := by
  intro c hc hmark
  rw [host, List.mem_append, List.mem_append] at hc
  rcases hc with (hc | hc) | hc
  · rcases mem_subdomainMark hc with rfl | rfl <;> exact absurd hmark (by decide)
  · have hchar := isHostChar_of_mem_intercalate h.label_char hc
    rw [not_isHostChar_of_mem hmark] at hchar
    cases hchar
  · rw [mem_dot hc] at hmark
    exact absurd hmark (by decide)

theorem Valid.schemeSplit_text (h : s.Valid) :
    SchemeSplit.of s.text = schemeSplit s.scheme (s.host ++ s.portText ++ s.remainder) := by
  rw [text]
  cases hscheme : s.scheme with
  | some scheme =>
    rw [Option.elim_some, List.append_assoc]
    exact SchemeSplit.of_hierarchical _ (h.scheme scheme hscheme)
  | none =>
    have hhost : ∀ c ∈ s.host, stopsScheme c = false := fun c hc =>
      stopsScheme_of_not_mem (h.not_mem_hostMarks c hc)
    rw [Option.elim_none, List.nil_append, schemeSplit]
    cases hport : s.port with
    | none =>
      rw [portText, hport, Option.elim_none, List.append_nil]
      exact SchemeSplit.of_absent hhost h.remainder_start
    | some digits =>
      rw [portText, hport, Option.elim_some, List.append_assoc, List.cons_append,
        SchemeSplit.of_colon_eq_absent_iff hhost]
      refine ⟨fun rest hslashes => ?_, ?_⟩
      · -- the digits are no slashes, and the remainder does not start with two of them
        cases digits with
        | cons c digits =>
          have hc := h.port_digit _ hport c (by simp)
          rw [(List.cons.inj hslashes).1] at hc
          exact absurd hc (by decide)
        | nil =>
          have hpath := h.path
          rw [List.nil_append] at hslashes
          rw [hslashes, rooted] at hpath
          exact hpath.elim (by simp) (not_hasNoEmptySegment_slash rest)
      · rw [startsWithPort_append (h.port_digit digits hport) h.remainder_start]
        by_cases hdigits : digits = []
        · rw [hdigits] at hport
          exact .inr ((h.port_ne hport).resolve_left (by simp [hscheme]))
        · exact .inl hdigits

theorem Valid.splitAuthority (h : s.Valid) :
    splitAuthority (s.host ++ s.portText ++ s.remainder) = (s.host ++ s.portText, s.remainder) :=
  splitAuthority_append (not_endsAuthority_append_portText h.not_mem_hostMarks h.port_digit)
    h.remainder_start

theorem Valid.hostOf? (h : s.Valid) : hostOf? (s.host ++ s.portText) = some s.host :=
  hostOf?_append_portText h.not_mem_hostMarks h.port_digit

theorem Valid.parse_eq_ok_of_parsePath? (h : s.Valid) {raw : Text}
    (ht : s.text = Text.lower (Text.trim raw)) (hplain : ∀ c ∈ s.text, isForbidden c = false)
    {path : PathPattern} {matchesQuery : Bool}
    (hpath : parsePath? s.remainder = some (path, matchesQuery)) :
    parse raw = .ok ⟨s.scheme, s.subdomainsOnly, s.domain, path, matchesQuery⟩ := by
  have hdot : s.dot = [] ∨ s.dot = ['.'] := by
    rw [dot]
    split
    · exact .inr rfl
    · exact .inl rfl
  have hne : s.text ≠ [] := by
    simp [text, host, h.isDomain.ne_nil]
  refine parse_eq_ok_iff.2 ⟨ht ▸ hne, fun c hc => ⟨Text.isLower_of_mem_lower hc, ?_⟩,
    s.scheme, _, ht ▸ h.schemeSplit_text, ?_⟩
  · exact hplain c (ht ▸ hc)
  · rw [parseHierarchy_eq_ok_iff, h.splitAuthority]
    exact ⟨rfl, h.isDomain, ⟨s.dot, hdot, h.hostOf?⟩, hpath⟩

theorem Valid.parse_eq_ok (h : s.Valid) {raw : Text} (ht : s.text = Text.lower (Text.trim raw))
    (hplain : ∀ c ∈ s.text, isForbidden c = false) :
    ∃ path, parse raw =
      .ok ⟨s.scheme, s.subdomainsOnly, s.domain, path, s.remainder.any startsQuery⟩ := by
  obtain ⟨path, hpath⟩ := (exists_parsePath?_iff s.remainder _).2 ⟨h.path, rfl⟩
  exact ⟨path, h.parse_eq_ok_of_parsePath? ht hplain hpath⟩

theorem Valid.parsePath?_remainder (h : s.Valid) {raw : Text} {p : Pattern}
    (ht : s.text = Text.lower (Text.trim raw)) (hp : parse raw = .ok p) :
    parsePath? s.remainder = some (p.path, p.matchesQuery) := by
  have hplain : ∀ c ∈ s.text, isForbidden c = false := fun c hc =>
    ((parse_eq_ok_iff.1 hp).2.1 c (ht ▸ hc)).2
  obtain ⟨path, hpath⟩ := (exists_parsePath?_iff s.remainder _).2 ⟨h.path, rfl⟩
  cases hp.symm.trans (h.parse_eq_ok_of_parsePath? ht hplain hpath)
  exact hpath

end Spelling

theorem exists_eq_of_isPort {port : Text} (h : port = [] ∨ isPort port = true) :
    ∃ digits : Option Text, port = digits.elim [] (':' :: ·) ∧
      ∀ d ∈ digits, ∀ c ∈ d, c.isDigit = true := by
  rcases h with rfl | h
  · exact ⟨none, rfl, by simp⟩
  · rw [isPort.eq_def] at h
    split at h
    · next digits => exact ⟨some digits, rfl, by simpa using h⟩
    · cases h

theorem exists_eq_of_hostOf? {authority host dot : Text}
    (hno : ∀ c ∈ forbiddenMarks, c ∉ authority) (hdot : dot = [] ∨ dot = ['.'])
    (h : hostOf? authority = some (host ++ dot)) :
    ∃ (finalDot : Bool) (digits : Option Text),
      authority = host ++ (if finalDot then ['.'] else []) ++ digits.elim [] (':' :: ·) ∧
        ∀ d ∈ digits, ∀ c ∈ d, c.isDigit = true := by
  obtain ⟨_, port, rfl, hport⟩ :=
    (hostOf?_eq_some_iff (hno '@' (by decide)) (hno '[' (by decide))).1 h
  obtain ⟨digits, rfl, hdigits⟩ := exists_eq_of_isPort hport
  rcases hdot with rfl | rfl
  · exact ⟨false, digits, rfl, hdigits⟩
  · exact ⟨true, digits, rfl, hdigits⟩

/-- A host in front of a bare colon is no scheme: else it would have been taken for one. -/
theorem isScheme_eq_false_of_absent {host remainder : Text}
    (h : SchemeSplit.of (host ++ ':' :: remainder) = .absent (host ++ ':' :: remainder))
    (hremainder : ∀ c ∈ remainder.head?, endsAuthority c = true) : isScheme host = false := by
  rw [← Bool.not_eq_true]
  intro hscheme
  rw [SchemeSplit.of_colon_eq_absent_iff (stopsScheme_of_isScheme hscheme)] at h
  have hport : startsWithPort ([] ++ remainder) = true := h.2.resolve_right (by simp [hscheme])
  exact (startsWithPort_append (by simp) hremainder).1 hport rfl

theorem exists_spelling {raw : Text} {p : Pattern} (h : parse raw = .ok p) :
    ∃ s : Spelling, s.Valid ∧ s.text = Text.lower (Text.trim raw) := by
  obtain ⟨_, hplain, protocol, rest, hsplit, hread⟩ := parse_eq_ok_iff.1 h
  obtain ⟨rfl, hdomain, ⟨dot, hdot, hhost⟩, hpath⟩ := parseHierarchy_eq_ok_iff.1 hread
  obtain ⟨hscheme, htext⟩ := eq_of_schemeSplit hsplit
  have hcut := splitAuthority_fst_append_snd rest
  have hstart : ∀ c ∈ (splitAuthority rest).2.head?, endsAuthority c = true :=
    fun c hc => head?_splitAuthority_snd hc
  have hno := not_mem_splitAuthority_fst htext hplain
  obtain ⟨finalDot, digits, hauthority, hdigits⟩ := exists_eq_of_hostOf? hno hdot hhost
  have hbracket : '[' ∉ p.domain := fun hc => hno '[' (by decide) (by simp [hauthority, hc])
  let s : Spelling := ⟨p.protocol, p.subdomainsOnly, List.splitOn '.' p.domain, finalDot, digits,
    (splitAuthority rest).2⟩
  have hhost : s.host = subdomainMark p.subdomainsOnly ++ p.domain ++
      if finalDot then ['.'] else [] := by
    rw [Spelling.host, Spelling.domain, List.intercalate_splitOn]
    rfl
  have hrest : s.host ++ s.portText ++ s.remainder = rest := by
    rw [hhost, ← hcut, hauthority]
    rfl
  refine ⟨s, ⟨hscheme, List.splitOn_ne_nil '.' p.domain, hdomain.labels_ne,
    hdomain.isLabelChar hbracket, hdigits, fun hempty => ?_, hstart,
    ((exists_parsePath?_iff _ _).1 ⟨p.path, hpath⟩).1⟩, ?_⟩
  · refine or_iff_not_imp_left.2 fun hnone => ?_
    have hprotocol : p.protocol = none := not_not.1 hnone
    have hbare : s.host ++ ':' :: s.remainder = rest := by
      rw [← hrest, Spelling.portText, hempty]
      simp
    rw [hprotocol, schemeSplit, htext, hprotocol, Option.elim_none, List.nil_append,
      ← hbare] at hsplit
    exact isScheme_eq_false_of_absent hsplit hstart
  · rw [Spelling.text, hrest, htext]

/-- A text is a pattern exactly when it has no forbidden mark and a valid spelling, and however it
is spelled, the pattern has the parts of the spelling. -/
theorem parse_isOk_iff_spelling (raw : Text) :
    let t := Text.lower (Text.trim raw)
    ((∃ p, parse raw = .ok p) ↔
      (∀ c ∈ t, isForbidden c = false) ∧ ∃ s : Spelling, s.Valid ∧ s.text = t) ∧
    ∀ p, parse raw = .ok p → ∀ s : Spelling, s.Valid → s.text = t →
      p.protocol = s.scheme ∧ p.subdomainsOnly = s.subdomainsOnly ∧
        p.domain = ['.'].intercalate s.labels ∧
        (p.matchesQuery = true ↔ '?' ∈ s.remainder ∨ '#' ∈ s.remainder) := by
  have hforbidden : ∀ {p}, parse raw = .ok p →
      ∀ c ∈ Text.lower (Text.trim raw), isForbidden c = false :=
    fun h c hc => ((parse_eq_ok_iff.1 h).2.1 c hc).2
  refine ⟨⟨?_, ?_⟩, ?_⟩
  · rintro ⟨p, h⟩
    exact ⟨hforbidden h, exists_spelling h⟩
  · rintro ⟨hplain, s, hvalid, ht⟩
    obtain ⟨path, h⟩ := hvalid.parse_eq_ok ht (ht ▸ hplain)
    exact ⟨_, h⟩
  · intro p h s hvalid ht
    obtain ⟨path, hs⟩ := hvalid.parse_eq_ok ht (ht ▸ hforbidden h)
    cases h.symm.trans hs
    refine ⟨rfl, rfl, rfl, ?_⟩
    simp [startsQuery, and_or_left, exists_or]

/-- A bare colon behind a host that is no scheme, and a query right behind it: white space, case,
the final dot and the colon leave no trace in the pattern. -/
theorem parse_isOk_iff_spelling_bareColon :
    let raw := " *.A_1.Example.:?q/ ".toList
    let s : Spelling := ⟨none, true, ["a_1".toList, "example".toList], true, some [], "?q/".toList⟩
    s.Valid ∧ s.text = Text.lower (Text.trim raw) ∧
      ∃ p, parse raw = .ok p ∧ p.protocol = none ∧ p.subdomainsOnly = true ∧
        p.domain = "a_1.example".toList ∧ p.matchesQuery = true := by
  intro raw s
  have hlabels : s.labels.all (·.all isLabelChar) = true := by decide
  have hvalid : s.Valid :=
    { scheme := nofun
      labels_ne := by decide
      label_ne := by decide
      label_char := by simpa only [List.all_eq_true] using hlabels
      port_digit := by simp [s]
      port_ne := fun _ => .inr (by decide)
      remainder_start := by simp [s, endsAuthority]
      path := by decide }
  have ht : s.text = Text.lower (Text.trim raw) := by decide +kernel
  have hplain : s.text.all (fun c => !isForbidden c) = true := by decide +kernel
  obtain ⟨hok, hparts⟩ := parse_isOk_iff_spelling raw
  obtain ⟨p, hp⟩ := hok.2 ⟨by simpa only [ht, List.all_eq_true, Bool.not_eq_true'] using hplain,
    s, hvalid, ht⟩
  obtain ⟨hprotocol, hwildcard, hdomain, hquery⟩ := hparts p hp s hvalid ht
  exact ⟨hvalid, ht, p, hp, hprotocol, hwildcard, hdomain, hquery.2 (by decide)⟩

end UrlPolicy.Pattern
