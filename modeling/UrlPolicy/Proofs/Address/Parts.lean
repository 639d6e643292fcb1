import UrlPolicy.Keyword
import UrlPolicy.Proofs.Host
import UrlPolicy.Proofs.Path.Segments
import UrlPolicy.Proofs.Pattern.Parser

set_option autoImplicit false

namespace UrlPolicy

namespace Address

theorem text_read (raw : Text) : (read raw).text = Text.lower (Text.trim raw) := by
  rw [read]
  split <;> rfl

theorem locate?_eq_some_iff {kind : Option SchemeKind} {rest : Text} {l : Location} :
    locate? kind rest = some l ↔ ∃ host, hostOf? (splitAuthority rest).1 = some host ∧
      (isHost (Text.chop '.' host) = true ∨ kind = some .internal) ∧
        l = ⟨Text.chop '.' host, rooted (splitAuthority rest).2⟩ := by
  have hvalid (host : Text) : (isHost host || kind == some .internal) = true ↔
      isHost host = true ∨ kind = some .internal := by simp
  cases hhost : hostOf? (splitAuthority rest).1 with
  | none => simp [locate?, hhost]
  | some host =>
    simp only [locate?, hhost, Option.map_some, Option.some.injEq, exists_eq_left', hvalid]
    split
    · next h => simp only [h, Option.some.injEq, true_and, eq_comm (b := l)]
    · next h => simp only [h, false_and, reduceCtorEq]

/-- A text names a host between a user and a port, and goes on with `remainder`. The host has its
final dot here. -/
def NamesHost (text : Text) (protocol : Option Text) (host remainder : Text) : Prop :=
  ∃ (user : Option Text) (port : Text), SchemeSplit.of text =
      Pattern.schemeSplit protocol (userText user ++ (host ++ port) ++ remainder) ∧
    (∀ c ∈ userText user ++ (host ++ port), endsAuthority c = false) ∧
    (∀ c ∈ remainder.head?, endsAuthority c = true) ∧
    '@' ∉ host ++ port ∧ IsDelimited host ∧ (port = [] ∨ isPort port = true)

theorem namesHost_iff {text host remainder : Text} {protocol : Option Text} :
    NamesHost text protocol host remainder ↔ ∃ rest,
      SchemeSplit.of text = Pattern.schemeSplit protocol rest ∧
        hostOf? (splitAuthority rest).1 = some host ∧ (splitAuthority rest).2 = remainder := by
  constructor
  · rintro ⟨user, port, hsplit, hauthority, hremainder, hhost⟩
    refine ⟨_, hsplit, ?_⟩
    rw [splitAuthority_append hauthority hremainder]
    exact ⟨hostOf?_eq_some_iff_userText.2 ⟨user, port, rfl, hhost⟩, rfl⟩
  · rintro ⟨rest, hsplit, hhost, rfl⟩
    obtain ⟨user, port, hauthority, hhost⟩ := hostOf?_eq_some_iff_userText.1 hhost
    refine ⟨user, port, ?_, ?_, fun c hc => head?_splitAuthority_snd hc, hhost⟩
    · rw [← hauthority, splitAuthority_fst_append_snd, hsplit]
    · rw [← hauthority]
      exact fun c hc => not_endsAuthority_of_mem_fst hc

theorem NamesHost.eq {text host host' remainder remainder' : Text}
    {protocol protocol' : Option Text} (h : NamesHost text protocol host remainder)
    (h' : NamesHost text protocol' host' remainder') : host = host' := by
  obtain ⟨rest, hsplit, hhost, _⟩ := namesHost_iff.1 h
  obtain ⟨rest', hsplit', hhost', _⟩ := namesHost_iff.1 h'
  rw [hsplit] at hsplit'
  have hrest : rest = rest' := by
    cases protocol <;> cases protocol' <;> simp_all [Pattern.schemeSplit]
  rw [hrest, hhost'] at hhost
  exact (Option.some.inj hhost).symm

section

variable {text host remainder : Text} {protocol : Option Text}

theorem NamesHost.not_mem_chop (h : NamesHost text protocol host remainder) {c : Char}
    (hc : endsAuthority c = true ∨ c = '@') : c ∉ Text.chop '.' host := by
  intro hmem
  obtain ⟨user, port, _, hauthority, _, hat, _⟩ := h
  have hmem : c ∈ host ++ port := List.mem_append_left port (Text.mem_of_mem_chop hmem)
  rcases hc with hend | rfl
  · have hno := hauthority c (List.mem_append_right _ hmem)
    rw [hend] at hno
    cases hno
  · exact hat hmem

theorem NamesHost.exists_text (h : NamesHost text protocol host remainder) :
    ∃ before between, text = before ++ Text.chop '.' host ++ between ++ remainder := by
  obtain ⟨user, port, hsplit, _⟩ := h
  obtain ⟨_, htext⟩ := Pattern.eq_of_schemeSplit hsplit
  obtain ⟨dot, hdot⟩ := Text.chop_isPrefix '.' host
  refine ⟨protocol.elim [] (· ++ "://".toList) ++ userText user, dot ++ port, ?_⟩
  calc text
      = protocol.elim [] (· ++ "://".toList) ++
          (userText user ++ (Text.chop '.' host ++ dot ++ port) ++ remainder) := by
        rw [hdot, ← htext]
    _ = _ := by simp only [List.append_assoc]

end

theorem exists_namesHost {raw : Text} {l : Location} (h : (read raw).location = some l) :
    ∃ host remainder, NamesHost (read raw).text (read raw).scheme host remainder ∧
      (isHost l.host = true ∨ (read raw).isInternal = true) ∧
        l = ⟨Text.chop '.' host, rooted remainder⟩ := by
  have hlocate : ∃ rest, SchemeSplit.of (read raw).text =
      Pattern.schemeSplit (read raw).scheme rest ∧
        locate? (read raw).kind rest = some l := by
    rw [text_read]
    cases hsplit : SchemeSplit.of (Text.lower (Text.trim raw)) with
    | hierarchical scheme rest =>
      simp only [read, hsplit] at h ⊢
      exact ⟨rest, rfl, h⟩
    | bare scheme rest =>
      simp only [read, hsplit] at h
      cases h
    | absent rest =>
      simp only [read, hsplit] at h ⊢
      exact ⟨rest, rfl, h⟩
    | malformed =>
      simp only [read, hsplit] at h
      cases h
  obtain ⟨rest, hsplit, hlocate⟩ := hlocate
  obtain ⟨host, hhost, hvalid, rfl⟩ := locate?_eq_some_iff.1 hlocate
  refine ⟨host, _, namesHost_iff.2 ⟨rest, hsplit, hhost, rfl⟩, ?_, rfl⟩
  simpa [isInternal] using hvalid

structure Layout (a : Address) : Prop where
  rooted : a.target.head? = some '/'
  path_prefix : a.path <+: a.target
  path_marks : '?' ∉ a.path ∧ '#' ∉ a.path
  path_longest : ∀ t, t <+: a.target → '?' ∉ t ∧ '#' ∉ t → t <+: a.path
  host_marks : '/' ∉ a.host ∧ '?' ∉ a.host ∧ '#' ∉ a.host ∧ '@' ∉ a.host
  /-- What follows the host in the text is the target, without its first slash if that slash has
  been added. -/
  parts : ∃ before between rest, a.text = before ++ a.host ++ between ++ rest ∧
    (a.target = rest ∨ a.target = '/' :: rest ∧ rest.head? ≠ some '/')
  host_valid : a.isInternal = true ∨ isHost a.host = true

theorem layout_of_location {raw : Text} {l : Location} (h : (read raw).location = some l) :
    (read raw).Layout := by
  have hhost : (read raw).host = l.host := by rw [host, h]; rfl
  have htarget : (read raw).target = l.target := by rw [target, h]; rfl
  have hpath : ∀ c ∈ (read raw).path, startsQuery c = false := fun c hc => not_startsQuery_of_mem hc
  obtain ⟨host, remainder, hnames, hvalid, rfl⟩ := exists_namesHost h
  obtain ⟨before, between, htext⟩ := hnames.exists_text
  refine ⟨?rooted, List.takeWhile_prefix _, not_mem_of_no_query hpath,
    fun t => prefix_splitQuery, ?host_marks, ⟨before, between, remainder, ?text, ?target⟩, ?valid⟩
  case rooted =>
    obtain ⟨body, hbody, _⟩ := rooted_eq remainder
    rw [htarget, hbody]
    rfl
  case host_marks =>
    rw [hhost]
    exact ⟨hnames.not_mem_chop (.inl rfl), hnames.not_mem_chop (.inl rfl),
      hnames.not_mem_chop (.inl rfl), hnames.not_mem_chop (.inr rfl)⟩
  case text => rw [hhost, htext]
  case target => rw [htarget]; exact rooted_cases remainder
  case valid => rw [hhost]; exact hvalid.symm

theorem eq_text_of_location_eq_none {raw : Text} (h : (read raw).location = none) :
    (read raw).host = (read raw).text ∧ (read raw).target = [] ∧ (read raw).path = [] := by
  have htarget : (read raw).target = [] := by rw [target, h]; rfl
  refine ⟨?_, htarget, ?_⟩
  · rw [host, h]
    rfl
  · rw [path, htarget]
    rfl

theorem read_host_isInfix (raw : Text) : (read raw).host <:+: (read raw).text := by
  cases h : (read raw).location with
  | none =>
    have hhost := (eq_text_of_location_eq_none h).1
    exact ⟨[], [], by rw [hhost, List.nil_append, List.append_nil]⟩
  | some l =>
    obtain ⟨before, between, rest, htext, _⟩ := (layout_of_location h).parts
    exact ⟨before, between ++ rest, by rw [htext, List.append_assoc _ between]⟩

end Address

/-- The host is a part of the address, so looking in the address is enough. -/
theorem Keyword.occursIn_read_iff (k : Keyword) (raw : Text) :
    k.occursIn (Address.read raw) = true ↔ k.text <:+: (Address.read raw).text := by
  rw [occursIn, Bool.or_eq_true, Text.holds_iff_infix, Text.holds_iff_infix]
  exact or_iff_left_of_imp fun hhost => hhost.trans (Address.read_host_isInfix raw)

/-- A text either names no host, or has the parts of an address in order. In both cases a keyword
need not be looked for in the host once more. -/
theorem Address.read_layout (raw : Text) :
    (read raw).text = Text.lower (Text.trim raw) ∧
      ((read raw).location = none ∧ (read raw).host = (read raw).text ∧
          (read raw).target = [] ∧ (read raw).path = [] ∨
        (read raw).location.isSome = true ∧ (read raw).Layout) ∧
      ∀ k : Keyword, k.occursIn (read raw) = true ↔ k.text <:+: (read raw).text := by
  refine ⟨text_read raw, ?_, fun k => k.occursIn_read_iff raw⟩
  cases h : (read raw).location with
  | none => exact .inl ⟨rfl, eq_text_of_location_eq_none h⟩
  | some l => exact .inr ⟨rfl, layout_of_location h⟩

end UrlPolicy
