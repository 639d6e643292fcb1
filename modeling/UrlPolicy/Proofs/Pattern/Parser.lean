import UrlPolicy.Pattern.Parser
import UrlPolicy.Proofs.Host
import UrlPolicy.Proofs.Pattern.Path
import UrlPolicy.Proofs.Scheme
import UrlPolicy.Proofs.Text.LowerCase

set_option autoImplicit false

namespace UrlPolicy.Pattern

def IsPlain (c : Char) : Prop := Text.IsLower c ∧ isForbidden c = false

instance (c : Char) : Decidable (IsPlain c) := inferInstanceAs (Decidable (_ ∧ _))

theorem isBlank_of_isPlain {c : Char} (h : IsPlain c) : Text.isBlank c = false := by
  have := h.2
  simp only [isForbidden, Bool.or_eq_false_iff] at this
  exact this.1.1

theorem not_isPlain_of_mark {c : Char} (h : c ∈ forbiddenMarks) : ¬ IsPlain c := by
  intro hplain
  have := hplain.2
  rw [isForbidden, List.contains_iff_mem.2 h, Bool.or_true] at this
  cases this

theorem lower_trim_of_isPlain {t : Text} (h : ∀ c ∈ t, IsPlain c) :
    Text.lower (Text.trim t) = t := by
  rw [Text.trim_eq_self fun c hc => isBlank_of_isPlain (h c hc)]
  exact Text.lower_eq_self fun c hc => (h c hc).1

def schemeSplit (protocol : Option Text) (rest : Text) : SchemeSplit :=
  match protocol with
  | none => .absent rest
  | some scheme => .hierarchical scheme rest

theorem schemeSplit_append {protocol : Option Text} {host t : Text}
    (hscheme : ∀ s ∈ protocol, isScheme s = true) (hhost : ∀ c ∈ host, c ∉ hostMarks)
    (ht : ∀ c ∈ t.head?, endsAuthority c = true) :
    SchemeSplit.of (protocol.elim [] (· ++ "://".toList) ++ (host ++ t)) =
      schemeSplit protocol (host ++ t) := by
  cases protocol with
  | none =>
    rw [Option.elim_none, List.nil_append]
    exact SchemeSplit.of_absent (fun c hc => stopsScheme_of_not_mem (hhost c hc)) ht
  | some s =>
    rw [Option.elim_some, List.append_assoc]
    exact SchemeSplit.of_hierarchical _ (hscheme s rfl)

theorem eq_of_schemeSplit {t rest : Text} {protocol : Option Text}
    (h : SchemeSplit.of t = schemeSplit protocol rest) :
    (∀ s ∈ protocol, isScheme s = true) ∧
      t = protocol.elim [] (· ++ "://".toList) ++ rest := by
  cases protocol with
  | none => exact ⟨by simp, (SchemeSplit.of_eq_absent h).symm⟩
  | some s =>
    obtain ⟨hs, ht⟩ := SchemeSplit.of_eq_hierarchical h
    exact ⟨by simpa using hs, by simpa using ht⟩

theorem not_mem_splitAuthority_fst {t rest : Text} {protocol : Option Text}
    (ht : t = protocol.elim [] (· ++ "://".toList) ++ rest) (hplain : ∀ c ∈ t, IsPlain c) :
    ∀ c ∈ forbiddenMarks, c ∉ (splitAuthority rest).1 := by
  intro c hmark hc
  refine not_isPlain_of_mark hmark (hplain c ?_)
  rw [ht, ← splitAuthority_fst_append_snd rest]
  simp [hc]

theorem parse_eq_ok_iff {raw : Text} {p : Pattern} :
    parse raw = .ok p ↔
      Text.lower (Text.trim raw) ≠ [] ∧ (∀ c ∈ Text.lower (Text.trim raw), IsPlain c) ∧
        ∃ protocol rest, SchemeSplit.of (Text.lower (Text.trim raw)) = schemeSplit protocol rest ∧
          parseHierarchy (Text.lower (Text.trim raw)) protocol rest = .ok p := by
  have hlower : ∀ c ∈ Text.lower (Text.trim raw), Text.IsLower c :=
    fun c hc => Text.isLower_of_mem_lower hc
  simp only [parse]
  generalize Text.lower (Text.trim raw) = text at *
  constructor
  · intro h
    split at h
    · cases h
    next hne =>
    split at h
    · cases h
    next hforbidden =>
    have hplain : ∀ c ∈ text, IsPlain c := fun c hc =>
      ⟨hlower c hc, by simpa using List.find?_eq_none.1 hforbidden c hc⟩
    split at h
    · next scheme rest hsplit => exact ⟨hne, hplain, some scheme, rest, hsplit, h⟩
    · next rest hsplit => exact ⟨hne, hplain, none, rest, hsplit, h⟩
    all_goals cases h
  · rintro ⟨hne, hplain, protocol, rest, hsplit, h⟩
    have hforbidden : text.find? isForbidden = none :=
      List.find?_eq_none.2 fun c hc => by simp [(hplain c hc).2]
    rw [if_neg hne, hforbidden, hsplit]
    cases protocol <;> exact h

structure IsDomain (domain : Text) : Prop where
  labels_ne : [] ∉ List.splitOn '.' domain
  no_star : '*' ∉ domain
  isHost : isHost domain = true

def subdomainMark (subdomainsOnly : Bool) : Text := if subdomainsOnly then ['*', '.'] else []

theorem mem_subdomainMark {b : Bool} {c : Char} (h : c ∈ subdomainMark b) : c = '*' ∨ c = '.' := by
  cases b with
  | false => cases h
  | true => simpa [subdomainMark] using h

theorem IsDomain.ne_nil {domain : Text} (h : IsDomain domain) : domain ≠ [] := by
  rintro rfl
  exact h.labels_ne (by decide)

theorem IsDomain.chop_append_dot {domain dot : Text} (h : IsDomain domain)
    (hdot : dot = [] ∨ dot = ['.']) : Text.chop '.' (domain ++ dot) = domain := by
  rcases hdot with rfl | rfl
  · rw [List.append_nil, Text.chop_eq_self h.labels_ne]
  · exact Text.chop_append '.' domain

theorem dropStart?_subdomainMark {b : Bool} {domain : Text} (dot : Text) (h : IsDomain domain) :
    Text.dropStart? ['*', '.'] (subdomainMark b ++ domain ++ dot) =
      if b then some (domain ++ dot) else none := by
  cases b with
  | true => exact Text.dropStart?_eq_some_iff.2 (by simp [subdomainMark])
  | false =>
    cases hdrop : Text.dropStart? ['*', '.'] (subdomainMark false ++ domain ++ dot) with
    | none => rfl
    | some rest =>
      have hstart := Text.dropStart?_eq_some_iff.1 hdrop
      cases domain with
      | nil => exact absurd rfl h.ne_nil
      | cons c domain =>
        have hc : c = '*' := by simpa [subdomainMark] using (List.cons.inj hstart).1
        exact absurd (by simp [hc]) h.no_star

theorem IsDomain.base_subdomainMark {domain : Text} (h : IsDomain domain) (b : Bool) (dot : Text) :
    (Text.dropStart? ['*', '.'] (subdomainMark b ++ domain ++ dot)).isSome = b ∧
      (Text.dropStart? ['*', '.'] (subdomainMark b ++ domain ++ dot)).getD
        (subdomainMark b ++ domain ++ dot) = domain ++ dot := by
  rw [dropStart?_subdomainMark dot h]
  cases b <;> exact ⟨rfl, rfl⟩

theorem IsDomain.subdomainMark_append_ne {domain : Text} (h : IsDomain domain) (b : Bool)
    (dot : Text) : subdomainMark b ++ domain ++ dot ≠ ['*'] := by
  intro hstar
  obtain ⟨c, hc⟩ := List.exists_mem_of_ne_nil _ h.ne_nil
  have hmem : c ∈ ['*'] := by
    rw [← hstar]
    simp [hc]
  rw [List.mem_singleton.1 hmem] at hc
  exact h.no_star hc

theorem subdomainMark_append_base (host : Text) :
    subdomainMark (Text.dropStart? ['*', '.'] host).isSome ++
      (Text.dropStart? ['*', '.'] host).getD host = host := by
  cases hdrop : Text.dropStart? ['*', '.'] host with
  | none => rfl
  | some base => exact (Text.dropStart?_eq_some_iff.1 hdrop).symm

theorem parseHierarchy_eq_ok_iff {text rest : Text} {protocol : Option Text} {p : Pattern} :
    parseHierarchy text protocol rest = .ok p ↔
      p.protocol = protocol ∧ IsDomain p.domain ∧
        (∃ dot, (dot = [] ∨ dot = ['.']) ∧ hostOf? (splitAuthority rest).1 =
          some (subdomainMark p.subdomainsOnly ++ p.domain ++ dot)) ∧
        parsePath? (splitAuthority rest).2 = some (p.path, p.matchesQuery) := by
  constructor
  · intro h
    simp only [parseHierarchy] at h
    split at h
    · cases h
    next host hhost =>
    split at h
    · cases h
    next hstar =>
    split at h
    · cases h
    next hempty =>
    split at h
    · cases h
    next hlabels =>
    split at h
    · cases h
    next hvalid =>
    split at h
    · cases h
    next path matchesQuery hpath =>
    cases h
    have hmark := subdomainMark_append_base host
    simp only [Bool.or_eq_true, List.contains_iff_mem, not_or] at hstar
    refine ⟨rfl, ⟨?_, hstar.1, by simpa using hvalid⟩, ?_, hpath⟩
    · rwa [List.contains_iff_mem] at hlabels
    · rcases Text.chop_cases '.' ((Text.dropStart? ['*', '.'] host).getD host) with hdot | hdot
      · exact ⟨['.'], .inr rfl, by rw [hhost, List.append_assoc, ← hdot, hmark]⟩
      · exact ⟨[], .inl rfl, by rw [hhost, List.append_nil, hdot, hmark]⟩
  · rintro ⟨rfl, hdomain, ⟨dot, hdot, hhost⟩, hpath⟩
    obtain ⟨hsome, hbase⟩ := hdomain.base_subdomainMark p.subdomainsOnly dot
    simp only [parseHierarchy, hhost, hbase, hsome, hdomain.chop_append_dot hdot]
    rw [if_neg, if_neg hdomain.ne_nil, if_neg, if_neg, hpath]
    · simp [hdomain.isHost]
    · simpa using hdomain.labels_ne
    · rw [Bool.or_eq_true, List.contains_iff_mem, beq_iff_eq]
      exact not_or_intro hdomain.no_star (hdomain.subdomainMark_append_ne _ dot)

theorem parsePath?_cases {remainder : Text} {path : PathPattern} {matchesQuery : Bool}
    (h : parsePath? remainder = some (path, matchesQuery)) :
    (remainder = [] ∧ path = .anywhere ∧ matchesQuery = false) ∨
      ∃ body, rooted remainder = '/' :: body ∧ (∀ c, c ≠ '/' → (c ∈ body ↔ c ∈ remainder)) ∧
        PathPattern.parse? ('/' :: body) = some path ∧
        matchesQuery = ('/' :: body).any startsQuery := by
  by_cases hremainder : remainder = []
  · rw [parsePath?, if_pos hremainder] at h
    cases h
    exact .inl ⟨hremainder, rfl, rfl⟩
  · obtain ⟨body, hrooted, hbody⟩ := rooted_eq remainder
    rw [parsePath?, if_neg hremainder, hrooted] at h
    obtain ⟨path', hparse, heq⟩ := Option.map_eq_some_iff.1 h
    cases heq
    refine .inr ⟨body, hrooted, hbody, hparse, ?_⟩
    rw [List.any_cons, show startsQuery '/' = false from rfl, Bool.false_or, Bool.eq_iff_iff,
      List.any_eq_true, List.any_eq_true]
    exact exists_congr fun c => and_congr_left fun hc =>
      (hbody c (ne_slash_of_startsQuery hc)).symm

end UrlPolicy.Pattern
