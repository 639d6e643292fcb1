import UrlPolicy.Proofs.Address

/-!
Spellings of addresses: the parts from which the text of an address is put together. Main
statement: an address in lower case, without white space around it, is read as what its parts say,
whatever stands in the user, in the port and behind the host.
-/

set_option autoImplicit false

namespace UrlPolicy.Address

structure Origin where
  scheme : Text
  user : Option Text
  deriving DecidableEq, Repr

def Origin.text (o : Origin) : Text := o.scheme ++ "://".toList ++ userText o.user

/-- What the text of an address is put together from. -/
structure Spelling where
  origin : Option Origin
  host : Text
  /-- Whether a dot follows the host. -/
  finalDot : Bool
  /-- What follows a colon behind the host. -/
  port : Option Text
  /-- The path, the query and the fragment. -/
  remainder : Text
  deriving DecidableEq, Repr

namespace Spelling

def dot (s : Spelling) : Text := if s.finalDot then ['.'] else []

def hostPort (s : Spelling) : Text := s.host ++ s.dot ++ portText s.port

def text (s : Spelling) : Text := s.origin.elim [] Origin.text ++ s.hostPort ++ s.remainder

/-- The path with its query and fragment. The root is the path of an address that has none. -/
def target (s : Spelling) : Text :=
  if s.remainder.head? = some '/' then s.remainder else '/' :: s.remainder

/-- A user may hold any character that does not end the part with the host, also `@` and `:`. -/
structure Valid (s : Spelling) : Prop where
  scheme : ∀ o ∈ s.origin, isScheme o.scheme = true
  user : ∀ o ∈ s.origin, ∀ u ∈ o.user, ∀ c ∈ u, endsAuthority c = false
  host_ne : s.host ≠ []
  host_char : ∀ c ∈ s.host, isHostChar c = true
  host_end : s.host.getLast? ≠ some '.'
  port_digit : ∀ digits ∈ s.port, ∀ c ∈ digits, c.isDigit = true
  /-- Without a scheme, a bare colon would make a scheme of the host. -/
  port_ne : s.origin = none → s.port ≠ some []
  remainder_start : ∀ c ∈ s.remainder.head?, endsAuthority c = true

theorem rooted_remainder (s : Spelling) : rooted s.remainder = s.target := by
  rw [target, rooted.eq_def]
  split
  · next h => simp [h]
  · next hslash =>
    rw [if_neg]
    intro hhead
    obtain ⟨t, ht⟩ := List.head?_eq_some_iff.1 hhead
    exact hslash t ht

namespace Valid

variable {s : Spelling}

theorem not_mem_hostMarks (h : s.Valid) : ∀ c ∈ s.host ++ s.dot, c ∉ hostMarks := by
  have hchar : ∀ c ∈ s.host ++ s.dot, isHostChar c = true := by
    intro c hc
    rcases List.mem_append.1 hc with hc | hc
    · exact h.host_char c hc
    · rw [dot, List.mem_ite_nil_right] at hc
      rw [List.mem_singleton.1 hc.2]
      rfl
  intro c hc hmark
  have hc := hchar c hc
  rw [not_isHostChar_of_mem hmark] at hc
  cases hc

/-- Without a scheme in front, the first colon is the one of the port or stands behind the host. -/
theorem schemeSplit_hostPort (h : s.Valid) (horigin : s.origin = none) :
    SchemeSplit.of (s.hostPort ++ s.remainder) = .absent (s.hostPort ++ s.remainder) := by
  have hhost : ∀ c ∈ s.host ++ s.dot, stopsScheme c = false := fun c hc =>
    stopsScheme_of_not_mem (h.not_mem_hostMarks c hc)
  rw [hostPort]
  cases hport : s.port with
  | none =>
    rw [portText, Option.elim_none, List.append_nil]
    exact SchemeSplit.of_absent hhost h.remainder_start
  | some digits =>
    have hdigits : ∀ c ∈ digits, c.isDigit = true := h.port_digit digits hport
    have hne : digits ≠ [] := fun hnil => h.port_ne horigin (by rw [hport, hnil])
    rw [portText, Option.elim_some, List.append_assoc, List.cons_append,
      SchemeSplit.of_colon_eq_absent_iff hhost]
    refine ⟨fun rest hslashes => ?_, .inl ((startsWithPort_append hdigits h.remainder_start).2 hne)⟩
    obtain ⟨c, more, rfl⟩ := List.exists_cons_of_ne_nil hne
    have hslash : c = '/' := (List.cons.inj hslashes).1
    exact absurd (hdigits c (by simp)) (by rw [hslash]; decide)

theorem splitAuthority_user (h : s.Valid) {user : Option Text}
    (huser : ∀ u ∈ user, ∀ c ∈ u, endsAuthority c = false) :
    splitAuthority (userText user ++ s.hostPort ++ s.remainder) =
      (userText user ++ s.hostPort, s.remainder) := by
  refine splitAuthority_append (fun c hc => ?_) h.remainder_start
  rcases List.mem_append.1 hc with hc | hc
  · exact not_endsAuthority_userText huser c hc
  · exact not_endsAuthority_append_portText h.not_mem_hostMarks h.port_digit c hc

theorem isHost (h : s.Valid) : isHost s.host = true :=
  (isHost_iff fun hc => absurd (h.host_char '[' hc) (by decide)).2 ⟨h.host_ne, h.host_char⟩

theorem read_eq_target (h : s.Valid) {raw : Text}
    (ht : Text.lower (Text.trim raw) = s.text) :
    read raw = ⟨s.text, s.origin.map Origin.scheme, some ⟨s.host, s.target⟩⟩ := by
  have hread {protocol user : Option Text}
      (huser : ∀ u ∈ user, ∀ c ∈ u, endsAuthority c = false)
      (hsplit : SchemeSplit.of s.text = Pattern.schemeSplit protocol
        (userText user ++ s.hostPort ++ s.remainder)) :
      read raw = ⟨s.text, protocol, some ⟨s.host, s.target⟩⟩ := by
    have hauthority := h.splitAuthority_user huser
    have hhost : hostOf? (userText user ++ s.hostPort) = some (s.host ++ s.dot) :=
      hostOf?_userText_append user h.not_mem_hostMarks h.port_digit
    have hdot : Text.chop '.' (s.host ++ s.dot) = s.host :=
      Text.chop_append_ite s.finalDot h.host_end
    rw [← ht] at hsplit
    rw [read_eq hsplit (by rw [hauthority, hhost, Option.map_some, hdot]) h.isHost,
      hauthority, s.rooted_remainder, ht]
  cases horigin : s.origin with
  | none =>
    have htext : s.text = s.hostPort ++ s.remainder := by rw [text, horigin]; rfl
    have huser : ∀ u ∈ (none : Option Text), ∀ c ∈ u, endsAuthority c = false := by simp
    refine hread huser ?_
    rw [htext, h.schemeSplit_hostPort horigin]
    rfl
  | some o =>
    have htext : s.text = o.scheme ++ ':' :: '/' :: '/' ::
        (userText o.user ++ s.hostPort ++ s.remainder) := by
      simp [text, horigin, Origin.text]
    refine hread (h.user o horigin) ?_
    rw [htext, SchemeSplit.of_hierarchical _ (h.scheme o horigin)]
    rfl

end Valid

end Spelling

/-- An address is read off its spelling: the scheme and the host as they are written, without the
user, the port and the final dot, and everything behind them with a slash in front. The path is
what precedes the query. -/
theorem read_of_spelling {w : Text} {s : Spelling} (hs : s.Valid) (ht : s.text = w)
    (hlower : Text.lower w = w) (htrim : Text.trim w = w) :
    read w = ⟨w, s.origin.map Origin.scheme, some ⟨s.host, s.target⟩⟩ ∧
      (read w).host = s.host ∧
      ∃ query, s.target = (read w).path ++ query ∧
        (∀ c ∈ (read w).path, c ≠ '?' ∧ c ≠ '#') ∧ ∀ c ∈ query.head?, c = '?' ∨ c = '#' := by
  have hread := hs.read_eq_target (show Text.lower (Text.trim w) = s.text by rw [htrim, hlower, ht])
  rw [ht] at hread
  have hpath : (read w).path = (splitQuery s.target).1 := by
    rw [hread]
    rfl
  refine ⟨hread, by rw [hread]; rfl, (splitQuery s.target).2, ?_, ?_, ?_⟩
  · rw [hpath, splitQuery_append]
  · intro c hc
    rw [hpath] at hc
    rw [← not_or, ← startsQuery_iff, not_startsQuery_of_mem hc]
    simp
  · exact fun c hc => startsQuery_iff.1 (startsQuery_of_head hc)

/-- Other hosts and ports in the user and in the query are not taken for the host. -/
theorem read_of_spelling_decoys :
    let w := "https://a@evil.org:80@b.example.com.:8080?u=//c@d.net:1/".toList
    let s : Spelling := ⟨some ⟨"https".toList, some "a@evil.org:80".toList⟩, "b.example.com".toList,
      true, some "8080".toList, "?u=//c@d.net:1/".toList⟩
    s.Valid ∧ s.text = w ∧ Text.lower w = w ∧ Text.trim w = w ∧
      read w = ⟨w, some "https".toList,
        some ⟨"b.example.com".toList, "/?u=//c@d.net:1/".toList⟩⟩ := by
  intro w s
  have huser : "a@evil.org:80".toList.all (fun c => !endsAuthority c) = true := by decide
  have hchar : s.host.all isHostChar = true := by decide
  have hvalid : s.Valid :=
    { scheme := by rintro _ ⟨⟩; rfl
      user := by rintro _ ⟨⟩ _ ⟨⟩; simpa using huser
      host_ne := by decide
      host_char := List.all_eq_true.1 hchar
      host_end := by decide
      port_digit := by rintro _ ⟨⟩; simp
      port_ne := nofun
      remainder_start := by rintro _ ⟨⟩; rfl }
  have htext : s.text = w := by decide
  have hlower : Text.lower w = w := by decide +kernel
  have htrim : Text.trim w = w := by decide +kernel
  exact ⟨hvalid, htext, hlower, htrim, (read_of_spelling hvalid htext hlower htrim).1⟩

end UrlPolicy.Address
