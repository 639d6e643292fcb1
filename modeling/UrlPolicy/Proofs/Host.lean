import UrlPolicy.Host
import UrlPolicy.Proofs.Scheme

set_option autoImplicit false

namespace UrlPolicy

theorem splitAuthority_append {t u : Text} (ht : ∀ c ∈ t, endsAuthority c = false)
    (hu : ∀ c ∈ u.head?, endsAuthority c = true) : splitAuthority (t ++ u) = (t, u) := by
  have hpass : ∀ c ∈ t, (!endsAuthority c) = true := by simpa using ht
  have hstop : ∀ c ∈ u.head?, (!endsAuthority c) = false := by simpa using hu
  rw [splitAuthority, Text.takeWhile_append_stop hpass hstop,
    Text.dropWhile_append_stop hpass hstop]

theorem splitAuthority_fst_append_snd (t : Text) :
    (splitAuthority t).1 ++ (splitAuthority t).2 = t :=
  List.takeWhile_append_dropWhile

theorem not_endsAuthority_of_mem_fst {c : Char} {t : Text} (h : c ∈ (splitAuthority t).1) :
    endsAuthority c = false := by
  simpa using List.mem_takeWhile_imp h

theorem head?_splitAuthority_snd {t : Text} {c : Char} (h : c ∈ (splitAuthority t).2.head?) :
    endsAuthority c = true := by
  simpa using Text.head?_dropWhile h

theorem head?_of_isPort {c : Char} {port : Text} (h : isPort port = true) (hc : c ∈ port.head?) :
    c = ':' := by
  rw [isPort.eq_def] at h
  split at h
  · simpa using hc.symm
  · cases h

/-- Without a user and without a bracket in front, the host is what stands before the port. -/
theorem hostOf?_eq_some_iff_of_head? {authority host : Text} (huser : '@' ∉ authority)
    (hbracket : authority.head? ≠ some '[') : hostOf? authority = some host ↔
      ':' ∉ host ∧ ∃ port, authority = host ++ port ∧ (port = [] ∨ isPort port = true) := by
  have hcut := List.takeWhile_append_dropWhile (p := (· ≠ ':')) (l := authority)
  have hcolon : ':' ∉ authority.takeWhile (· ≠ ':') := fun h => by
    simpa using List.mem_takeWhile_imp h
  have hread : authority.dropWhile (· ≠ ':') = [] ∧ hostOf? authority = some authority ∨
      authority.dropWhile (· ≠ ':') ≠ [] ∧ hostOf? authority =
        if isPort (authority.dropWhile (· ≠ ':')) then some (authority.takeWhile (· ≠ ':'))
        else none := by
    rw [hostOf?, Text.afterLast_eq_self huser]
    split
    · simp at hbracket
    · split
      · next hport => exact .inl ⟨hport, rfl⟩
      · next hport => exact .inr ⟨hport, rfl⟩
  constructor
  · intro h
    rcases hread with ⟨hport, hhost⟩ | ⟨_, hhost⟩
    · rw [hport, List.append_nil] at hcut
      cases hhost.symm.trans h
      exact ⟨by rwa [hcut] at hcolon, [], by simp, .inl rfl⟩
    · rw [hhost] at h
      split at h
      · next hport =>
        cases h
        exact ⟨hcolon, _, hcut.symm, .inr hport⟩
      · cases h
  · rintro ⟨hhost, port, rfl, hport⟩
    have hpass : ∀ c ∈ host, decide (c ≠ ':') = true := by
      simpa using fun c hc => ne_of_mem_of_not_mem hc hhost
    have hstop : ∀ c ∈ port.head?, decide (c ≠ ':') = false := by
      rcases hport with rfl | hport
      · simp
      · simpa using fun c hc => head?_of_isPort hport hc
    rw [Text.dropWhile_append_stop hpass hstop, Text.takeWhile_append_stop hpass hstop] at hread
    rcases hread with ⟨rfl, hread⟩ | ⟨hne, hread⟩
    · rw [hread, List.append_nil]
    · rw [hread, if_pos (hport.resolve_left hne)]

theorem hostOf?_eq_some_iff {authority host : Text} (huser : '@' ∉ authority)
    (hbracket : '[' ∉ authority) : hostOf? authority = some host ↔
      ':' ∉ host ∧ ∃ port, authority = host ++ port ∧ (port = [] ∨ isPort port = true) :=
  hostOf?_eq_some_iff_of_head? huser fun h => hbracket (List.mem_of_mem_head? h)

theorem hostOf?_append_at (u : Text) {t : Text} (h : '@' ∉ t) :
    hostOf? (u ++ '@' :: t) = hostOf? t := by
  simp only [hostOf?, Text.afterLast_append u h, Text.afterLast_eq_self h]

/-- A host that shows by itself where it ends: at the first closing bracket, or in front of a
colon. -/
def IsDelimited (host : Text) : Prop :=
  (∃ inner, ']' ∉ inner ∧ host = '[' :: (inner ++ [']'])) ∨ host.head? ≠ some '[' ∧ ':' ∉ host

theorem hostOf?_bracket_append {inner port : Text} (huser : '@' ∉ '[' :: (inner ++ ']' :: port))
    (hinner : ']' ∉ inner) : hostOf? ('[' :: (inner ++ ']' :: port)) =
      if port = [] ∨ isPort port = true then some ('[' :: (inner ++ [']'])) else none := by
  have hpass : ∀ c ∈ '[' :: inner, decide (c ≠ ']') = true := by
    simpa using fun c hc => ne_of_mem_of_not_mem hc hinner
  have hstop : ∀ c ∈ (']' :: port).head?, decide (c ≠ ']') = false := by simp
  have hdrop := Text.dropWhile_append_stop hpass hstop
  have htake := Text.takeWhile_append_stop hpass hstop
  rw [List.cons_append] at hdrop htake
  rw [hostOf?, Text.afterLast_eq_self huser]
  simp only [hdrop, htake, Bool.or_eq_true, decide_eq_true_eq, List.cons_append]

theorem hostOf?_eq_none_of_open {t : Text} (huser : '@' ∉ '[' :: t) (h : ']' ∉ t) :
    hostOf? ('[' :: t) = none := by
  have hpass : ∀ c ∈ '[' :: t, decide (c ≠ ']') = true := by
    simpa using fun c hc => ne_of_mem_of_not_mem hc h
  rw [hostOf?, Text.afterLast_eq_self huser]
  simp only [List.dropWhile_eq_nil_iff.2 hpass]

theorem hostOf?_bracket_iff {t host : Text} (huser : '@' ∉ '[' :: t) :
    hostOf? ('[' :: t) = some host ↔ ∃ inner port, ']' ∉ inner ∧ host = '[' :: (inner ++ [']']) ∧
      t = inner ++ ']' :: port ∧ (port = [] ∨ isPort port = true) := by
  constructor
  · intro h
    by_cases hclose : ']' ∈ t
    · obtain ⟨inner, port, rfl, hinner⟩ := List.eq_append_cons_of_mem hclose
      rw [hostOf?_bracket_append huser hinner] at h
      split at h
      · next hport =>
        cases h
        exact ⟨inner, port, hinner, rfl, rfl, hport⟩
      · cases h
    · rw [hostOf?_eq_none_of_open huser hclose] at h
      cases h
  · rintro ⟨inner, port, hinner, rfl, rfl, hport⟩
    rw [hostOf?_bracket_append huser hinner, if_pos hport]

theorem hostOf?_eq_some_iff_isDelimited {authority host : Text} (huser : '@' ∉ authority) :
    hostOf? authority = some host ↔
      IsDelimited host ∧ ∃ port, authority = host ++ port ∧ (port = [] ∨ isPort port = true) := by
  by_cases hbracket : authority.head? = some '['
  · obtain ⟨t, rfl⟩ := List.head?_eq_some_iff.1 hbracket
    rw [hostOf?_bracket_iff huser]
    constructor
    · rintro ⟨inner, port, hinner, rfl, rfl, hport⟩
      exact ⟨.inl ⟨inner, hinner, rfl⟩, port, by simp, hport⟩
    · rintro ⟨⟨inner, hinner, rfl⟩ | ⟨hhead, _⟩, port, ht, hport⟩
      · exact ⟨inner, port, hinner, rfl, by simpa using ht, hport⟩
      · -- a host without a bracket could only be empty here, with a bracket for a port
        exfalso
        cases host with
        | nil =>
          rw [List.nil_append] at ht
          subst ht
          exact absurd (head?_of_isPort (hport.resolve_left (by simp)) hbracket) (by decide)
        | cons c host => exact hhead (by simp_all)
  · rw [hostOf?_eq_some_iff_of_head? huser hbracket]
    constructor
    · rintro ⟨hcolon, port, rfl, hport⟩
      refine ⟨.inr ⟨fun hhead => hbracket ?_, hcolon⟩, port, rfl, hport⟩
      rw [List.head?_append, hhead, Option.some_or]
    · rintro ⟨⟨inner, hinner, rfl⟩ | ⟨_, hcolon⟩, port, rfl, hport⟩
      · exact absurd rfl hbracket
      · exact ⟨hcolon, port, rfl, hport⟩

def portText (port : Option Text) : Text := port.elim [] (':' :: ·)

theorem mem_portText {port : Option Text} (h : ∀ digits ∈ port, ∀ c ∈ digits, c.isDigit = true)
    {c : Char} (hc : c ∈ portText port) : c = ':' ∨ c.isDigit = true := by
  cases port with
  | none => cases hc
  | some digits => exact (List.mem_cons.1 hc).imp_right (h digits rfl c)

theorem isPort_portText {port : Option Text}
    (h : ∀ digits ∈ port, ∀ c ∈ digits, c.isDigit = true) :
    portText port = [] ∨ isPort (portText port) = true := by
  cases port with
  | none => exact .inl rfl
  | some digits => exact .inr (List.all_eq_true.2 (h digits rfl))

def userText (user : Option Text) : Text := user.elim [] (· ++ ['@'])

/-- The user goes up to the last `@`, and the port from the end of the host on. -/
theorem hostOf?_eq_some_iff_userText {authority host : Text} :
    hostOf? authority = some host ↔ ∃ user port, authority = userText user ++ (host ++ port) ∧
      '@' ∉ host ++ port ∧ IsDelimited host ∧ (port = [] ∨ isPort port = true) := by
  constructor
  · intro h
    by_cases huser : '@' ∈ authority
    · obtain ⟨user, hauthority⟩ := Text.exists_append_afterLast huser
      have hat := Text.not_mem_afterLast '@' authority
      rw [hauthority, hostOf?_append_at user hat, hostOf?_eq_some_iff_isDelimited hat] at h
      obtain ⟨hhost, port, hport⟩ := h
      rw [hport.1] at hat hauthority
      exact ⟨some user, port, by rw [hauthority]; simp [userText], hat, hhost, hport.2⟩
    · obtain ⟨hhost, port, rfl, hport⟩ := (hostOf?_eq_some_iff_isDelimited huser).1 h
      exact ⟨none, port, rfl, huser, hhost, hport⟩
  · rintro ⟨user, port, rfl, hat, hhost, hport⟩
    have hread := (hostOf?_eq_some_iff_isDelimited hat).2 ⟨hhost, port, rfl, hport⟩
    cases user with
    | none => exact hread
    | some u =>
      rw [userText, Option.elim_some, List.append_assoc, List.singleton_append,
        hostOf?_append_at u hat, hread]

theorem not_endsAuthority_userText {user : Option Text}
    (h : ∀ u ∈ user, ∀ c ∈ u, endsAuthority c = false) :
    ∀ c ∈ userText user, endsAuthority c = false := by
  intro c hc
  cases user with
  | none => cases hc
  | some u =>
    rcases List.mem_append.1 hc with hc | hc
    · exact h u rfl c hc
    · rw [List.mem_singleton.1 hc]
      rfl

def isHostChar (c : Char) : Bool := Text.isAlphanumeric c || c == '-' || c == '.' || c == '_'

theorem isHost_iff {host : Text} (h : '[' ∉ host) :
    isHost host = true ↔ host ≠ [] ∧ ∀ c ∈ host, isHostChar c = true := by
  have hbracketed : bracketed? host = none := by
    rw [bracketed?, Option.bind_eq_none_iff]
    intro inner hinner
    rw [Text.dropStart?_eq_some_iff.1 hinner] at h
    simp at h
  rw [isHost, hbracketed]
  simp [isHostChar]

/-- Marks that end a host, or that no host without brackets has. -/
def hostMarks : List Char := ['/', '?', '#', ':', '@', '[']

theorem stopsScheme_of_not_mem {c : Char} (h : c ∉ hostMarks) : stopsScheme c = false := by
  simp [hostMarks] at h
  simp [stopsScheme, endsAuthority, h]

theorem endsAuthority_of_not_mem {c : Char} (h : c ∉ hostMarks) : endsAuthority c = false := by
  simp [hostMarks] at h
  simp [endsAuthority, h]

theorem not_isHostChar_of_mem {c : Char} (h : c ∈ hostMarks) : isHostChar c = false := by
  have hall : hostMarks.all (fun c => !isHostChar c) = true := by decide
  simpa using List.all_eq_true.1 hall c h

theorem not_mem_hostMarks_of_isHost {host : Text} (h : isHost host = true) (hbracket : '[' ∉ host) :
    ∀ c ∈ host, c ∉ hostMarks := by
  intro c hc hmark
  have hchar := ((isHost_iff hbracket).1 h).2 c hc
  rw [not_isHostChar_of_mem hmark] at hchar
  cases hchar

section

variable {host : Text} {port : Option Text}

theorem not_mem_append_portText (hhost : ∀ c ∈ host, c ∉ hostMarks)
    (hport : ∀ digits ∈ port, ∀ c ∈ digits, c.isDigit = true) {c : Char} (hmark : c ∈ hostMarks)
    (hcolon : c ≠ ':') : c ∉ host ++ portText port := by
  have hall : hostMarks.all (fun c => !c.isDigit) = true := by decide
  intro hc
  rcases List.mem_append.1 hc with hc | hc
  · exact hhost c hc hmark
  · rcases mem_portText hport hc with hc | hdigit
    · exact hcolon hc
    · have hno := List.all_eq_true.1 hall c hmark
      rw [hdigit] at hno
      cases hno

theorem not_endsAuthority_append_portText (hhost : ∀ c ∈ host, c ∉ hostMarks)
    (hport : ∀ digits ∈ port, ∀ c ∈ digits, c.isDigit = true) :
    ∀ c ∈ host ++ portText port, endsAuthority c = false := by
  intro c hc
  rw [← Bool.not_eq_true]
  intro hend
  rcases endsAuthority_iff.1 hend with rfl | rfl | rfl <;>
    exact not_mem_append_portText hhost hport (by decide) (by decide) hc

/-- The host is found behind the last `@`, however many the user has. -/
theorem hostOf?_userText_append (user : Option Text) (hhost : ∀ c ∈ host, c ∉ hostMarks)
    (hport : ∀ digits ∈ port, ∀ c ∈ digits, c.isDigit = true) :
    hostOf? (userText user ++ (host ++ portText port)) = some host := by
  have hdelimited : IsDelimited host :=
    .inr ⟨fun h => hhost '[' (List.mem_of_mem_head? h) (by decide),
      fun h => hhost ':' h (by decide)⟩
  exact hostOf?_eq_some_iff_userText.2 ⟨user, portText port, rfl,
    not_mem_append_portText hhost hport (by decide) (by decide), hdelimited, isPort_portText hport⟩

theorem hostOf?_append_portText (hhost : ∀ c ∈ host, c ∉ hostMarks)
    (hport : ∀ digits ∈ port, ∀ c ∈ digits, c.isDigit = true) :
    hostOf? (host ++ portText port) = some host :=
  hostOf?_userText_append none hhost hport

end

end UrlPolicy
