import UrlPolicy.Proofs.Address

/-!
What an address may have around its host and its path: a user, a dot behind the host, a port, a
slash at the end, and a query or fragment. Main statement: the scheme and the host are read alike
with and without them, and what follows the host is kept as it stands, up to the query.
-/

set_option autoImplicit false

namespace UrlPolicy

namespace Address

/-- Reading an address leaves the character as it is. -/
def IsSettled (c : Char) : Prop := Text.IsLower c ∧ Text.isBlank c = false

instance (c : Char) : Decidable (IsSettled c) := inferInstanceAs (Decidable (_ ∧ _))

def settledMarks : List Char := [':', '/', '.', '?', '#', '@']

theorem isSettled_of_mem {c : Char} (h : c ∈ settledMarks) : IsSettled c := by
  have hall : settledMarks.all (fun c => decide (IsSettled c)) = true := by decide
  simpa using List.all_eq_true.1 hall c h

theorem isSettled_of_isDigit {c : Char} (h : c.isDigit = true) : IsSettled c := by
  have hle : c.toNat ≤ 57 :=
    UInt32.le_iff_toNat_le.1 (of_decide_eq_true (Bool.and_eq_true_iff.1 h).2)
  have hall : ∀ n < 58, (Char.ofNat n).isDigit = true → IsSettled (Char.ofNat n) := by
    decide +kernel
  exact Text.forall_of_toNat_lt (P := fun c => c.isDigit = true → IsSettled c) hall (by omega) h

theorem startsQuery_of_head_lowerAfter {before query : Text}
    (h : ∀ c ∈ query.head?, startsQuery c = true) :
    ∀ c ∈ (Text.lowerAfter before (Text.trimEnd query)).head?, startsQuery c = true := by
  cases query with
  | nil => simp [Text.trimEnd, Text.lowerAfter]
  | cons c query =>
    have hstart : startsQuery c = true := h c rfl
    have hc : IsSettled c := by
      rcases startsQuery_iff.1 hstart with rfl | rfl <;> exact isSettled_of_mem (by decide)
    have hlower : Text.lowerAfter before ([c] ++ Text.trimEnd query) = _ :=
      Text.lowerAfter_append_of_isLower (Text.trimEnd query) (by simpa using hc.1)
    rw [Text.trimEnd_cons query hc.2, ← List.singleton_append, hlower]
    simpa using hstart

theorem isMark_of_endsAuthority {c : Char} (h : endsAuthority c = true) : Text.IsMark c := by
  rcases endsAuthority_iff.1 h with rfl | rfl | rfl <;> decide

end Address

structure Decoration where
  user : Option Text
  finalDot : Bool
  port : Option Text
  finalSlash : Bool
  /-- The query or the fragment with its mark. -/
  query : Text
  deriving DecidableEq, Repr

namespace Decoration

def bare : Decoration := ⟨none, false, none, false, []⟩

def userText (d : Decoration) : Text := d.user.elim [] (· ++ ['@'])

def dot (d : Decoration) : Text := if d.finalDot then ['.'] else []

def slash (d : Decoration) : Text := if d.finalSlash then ['/'] else []

/-- A user may hold any character that does not end the part with the host, also another `@`. -/
structure Valid (d : Decoration) : Prop where
  user : ∀ u ∈ d.user, ∀ c ∈ u, endsAuthority c = false
  port : ∀ digits ∈ d.port, ∀ c ∈ digits, c.isDigit = true
  query : ∀ c ∈ d.query.head?, startsQuery c = true

theorem bare_valid : bare.Valid := ⟨by simp [bare], by simp [bare], by simp [bare]⟩

theorem Valid.not_endsAuthority_userText {d : Decoration} (hd : d.Valid) :
    ∀ c ∈ d.userText, endsAuthority c = false :=
  UrlPolicy.not_endsAuthority_userText hd.user

theorem mem_dot {d : Decoration} {c : Char} (h : c ∈ d.dot) : c = '.' := by
  rw [dot, List.mem_ite_nil_right] at h
  exact List.mem_singleton.1 h.2

theorem mem_slash {d : Decoration} {c : Char} (h : c ∈ d.slash) : c = '/' := by
  rw [slash, List.mem_ite_nil_right] at h
  exact List.mem_singleton.1 h.2

end Decoration

/-- The parts of an address that rules are compared with. -/
structure Page where
  scheme : Text
  host : Text
  path : Text
  deriving DecidableEq, Repr

namespace Page

open Address (IsSettled isSettled_of_mem isSettled_of_isDigit isMark_of_endsAuthority
  startsQuery_of_head_lowerAfter)

def front (g : Page) : Text := g.scheme ++ "://".toList

def hostPort (g : Page) (d : Decoration) : Text := g.host ++ d.dot ++ portText d.port

def body (g : Page) (d : Decoration) : Text := g.hostPort d ++ (g.path ++ d.slash)

def text (g : Page) (d : Decoration) : Text :=
  g.scheme ++ "://".toList ++ d.userText ++ g.host ++ d.dot ++ portText d.port ++ g.path ++
    d.slash ++ d.query

def plainText (g : Page) : Text := g.scheme ++ "://".toList ++ g.host ++ g.path

structure Valid (g : Page) : Prop where
  scheme : isScheme g.scheme = true
  host_ne : g.host ≠ []
  host_char : ∀ c ∈ g.host, isHostChar c = true
  host_end : g.host.getLast? ≠ some '.'
  path_start : ∀ c ∈ g.path.head?, c = '/'
  path_query : ∀ c ∈ g.path, startsQuery c = false
  path_end : g.path.getLast? ≠ some '/'
  lower : ∀ t ∈ [g.scheme, g.host, g.path], Text.lower t = t
  no_blank : ∀ t ∈ [g.scheme, g.host, g.path], ∀ c ∈ t, Text.isBlank c = false

theorem text_bare (g : Page) : g.text .bare = g.plainText := by
  simp [text, plainText, portText, Decoration.bare, Decoration.userText, Decoration.dot,
    Decoration.slash]

theorem text_eq (g : Page) (d : Decoration) :
    g.text d = g.front ++ d.userText ++ g.body d ++ d.query := by
  simp [text, front, body, hostPort]

section

variable {g : Page} {d : Decoration}

theorem Valid.isSettled (hg : g.Valid) {t : Text} (ht : t ∈ [g.scheme, g.host, g.path]) :
    ∀ c ∈ t, IsSettled c :=
  fun c hc => ⟨Text.lower_eq_self_iff.1 (hg.lower t ht) c hc, hg.no_blank t ht c hc⟩

theorem Valid.isSettled_front (hg : g.Valid) : ∀ c ∈ g.front, IsSettled c := by
  intro c hc
  rcases List.mem_append.1 hc with hc | hc
  · exact hg.isSettled (by simp) c hc
  · have hmark : c = ':' ∨ c = '/' := by simpa using hc
    rcases hmark with rfl | rfl <;> exact isSettled_of_mem (by decide)

theorem Valid.isSettled_body (hg : g.Valid) (hd : d.Valid) : ∀ c ∈ g.body d, IsSettled c := by
  intro c hc
  simp only [body, hostPort, List.mem_append] at hc
  rcases hc with ((hc | hc) | hc) | hc | hc
  · exact hg.isSettled (by simp) c hc
  · rw [Decoration.mem_dot hc]
    exact isSettled_of_mem (by decide)
  · rcases mem_portText hd.port hc with rfl | hdigit
    · exact isSettled_of_mem (by decide)
    · exact isSettled_of_isDigit hdigit
  · exact hg.isSettled (by simp) c hc
  · rw [Decoration.mem_slash hc]
    exact isSettled_of_mem (by decide)

theorem Valid.body_ne_nil (hg : g.Valid) : g.body d ≠ [] := by
  simp [body, hostPort, hg.host_ne]

theorem Valid.scheme_ne_nil (hg : g.Valid) : g.scheme ≠ [] := by
  intro hnil
  have hscheme := hg.scheme
  rw [hnil] at hscheme
  cases hscheme

theorem Valid.trim_text (hg : g.Valid) (hd : d.Valid) :
    Text.trim (g.text d) = g.front ++ d.userText ++ g.body d ++ Text.trimEnd d.query := by
  rw [text_eq]
  refine Text.trim_append d.query (fun c hc => ?_) (fun c hc => ?_) ?_
  · refine (hg.isSettled_front c ?_).2
    obtain ⟨e, more, hmore⟩ := List.exists_cons_of_ne_nil hg.scheme_ne_nil
    simp only [front, hmore, List.cons_append, List.head?_cons, Option.mem_some_iff] at hc ⊢
    simp [hc]
  · refine (hg.isSettled_body hd c ?_).2
    rw [List.getLast?_append, List.getLast?_eq_some_getLast hg.body_ne_nil, Option.some_or] at hc
    rw [← Option.some.inj hc]
    exact List.getLast_mem hg.body_ne_nil
  · simp [hg.body_ne_nil]

/-- In lower case a user may be another text, but still ends at the same `@`: what follows it does
not change, and it gets no mark that would end the part with the host. -/
theorem exists_lowerAfter_userText (hd : d.Valid) (before : Text) {t : Text}
    (ht : ∀ c ∈ t, Text.IsLower c) (query : Text) :
    ∃ (user : Option Text) (before' : Text), (∀ u ∈ user, ∀ c ∈ u, endsAuthority c = false) ∧
      Text.lowerAfter before (d.userText ++ (t ++ query)) =
        user.elim [] (· ++ ['@']) ++ (t ++ Text.lowerAfter before' query) := by
  cases huser : d.user with
  | none =>
    refine ⟨none, t.reverse ++ before, by simp, ?_⟩
    rw [Decoration.userText, huser, Option.elim_none, List.nil_append, List.nil_append,
      Text.lowerAfter_append_of_isLower query ht]
  | some u =>
    have hat : ∀ c ∈ '@' :: t, Text.IsLower c := by
      rw [List.forall_mem_cons]
      exact ⟨(isSettled_of_mem (by decide)).1, ht⟩
    refine ⟨some (Text.lowerBetween before u ('@' :: t ++ query)),
      ('@' :: t).reverse ++ (u.reverse ++ before), ?_, ?_⟩
    · rintro _ ⟨⟩ c hc
      rw [← Bool.not_eq_true]
      intro hend
      have hmem := Text.mem_of_mem_lowerBetween (isMark_of_endsAuthority hend) hc
      rw [hd.user u huser c hmem] at hend
      cases hend
    · rw [Decoration.userText, huser, Option.elim_some, Option.elim_some, List.append_assoc,
        List.append_assoc, List.singleton_append, ← List.cons_append, Text.lowerAfter_append,
        Text.lowerAfter_append_of_isLower query hat]
      rfl

theorem Valid.exists_lower_trim_text (hg : g.Valid) (hd : d.Valid) :
    ∃ user query, Decoration.Valid { d with user := user, query := query } ∧
      Text.lower (Text.trim (g.text d)) = g.text { d with user := user, query := query } := by
  obtain ⟨user, before, huser, hlower⟩ := exists_lowerAfter_userText hd g.front.reverse
    (fun c hc => (hg.isSettled_body hd c hc).1) (Text.trimEnd d.query)
  refine ⟨user, Text.lowerAfter before (Text.trimEnd d.query),
    ⟨huser, hd.port, startsQuery_of_head_lowerAfter hd.query⟩, ?_⟩
  rw [hg.trim_text hd, Text.lower, List.append_assoc, List.append_assoc,
    Text.lowerAfter_append_of_isLower _ fun c hc => (hg.isSettled_front c hc).1, List.append_nil,
    hlower, text_eq, ← List.append_assoc, ← List.append_assoc]
  rfl

theorem Valid.schemeSplit_text (hg : g.Valid) (d : Decoration) : SchemeSplit.of (g.text d) =
    Pattern.schemeSplit (some g.scheme) (d.userText ++ g.body d ++ d.query) := by
  have htext : g.text d = g.scheme ++ ':' :: '/' :: '/' :: (d.userText ++ g.body d ++ d.query) := by
    simp [text_eq, front]
  rw [htext, SchemeSplit.of_hierarchical _ hg.scheme]
  rfl

theorem Valid.not_mem_hostMarks (hg : g.Valid) : ∀ c ∈ g.host ++ d.dot, c ∉ hostMarks := by
  intro c hc hmark
  rcases List.mem_append.1 hc with hc | hc
  · have hchar := hg.host_char c hc
    rw [not_isHostChar_of_mem hmark] at hchar
    cases hchar
  · rw [Decoration.mem_dot hc] at hmark
    exact absurd hmark (by decide)

theorem Valid.endsAuthority_head (hg : g.Valid) (hd : d.Valid) :
    ∀ c ∈ (g.path ++ d.slash ++ d.query).head?, endsAuthority c = true := by
  intro c hc
  rw [List.head?_append, List.head?_append, Option.mem_def, Option.or_eq_some_iff,
    Option.or_eq_some_iff] at hc
  rcases hc with (hc | ⟨_, hc⟩) | ⟨_, hc⟩
  · rw [hg.path_start c hc]
    rfl
  · rw [Decoration.mem_slash (List.mem_of_mem_head? hc)]
    rfl
  · rcases startsQuery_iff.1 (hd.query c hc) with rfl | rfl <;> rfl

theorem Valid.splitAuthority_text (hg : g.Valid) (hd : d.Valid) :
    splitAuthority (d.userText ++ g.body d ++ d.query) =
      (d.userText ++ g.hostPort d, g.path ++ d.slash ++ d.query) := by
  have htext : d.userText ++ g.body d ++ d.query =
      d.userText ++ g.hostPort d ++ (g.path ++ d.slash ++ d.query) := by
    simp [body]
  rw [htext]
  refine splitAuthority_append (fun c hc => ?_) (hg.endsAuthority_head hd)
  rcases List.mem_append.1 hc with hc | hc
  · exact hd.not_endsAuthority_userText c hc
  · exact not_endsAuthority_append_portText hg.not_mem_hostMarks hd.port c hc

theorem Valid.hostOf?_text (hg : g.Valid) (hd : d.Valid) :
    hostOf? (d.userText ++ g.hostPort d) = some (g.host ++ d.dot) :=
  hostOf?_userText_append d.user hg.not_mem_hostMarks hd.port

theorem Valid.chop_dot (hg : g.Valid) : Text.chop '.' (g.host ++ d.dot) = g.host :=
  Text.chop_append_ite d.finalDot hg.host_end

theorem Valid.isHost (hg : g.Valid) : isHost g.host = true :=
  (isHost_iff fun hc => absurd (hg.host_char '[' hc) (by decide)).2 ⟨hg.host_ne, hg.host_char⟩

theorem Valid.exists_read_text (hg : g.Valid) (hd : d.Valid) :
    ∃ query, (∀ c ∈ query.head?, startsQuery c = true) ∧
      Address.read (g.text d) = ⟨Text.lower (Text.trim (g.text d)), some g.scheme,
        some ⟨g.host, rooted (g.path ++ d.slash ++ query)⟩⟩ := by
  obtain ⟨user, query, hd', hlower⟩ := hg.exists_lower_trim_text hd
  have hsplit := hg.schemeSplit_text { d with user := user, query := query }
  have hauthority := hg.splitAuthority_text hd'
  have hhost := hg.hostOf?_text hd'
  rw [← hlower] at hsplit
  refine ⟨query, hd'.query, ?_⟩
  rw [Address.read_eq hsplit
    (by rw [hauthority, hhost, Option.map_some, hg.chop_dot]) hg.isHost, hauthority]
  rfl

end

end Page

end UrlPolicy
