import UrlPolicy.Matching.Outcome

set_option autoImplicit false

namespace UrlPolicy

def IsBelow (host base : Text) : Prop := ∃ labels, labels ≠ [] ∧ host = labels ++ '.' :: base

section

variable {host base : Text}

theorem isSubdomain_iff : isSubdomain host base = true ↔ IsBelow host base := by
  rw [isSubdomain, IsBelow]
  cases hdrop : Text.dropEnd? ('.' :: base) host with
  | none =>
    refine iff_of_false (by simp) ?_
    rintro ⟨labels, _, hhost⟩
    rw [Text.dropEnd?_eq_some_iff.2 hhost] at hdrop
    cases hdrop
  | some labels =>
    have hhost := Text.dropEnd?_eq_some_iff.1 hdrop
    simp only [bne_iff_ne]
    constructor
    · exact fun hne => ⟨labels, hne, hhost⟩
    · rintro ⟨more, hne, hmore⟩
      rw [hhost, List.append_cancel_right_eq] at hmore
      rwa [hmore]

theorem IsBelow.ne (h : IsBelow host base) : host ≠ base := by
  obtain ⟨labels, _, rfl⟩ := h
  intro heq
  have hlength := congrArg List.length heq
  simp only [List.length_append, List.length_cons] at hlength
  omega

theorem IsBelow.suffix (h : IsBelow host base) : '.' :: base <:+ host := by
  obtain ⟨labels, _, rfl⟩ := h
  exact List.suffix_append labels _

end

namespace Pattern

variable {p : Pattern} {a b : Address}

theorem outcome_eq_matched_iff : p.outcome a = .matched ↔
    a.location.isSome = true ∧ p.acceptsProtocol a = true ∧ p.acceptsHost a.host = true ∧
      p.acceptsPath a = true := by
  rw [outcome]
  cases a.location with
  | none => simp
  | some l =>
    cases p.acceptsProtocol a <;> cases p.acceptsHost a.host <;> cases p.acceptsPath a <;> simp

theorem acceptsProtocol_of_scheme (h : a.scheme = p.protocol) : p.acceptsProtocol a = true := by
  rw [acceptsProtocol, Address.kind, h]
  cases p.protocol with
  | none => rfl
  | some s => exact beq_self_eq_true (some s)

theorem acceptsHost_iff {host : Text} : p.acceptsHost host = true ↔
    (host = p.domain ∧ p.subdomainsOnly = false) ∨ IsBelow host p.domain := by
  rw [acceptsHost]
  split
  · next hhost =>
    have hno : ¬ IsBelow p.domain p.domain := fun h => h.ne rfl
    simp [hhost, hno]
  · next hhost =>
    rw [isSubdomain_iff]
    simp [hhost]

theorem outcome_congr (hquery : p.matchesQuery = false)
    (hlocation : a.location.isNone = b.location.isNone) (hscheme : a.scheme = b.scheme)
    (hhost : a.host = b.host) (hpath : p.path.accepts a.path = p.path.accepts b.path) :
    p.outcome a = p.outcome b := by
  have hprotocol : p.acceptsProtocol a = p.acceptsProtocol b := by
    simp only [acceptsProtocol, Address.kind, hscheme]
  have haccepts : p.acceptsPath a = p.acceptsPath b := by
    simpa [acceptsPath, hquery] using hpath
  simp only [outcome, hlocation, hprotocol, hhost, haccepts]

end Pattern

end UrlPolicy
