set_option autoImplicit false

namespace UrlPolicy

/-- The union of the ranges, both ends included. -/
abbrev CharacterSet := List (Nat × Nat)

def CharacterSet.contains (s : CharacterSet) (c : Char) : Bool :=
  s.any fun r => r.1 ≤ c.toNat && c.toNat ≤ r.2

theorem CharacterSet.contains_iff {s : CharacterSet} {c : Char} :
    s.contains c = true ↔ ∃ r ∈ s, r.1 ≤ c.toNat ∧ c.toNat ≤ r.2 := by
  simp [contains]

end UrlPolicy
