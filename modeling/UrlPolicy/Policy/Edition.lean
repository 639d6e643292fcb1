import UrlPolicy.Policy.Basic

set_option autoImplicit false

namespace UrlPolicy

structure Edition where
  generation : Nat
  policy : Policy
  deriving DecidableEq, Repr

/-- A policy that has not been published has the number 0. -/
def Policy.draft (p : Policy) : Edition := ⟨0, p⟩

instance : Coe Policy Edition := ⟨Policy.draft⟩

structure Publisher where
  current : Edition
  deriving DecidableEq, Repr

namespace Publisher

/-- The first edition has the number 1, whatever number it had before. -/
def start (e : Edition) : Publisher := ⟨{ e with generation := 1 }⟩

/-- Publishes an edition under the next number, whatever number it had before. -/
def publish (b : Publisher) (e : Edition) : Publisher :=
  ⟨{ e with generation := (b.current.generation + 1) % UInt64.size }⟩

end Publisher

end UrlPolicy
