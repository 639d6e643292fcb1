import UrlPolicy.Decimal.Binary

set_option autoImplicit false

namespace UrlPolicy.Decimal

/-- The integer nearest to a quotient; the even one of two that are equally near. -/
def roundDiv (num den : Nat) : Nat :=
  let q := num / den
  let r := num % den
  if 2 * r < den ∨ (2 * r = den ∧ q % 2 = 0) then q else q + 1

def placed (places n : Nat) : List Char :=
  let digits := Nat.toDigits 10 n
  let padded := List.replicate (places + 1 - digits.length) '0' ++ digits
  padded.take (padded.length - places) ++ '.' :: padded.drop (padded.length - places)

/-- A finite number that is not negative, rounded to the given number of places, at least one. -/
def fixed (places : Nat) (x : Float) : List Char :=
  let (num, den) := (Binary.ofFloat x).fraction
  placed places (roundDiv (num * Nat.pow 10 places) den)

end UrlPolicy.Decimal
