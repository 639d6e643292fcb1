set_option autoImplicit false

namespace UrlPolicy.Decimal

/-- The finite number `mantissa * 2 ^ exponent`, up to its sign. -/
structure Binary where
  negative : Bool
  mantissa : Nat
  exponent : Int
  /-- The number below is only half as far away as the number above. -/
  closeBelow : Bool
  deriving DecidableEq, Repr

def Binary.ofFloat (x : Float) : Binary :=
  let bits : Nat := x.toBits.toNat
  let unit := Nat.pow 2 52
  let fraction := bits % unit
  let biased := bits / unit % 2048
  let negative := bits / unit / 2048 == 1
  if biased = 0 then ⟨negative, fraction, -1074, false⟩
  else ⟨negative, unit + fraction, (biased : Int) - 1075, fraction == 0 && biased > 1⟩

def Binary.fraction (b : Binary) : Nat × Nat :=
  if 0 ≤ b.exponent then (b.mantissa * Nat.pow 2 b.exponent.toNat, 1)
  else (b.mantissa, Nat.pow 2 (-b.exponent).toNat)

end UrlPolicy.Decimal
