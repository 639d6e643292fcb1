import UrlPolicy.Decimal.Binary

/-!
The shortest decimal that reads back as a given double: of the decimals with the fewest digits
among those closer to it than to any other double, the one nearest to it.
-/

set_option autoImplicit false

namespace UrlPolicy.Decimal

/-- The number `digits * 10 ^ exponent`. -/
structure Numeral where
  digits : Nat
  exponent : Int
  deriving DecidableEq, Repr

def comparePower (d : Nat) (e : Int) (num den : Nat) : Ordering :=
  if 0 ≤ e then compare (d * Nat.pow 10 e.toNat * den) num
  else compare (d * den) (num * Nat.pow 10 (-e).toNat)

/-- The open or closed interval of the reals that round to a double. -/
structure Rounding where
  low : Nat
  high : Nat
  den : Nat
  closed : Bool

def Binary.rounding (b : Binary) : Rounding :=
  let (num, den) := b.fraction
  let unit := num / b.mantissa
  let below := if b.closeBelow then unit else 2 * unit
  ⟨4 * num - below, 4 * num + 2 * unit, 4 * den, b.mantissa % 2 == 0⟩

def Rounding.holds (r : Rounding) (d : Nat) (e : Int) : Bool :=
  match comparePower d e r.low r.den, comparePower d e r.high r.den with
  | .gt, .lt => true
  | .eq, .lt | .gt, .eq => r.closed
  | _, _ => false

/-- The least `e` with `num / den < 10 ^ e`, searched upwards from `e`. -/
def magnitude (num den : Nat) : Nat → Int → Int
  | 0, e => e
  | fuel + 1, e => if comparePower 1 e num den == .gt then e else magnitude num den fuel (e + 1)

/-- The integer part of `num / den / 10 ^ e`. -/
def onGrid (num den : Nat) (e : Int) : Nat :=
  if 0 ≤ e then num / (den * Nat.pow 10 e.toNat) else num * Nat.pow 10 (-e).toNat / den

/-- Of the two neighbours of the number on the grid of step `10 ^ e`, the one that reads back; of
two, the nearer, and the even one when they are equally near. -/
def nearest? (b : Binary) (e : Int) : Option Numeral :=
  let (num, den) := b.fraction
  let d := onGrid num den e
  match b.rounding.holds d e, b.rounding.holds (d + 1) e with
  | false, false => none
  | true, false => some ⟨d, e⟩
  | false, true => some ⟨d + 1, e⟩
  | true, true =>
    match comparePower (2 * d + 1) e (2 * num) den with
    | .gt => some ⟨d, e⟩
    | .lt => some ⟨d + 1, e⟩
    | .eq => some ⟨if d % 2 = 0 then d else d + 1, e⟩

def shortestFrom (b : Binary) : Nat → Int → Numeral
  | 0, e => ⟨0, e⟩
  | fuel + 1, e => (nearest? b e).getD (shortestFrom b fuel (e - 1))

def Numeral.strip : Nat → Numeral → Numeral
  | 0, d => d
  | fuel + 1, d =>
    if d.digits ≠ 0 ∧ d.digits % 10 = 0 then strip fuel ⟨d.digits / 10, d.exponent + 1⟩ else d

def Binary.shortest (b : Binary) : Numeral :=
  let (num, den) := b.fraction
  Numeral.strip 20 (shortestFrom b 18 (magnitude num den 640 (-330) - 1))

end UrlPolicy.Decimal
