import UrlPolicy.Json.Basic
import UrlPolicy.Decimal.Shortest

set_option autoImplicit false

namespace UrlPolicy

/-- Positional notation from 1e-5 up to 1e16, with `.0` after a whole number; otherwise one digit
before the point and an exponent with its sign. -/
def floatText (x : Float) : Text :=
  let b := Decimal.Binary.ofFloat x
  let sign : Text := if b.negative then ['-'] else []
  if b.mantissa = 0 then sign ++ "0.0".toList
  else
    let d := b.shortest
    let digits := Nat.toDigits 10 d.digits
    let point : Int := digits.length + d.exponent
    sign ++
      if 0 ≤ d.exponent ∧ point ≤ 16 then
        digits ++ List.replicate d.exponent.toNat '0' ++ ".0".toList
      else if 0 < point ∧ point ≤ 16 then
        digits.take point.toNat ++ '.' :: digits.drop point.toNat
      else if -5 < point ∧ point ≤ 0 then
        "0.".toList ++ List.replicate (-point).toNat '0' ++ digits
      else
        let fraction : Text := if digits.length = 1 then [] else '.' :: digits.tail
        let e := point - 1
        digits.take 1 ++ fraction ++ 'e' :: (if e < 0 then '-' else '+') ::
          Nat.toDigits 10 e.natAbs

def Number.text : Number → Text
  | .natural n => Nat.toDigits 10 n
  | .negative n => '-' :: Nat.toDigits 10 n
  | .float x => floatText x

namespace Json

def escapeChar (c : Char) : Text :=
  if c = '"' then "\\\"".toList
  else if c = '\\' then "\\\\".toList
  else if c = '\x08' then "\\b".toList
  else if c = '\t' then "\\t".toList
  else if c = '\n' then "\\n".toList
  else if c = '\x0c' then "\\f".toList
  else if c = '\r' then "\\r".toList
  else if c.toNat < 32 then
    "\\u00".toList ++ [Nat.digitChar (c.toNat / 16), Nat.digitChar (c.toNat % 16)]
  else [c]

def quote (t : Text) : Text := '"' :: t.flatMap escapeChar ++ ['"']

mutual

def compact : Json → Text
  | .null => "null".toList
  | .bool true => "true".toList
  | .bool false => "false".toList
  | .number n => n.text
  | .string t => quote t
  | .array [] => "[]".toList
  | .array (v :: vs) => '[' :: v.compact ++ compactItems vs
  | .object [] => "\x7b\x7d".toList
  | .object ((k, v) :: ms) => '{' :: quote k ++ ':' :: v.compact ++ compactMembers ms

def compactItems : List Json → Text
  | [] => [']']
  | v :: vs => ',' :: v.compact ++ compactItems vs

def compactMembers : List (Text × Json) → Text
  | [] => ['}']
  | (k, v) :: ms => ',' :: quote k ++ ':' :: v.compact ++ compactMembers ms

end

def newline (level : Nat) : Text := '\n' :: List.replicate (2 * level) ' '

mutual

def prettyAt (level : Nat) : Json → Text
  | .null => "null".toList
  | .bool true => "true".toList
  | .bool false => "false".toList
  | .number n => n.text
  | .string t => quote t
  | .array [] => "[]".toList
  | .array (v :: vs) => '[' :: newline (level + 1) ++ v.prettyAt (level + 1) ++ prettyItems level vs
  | .object [] => "\x7b\x7d".toList
  | .object ((k, v) :: ms) =>
    '{' :: newline (level + 1) ++ quote k ++ ": ".toList ++ v.prettyAt (level + 1) ++
      prettyMembers level ms

def prettyItems (level : Nat) : List Json → Text
  | [] => newline level ++ [']']
  | v :: vs => ',' :: newline (level + 1) ++ v.prettyAt (level + 1) ++ prettyItems level vs

def prettyMembers (level : Nat) : List (Text × Json) → Text
  | [] => newline level ++ ['}']
  | (k, v) :: ms =>
    ',' :: newline (level + 1) ++ quote k ++ ": ".toList ++ v.prettyAt (level + 1) ++
      prettyMembers level ms

end

def pretty (v : Json) : Text := v.prettyAt 0

end Json

end UrlPolicy
