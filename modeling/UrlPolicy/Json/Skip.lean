import UrlPolicy.Json.Reader

/-!
Passing over values that are not wanted. They have to be JSON, but may be nested to any depth,
may hold halves of surrogate pairs and numbers of any size.
-/

set_option autoImplicit false

namespace UrlPolicy.Json

def skipStringFrom : Nat → Text → Except Fault Text
  | 0, _ => .error .truncated
  | _ + 1, [] => .error .truncated
  | n + 1, c :: t =>
    if c = '"' then .ok t
    else if c = '\\' then
      match t with
      | [] => .error .truncated
      | 'u' :: t => do
        let (_, t) ← hexFour t
        skipStringFrom n t
      | d :: t => if (simpleEscape? d).isSome then skipStringFrom n t else .error .malformed
    else if c.toNat < 32 then .error .malformed
    else skipStringFrom n t

def skipString (t : Text) : Except Fault Text := skipStringFrom t.length t

def skipDigits (t : Text) : Except Fault Text :=
  if startsWithDigit t then .ok (t.dropWhile Char.isDigit) else .error .malformed

def skipExponent (t : Text) : Except Fault Text :=
  match t with
  | 'e' :: t | 'E' :: t =>
    match t with
    | '+' :: t | '-' :: t => skipDigits t
    | t => skipDigits t
  | t => .ok t

def skipNumber (t : Text) : Except Fault Text := do
  let t ← match t with
    | '0' :: t => if startsWithDigit t then .error .malformed else .ok t
    | t => skipDigits t
  match t with
  | '.' :: t => skipExponent (← skipDigits t)
  | t => skipExponent t

def skipScalar (c : Char) (t : Text) : Except Fault Text :=
  if c = 'n' then readWord "ull".toList t
  else if c = 't' then readWord "rue".toList t
  else if c = 'f' then readWord "alse".toList t
  else if c = '-' then skipNumber t
  else if c.isDigit then skipNumber (c :: t)
  else if c = '"' then skipString t
  else .error .malformed

def skipKey (t : Text) : Except Fault Text :=
  match t with
  | '"' :: t => do colon (← skipString t)
  | _ => .error .malformed

mutual

def skipValueFrom : Nat → Text → Except Fault Text
  | 0, _ => .error .truncated
  | n + 1, t =>
    match skipBlanks t with
    | [] => .error .truncated
    | c :: t =>
      if c = '[' then
        match skipBlanks t with
        | ']' :: t => .ok t
        | t => skipItemsFrom n t
      else if c = '{' then
        match skipBlanks t with
        | '}' :: t => .ok t
        | t => skipMembersFrom n t
      else skipScalar c t

/-- Passes over at least one item and the bracket. -/
def skipItemsFrom : Nat → Text → Except Fault Text
  | 0, _ => .error .truncated
  | n + 1, t => do
    match skipBlanks (← skipValueFrom n t) with
    | [] => .error .truncated
    | ']' :: t => .ok t
    | ',' :: t => skipItemsFrom n t
    | _ => .error .malformed

def skipMembersFrom : Nat → Text → Except Fault Text
  | 0, _ => .error .truncated
  | n + 1, t =>
    match skipBlanks t with
    | [] => .error .truncated
    | t => do
      match skipBlanks (← skipValueFrom n (← skipKey t)) with
      | [] => .error .truncated
      | '}' :: t => .ok t
      | ',' :: t => skipMembersFrom n t
      | _ => .error .malformed

end

def skipValue (t : Text) : Except Fault Text := skipValueFrom (2 * t.length + 2) t

end UrlPolicy.Json
