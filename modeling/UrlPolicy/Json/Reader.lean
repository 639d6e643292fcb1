import UrlPolicy.Json.Basic

/-!
Reading JSON. Each reader takes the text that is left and returns a value with what follows it.
The first fault that is met ends the reading.
-/

set_option autoImplicit false

namespace UrlPolicy.Json

inductive Fault where
  | malformed
  /-- The text ends inside a value. -/
  | truncated
  /-- A value of another kind is wanted at its place. -/
  | mismatched
  deriving DecidableEq, Repr

def isJsonBlank (c : Char) : Bool := c == ' ' || c == '\n' || c == '\t' || c == '\r'

def skipBlanks (t : Text) : Text := t.dropWhile isJsonBlank

def readWord : Text → Text → Except Fault Text
  | [], t => .ok t
  | _ :: _, [] => .error .truncated
  | c :: w, d :: t => if c = d then readWord w t else .error .malformed

/-! Strings. -/

def hexValue? (c : Char) : Option Nat :=
  if c.isDigit then some (c.toNat - 48)
  else if 'a' ≤ c ∧ c ≤ 'f' then some (c.toNat - 87)
  else if 'A' ≤ c ∧ c ≤ 'F' then some (c.toNat - 55)
  else none

/-- Four hexadecimal digits. Fewer than four bytes are an end of the text, whatever they are. -/
def hexFour : Text → Except Fault (Nat × Text)
  | a :: b :: c :: d :: t =>
    match hexValue? a, hexValue? b, hexValue? c, hexValue? d with
    | some a, some b, some c, some d => .ok (((a * 16 + b) * 16 + c) * 16 + d, t)
    | _, _, _, _ => .error .malformed
  | t => .error (if t.size < 4 then .truncated else .malformed)

def isLeading (n : Nat) : Bool := 0xD800 ≤ n && n ≤ 0xDBFF
def isTrailing (n : Nat) : Bool := 0xDC00 ≤ n && n ≤ 0xDFFF

/-- The digits after a backslash and `u`. The halves of a surrogate pair come one after the
other. -/
def unicodeEscape (t : Text) : Except Fault (Char × Text) := do
  let (n, t) ← hexFour t
  if isTrailing n then .error .malformed
  else if isLeading n then
    match t with
    | [] | ['\\'] => .error .truncated
    | '\\' :: 'u' :: t =>
      let (m, t) ← hexFour t
      if isTrailing m then
        .ok (Char.ofNat (0x10000 + (n - 0xD800) * 0x400 + (m - 0xDC00)), t)
      else .error .malformed
    | _ => .error .malformed
  else .ok (Char.ofNat n, t)

def simpleEscape? (c : Char) : Option Char :=
  if c = '"' then some '"'
  else if c = '\\' then some '\\'
  else if c = '/' then some '/'
  else if c = 'b' then some '\x08'
  else if c = 'f' then some '\x0c'
  else if c = 'n' then some '\n'
  else if c = 'r' then some '\r'
  else if c = 't' then some '\t'
  else none

def escape : Text → Except Fault (Char × Text)
  | [] => .error .truncated
  | c :: t =>
    if c = 'u' then unicodeEscape t
    else match simpleEscape? c with
      | some d => .ok (d, t)
      | none => .error .malformed

def readStringFrom : Nat → Text → Except Fault (Text × Text)
  | 0, _ => .error .truncated
  | _ + 1, [] => .error .truncated
  | n + 1, c :: t =>
    if c = '"' then .ok ([], t)
    else if c = '\\' then do
      let (d, t) ← escape t
      let (s, t) ← readStringFrom n t
      .ok (d :: s, t)
    else if c.toNat < 32 then .error .malformed
    else do
      let (s, t) ← readStringFrom n t
      .ok (c :: s, t)

/-- The rest of a string whose first quote has been read. -/
def readString (t : Text) : Except Fault (Text × Text) := readStringFrom t.length t

/-! Numbers. -/

def digitValue (c : Char) : Nat := c.toNat - 48

/-- The largest significand. Digits that would exceed it are dropped. -/
def maxSignificand : Nat := UInt64.size - 1

/-- Appends digits to a significand as long as it does not grow too large; with their number. -/
def takeDigits : Nat → Text → Nat × Nat × Text
  | s, [] => (s, 0, [])
  | s, c :: t =>
    if c.isDigit ∧ s * 10 + digitValue c ≤ maxSignificand then
      let (s', n, rest) := takeDigits (s * 10 + digitValue c) t
      (s', n + 1, rest)
    else (s, 0, c :: t)

def startsWithDigit : Text → Bool
  | [] => false
  | c :: _ => c.isDigit

def powerOfTen (e : Nat) : Float := Float.ofScientific 1 false e

/-- The significand times a power of ten, each rounded on its own. Too large a number is a
fault. -/
def scale (negative : Bool) (significand : Nat) (e : Int) : Except Fault Number :=
  let f := significand.toUInt64.toFloat
  let signed := fun x : Float => Except.ok (Number.float (if negative then -x else x))
  if f == 0 then signed f
  else if 308 < e then .error .malformed
  else if 0 ≤ e then
    let x := f * powerOfTen e.toNat
    if x.isInf then .error .malformed else signed x
  else if -308 ≤ e then signed (f / powerOfTen (-e).toNat)
  else if -616 ≤ e then signed (f / powerOfTen 308 / powerOfTen (-e - 308).toNat)
  else signed 0

def exponent (negative : Bool) (significand : Nat) (e : Int) (t : Text) :
    Except Fault (Number × Text) :=
  let (down, digits) := match t with
    | '+' :: t => (false, t)
    | '-' :: t => (true, t)
    | t => (false, t)
  match digits with
  | [] => .error .truncated
  | c :: _ =>
    if c.isDigit then do
      let n := (digits.takeWhile Char.isDigit).foldl (fun n c => n * 10 + digitValue c) 0
      let x ← scale negative significand (if down then e - n else e + n)
      .ok (x, digits.dropWhile Char.isDigit)
    else .error .malformed

def scaled (negative : Bool) (significand : Nat) (e : Int) (t : Text) :
    Except Fault (Number × Text) :=
  match t with
  | 'e' :: t | 'E' :: t => exponent negative significand e t
  | t => do .ok (← scale negative significand e, t)

def fraction (negative : Bool) (significand : Nat) (e : Int) (t : Text) :
    Except Fault (Number × Text) :=
  let (s, n, rest) := takeDigits significand t
  if startsWithDigit rest then scaled negative s (e - n) (rest.dropWhile Char.isDigit)
  else if n = 0 then .error (if rest = [] then .truncated else .malformed)
  else scaled negative s (e - n) rest

/-- A number without point and exponent. Zero with a sign, and what is below the least integer of
64 bits, is a floating-point number. -/
def whole (negative : Bool) (significand : Nat) : Number :=
  if !negative then .natural significand
  else if significand = 0 ∨ UInt64.size / 2 < significand then
    .float (-significand.toUInt64.toFloat)
  else .negative significand

def afterDigits (negative : Bool) (significand : Nat) (t : Text) :
    Except Fault (Number × Text) :=
  if startsWithDigit t then
    let e : Int := (t.takeWhile Char.isDigit).length
    match t.dropWhile Char.isDigit with
    | '.' :: t => fraction negative significand e t
    | t => scaled negative significand e t
  else match t with
    | '.' :: t => fraction negative significand 0 t
    | 'e' :: t | 'E' :: t => exponent negative significand 0 t
    | t => .ok (whole negative significand, t)

def readNumber (negative : Bool) : Text → Except Fault (Number × Text)
  | [] => .error .truncated
  | '0' :: t => if startsWithDigit t then .error .malformed else afterDigits negative 0 t
  | c :: t =>
    if c.isDigit then
      let (s, _, rest) := takeDigits 0 (c :: t)
      afterDigits negative s rest
    else .error .malformed

/-! Values. -/

def readScalar (c : Char) (t : Text) : Except Fault (Json × Text) :=
  if c = 'n' then do .ok (.null, ← readWord "ull".toList t)
  else if c = 't' then do .ok (.bool true, ← readWord "rue".toList t)
  else if c = 'f' then do .ok (.bool false, ← readWord "alse".toList t)
  else if c = '-' then do
    let (n, t) ← readNumber true t
    .ok (.number n, t)
  else if c.isDigit then do
    let (n, t) ← readNumber false (c :: t)
    .ok (.number n, t)
  else if c = '"' then do
    let (s, t) ← readString t
    .ok (.string s, t)
  else .error .malformed

def nextItem (first : Bool) (t : Text) : Except Fault (Bool × Text) :=
  match skipBlanks t with
  | [] => .error .truncated
  | ']' :: t => .ok (false, t)
  | c :: t =>
    if first then .ok (true, c :: t)
    else if c = ',' then
      match skipBlanks t with
      | [] => .error .truncated
      | ']' :: _ => .error .malformed
      | t => .ok (true, t)
    else .error .malformed

def readItemsFrom {α : Type} (item : Text → Except Fault (α × Text)) :
    Nat → Bool → Text → Except Fault (List α × Text)
  | 0, _, _ => .error .truncated
  | n + 1, first, t => do
    let (more, t) ← nextItem first t
    if more then
      let (v, t) ← item t
      let (vs, t) ← readItemsFrom item n false t
      .ok (v :: vs, t)
    else .ok ([], t)

def readItems {α : Type} (item : Text → Except Fault (α × Text)) (t : Text) :
    Except Fault (List α × Text) :=
  readItemsFrom item (t.length + 1) true t

def nextKey (first : Bool) (t : Text) : Except Fault (Option Text × Text) :=
  match skipBlanks t with
  | [] => .error .truncated
  | c :: t =>
    if c = '}' then .ok (none, t)
    else
      let key := fun t : Text => match t with
        | '"' :: t => do
          let (k, t) ← readString t
          .ok (some k, t)
        | _ => .error .malformed
      if first then key (c :: t)
      else if c = ',' then
        match skipBlanks t with
        | [] => .error .truncated
        | t => key t
      else .error .malformed

def colon (t : Text) : Except Fault Text :=
  match skipBlanks t with
  | [] => .error .truncated
  | ':' :: t => .ok t
  | _ => .error .malformed

def readMembersFrom {α : Type} (item : Text → Except Fault (α × Text)) :
    Nat → Bool → Text → Except Fault (List (Text × α) × Text)
  | 0, _, _ => .error .truncated
  | n + 1, first, t => do
    match ← nextKey first t with
    | (none, t) => .ok ([], t)
    | (some k, t) =>
      let t ← colon t
      let (v, t) ← item t
      let (ms, t) ← readMembersFrom item n false t
      .ok ((k, v) :: ms, t)

def readMembers {α : Type} (item : Text → Except Fault (α × Text)) (t : Text) :
    Except Fault (List (Text × α) × Text) :=
  readMembersFrom item (t.length + 1) true t

def readValue : Nat → Text → Except Fault (Json × Text)
  | 0, t =>
    match skipBlanks t with
    | [] => .error .truncated
    | c :: t => readScalar c t
  | depth + 1, t =>
    match skipBlanks t with
    | [] => .error .truncated
    | c :: t =>
      if c = '[' then do
        let (vs, t) ← readItems (readValue depth) t
        .ok (.array vs, t)
      else if c = '{' then do
        let (ms, t) ← readMembers (readValue depth) t
        .ok (.object (sortMembers ms), t)
      else readScalar c t

def maxDepth : Nat := 127

/-- Nothing but blanks may follow a document. -/
def document {α : Type} : Except Fault (α × Text) → Except Fault α
  | .error fault => .error fault
  | .ok (v, t) => if skipBlanks t = [] then .ok v else .error .malformed

def read (t : Text) : Except Fault Json := document (readValue maxDepth t)

end UrlPolicy.Json
