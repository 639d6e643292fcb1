import UrlPolicy.Text.Basic

/-!
Options and positional arguments. An option has a long name and may have a letter; letters can be
written together. A value follows its option as the next argument, after `=`, or right behind
the letter. Behind `--` there are no options. Arguments are read from left to right, and the first
that is wrong, or asks for help, ends the reading.
-/

set_option autoImplicit false

namespace UrlPolicy.CommandLine

inductive OptionKind where
  | flag
  /-- A flag that may be given again. -/
  | counted
  | value
  | natural
  /-- A value, and each time another one. -/
  | values
  deriving DecidableEq, Repr

/-- A natural number below 2 ^ 64, with or without a plus sign. -/
def natural? (t : Text) : Option Nat :=
  let digits := (Text.dropStart? ['+'] t).getD t
  if digits = [] ∨ !digits.all Char.isDigit then none
  else
    let n := digits.foldl (fun n c => n * 10 + (c.toNat - 48)) 0
    if n < UInt64.size then some n else none

namespace OptionKind

def hasValue : OptionKind → Bool
  | .value | .natural | .values => true
  | .flag | .counted => false

def isSingle : OptionKind → Bool
  | .flag | .value | .natural => true
  | .counted | .values => false

def admits : OptionKind → Text → Bool
  | .natural, v => (natural? v).isSome
  | _, _ => true

end OptionKind

structure OptionSpec where
  name : Text
  letter : Option Char
  kind : OptionKind
  deriving DecidableEq, Repr

structure Signature where
  options : List OptionSpec
  takesPositionals : Bool
  deriving DecidableEq, Repr

inductive Usage where
  | wrong
  | help
  deriving DecidableEq, Repr

/-- An option that was given, with its value; flags have an empty one. -/
structure Given where
  name : Text
  value : Text
  deriving DecidableEq, Repr

structure Arguments where
  options : List Given
  positionals : List Text
  deriving DecidableEq, Repr

namespace Arguments

def empty : Arguments := ⟨[], []⟩

def values (a : Arguments) (name : Text) : List Text :=
  (a.options.filter (·.name == name)).map Given.value

def value? (a : Arguments) (name : Text) : Option Text := (a.values name).head?

def has (a : Arguments) (name : Text) : Bool := a.values name != []

def addOption (a : Arguments) (spec : OptionSpec) (v : Text) : Except Usage Arguments :=
  if spec.kind.isSingle && a.has spec.name then .error .wrong
  else if spec.kind.admits v then .ok { a with options := a.options ++ [⟨spec.name, v⟩] }
  else .error .wrong

def addPositionals (a : Arguments) (s : Signature) (args : List Text) : Except Usage Arguments :=
  if s.takesPositionals || args.isEmpty then
    .ok { a with positionals := a.positionals ++ args }
  else .error .wrong

end Arguments

def looksLikeOption : Text → Bool
  | ['-'] => false
  | '-' :: _ => true
  | _ => false

def nextValue : List Text → Except Usage (Text × List Text)
  | [] => .error .wrong
  | v :: rest => if looksLikeOption v then .error .wrong else .ok (v, rest)

/-- Reads the letters of one argument; the last may take its value from the next. -/
def readLetters (s : Signature) : Text → List Text → Arguments →
    Except Usage (Arguments × List Text)
  | [], rest, a => .ok (a, rest)
  | c :: cs, rest, a =>
    if c = 'h' then .error .help
    else match s.options.find? (·.letter == some c) with
      | none => .error .wrong
      | some spec =>
        if spec.kind.hasValue then
          match cs with
          | [] => do
            let (v, rest) ← nextValue rest
            .ok (← a.addOption spec v, rest)
          | '=' :: v => do .ok (← a.addOption spec v, rest)
          | v => do .ok (← a.addOption spec v, rest)
        else do readLetters s cs rest (← a.addOption spec [])

def readLong (s : Signature) (arg : Text) (rest : List Text) (a : Arguments) :
    Except Usage (Arguments × List Text) :=
  let name := arg.takeWhile (· ≠ '=')
  let attached := (arg.dropWhile (· ≠ '=')).tail
  let isAttached := arg.contains '='
  if name = "help".toList ∧ !isAttached then .error .help
  else match s.options.find? (·.name == name) with
    | none => .error .wrong
    | some spec =>
      if spec.kind.hasValue then
        if isAttached then do .ok (← a.addOption spec attached, rest)
        else do
          let (v, rest) ← nextValue rest
          .ok (← a.addOption spec v, rest)
      else if isAttached then .error .wrong
      else do .ok (← a.addOption spec [], rest)

def readOption (s : Signature) (arg : Text) (rest : List Text) (a : Arguments) :
    Except Usage (Arguments × List Text) :=
  match arg with
  | '-' :: '-' :: name => readLong s name rest a
  | _ => readLetters s arg.tail rest a

def readArgumentsFrom (s : Signature) : Nat → List Text → Arguments → Except Usage Arguments
  | 0, _, a | _, [], a => .ok a
  | fuel + 1, arg :: rest, a =>
    if arg = ['-', '-'] then a.addPositionals s rest
    else if looksLikeOption arg then do
      let (a, rest) ← readOption s arg rest a
      readArgumentsFrom s fuel rest a
    else do readArgumentsFrom s fuel rest (← a.addPositionals s [arg])

def readArguments (s : Signature) (args : List Text) : Except Usage Arguments :=
  readArgumentsFrom s args.length args .empty

end UrlPolicy.CommandLine
