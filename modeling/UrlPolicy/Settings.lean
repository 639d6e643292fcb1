import UrlPolicy.Json.Printer
import UrlPolicy.Json.Skip
import UrlPolicy.Json.Typed
import UrlPolicy.Policy.Basic

/-!
Settings documents: a mode, two lists of rules and two lists of keywords, kept as JSON. A document
is an object, in which the lists of rules have older names as well, or an array with the fields
in order. A field may be left out, but not given twice.
-/

set_option autoImplicit false

namespace UrlPolicy

open Json (Fault)

structure Settings where
  mode : Option Text
  allowRules : List Text
  denyRules : List Text
  /-- Strings, or objects with a pattern. Entries of any other form count for nothing. -/
  allowKeywords : List Json
  denyKeywords : List Json

namespace Settings

def empty : Settings := ⟨none, [], [], [], []⟩

inductive Field where
  | mode | allowRules | denyRules | allowKeywords | denyKeywords
  deriving DecidableEq, Repr

def Field.all : List Field := [.mode, .allowRules, .denyRules, .allowKeywords, .denyKeywords]

/-- The names of a field, the current one first. -/
def Field.names : Field → List Text
  | .mode => ["mode".toList]
  | .allowRules => ["allowRules".toList, "whitelist".toList, "allowList".toList]
  | .denyRules => ["denyRules".toList, "blacklist".toList, "blockList".toList]
  | .allowKeywords => ["allowKeywords".toList]
  | .denyKeywords => ["denyKeywords".toList]

def Field.ofKey? (key : Text) : Option Field := Field.all.find? fun f => f.names.contains key

structure Draft where
  mode : Option (Option Text) := none
  allowRules : Option (List Text) := none
  denyRules : Option (List Text) := none
  allowKeywords : Option (List Json) := none
  denyKeywords : Option (List Json) := none

namespace Draft

def has (d : Draft) : Field → Bool
  | .mode => d.mode.isSome
  | .allowRules => d.allowRules.isSome
  | .denyRules => d.denyRules.isSome
  | .allowKeywords => d.allowKeywords.isSome
  | .denyKeywords => d.denyKeywords.isSome

/-- The depth left to the keywords: the document and their list are two levels above them. -/
def keywordDepth : Nat := Json.maxDepth - 2

def read (d : Draft) (f : Field) (t : Text) : Except Fault (Draft × Text) :=
  match f with
  | .mode => do
    let (mode, t) ← Json.readTextOrNull t
    .ok ({ d with mode := some mode }, t)
  | .allowRules => do
    let (rules, t) ← Json.readList Json.readText t
    .ok ({ d with allowRules := some rules }, t)
  | .denyRules => do
    let (rules, t) ← Json.readList Json.readText t
    .ok ({ d with denyRules := some rules }, t)
  | .allowKeywords => do
    let (keywords, t) ← Json.readList (Json.readValue keywordDepth) t
    .ok ({ d with allowKeywords := some keywords }, t)
  | .denyKeywords => do
    let (keywords, t) ← Json.readList (Json.readValue keywordDepth) t
    .ok ({ d with denyKeywords := some keywords }, t)

def readMember (d : Draft) (key t : Text) : Except Fault (Draft × Text) :=
  match Field.ofKey? key with
  | none => do
    let t ← Json.skipValue (← Json.colon t)
    .ok (d, t)
  | some f => if d.has f then .error .mismatched else do d.read f (← Json.colon t)

def readMembers : Nat → Bool → Draft → Text → Except Fault (Draft × Text)
  | 0, _, _, _ => .error .truncated
  | n + 1, first, d, t => do
    match ← Json.nextKey first t with
    | (none, t) => .ok (d, t)
    | (some key, t) =>
      let (d, t) ← d.readMember key t
      readMembers n false d t

def readItems (first : Bool) (d : Draft) : List Field → Text → Except Fault (Draft × Text)
  | [], t =>
    match Json.skipBlanks t with
    | [] => .error .truncated
    | ']' :: t => .ok (d, t)
    | _ => .error .malformed
  | f :: fs, t => do
    let (more, t) ← Json.nextItem first t
    if more then
      let (d, t) ← d.read f t
      d.readItems false fs t
    else .ok (d, t)

def settings (d : Draft) : Settings where
  mode := d.mode.getD none
  allowRules := d.allowRules.getD []
  denyRules := d.denyRules.getD []
  allowKeywords := d.allowKeywords.getD []
  denyKeywords := d.denyKeywords.getD []

end Draft

def readDocument (t : Text) : Except Fault (Draft × Text) :=
  match Json.skipBlanks t with
  | [] => .error .truncated
  | c :: t =>
    if c = '{' then Draft.readMembers (t.length + 1) true {} t
    else if c = '[' then Draft.readItems true {} Field.all t
    else Json.refuse c t

def read (t : Text) : Except Fault Settings :=
  (Json.document (readDocument t)).map Draft.settings

def toJson (s : Settings) : Json :=
  .object <| (s.mode.map fun mode => ("mode".toList, Json.string mode)).toList ++ [
    ("allowRules".toList, Json.array (s.allowRules.map Json.string)),
    ("denyRules".toList, .array (s.denyRules.map Json.string)),
    ("allowKeywords".toList, .array s.allowKeywords),
    ("denyKeywords".toList, .array s.denyKeywords)]

def text (s : Settings) : Text := s.toJson.pretty

/-- Equality of settings, with the zeros of the floating-point numbers taken as equal. -/
def same (s t : Settings) : Bool :=
  s.mode == t.mode && s.allowRules == t.allowRules && s.denyRules == t.denyRules &&
    Json.sameItems s.allowKeywords t.allowKeywords && Json.sameItems s.denyKeywords t.denyKeywords

inductive Error where
  | json (fault : Fault)
  | unknownMode (mode : Text)
  deriving DecidableEq, Repr

def Error.message : Error → Text
  | .json .malformed => "invalid settings JSON: not well formed".toList
  | .json .truncated => "invalid settings JSON: unexpected end".toList
  | .json .mismatched => "invalid settings JSON: a field of the wrong kind, or given twice".toList
  | .unknownMode mode =>
    "unknown mode \"".toList ++ mode ++ "\" (expected blacklist, whitelist or combined)".toList

/-- The mode that is set; blacklist when none is. -/
def effectiveMode (s : Settings) : Except Error Mode :=
  match s.mode with
  | none => .ok .blacklist
  | some raw =>
    match Mode.parse? raw with
    | none => .error (.unknownMode raw)
    | some mode => .ok mode

structure Compiled where
  policy : Policy
  stats : CompileStats
  deriving DecidableEq, Repr

def compile (s : Settings) : Except Error Compiled :=
  match s.effectiveMode with
  | .error e => .error e
  | .ok mode =>
    let compilation := UrlPolicy.compile s.allowRules s.denyRules
    .ok ⟨⟨compilation.rules, s.allowKeywords.filterMap Keyword.ofJson?,
      s.denyKeywords.filterMap Keyword.ofJson?, mode⟩, compilation.stats⟩

def compileText (t : Text) : Except Error Compiled :=
  match read t with
  | .error fault => .error (.json fault)
  | .ok s => s.compile

end Settings

end UrlPolicy
