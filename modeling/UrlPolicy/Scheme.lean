import UrlPolicy.Text.Basic

set_option autoImplicit false

namespace UrlPolicy

def endsAuthority (c : Char) : Bool := c == '/' || c == '?' || c == '#'

/-- A letter, then letters, digits, `+`, `-` and `.`, all of ASCII. -/
def isScheme : Text → Bool
  | [] => false
  | c :: t => c.isAlpha && t.all fun d => d.isAlphanum || d == '+' || d == '-' || d == '.'

inductive SchemeKind where
  | http | https | ws | wss | ftp | file
  /-- Pages of the browser itself and of its extensions. -/
  | internal
  | other
  deriving DecidableEq, Repr

def internalSchemes : List Text := [
  "about".toList, "brave".toList, "chrome".toList, "chrome-extension".toList,
  "chrome-search".toList, "chrome-untrusted".toList, "devtools".toList, "edge".toList,
  "extension".toList, "moz-extension".toList, "opera".toList, "resource".toList,
  "safari-web-extension".toList, "view-source".toList, "vivaldi".toList]

def SchemeKind.of (s : Text) : SchemeKind :=
  if s = "http".toList then .http
  else if s = "https".toList then .https
  else if s = "ws".toList then .ws
  else if s = "wss".toList then .wss
  else if s = "ftp".toList then .ftp
  else if s = "file".toList then .file
  else if internalSchemes.contains s then .internal
  else .other

inductive SchemeSplit where
  /-- A scheme, `://`, and the rest. -/
  | hierarchical (scheme rest : Text)
  /-- A scheme and a colon without slashes, as in `about:blank`. -/
  | bare (scheme rest : Text)
  | absent (text : Text)
  /-- Something that is no scheme before `://`. -/
  | malformed
  deriving DecidableEq, Repr

def startsWithPort (t : Text) : Bool :=
  let port := t.takeWhile fun c => !endsAuthority c
  port != [] && port.all Char.isDigit

/-- Splits a text in lower case at its first colon, unless a slash, `?` or `#` comes first. -/
def SchemeSplit.of (t : Text) : SchemeSplit :=
  let stops := fun c : Char => endsAuthority c || c == ':'
  let scheme := t.takeWhile fun c => !stops c
  match t.dropWhile fun c => !stops c with
  | ':' :: '/' :: '/' :: rest => if isScheme scheme then .hierarchical scheme rest else .malformed
  | ':' :: rest =>
    if !startsWithPort rest && isScheme scheme then .bare scheme rest else .absent t
  | _ => .absent t

end UrlPolicy
