import UrlPolicy.Scheme
import UrlPolicy.Text.Alphanumeric

set_option autoImplicit false

namespace UrlPolicy

def splitAuthority (t : Text) : Text × Text :=
  (t.takeWhile fun c => !endsAuthority c, t.dropWhile fun c => !endsAuthority c)

def isPort : Text → Bool
  | ':' :: digits => digits.all Char.isDigit
  | _ => false

/-- The host between the last `@` and the port. There is none if the port is not made of digits,
or if a bracket stays open. -/
def hostOf? (authority : Text) : Option Text :=
  let hostPort := authority.afterLast '@'
  match hostPort with
  | '[' :: _ =>
    match hostPort.dropWhile (· ≠ ']') with
    | [] => none
    | close :: port =>
      if port = [] || isPort port then some (hostPort.takeWhile (· ≠ ']') ++ [close]) else none
  | _ =>
    match hostPort.dropWhile (· ≠ ':') with
    | [] => some hostPort
    | port => if isPort port then some (hostPort.takeWhile (· ≠ ':')) else none

def isHexDigit (c : Char) : Bool :=
  c.isDigit || ('a' ≤ c && c ≤ 'f') || ('A' ≤ c && c ≤ 'F')

def bracketed? (t : Text) : Option Text :=
  (Text.dropStart? ['['] t).bind (Text.dropEnd? [']'])

/-- A numeric address in brackets, or letters, numbers, `-`, `.` and `_`. -/
def isHost (host : Text) : Bool :=
  match bracketed? host with
  | some inner => inner != [] && inner.all fun c => isHexDigit c || c == ':' || c == '.'
  | none =>
    host != [] && host.all fun c => Text.isAlphanumeric c || c == '-' || c == '.' || c == '_'

end UrlPolicy
