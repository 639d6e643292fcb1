import UrlPolicy.Host
import UrlPolicy.Path.Basic
import UrlPolicy.Text.Blank
import UrlPolicy.Text.LowerCase

set_option autoImplicit false

namespace UrlPolicy

/-- Where an address points: a host, and what follows it from the first slash on. -/
structure Location where
  host : Text
  target : Text
  deriving DecidableEq, Repr

structure Address where
  /-- The whole text, trimmed and in lower case. -/
  text : Text
  scheme : Option Text
  location : Option Location
  deriving DecidableEq, Repr

namespace Address

def host (a : Address) : Text := (a.location.map Location.host).getD a.text

def target (a : Address) : Text := (a.location.map Location.target).getD []

def path (a : Address) : Text := (splitQuery a.target).1

def kind (a : Address) : Option SchemeKind := a.scheme.map SchemeKind.of

def isInternal (a : Address) : Bool := a.kind == some .internal

/-- Reads what follows the scheme. A page of the browser may have a host of any form. -/
def locate? (kind : Option SchemeKind) (rest : Text) : Option Location :=
  let (authority, remainder) := splitAuthority rest
  match (hostOf? authority).map (Text.chop '.') with
  | none => none
  | some host =>
    if isHost host || kind == some .internal then some ⟨host, rooted remainder⟩ else none

def read (raw : Text) : Address :=
  let text := Text.lower (Text.trim raw)
  match SchemeSplit.of text with
  | .hierarchical scheme rest => ⟨text, some scheme, locate? (some (.of scheme)) rest⟩
  | .bare scheme _ => ⟨text, some scheme, none⟩
  | .absent rest => ⟨text, none, locate? none rest⟩
  | .malformed => ⟨text, none, none⟩

end Address

def isInternalPage (raw : Text) : Bool :=
  match SchemeSplit.of (Text.lowerAscii (Text.trim raw)) with
  | .hierarchical scheme _ | .bare scheme _ => SchemeKind.of scheme == .internal
  | _ => false

end UrlPolicy
