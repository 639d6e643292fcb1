import UrlPolicy.Text.Blank
import UrlPolicy.Text.LowerCase

set_option autoImplicit false

namespace UrlPolicy

inductive Mode where
  /-- What the deny list names is blocked, and nothing else. -/
  | blacklist
  /-- What the allow list names is allowed, and nothing else. -/
  | whitelist
  /-- Both lists count; of a rule from each, the more specific one decides. -/
  | combined
  deriving DecidableEq, Repr

namespace Mode

def name : Mode → Text
  | .blacklist => "blacklist".toList
  | .whitelist => "whitelist".toList
  | .combined => "combined".toList

def parse? (t : Text) : Option Mode :=
  let word := Text.lowerAscii (Text.trim t)
  if ["blacklist".toList, "blocklist".toList, "deny".toList].contains word then some .blacklist
  else if ["whitelist".toList, "allowlist".toList, "allow".toList].contains word then
    some .whitelist
  else if ["combined".toList, "both".toList].contains word then some .combined
  else none

end Mode

end UrlPolicy
