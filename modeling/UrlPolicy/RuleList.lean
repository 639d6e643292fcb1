import UrlPolicy.Text.Blank

set_option autoImplicit false

namespace UrlPolicy.RuleList

def isComment : Text → Bool
  | '#' :: _ | '!' :: _ => true
  | _ => false

def parse (t : Text) : List Text :=
  ((Text.lines t).map Text.trim).filter fun line => line ≠ [] && !isComment line

/-- The rules that are not blank, each trimmed and on its own line. -/
def format (rules : List Text) : Text :=
  ((rules.map Text.trim).filter (· ≠ [])).flatMap (· ++ ['\n'])

end UrlPolicy.RuleList
