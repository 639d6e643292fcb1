import UrlPolicy.Text.Basic
import UrlPolicy.Text.CharacterSet

set_option autoImplicit false

namespace UrlPolicy.Text

def blankSet : CharacterSet := [
  (9, 13), (32, 32), (133, 133), (160, 160), (5760, 5760), (8192, 8202), (8232, 8233),
  (8239, 8239), (8287, 8287), (12288, 12288)]

def isBlank (c : Char) : Bool := blankSet.contains c

def controlSet : CharacterSet := [(0, 31), (127, 159)]

def isControl (c : Char) : Bool := controlSet.contains c

def trim (t : Text) : Text := ((t.dropWhile isBlank).reverse.dropWhile isBlank).reverse

end UrlPolicy.Text
