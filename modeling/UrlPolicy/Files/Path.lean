import UrlPolicy.Text.Basic

set_option autoImplicit false

namespace UrlPolicy

inductive FileError where
  | notFound | exists | notADirectory | isADirectory | nameTooLong
  | notText
  /-- Any other failure, with the words of the system. -/
  | other (message : Text)
  deriving DecidableEq, Repr

def FileError.message : FileError → Text
  | .notFound => "No such file or directory (os error 2)".toList
  | .exists => "File exists (os error 17)".toList
  | .notADirectory => "Not a directory (os error 20)".toList
  | .isADirectory => "Is a directory (os error 21)".toList
  | .nameTooLong => "File name too long (os error 36)".toList
  | .notText => "stream did not contain valid UTF-8".toList
  | .other message => message

namespace FilePath

def maxNameSize : Nat := 255

def maxSize : Nat := 4095

def check (path : Text) : Except FileError Unit :=
  if path = [] then .error .notFound
  else if maxSize < path.size then .error .nameTooLong
  else .ok ()

def fileName (path : Text) : Text := Text.afterLast '/' path

/-- Drops slashes and `/.` from the end of a path that is written backwards. -/
def trimBackwards : Text → Text
  | ['/'] => ['/']
  | '/' :: t => trimBackwards t
  | ['.', '/'] => ['/']
  | '.' :: '/' :: t => trimBackwards t
  | t => t

/-- The path of the folder that holds the last name of a path. There is none for the empty path
and for the root. -/
def parent? (path : Text) : Option Text :=
  let p := trimBackwards path.reverse
  if p = [] ∨ p = ['/'] then none
  else some (trimBackwards (p.dropWhile (· ≠ '/'))).reverse

end FilePath

abbrev Files := Text → Except FileError Text

end UrlPolicy
