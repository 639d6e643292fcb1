import UrlPolicy.Files.Path

/-!
A folder of text files held in memory. Paths start in it. Of what lies outside only a few places
that every system has are known, and that the folder has a parent; what is written there is not
kept.
-/

set_option autoImplicit false

namespace UrlPolicy

abbrev Place := List Text

structure Folder where
  files : List (Place × Text)
  folders : List Place
  deriving DecidableEq, Repr

namespace Folder

inductive Node where
  | file (place : Place)
  | folder (place : Place)
  /-- A folder that is not in this one, with its place from the root if that is known. -/
  | outside (place : Option Place)
  /-- The file that is always empty, whatever is written to it. -/
  | sink
  deriving DecidableEq, Repr

def systemFolders : List Place :=
  [] :: ["bin", "dev", "etc", "lib", "proc", "tmp", "usr"].map fun name => [name.toList]

def sinkPlace : Place := ["dev".toList, "null".toList]

def systemNode? (place : Place) : Option Node :=
  if place = sinkPlace then some .sink
  else if systemFolders.contains place then some (.outside (some place))
  else none

/-- Whether a place is a folder: it is this one, was made, or has something in it. -/
def isFolder (f : Folder) (place : Place) : Bool :=
  place == [] || f.folders.contains place ||
    f.files.any fun file => file.1 != place && place.isPrefixOf file.1

def node? (f : Folder) (place : Place) : Option Node :=
  if (f.files.lookup place).isSome then some (.file place)
  else if f.isFolder place then some (.folder place)
  else none

def Node.parent : Node → Node
  | .folder [] => .outside none
  | .folder place => .folder place.dropLast
  | .outside place => .outside (place.map List.dropLast)
  | node => node

def child? (f : Folder) (node : Node) (name : Text) : Option Node :=
  match node with
  | .folder place => f.node? (place ++ [name])
  | .outside (some place) => systemNode? (place ++ [name])
  | _ => none

def enter (f : Folder) (node : Node) (name : Text) : Except FileError Node :=
  match node with
  | .file _ | .sink => .error .notADirectory
  | .folder _ | .outside _ =>
    if name = [] ∨ name = ['.'] then .ok node
    else if name = ['.', '.'] then .ok node.parent
    else if FilePath.maxNameSize < name.size then .error .nameTooLong
    else match f.child? node name with
      | none => .error .notFound
      | some n => .ok n

def walk (f : Folder) (node : Node) : List Text → Except FileError Node
  | [] => .ok node
  | name :: names => do f.walk (← f.enter node name) names

def origin (path : Text) : Node :=
  if path.head? = some '/' then .outside (some []) else .folder []

def find (f : Folder) (path : Text) : Except FileError Node := do
  FilePath.check path
  f.walk (origin path) (Text.split '/' path)

def read (f : Folder) (path : Text) : Except FileError Text := do
  match ← f.find path with
  | .file place => .ok ((f.files.lookup place).getD [])
  | .sink => .ok []
  | .folder _ | .outside _ => .error .isADirectory

def withoutSlashes (path : Text) : Text := (path.reverse.dropWhile (· == '/')).reverse

/-- Where the last name of a path stands, and what it stands for there. -/
structure Entry where
  folder : Node
  name : Text
  node : Except FileError Node

def findLast (f : Folder) (path : Text) : Except FileError Entry := do
  FilePath.check path
  let names := Text.split '/' (withoutSlashes path)
  let name := names.getLast?.getD []
  let folder ← f.walk (origin path) names.dropLast
  .ok ⟨folder, name, f.enter folder name⟩

def putFile (f : Folder) (place : Place) (content : Text) : Folder :=
  { f with files := f.files.filter (·.1 ≠ place) ++ [(place, content)] }

def writeEntry (f : Folder) (entry : Entry) (content : Text) : Except FileError Folder :=
  match entry.node with
  | .ok (.file place) => .ok (f.putFile place content)
  | .ok .sink => .ok f
  | .ok (.folder _) | .ok (.outside _) => .error .isADirectory
  | .error .notFound =>
    match entry.folder with
    | .folder place => .ok (f.putFile (place ++ [entry.name]) content)
    | _ => .ok f
  | .error e => .error e

/-- Writes the file with the given path. One with a slash at its end names no file. -/
def write (f : Folder) (path content : Text) : Except FileError Folder := do
  let entry ← f.findLast path
  match entry.node with
  | .error .notADirectory => .error .notADirectory
  | _ => if path.getLast? = some '/' then .error .isADirectory else f.writeEntry entry content

def make (f : Folder) (path : Text) : Except FileError Folder := do
  let entry ← f.findLast path
  match entry.node with
  | .ok _ => .error .exists
  | .error .notFound =>
    match entry.folder with
    | .folder place => .ok { f with folders := f.folders ++ [place ++ [entry.name]] }
    | _ => .ok f
  | .error e => .error e

def isFolderPath (f : Folder) (path : Text) : Bool :=
  match f.find path with
  | .ok (.folder _) | .ok (.outside _) => true
  | _ => false

def ensure (f : Folder) (path : Text) : Except FileError Folder :=
  match f.make path with
  | .ok f => .ok f
  | .error e => if f.isFolderPath path then .ok f else .error e

def makeAllFrom : Nat → Folder → Text → Except FileError Folder
  | 0, f, path => f.ensure path
  | fuel + 1, f, path =>
    if path = [] then .ok f
    else match f.make path with
      | .error .notFound =>
        match FilePath.parent? path with
        | none => .error .notFound
        | some parent => do (← makeAllFrom fuel f parent).ensure path
      | _ => f.ensure path

def makeAll (f : Folder) (path : Text) : Except FileError Folder :=
  makeAllFrom path.length f path

def ofFiles (files : List (Text × Text)) : Folder :=
  ⟨files.map fun file => (Text.split '/' file.1, file.2), []⟩

def changes (before after : Folder) : List (Text × Text) :=
  (after.files.filter fun file => before.files.lookup file.1 ≠ some file.2).map
    fun file => (['/'].intercalate file.1, file.2)

end Folder

end UrlPolicy
