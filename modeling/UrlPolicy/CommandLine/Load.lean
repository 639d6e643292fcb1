import UrlPolicy.CommandLine.Command
import UrlPolicy.Files.Path
import UrlPolicy.RuleList
import UrlPolicy.Settings

set_option autoImplicit false

namespace UrlPolicy.CommandLine

def failedTo (verb : String) (path : Text) (e : FileError) : Text :=
  "Failed to ".toList ++ verb.toList ++ " '".toList ++ path ++ "': ".toList ++ e.message

def readSettings (files : Files) (path : Text) : Except Text Settings :=
  match files path with
  | .error e => .error ("cannot read ".toList ++ path ++ ": ".toList ++ e.message)
  | .ok content => (Settings.read content).mapError fun fault => (Settings.Error.json fault).message

def listSummary (path content : Text) : Text :=
  "  ".toList ++ FilePath.fileName path ++ " - ".toList ++
    Nat.toDigits 10 (Text.lines content).length ++ " lines, ".toList ++
    Nat.toDigits 10 (RuleList.parse content).length ++ " rules".toList

/-- Reads list files up to the first that cannot be read: a line about each, and all rules. -/
def readLists (files : Files) : List Text → List Text × Except Text (List Text)
  | [] => ([], .ok [])
  | path :: paths =>
    match files path with
    | .error e => ([], .error (failedTo "read" path e))
    | .ok content =>
      let (lines, rules) := readLists files paths
      (listSummary path content :: lines, rules.map (RuleList.parse content ++ ·))

def gather (files : Files) (source : PolicySource) : List Text × Except Text Settings :=
  match (source.settings.map (readSettings files)).getD (.ok Settings.empty) with
  | .error e => ([], .error e)
  | .ok settings =>
    match readLists files source.allowFiles with
    | (lines, .error e) => (lines, .error e)
    | (lines, .ok allow) =>
      match readLists files source.denyFiles with
      | (more, .error e) => (lines ++ more, .error e)
      | (more, .ok deny) =>
        (lines ++ more, .ok { settings with
          allowRules := settings.allowRules ++ allow
          denyRules := settings.denyRules ++ deny
          mode := source.mode.or settings.mode })

structure Loaded where
  compiled : Settings.Compiled
  allowRules : Nat
  denyRules : Nat
  deriving DecidableEq, Repr

def load (files : Files) (source : PolicySource) : List Text × Except Text Loaded :=
  match gather files source with
  | (lines, .error e) => (lines, .error e)
  | (lines, .ok settings) =>
    (lines, match settings.compile with
      | .error e => .error e.message
      | .ok compiled =>
        .ok ⟨compiled, settings.allowRules.length, settings.denyRules.length⟩)

def readUrls (files : Files) (path : Text) : Except Text (List Text) :=
  match files path with
  | .error e => .error (failedTo "read" path e)
  | .ok content =>
    let urls := ((Text.lines content).map Text.trim).filter fun line =>
      line ≠ [] && line.head? ≠ some '#'
    if urls = [] then .error ("No URLs in '".toList ++ path ++ ['\'']) else .ok urls

end UrlPolicy.CommandLine
