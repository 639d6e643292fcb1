import UrlPolicy.CommandLine.Benchmark

set_option autoImplicit false

namespace UrlPolicy.CommandLine

structure Host (m : Type → Type) where
  makeFolders : Text → m (Except FileError Unit)
  writeFile : Text → Text → m (Except FileError Unit)
  clock : m Nat
  measure : Benchmark → m Measurement

def PolicySource.paths (s : PolicySource) : List Text :=
  s.settings.toList ++ s.allowFiles ++ s.denyFiles

def Command.paths : Command → List Text
  | .check source _ _ _ | .validate source _ | .explainUrls source _ => source.paths
  | .explainPatterns _ => []
  | .exportLists settings _ _ => [settings]
  | .bench source urls _ _ _ _ => source.paths ++ urls.toList

def milliseconds (nanoseconds : Nat) : Text :=
  Decimal.fixed 1 (nanoseconds.toFloat / 1000000) ++ "ms".toList

variable {m : Type → Type} [Monad m]

def writeText (host : Host m) (path text : Text) : m (Except Text Unit) := do
  match FilePath.parent? path with
  | none | some [] => pure ()
  | some folder =>
    match ← host.makeFolders folder with
    | .error e => return .error (failedTo "create" folder e)
    | .ok _ => pure ()
  match ← host.writeFile path text with
  | .error e => return .error (failedTo "write" path e)
  | .ok _ => return .ok ()

def runExport (host : Host m) (files : Files) (settings allowOut denyOut : Text) :
    m Report := do
  match readSettings files settings with
  | .error e => return .failed [] e
  | .ok s =>
    match ← writeText host allowOut (RuleList.format s.allowRules) with
    | .error e => return .failed [] e
    | .ok _ =>
      match ← writeText host denyOut (RuleList.format s.denyRules) with
      | .error e => return .failed [] e
      | .ok _ =>
        return .ofLines ["Exported ".toList ++ number s.allowRules.length ++
          " allow rules to '".toList ++ allowOut ++ "' and ".toList ++
          number s.denyRules.length ++ " deny rules to '".toList ++ denyOut ++ ['\'']]

def runBench (host : Host m) (files : Files) (source : PolicySource) (urls : Option Text)
    (iterations warmupOps sampleBatchOps : Nat) (traced : Bool) : m Report := do
  let start ← host.clock
  match load files source with
  | (lines, .error e) => return .failed (banner ++ lines) e
  | (lines, .ok loaded) =>
    let lines := banner ++ lines ++ [loadedLine loaded (milliseconds ((← host.clock) - start))]
    match (urls.map (readUrls files)).getD (.ok defaultUrls) with
    | .error e => return .failed lines e
    | .ok urls =>
      let b := Benchmark.of loaded.compiled.policy urls iterations warmupOps sampleBatchOps traced
      let measured ← host.measure b
      return .ofLines (lines ++ datasetLines urls iterations ++ benchmarkLines b measured ++
        closingLines)

def Command.run (host : Host m) (files : Files) : Command → m Report
  | .check source urls tempAllow json => return checkReport files source urls tempAllow json
  | .validate source strict => do
    let start ← host.clock
    let loaded := load files source
    let time := (← host.clock) - start
    return validateReport loaded strict (milliseconds time)
  | .explainUrls source urls => return explainReport files source urls
  | .explainPatterns patterns => return patternsReport patterns
  | .exportLists settings allowOut denyOut => runExport host files settings allowOut denyOut
  | .bench source urls iterations warmupOps sampleBatchOps traced =>
    runBench host files source urls iterations warmupOps sampleBatchOps traced

structure Ending where
  status : Nat
  out : Text
  err : Text
  deriving DecidableEq, Repr

def Report.ending (r : Report) : Ending :=
  let out := r.lines.flatMap (· ++ ['\n'])
  match r.error with
  | none => ⟨0, out, []⟩
  | some e => ⟨1, out, "Error: ".toList ++ e ++ ['\n']⟩

end UrlPolicy.CommandLine
