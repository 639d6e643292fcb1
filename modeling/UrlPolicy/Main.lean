import UrlPolicy.CommandLine.Run

set_option autoImplicit false

namespace UrlPolicy.CommandLine

/-- The number of a failure. Some calls of the system give it with the opposite sign. -/
def errorNumber (code : UInt32) : UInt32 := if code < 0x80000000 then code else 0 - code

/-- Of the failures with one name, the system tells which it was by a number. -/
def fileError (e : IO.Error) : FileError :=
  match e with
  | .noFileOrDirectory .. => .notFound
  | .alreadyExists .. => .exists
  | .inappropriateType _ code _ =>
    if errorNumber code = 20 then .notADirectory
    else if errorNumber code = 21 then .isADirectory
    else .other e.toString.toList
  | .invalidArgument _ code _ =>
    if errorNumber code = 36 then .nameTooLong else .other e.toString.toList
  | _ => .other e.toString.toList

def attempt {α : Type} (act : IO α) : IO (Except FileError α) := do
  match ← act.toBaseIO with
  | .ok a => return .ok a
  | .error e => return .error (fileError e)

def readText (path : Text) : IO (Except FileError Text) := do
  match ← attempt (IO.FS.readBinFile (String.ofList path)) with
  | .error e => return .error e
  | .ok bytes =>
    match String.fromUTF8? bytes with
    | none => return .error .notText
    | some content => return .ok content.toList

def readFiles (paths : List Text) : IO Files := do
  let contents ← paths.mapM fun path => return (path, ← readText path)
  return fun path => (contents.lookup path).getD (.error .notFound)

def decideAll (b : Benchmark) : IO Nat := do
  let mut blocked := 0
  for url in b.urls do
    if b.isBlocked url then blocked := blocked + 1
  return blocked

def measureRounds (b : Benchmark) : IO Measurement := do
  for _ in [0:b.warmupRounds] do
    discard (decideAll { b with traced := false })
  let mut batches : Array Nat := #[]
  let mut blocked := 0
  let mut decided := 0
  let start ← IO.monoNanosNow
  let mut batchStart := start
  for _ in [0:b.rounds] do
    for url in b.urls do
      if b.isBlocked url then blocked := blocked + 1
      decided := decided + 1
      if decided % b.batch = 0 then
        let now ← IO.monoNanosNow
        batches := batches.push (now - batchStart)
        batchStart := now
  return ⟨(← IO.monoNanosNow) - start, batches.toList, blocked⟩

def systemHost : Host IO where
  makeFolders path := attempt (IO.FS.createDirAll (String.ofList path))
  writeFile path content :=
    attempt (IO.FS.writeFile (String.ofList path) (String.ofList content))
  clock := IO.monoNanosNow
  measure := measureRounds

def program (args : List String) : IO UInt32 := do
  match readCommand (args.map String.toList) with
  | .error .help =>
    IO.println usageLine
    return 0
  | .error .wrong =>
    IO.eprintln usageLine
    return 2
  | .ok command =>
    let files ← readFiles command.paths
    let ending := (← command.run systemHost files).ending
    IO.print (String.ofList ending.out)
    IO.eprint (String.ofList ending.err)
    return ending.status.toUInt32

end UrlPolicy.CommandLine

def main (args : List String) : IO UInt32 := UrlPolicy.CommandLine.program args
