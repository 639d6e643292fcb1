import UrlPolicy.CommandLine.Options

set_option autoImplicit false

namespace UrlPolicy.CommandLine

structure PolicySource where
  settings : Option Text
  allowFiles : List Text
  denyFiles : List Text
  mode : Option Text
  deriving DecidableEq, Repr

inductive Command where
  | check (source : PolicySource) (urls tempAllow : List Text) (json : Bool)
  | validate (source : PolicySource) (strict : Bool)
  | explainUrls (source : PolicySource) (urls : List Text)
  | explainPatterns (patterns : List Text)
  | exportLists (settings allowOut denyOut : Text)
  | bench (source : PolicySource) (urls : Option Text) (iterations warmupOps sampleBatchOps : Nat)
      (traced : Bool)
  deriving DecidableEq, Repr

def verboseOption : OptionSpec := ⟨"verbose".toList, some 'v', .counted⟩

def policyOptions : List OptionSpec := [
  ⟨"settings".toList, some 's', .value⟩,
  ⟨"allow".toList, none, .values⟩,
  ⟨"deny".toList, none, .values⟩,
  ⟨"mode".toList, some 'm', .value⟩]

def PolicySource.of (a : Arguments) : PolicySource :=
  ⟨a.value? "settings".toList, a.values "allow".toList, a.values "deny".toList,
    a.value? "mode".toList⟩

def checkSignature : Signature where
  options := verboseOption :: policyOptions ++ [
    ⟨"temp-allow".toList, none, .values⟩, ⟨"json".toList, none, .flag⟩]
  takesPositionals := true

def readCheck (args : List Text) : Except Usage Command := do
  let a ← readArguments checkSignature args
  if a.positionals = [] then .error .wrong
  else .ok (.check (.of a) a.positionals (a.values "temp-allow".toList) (a.has "json".toList))

def validateSignature : Signature where
  options := verboseOption :: policyOptions ++ [⟨"strict".toList, none, .flag⟩]
  takesPositionals := false

def readValidate (args : List Text) : Except Usage Command := do
  let a ← readArguments validateSignature args
  .ok (.validate (.of a) (a.has "strict".toList))

def explainSignature : Signature where
  options := verboseOption :: policyOptions ++ [⟨"pattern".toList, some 'p', .flag⟩]
  takesPositionals := true

def readExplain (args : List Text) : Except Usage Command := do
  let a ← readArguments explainSignature args
  if a.positionals = [] then .error .wrong
  else if a.has "pattern".toList then .ok (.explainPatterns a.positionals)
  else .ok (.explainUrls (.of a) a.positionals)

def exportSignature : Signature where
  options := [verboseOption, ⟨"settings".toList, some 's', .value⟩,
    ⟨"allow-out".toList, none, .value⟩, ⟨"deny-out".toList, none, .value⟩]
  takesPositionals := false

def readExport (args : List Text) : Except Usage Command := do
  let a ← readArguments exportSignature args
  match a.value? "settings".toList with
  | none => .error .wrong
  | some settings =>
    .ok (.exportLists settings ((a.value? "allow-out".toList).getD "allow.txt".toList)
      ((a.value? "deny-out".toList).getD "deny.txt".toList))

def benchSignature : Signature where
  options := verboseOption :: policyOptions ++ [
    ⟨"urls".toList, some 'u', .value⟩, ⟨"iterations".toList, none, .natural⟩,
    ⟨"warmup-ops".toList, none, .natural⟩, ⟨"sample-batch-ops".toList, none, .natural⟩,
    ⟨"trace".toList, none, .flag⟩]
  takesPositionals := false

def readBench (args : List Text) : Except Usage Command := do
  let a ← readArguments benchSignature args
  let number := fun (name : String) default => ((a.value? name.toList).bind natural?).getD default
  .ok (.bench (.of a) (a.value? "urls".toList) (number "iterations" 1000)
    (number "warmup-ops" 10000) (number "sample-batch-ops" 256) (a.has "trace".toList))

def readerOf? (name : Text) : Option (List Text → Except Usage Command) :=
  if name = "check".toList then some readCheck
  else if name = "validate".toList then some readValidate
  else if name = "explain".toList then some readExplain
  else if name = "export".toList then some readExport
  else if name = "bench".toList then some readBench
  else none

def usageLine : String :=
  "Usage: [-v] check | validate | explain | export | bench, with options and arguments"

def helpUsage : List Text → Usage
  | [] => .help
  | [name] => if name = "help".toList ∨ (readerOf? name).isSome then .help else .wrong
  | _ => .wrong

def readCommand : List Text → Except Usage Command
  | [] => .error .wrong
  | arg :: rest =>
    match readerOf? arg with
    | some reader => reader rest
    | none =>
      if arg = "help".toList then .error (helpUsage rest)
      else if arg ≠ ['-', '-'] ∧ looksLikeOption arg then
        match readOption ⟨[verboseOption], false⟩ arg [] .empty with
        | .error usage => .error usage
        | .ok _ => readCommand rest
      else .error .wrong

end UrlPolicy.CommandLine
