import UrlPolicy.Rule.Match

/-!
Rulesets: an allow list and a deny list of rules, and what was wrong with their entries. A
ruleset is built from the entries as they are, or without the rules whose pattern was there
before.
-/

set_option autoImplicit false

namespace UrlPolicy

structure Diagnostic where
  side : Side
  /-- The place in the list as it was given. -/
  position : Nat
  raw : Text
  error : PatternError
  deriving DecidableEq, Repr

structure Ruleset where
  allow : List Rule
  deny : List Rule
  diagnostics : List Diagnostic
  deriving DecidableEq, Repr

def readRules (entries : List Text) : List Rule := entries.map fun raw => (Rule.read raw).1

def diagnose (side : Side) (entries : List Text) : List Diagnostic :=
  entries.zipIdx.filterMap fun e => (Rule.read e.1).2.map fun error => ⟨side, e.2, e.1, error⟩

namespace Ruleset

def empty : Ruleset := ⟨[], [], []⟩

def list (rs : Ruleset) : Side → List Rule
  | .allow => rs.allow
  | .deny => rs.deny

def isEmpty (rs : Ruleset) : Bool := rs.allow.isEmpty && rs.deny.isEmpty

/-- One rule for each entry. -/
def ofEntries (allow deny : List Text) : Ruleset :=
  ⟨readRules allow, readRules deny, diagnose .allow allow ++ diagnose .deny deny⟩

def matching (rs : Ruleset) (side : Side) (a : Address) : List RuleMatch :=
  matchingRules (rs.list side) a

def best (rs : Ruleset) (side : Side) (a : Address) : Option RuleMatch :=
  bestMatch (rs.matching side a)

end Ruleset

/-- A list of rules divided into those that stay and those whose pattern was there before. -/
structure Deduplication where
  kept : List Rule
  dropped : List Rule
  deriving DecidableEq, Repr

/-- Divides the rest of a list behind rules with the patterns `seen`. Rules without a pattern
stay. -/
def dedupAfter (seen : List Pattern) : List Rule → Deduplication
  | [] => ⟨[], []⟩
  | r :: rs =>
    match r.pattern with
    | none =>
      let d := dedupAfter seen rs
      ⟨r :: d.kept, d.dropped⟩
    | some p =>
      if seen.contains p then
        let d := dedupAfter seen rs
        ⟨d.kept, r :: d.dropped⟩
      else
        let d := dedupAfter (p :: seen) rs
        ⟨r :: d.kept, d.dropped⟩

def dedup (rules : List Rule) : Deduplication := dedupAfter [] rules

/-- How many rules there were and are, over both lists. -/
structure CompileStats where
  before : Nat
  after : Nat
  deduped : Nat
  invalid : Nat
  deriving DecidableEq, Repr

/-- What is carried from one list to the next. -/
structure CompileLog where
  diagnostics : List Diagnostic
  stats : CompileStats
  deriving DecidableEq, Repr

namespace CompileLog

def empty : CompileLog := ⟨[], ⟨0, 0, 0, 0⟩⟩

def report (log : CompileLog) (d : Diagnostic) : CompileLog :=
  ⟨log.diagnostics ++ [d], { log.stats with invalid := log.stats.invalid + 1 }⟩

def count (log : CompileLog) (rules : List Rule) (d : Deduplication) : CompileLog :=
  { log with stats := { log.stats with
      before := log.stats.before + rules.length
      after := log.stats.after + d.kept.length
      deduped := log.stats.deduped + d.dropped.length } }

end CompileLog

/-- Reads the entries from `position` on, and reports those that are no patterns. -/
def readEntries (side : Side) (position : Nat) (log : CompileLog) :
    List Text → List Rule × CompileLog
  | [] => ([], log)
  | raw :: entries =>
    let (r, error?) := Rule.read raw
    let log := match error? with
      | none => log
      | some error => log.report ⟨side, position, raw, error⟩
    let (rules, log) := readEntries side (position + 1) log entries
    (r :: rules, log)

def compileList (side : Side) (entries : List Text) (log : CompileLog) :
    List Rule × CompileLog :=
  let (rules, log) := readEntries side 0 log entries
  let d := dedup rules
  (d.kept, log.count rules d)

structure Compilation where
  rules : Ruleset
  stats : CompileStats
  deriving DecidableEq, Repr

/-- The ruleset without repeated patterns in either list. -/
def compile (allow deny : List Text) : Compilation :=
  let (allow, log) := compileList .allow allow .empty
  let (deny, log) := compileList .deny deny log
  ⟨⟨allow, deny, log.diagnostics⟩, log.stats⟩

end UrlPolicy
