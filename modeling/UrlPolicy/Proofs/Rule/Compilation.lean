import UrlPolicy.Rule.Ruleset

set_option autoImplicit false

namespace UrlPolicy

/-- What is reported of entries, the first of which is at `position`. -/
def diagnoseFrom (side : Side) (position : Nat) (entries : List Text) : List Diagnostic :=
  (entries.zipIdx position).filterMap fun e =>
    (Rule.read e.1).2.map fun error => ⟨side, e.2, e.1, error⟩

/-- An entry is reported in the step that reads it, so the reports follow the order of the
entries. -/
theorem readEntries_eq (side : Side) (position : Nat) (log : CompileLog) (entries : List Text) :
    readEntries side position log entries =
      (readRules entries, (diagnoseFrom side position entries).foldl CompileLog.report log) := by
  -- the reports so far are left open, since each step adds to them
  induction entries generalizing position log with
  | nil => rfl
  | cons raw entries ih =>
    cases hread : Rule.read raw with
    | mk r error? =>
      cases error? with
      | none => simp [readEntries, readRules, diagnoseFrom, hread, ih]
      | some error => simp [readEntries, readRules, diagnoseFrom, hread, ih]

namespace CompileLog

theorem foldl_report (log : CompileLog) (ds : List Diagnostic) :
    ds.foldl report log =
      ⟨log.diagnostics ++ ds, { log.stats with invalid := log.stats.invalid + ds.length }⟩ := by
  induction ds generalizing log with
  | nil => simp
  | cons d ds ih =>
    rw [List.foldl_cons, ih]
    simp [report, Nat.add_assoc, Nat.add_comm 1]

end CompileLog

theorem compileList_eq (side : Side) (entries : List Text) (log : CompileLog) :
    compileList side entries log =
      ((dedup (readRules entries)).kept,
        ⟨log.diagnostics ++ diagnose side entries,
          { before := log.stats.before + entries.length
            after := log.stats.after + (dedup (readRules entries)).kept.length
            deduped := log.stats.deduped + (dedup (readRules entries)).dropped.length
            invalid := log.stats.invalid + (diagnose side entries).length }⟩) := by
  have hread := readEntries_eq side 0 log entries
  rw [CompileLog.foldl_report] at hread
  simp only [compileList, hread, CompileLog.count, readRules, List.length_map]
  rfl

/-- Each list is read and divided by itself. Only the reports and the numbers go over from the
first list to the second. -/
theorem compile_eq (allow deny : List Text) :
    compile allow deny =
      ⟨⟨(dedup (readRules allow)).kept, (dedup (readRules deny)).kept,
          (Ruleset.ofEntries allow deny).diagnostics⟩,
        { before := allow.length + deny.length
          after := (dedup (readRules allow)).kept.length + (dedup (readRules deny)).kept.length
          deduped :=
            (dedup (readRules allow)).dropped.length + (dedup (readRules deny)).dropped.length
          invalid := (Ruleset.ofEntries allow deny).diagnostics.length }⟩ := by
  simp [compile, compileList_eq, CompileLog.empty, Ruleset.ofEntries]

theorem list_compile (allow deny : List Text) (side : Side) :
    (compile allow deny).rules.list side =
      (dedup ((Ruleset.ofEntries allow deny).list side)).kept := by
  rw [compile_eq]
  cases side <;> rfl

end UrlPolicy
