import UrlPolicy.CommandLine.Run
import UrlPolicy.Proofs.CommandLine.Load
import UrlPolicy.Proofs.Settings.RoundTrip

/-!
How checking addresses ends. Main statement: it prints what the policy decides about each address,
where the rules of the settings and of the list files count one behind the other, or nothing at all
if something cannot be read; and it does not matter over how many files the rules are spread.
-/

set_option autoImplicit false

namespace UrlPolicy.CommandLine

theorem isListed_iff {hosts : List Text} {host : Text} : isListed hosts host = true ↔
    ∃ h ∈ hosts, Text.lowerAscii h = Text.lowerAscii host := by
  simp [isListed]

theorem checkReport_congr {files files' : Files} {source source' : PolicySource}
    (urls tempAllow : List Text) (json : Bool)
    (h : (gather files' source').2 = (gather files source).2) :
    checkReport files' source' urls tempAllow json =
      checkReport files source urls tempAllow json := by
  rw [checkReport, checkReport, load_snd, load_snd, h]

def printed (p : Policy) (isExempt : Text → Bool) (urls : List Text) : Text :=
  urls.flatMap fun url => verdictLine url (p.decide url isExempt false).verdict ++ ['\n']

theorem checkReport_of_reads {files : Files} {source : PolicySource} {i : Inputs} {mode : Mode}
    (urls tempAllow : List Text) (h : i.ReadFrom files source)
    (hmode : IsMode (source.mode.or i.settings.mode) mode) :
    (checkReport files source urls tempAllow false).ending =
      ⟨0, printed (i.policy mode) (isListed tempAllow) urls, []⟩ := by
  obtain ⟨loaded, hload, hpolicy⟩ := load_of_reads h hmode
  simp only [checkReport, hload, Report.ofLines, Report.ending, List.flatMap_map, printed,
    ← hpolicy]
  rfl

theorem checkReport_of_unloadable {files : Files} {source : PolicySource}
    (urls tempAllow : List Text) (h : Unloadable files source) :
    ∃ err, (checkReport files source urls tempAllow false).ending = ⟨1, [], err⟩ := by
  obtain ⟨message, hload⟩ := h.load
  rw [checkReport, hload]
  exact ⟨_, rfl⟩

/-- Checking does nothing but read. If all files can be read and the mode is known, the verdicts on
the addresses are printed in order; if not, only an error is. One of the two is the case, and
nothing changes if the same rules come from other files. -/
theorem check_ending {m : Type → Type} [Monad m] (host : Host m) (files : Files)
    (source : PolicySource) (urls tempAllow : List Text) :
    ∃ report, (Command.check source urls tempAllow false).run host files = pure report ∧
      (∀ i mode isExempt, Inputs.ReadFrom i files source →
        IsMode (source.mode.or i.settings.mode) mode →
        (∀ name, isExempt name = true ↔
          ∃ h ∈ tempAllow, Text.lowerAscii h = Text.lowerAscii name) →
        report.ending = ⟨0, printed (i.policy mode) isExempt urls, []⟩) ∧
      (Unloadable files source → ∃ err, report.ending = ⟨1, [], err⟩) ∧
      ((∃ i mode, Inputs.ReadFrom i files source ∧
        IsMode (source.mode.or i.settings.mode) mode) ∨ Unloadable files source) ∧
      ∀ files' source', Regroups files files' source source' →
        (Command.check source' urls tempAllow false).run host files' = pure report := by
  refine ⟨checkReport files source urls tempAllow false, rfl, ?_, ?_, ?_, ?_⟩
  · intro i mode isExempt h hmode hexempt
    have hlisted : isExempt = isListed tempAllow := by
      funext name
      rw [Bool.eq_iff_iff, hexempt, isListed_iff]
    rw [hlisted]
    exact checkReport_of_reads urls tempAllow h hmode
  · exact checkReport_of_unloadable urls tempAllow
  · exact readFrom_or_unloadable files source
  · intro files' source' h
    rw [← checkReport_congr urls tempAllow false h.gather]
    rfl

/-- An unknown mode in the settings that another one takes the place of, two list files, and the
same two in one. Without the other mode nothing is printed. -/
theorem check_ending_merged :
    let host : Host Id := ⟨fun _ => .ok (), fun _ _ => .ok (), 0, fun _ => ⟨0, [], 0⟩⟩
    let document := "\x7b\"mode\": \"strict\", \"denyRules\": [\"a.com\"]\x7d".toList
    let files : Files := fun path =>
      if path = ['s'] then .ok document
      else if path = ['x'] then .ok "# more\nb.com/x\r\n".toList
      else if path = ['y'] then .ok " c.com".toList
      else if path = ['z'] then .ok "# more\nb.com/x\r\n c.com".toList
      else .error .notFound
    let source : PolicySource := ⟨some ['s'], [], [['x'], ['y']], some "Deny".toList⟩
    let merged : PolicySource := { source with denyFiles := [['z']] }
    let unmoded : PolicySource := { source with mode := none }
    let tempAllow := ["A.com".toList]
    let urls := ["b.com/x".toList, "https://a.com".toList, "d.com".toList]
    let out := ("BLOCK  b.com/x  (blocked by rule \"b.com/x\")\n" ++
      "ALLOW  https://a.com  (temporarily allowed)\n" ++ "ALLOW  d.com  (no match)\n").toList
    (∃ report, (Command.check source urls tempAllow false).run host files = pure report ∧
      (Command.check merged urls tempAllow false).run host files = pure report ∧
      report.ending = ⟨0, out, []⟩) ∧
    ∃ report err, (Command.check unmoded urls tempAllow false).run host files = pure report ∧
      report.ending = ⟨1, [], err⟩ := by
  intro host document files source merged unmoded tempAllow urls out
  let i : Inputs := ⟨⟨some "strict".toList, [], ["a.com".toList], [], []⟩, [],
    ["# more\nb.com/x\r\n".toList, " c.com".toList]⟩
  have hread : Settings.read document = .ok i.settings :=
    Settings.read_eq_ok (by simp [Settings.HoldsFloat, i]) (by decide +kernel)
  have hsettings : ReadsSettings files (some ['s']) i.settings := .document rfl hread
  have hreads : i.ReadFrom files source := ⟨hsettings, .nil, .cons rfl (.cons rfl .nil)⟩
  have hout : printed (i.policy .blacklist) (isListed tempAllow) urls = out := by decide +kernel
  have hrow : MergesRow files files [['x'], ['y']] [['z']] :=
    @MergesRow.mk files files [] [] ['x'] ['y'] ['z'] _ _ _ rfl rfl rfl (.lines (by decide))
      (by simp)
  have hmerged : Regroups files files source merged := .merged (.deny hrow (by simp))
  constructor
  · obtain ⟨report, hrun, hprinted, -, -, hsame⟩ := check_ending host files source urls tempAllow
    refine ⟨report, hrun, hsame files merged hmerged, ?_⟩
    rw [hprinted i .blacklist _ hreads (.set (by decide)) fun _ => isListed_iff, hout]
  · obtain ⟨report, hrun, -, hfail, -, -⟩ := check_ending host files unmoded urls tempAllow
    obtain ⟨err, herr⟩ := hfail (.mode hsettings rfl (by decide))
    exact ⟨report, err, hrun, herr⟩

end UrlPolicy.CommandLine
