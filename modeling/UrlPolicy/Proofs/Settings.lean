import UrlPolicy.Settings

set_option autoImplicit false

namespace UrlPolicy.Settings

inductive Refused (document : Text) : Error → Prop where
  | json {fault : Json.Fault} (h : read document = .error fault) : Refused document (.json fault)
  | unknownMode {s : Settings} {raw : Text} (hread : read document = .ok s)
    (hmode : s.mode = some raw) (hraw : Mode.parse? raw = none) :
    Refused document (.unknownMode raw)

theorem effectiveMode_eq_error_iff {s : Settings} {e : Error} : s.effectiveMode = .error e ↔
    ∃ raw, s.mode = some raw ∧ Mode.parse? raw = none ∧ e = .unknownMode raw := by
  rw [effectiveMode]
  cases s.mode with
  | none => simp
  | some raw => cases hraw : Mode.parse? raw <;> simp [hraw, eq_comm]

theorem compile_eq_error_iff {s : Settings} {e : Error} :
    s.compile = .error e ↔ s.effectiveMode = .error e := by
  rw [compile]
  cases s.effectiveMode <;> simp

theorem compileText_eq_error_iff {document : Text} {e : Error} :
    compileText document = .error e ↔ Refused document e := by
  rw [compileText]
  constructor
  · intro h
    cases hread : read document with
    | error fault =>
      rw [hread] at h
      cases h
      exact .json hread
    | ok s =>
      rw [hread] at h
      obtain ⟨raw, hmode, hraw, rfl⟩ := effectiveMode_eq_error_iff.1 (compile_eq_error_iff.1 h)
      exact .unknownMode hread hmode hraw
  · rintro (hread | ⟨hread, hmode, hraw⟩)
    · rw [hread]
    · rw [hread]
      exact compile_eq_error_iff.2 (effectiveMode_eq_error_iff.2 ⟨_, hmode, hraw, rfl⟩)

end UrlPolicy.Settings
