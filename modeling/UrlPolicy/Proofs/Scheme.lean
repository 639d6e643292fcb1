import UrlPolicy.Proofs.Text.Cut
import UrlPolicy.Scheme

set_option autoImplicit false

namespace UrlPolicy

theorem endsAuthority_iff {c : Char} :
    endsAuthority c = true ↔ c = '/' ∨ c = '?' ∨ c = '#' := by
  simp [endsAuthority, or_assoc]

def stopsScheme (c : Char) : Bool := endsAuthority c || c == ':'

theorem stopsScheme_of_isScheme {s : Text} (h : isScheme s = true) :
    ∀ c ∈ s, stopsScheme c = false := by
  intro c hc
  rw [← Bool.not_eq_true]
  intro hstop
  have hmarks : c = '/' ∨ c = '?' ∨ c = '#' ∨ c = ':' := by
    simpa [stopsScheme, endsAuthority, or_assoc] using hstop
  cases s with
  | nil => cases hc
  | cons d s =>
    rw [isScheme, Bool.and_eq_true, List.all_eq_true] at h
    rcases List.mem_cons.1 hc with rfl | hc
    · rcases hmarks with rfl | rfl | rfl | rfl <;> exact absurd h.1 (by decide)
    · have hd := h.2 c hc
      rcases hmarks with rfl | rfl | rfl | rfl <;> exact absurd hd (by decide)

theorem not_endsAuthority_of_isDigit {c : Char} (h : c.isDigit = true) :
    endsAuthority c = false := by
  rw [← Bool.not_eq_true]
  intro hend
  rcases endsAuthority_iff.1 hend with rfl | rfl | rfl <;> exact absurd h (by decide)

theorem startsWithPort_append {digits u : Text} (hdigits : ∀ c ∈ digits, c.isDigit = true)
    (hu : ∀ c ∈ u.head?, endsAuthority c = true) :
    startsWithPort (digits ++ u) = true ↔ digits ≠ [] := by
  have hpass : ∀ c ∈ digits, (!endsAuthority c) = true := fun c hc => by
    rw [not_endsAuthority_of_isDigit (hdigits c hc)]
    rfl
  have hstop : ∀ c ∈ u.head?, (!endsAuthority c) = false := by simpa using hu
  rw [startsWithPort, Text.takeWhile_append_stop hpass hstop]
  simpa using fun _ => hdigits

namespace SchemeSplit

theorem of_colon {t : Text} (u : Text) (ht : ∀ c ∈ t, stopsScheme c = false) :
    SchemeSplit.of (t ++ ':' :: u) =
      match u with
      | '/' :: '/' :: rest => if isScheme t then .hierarchical t rest else .malformed
      | u => if !startsWithPort u && isScheme t then .bare t u else .absent (t ++ ':' :: u) := by
  have hpass : ∀ c ∈ t, (!stopsScheme c) = true := by simpa using ht
  have hstop : ∀ c ∈ (':' :: u).head?, (!stopsScheme c) = false := by simp [stopsScheme]
  have htake := Text.takeWhile_append_stop hpass hstop
  have hdrop := Text.dropWhile_append_stop hpass hstop
  simp only [stopsScheme] at htake hdrop
  rw [SchemeSplit.of, hdrop, htake]
  split <;> simp_all

theorem of_hierarchical {s : Text} (rest : Text) (h : isScheme s = true) :
    SchemeSplit.of (s ++ ':' :: '/' :: '/' :: rest) = .hierarchical s rest := by
  rw [of_colon _ (stopsScheme_of_isScheme h)]
  exact if_pos h

theorem of_colon_eq_absent_iff {t u : Text} (ht : ∀ c ∈ t, stopsScheme c = false) :
    SchemeSplit.of (t ++ ':' :: u) = .absent (t ++ ':' :: u) ↔
      (∀ rest, u ≠ '/' :: '/' :: rest) ∧ (startsWithPort u = true ∨ isScheme t = false) := by
  rw [of_colon u ht]
  split
  · refine iff_of_false ?_ (fun h => h.1 _ rfl)
    split <;> simp
  · next hslashes => cases startsWithPort u <;> cases isScheme t <;> simp_all

theorem of_absent {t u : Text} (ht : ∀ c ∈ t, stopsScheme c = false)
    (hu : ∀ c ∈ u.head?, endsAuthority c = true) : SchemeSplit.of (t ++ u) = .absent (t ++ u) := by
  have hpass : ∀ c ∈ t, (!stopsScheme c) = true := by simpa using ht
  have hstop : ∀ c ∈ u.head?, (!stopsScheme c) = false := by
    intro c hc
    simp [stopsScheme, hu c hc]
  have hdrop := Text.dropWhile_append_stop hpass hstop
  simp only [stopsScheme] at hdrop
  rw [SchemeSplit.of, hdrop]
  split
  · cases hu ':' rfl
  · cases hu ':' rfl
  · rfl

theorem of_eq_hierarchical {t s rest : Text} (h : SchemeSplit.of t = .hierarchical s rest) :
    isScheme s = true ∧ t = s ++ ':' :: '/' :: '/' :: rest := by
  have ht := List.takeWhile_append_dropWhile (p := fun c => !stopsScheme c) (l := t)
  simp only [stopsScheme] at ht
  rw [SchemeSplit.of] at h
  split at h
  · next hdrop =>
    split at h
    · next hscheme =>
      cases h
      exact ⟨hscheme, by rw [← hdrop]; exact ht.symm⟩
    · cases h
  · split at h <;> cases h
  · cases h

theorem of_eq_absent {t u : Text} (h : SchemeSplit.of t = .absent u) : u = t := by
  rw [SchemeSplit.of] at h
  split at h
  · split at h <;> cases h
  · split at h <;> cases h
    rfl
  · cases h
    rfl

end SchemeSplit

end UrlPolicy
