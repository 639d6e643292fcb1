import UrlPolicy.Keyword
import UrlPolicy.Proofs.Address.Parts
import UrlPolicy.Proofs.Text.Sigma

set_option autoImplicit false

namespace UrlPolicy.Keyword

variable {entry : Text} {k : Keyword}

theorem text_of_ofText? (h : ofText? entry = some k) : k.text = Text.lower (Text.trim entry) := by
  rw [ofText?] at h
  split at h
  · cases h
  · cases h
    rfl

theorem occursIn_read_of_keepsSigmas (h : ofText? entry = some k) {raw before after : Text}
    (hraw : Text.trim raw = before ++ Text.trim entry ++ after)
    (hkeeps : Text.KeepsSigmas before (Text.trim entry) after) :
    k.occursIn (Address.read raw) = true := by
  rw [occursIn_read_iff, Address.text_read, text_of_ofText? h, hraw]
  exact hkeeps.lower_isInfix

/-- A keyword that is written in an address is found there if its capital sigmas have the same
form as in the keyword alone. It is found wherever it is written if and only if it decides all its
capital sigmas itself. -/
theorem occursIn_read_of_infix_iff (h : ofText? entry = some k) :
    (∀ raw before after, Text.trim raw = before ++ Text.trim entry ++ after →
      Text.KeepsSigmas before (Text.trim entry) after → k.occursIn (Address.read raw) = true) ∧
    ((∀ raw, Text.trim entry <:+: Text.trim raw → k.occursIn (Address.read raw) = true) ↔
      Text.DecidesSigmas (Text.trim entry)) := by
  refine ⟨fun _ _ _ => occursIn_read_of_keepsSigmas h, fun hall => ?_, ?_⟩
  · -- an address that is the keyword and one letter more tells whether a letter may stand there
    have hlower : ∀ raw, Text.trim raw = raw → Text.trim entry <:+: raw →
        Text.lower (Text.trim entry) <:+: Text.lower raw := by
      intro raw htrim hinfix
      have hoccurs := hall raw (by rwa [htrim])
      rwa [occursIn_read_iff, Address.text_read, text_of_ofText? h, htrim] at hoccurs
    exact Text.decidesSigmas_of_isInfix
      (hlower _ (Text.trim_cons_trim entry (by decide)) (List.suffix_cons ..).isInfix)
      (hlower _ (Text.trim_trim_concat entry (by decide)) (List.prefix_append ..).isInfix)
  · rintro hdecides raw ⟨before, after, hraw⟩
    exact occursIn_read_of_keepsSigmas h hraw.symm (hdecides.keepsSigmas before after)

theorem occursIn_read_of_infix_iff_settled :
    ofText? " ΣΟΦΟΣ 1".toList = some ⟨"ΣΟΦΟΣ 1".toList, "σοφος 1".toList⟩ ∧
      ∀ raw, "ΣΟΦΟΣ 1".toList <:+: Text.trim raw →
        occursIn ⟨"ΣΟΦΟΣ 1".toList, "σοφος 1".toList⟩ (Address.read raw) = true := by
  have hentry : ofText? " ΣΟΦΟΣ 1".toList = some ⟨"ΣΟΦΟΣ 1".toList, "σοφος 1".toList⟩ := by
    decide +kernel
  exact ⟨hentry, (occursIn_read_of_infix_iff hentry).2.2 (by decide +kernel)⟩

/-- A word that ends with a sigma is not found where it is the start of a longer word. -/
theorem not_occursIn_read_of_longerWord : ¬ ∀ entry k raw, ofText? entry = some k →
    Text.trim entry <:+: Text.trim raw → k.occursIn (Address.read raw) = true := by
  intro h
  have hoccurs := h "ΟΔΟΣ".toList ⟨"ΟΔΟΣ".toList, "οδος".toList⟩ "a.com/ΟΔΟΣΑ".toList
    (by decide +kernel) (by decide +kernel)
  revert hoccurs
  decide +kernel

end UrlPolicy.Keyword
