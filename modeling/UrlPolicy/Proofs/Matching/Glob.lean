import UrlPolicy.Matching.Segment

/-!
Pieces searched for one after another. Taking the leftmost occurrence of each leaves the most for
the pieces behind it, so the search finds them whenever they occur in order at all.
-/

set_option autoImplicit false

namespace UrlPolicy

/-- The pieces occur one after another, with any texts in between. -/
inductive InOrder : List Text → Text → Prop where
  | nil (t : Text) : InOrder [] t
  | cons (gap : Text) {piece : Text} {pieces : List Text} {t : Text} (h : InOrder pieces t) :
      InOrder (piece :: pieces) (gap ++ piece ++ t)

/-- The leftmost occurrence leaves at least what any other leaves. -/
theorem Text.suffix_of_cut? {p before after b rest : Text}
    (h : Text.cut? p (before ++ p ++ after) = some (b, rest)) : after <:+ rest := by
  induction before generalizing b with
  | nil =>
    rw [List.nil_append] at h
    cases hcut : p ++ after with
    | nil =>
      rw [hcut, Text.cut?] at h
      rw [(List.append_eq_nil_iff.1 hcut).2]
      exact List.nil_suffix
    | cons c t =>
      have hdrop : Text.dropStart? p (c :: t) = some after :=
        Text.dropStart?_eq_some_iff.2 hcut.symm
      rw [hcut, Text.cut?, hdrop] at h
      cases h
      exact List.suffix_refl after
  | cons d before ih =>
    simp only [List.cons_append] at ih h
    rw [Text.cut?] at h
    split at h
    · next rest' hdrop =>
      cases h
      -- what is left here and what follows the other occurrence end the same text
      have hstart := Text.dropStart?_eq_some_iff.1 hdrop
      have hafter : after <:+ d :: (before ++ p ++ after) := ⟨d :: (before ++ p), by simp⟩
      have hrest : rest <:+ d :: (before ++ p ++ after) := ⟨p, hstart.symm⟩
      refine List.suffix_of_suffix_length_le hafter hrest ?_
      have hlength := congrArg List.length hstart
      simp only [List.length_cons, List.length_append] at hlength
      omega
    · obtain ⟨⟨b', rest'⟩, hcut, heq⟩ := Option.map_eq_some_iff.1 h
      cases heq
      exact ih hcut

theorem holdsInOrder_of_suffix {pieces : List Text} {t u : Text} (hsuffix : t <:+ u)
    (h : holdsInOrder pieces t = true) : holdsInOrder pieces u = true := by
  induction pieces generalizing t u with
  | nil => rfl
  | cons piece pieces ih =>
    rw [holdsInOrder] at h ⊢
    cases hcut : Text.cut? piece t with
    | none =>
      rw [hcut] at h
      cases h
    | some cut =>
      obtain ⟨before, after⟩ := cut
      rw [hcut] at h
      obtain ⟨front, rfl⟩ := hsuffix
      have hu : front ++ t = front ++ before ++ piece ++ after := by
        rw [Text.eq_of_cut? hcut]
        simp
      obtain ⟨⟨b, rest⟩, hb⟩ := Option.isSome_iff_exists.1
        (Text.cut?_isSome_of_append piece (front ++ before) after)
      rw [hu, hb]
      exact ih (Text.suffix_of_cut? hb) h

theorem holdsInOrder_iff {pieces : List Text} {t : Text} :
    holdsInOrder pieces t = true ↔ InOrder pieces t := by
  constructor
  · intro h
    induction pieces generalizing t with
    | nil => exact .nil t
    | cons piece pieces ih =>
      rw [holdsInOrder] at h
      cases hcut : Text.cut? piece t with
      | none =>
        rw [hcut] at h
        cases h
      | some cut =>
        rw [hcut] at h
        rw [Text.eq_of_cut? hcut]
        exact .cons cut.1 (ih h)
  · intro h
    induction h with
    | nil => rfl
    | @cons gap piece pieces t _ ih =>
      obtain ⟨⟨b, rest⟩, hb⟩ := Option.isSome_iff_exists.1
        (Text.cut?_isSome_of_append piece gap t)
      rw [holdsInOrder, hb]
      exact holdsInOrder_of_suffix (Text.suffix_of_cut? hb) ih

theorem globMatches_of_inOrder {head tail window : Text} {middle : List Text}
    (h : InOrder middle window) : globMatches head middle tail (head ++ window ++ tail) = true := by
  have hhead : Text.dropStart? head (head ++ window ++ tail) = some (window ++ tail) :=
    Text.dropStart?_eq_some_iff.2 (List.append_assoc head window tail)
  have htail : Text.dropEnd? tail (window ++ tail) = some window :=
    Text.dropEnd?_eq_some_iff.2 rfl
  rw [globMatches, hhead, Option.bind_some, htail]
  exact holdsInOrder_iff.2 h

end UrlPolicy
