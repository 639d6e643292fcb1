import UrlPolicy.Proofs.Text.LowerCase

/-!
The lower case of a text that stands inside another one. It differs from the lower case of the
text alone only at capital sigmas that stand so close to an end of the text that what follows or
precedes the text tells whether they end a word.
-/

set_option autoImplicit false

namespace UrlPolicy.Text

def meetsLetter (t : List Char) : Bool := t.any fun c => !caseIgnorableSet.contains c

theorem meetsCased_cons (c : Char) (t : List Char) : meetsCased (c :: t) =
    if caseIgnorableSet.contains c then meetsCased t else casedSet.contains c := by
  by_cases hc : caseIgnorableSet.contains c = true
  · rw [if_pos hc, meetsCased, List.dropWhile_cons_of_pos hc]
    rfl
  · rw [if_neg hc, meetsCased, List.dropWhile_cons_of_neg hc]

theorem meetsCased_append (s t : List Char) :
    meetsCased (s ++ t) = if meetsLetter s then meetsCased s else meetsCased t := by
  induction s with
  | nil => rfl
  | cons c s ih =>
    by_cases hc : caseIgnorableSet.contains c = true
    · simpa [meetsCased_cons, meetsLetter, hc] using ih
    · simp [meetsCased_cons, meetsLetter, hc]

theorem meetsLetter_of_meetsCased {t : List Char} (h : meetsCased t = true) :
    meetsLetter t = true := by
  have happend := meetsCased_append t []
  rw [List.append_nil, h] at happend
  split at happend
  · assumption
  · cases happend

theorem meetsCased_eq_false {t : List Char} (h : meetsLetter t = false) :
    meetsCased t = false := by
  rw [← Bool.not_eq_true]
  intro hcased
  rw [meetsLetter_of_meetsCased hcased] at h
  cases h

theorem meetsCased_append_of_meetsCased {s : List Char} (t : List Char)
    (h : meetsCased s = true) : meetsCased (s ++ t) = true := by
  rw [meetsCased_append, if_pos (meetsLetter_of_meetsCased h), h]

theorem meetsCased_append_of_no_letter {s : List Char} (t : List Char)
    (h : meetsLetter s = false) : meetsCased (s ++ t) = meetsCased t := by
  rw [meetsCased_append, h]
  rfl

theorem isWordFinal_iff {before after : List Char} :
    isWordFinal before after = true ↔ meetsCased before = true ∧ meetsCased after = false := by
  simp [isWordFinal]

theorem isWordFinal_append_before {before after : List Char} (s : List Char)
    (h : isWordFinal before after = true) : isWordFinal (before ++ s) after = true := by
  obtain ⟨hbefore, hafter⟩ := isWordFinal_iff.1 h
  exact isWordFinal_iff.2 ⟨meetsCased_append_of_meetsCased s hbefore, hafter⟩

theorem isWordFinal_of_append_after {before after : List Char} (t : List Char)
    (h : isWordFinal before (after ++ t) = true) : isWordFinal before after = true := by
  obtain ⟨hbefore, hafter⟩ := isWordFinal_iff.1 h
  refine isWordFinal_iff.2 ⟨hbefore, ?_⟩
  rw [← Bool.not_eq_true] at hafter ⊢
  exact mt (meetsCased_append_of_meetsCased t) hafter

/-- Whether a text decides by itself if a capital sigma of it ends a word. What precedes the sigma
is given backwards. -/
def decidesSigma (before after : List Char) : Bool :=
  meetsCased after || meetsLetter before && (!meetsCased before || meetsLetter after)

theorem isWordFinal_append {before after : List Char} (h : decidesSigma before after = true)
    (s t : List Char) : isWordFinal (before ++ s) (after ++ t) = isWordFinal before after := by
  rw [decidesSigma, Bool.or_eq_true, Bool.and_eq_true, Bool.or_eq_true] at h
  rcases h with hafter | ⟨hbefore, hcased | hafter⟩
  · simp [isWordFinal, hafter, meetsCased_append_of_meetsCased t hafter]
  · rw [Bool.not_eq_true'] at hcased
    simp [isWordFinal, meetsCased_append before, hbefore, hcased]
  · simp [isWordFinal, meetsCased_append, hbefore, hafter]

/-- The text decides all its capital sigmas. -/
def DecidesSigmas (t : List Char) : Prop :=
  ∀ x y, t = x ++ 'Σ' :: y → decidesSigma x.reverse y = true

def decidesSigmas (before : List Char) : List Char → Bool
  | [] => true
  | c :: t => (c != 'Σ' || decidesSigma before t) && decidesSigmas (c :: before) t

theorem decidesSigmas_iff {before t : List Char} : decidesSigmas before t = true ↔
    ∀ x y, t = x ++ 'Σ' :: y → decidesSigma (x.reverse ++ before) y = true := by
  induction t generalizing before with
  | nil => simp [decidesSigmas]
  | cons c t ih =>
    rw [decidesSigmas, Bool.and_eq_true, ih]
    constructor
    · rintro ⟨hc, ht⟩ x y hxy
      cases x with
      | nil =>
        obtain ⟨rfl, rfl⟩ := List.cons.inj hxy
        exact hc
      | cons d x =>
        obtain ⟨rfl, rfl⟩ := List.cons.inj hxy
        simpa using ht x y rfl
    · intro h
      constructor
      · by_cases hc : c = 'Σ'
        · rw [hc] at h
          simpa [hc] using h [] t rfl
        · simp [hc]
      · intro x y hxy
        simpa using h (c :: x) y (by rw [hxy]; rfl)

instance (t : List Char) : Decidable (DecidesSigmas t) :=
  decidable_of_iff (decidesSigmas [] t = true) (by simp [decidesSigmas_iff, DecidesSigmas])

/-- Between two other texts each capital sigma of the text has the form that it has in the text
alone. -/
def KeepsSigmas (before t after : List Char) : Prop :=
  ∀ x y, t = x ++ 'Σ' :: y →
    isWordFinal (x.reverse ++ before.reverse) (y ++ after) = isWordFinal x.reverse y

theorem DecidesSigmas.keepsSigmas {t : List Char} (h : DecidesSigmas t)
    (before after : List Char) : KeepsSigmas before t after :=
  fun x y ht => isWordFinal_append (h x y ht) before.reverse after

theorem decidesSigma_eq_false {before after : List Char} (h : decidesSigma before after = false) :
    meetsLetter before = false ∧ meetsCased after = false ∨
      meetsCased before = true ∧ meetsLetter after = false := by
  rw [decidesSigma, Bool.or_eq_false_iff, Bool.and_eq_false_iff, Bool.or_eq_false_iff] at h
  obtain ⟨hcased, hbefore | ⟨hbefore, hafter⟩⟩ := h
  · exact .inl ⟨hbefore, hcased⟩
  · exact .inr ⟨by simpa using hbefore, hafter⟩

section

variable {before after before' after' : List Char}

theorem lowerBetween_append (s t : List Char) : lowerBetween before (s ++ t) after =
    lowerBetween before s (t ++ after) ++ lowerBetween (s.reverse ++ before) t after := by
  induction s generalizing before with
  | nil => rfl
  | cons c s ih => simp [lowerBetween, ih]

theorem lowerBetween_congr {t : List Char}
    (h : ∀ x y, t = x ++ 'Σ' :: y → isWordFinal (x.reverse ++ before) (y ++ after) =
      isWordFinal (x.reverse ++ before') (y ++ after')) :
    lowerBetween before t after = lowerBetween before' t after' := by
  induction t generalizing before before' with
  | nil => rfl
  | cons c t ih =>
    have hchar : lowerCharBetween before c (t ++ after) =
        lowerCharBetween before' c (t ++ after') := by
      rw [lowerCharBetween, lowerCharBetween]
      split
      · next hc => rw [hc] at h; exact congrArg (fun b => [sigma b]) (h [] t rfl)
      · rfl
    have hrest : lowerBetween (c :: before) t after = lowerBetween (c :: before') t after' := by
      refine ih fun x y ht => ?_
      simpa using h (c :: x) y (by rw [ht]; rfl)
    rw [lowerBetween, lowerBetween, hchar, hrest]

theorem lowerBetween_isInfix (before t after : List Char) :
    lowerBetween before.reverse t after <:+: lower (before ++ t ++ after) := by
  rw [lower, List.append_assoc, lowerAfter_append, lowerAfter_append, List.append_nil]
  exact ⟨_, _, List.append_assoc ..⟩

theorem KeepsSigmas.lower_isInfix {t : List Char} (h : KeepsSigmas before t after) :
    lower t <:+: lower (before ++ t ++ after) := by
  have hsame : lowerBetween before.reverse t after = lower t := by
    rw [lower, lowerAfter_eq_lowerBetween]
    refine lowerBetween_congr fun x y ht => ?_
    simpa using h x y ht
  rw [← hsame]
  exact lowerBetween_isInfix before t after

theorem sigma_eq_iff {b c : Bool} : sigma b = sigma c ↔ b = c := by
  cases b <;> cases c <;> decide

variable {isFinal : Bool}

theorem count_lowerCharBetween_le {c : Char}
    (h : isWordFinal before' after' = isFinal → isWordFinal before after = isFinal) :
    (lowerCharBetween before' c after').count (sigma isFinal) ≤
      (lowerCharBetween before c after).count (sigma isFinal) := by
  rw [lowerCharBetween, lowerCharBetween]
  split
  · by_cases hform : isWordFinal before' after' = isFinal
    · exact Nat.le_of_eq (by rw [h hform, hform])
    · rw [List.count_singleton, if_neg (by simpa [sigma_eq_iff] using hform)]
      exact Nat.zero_le _
  · exact Nat.le_refl _

/-- If other surroundings give no sigma a form that it had not, then that form becomes no more
frequent. -/
theorem count_lowerBetween_le {t : List Char}
    (h : ∀ x y, isWordFinal (x ++ before') (y ++ after') = isFinal →
      isWordFinal (x ++ before) (y ++ after) = isFinal) :
    (lowerBetween before' t after').count (sigma isFinal) ≤
      (lowerBetween before t after).count (sigma isFinal) := by
  induction t generalizing before before' with
  | nil => exact Nat.le_refl _
  | cons c t ih =>
    rw [lowerBetween, lowerBetween, List.count_append, List.count_append]
    refine Nat.add_le_add (count_lowerCharBetween_le (h [] t)) (ih fun x y => ?_)
    simpa using h (x ++ [c]) y

theorem count_lowerBetween_lt {x y : List Char}
    (h : ∀ x y, isWordFinal (x ++ before') (y ++ after') = isFinal →
      isWordFinal (x ++ before) (y ++ after) = isFinal)
    (hform : isWordFinal (x.reverse ++ before) (y ++ after) = isFinal)
    (hother : isWordFinal (x.reverse ++ before') (y ++ after') = !isFinal) :
    (lowerBetween before' (x ++ 'Σ' :: y) after').count (sigma isFinal) <
      (lowerBetween before (x ++ 'Σ' :: y) after).count (sigma isFinal) := by
  have hfirst : (lowerBetween before' x ('Σ' :: (y ++ after'))).count (sigma isFinal) ≤
      (lowerBetween before x ('Σ' :: (y ++ after))).count (sigma isFinal) :=
    count_lowerBetween_le fun u v => by simpa using h u (v ++ 'Σ' :: y)
  have hlast : (lowerBetween ('Σ' :: (x.reverse ++ before')) y after').count (sigma isFinal) ≤
      (lowerBetween ('Σ' :: (x.reverse ++ before)) y after).count (sigma isFinal) :=
    count_lowerBetween_le fun u v => by simpa using h (u ++ 'Σ' :: x.reverse) v
  have hne : sigma (!isFinal) ≠ sigma isFinal := by simp [sigma_eq_iff]
  simp only [lowerBetween_append, lowerBetween, lowerCharBetween, if_pos, hform, hother,
    List.cons_append, List.nil_append, List.count_append, List.count_cons_self,
    List.count_cons_of_ne hne]
  omega

end

theorem meetsCased_letter : meetsCased ['a'] = true := by decide +kernel

/-- With nothing but ignored characters before it, a sigma ends a word only behind another text. -/
theorem not_lower_isInfix_cons {x y : List Char} (hx : meetsLetter x.reverse = false)
    (hy : meetsCased y = false) :
    ¬ lower (x ++ 'Σ' :: y) <:+: lower ('a' :: (x ++ 'Σ' :: y)) := by
  intro hinfix
  have halone : isWordFinal x.reverse y = false := by
    simp [isWordFinal, meetsCased_eq_false hx]
  have hbehind : isWordFinal (x.reverse ++ ['a']) y = true :=
    isWordFinal_iff.2 ⟨(meetsCased_append_of_no_letter ['a'] hx).trans meetsCased_letter, hy⟩
  -- behind a letter the text has one small sigma less, so it does not occur there
  have hlt : (lowerBetween ['a'] (x ++ 'Σ' :: y) []).count (sigma false) <
      (lowerBetween [] (x ++ 'Σ' :: y) []).count (sigma false) := by
    refine count_lowerBetween_lt (fun u v => ?_) (by simpa using halone) (by simpa using hbehind)
    rw [List.append_nil, List.append_nil, ← Bool.not_eq_true, ← Bool.not_eq_true]
    exact mt (isWordFinal_append_before ['a'])
  have hletter : lower ('a' :: (x ++ 'Σ' :: y)) = 'a' :: lowerBetween ['a'] (x ++ 'Σ' :: y) [] := by
    rw [lower, lowerAfter_cons, lowerAfter_eq_lowerBetween]
    rfl
  have hle := hinfix.sublist.count_le (sigma false)
  rw [hletter, lower, lowerAfter_eq_lowerBetween, List.count_cons_of_ne (by decide)] at hle
  exact absurd hle (Nat.not_le_of_lt hlt)

theorem not_lower_isInfix_concat {x y : List Char} (hx : meetsCased x.reverse = true)
    (hy : meetsLetter y = false) :
    ¬ lower (x ++ 'Σ' :: y) <:+: lower (x ++ 'Σ' :: y ++ ['a']) := by
  intro hinfix
  have halone : isWordFinal x.reverse y = true :=
    isWordFinal_iff.2 ⟨hx, meetsCased_eq_false hy⟩
  have hbefore : isWordFinal x.reverse (y ++ ['a']) = false := by
    rw [isWordFinal, meetsCased_append_of_no_letter ['a'] hy, meetsCased_letter, hx]
    rfl
  -- before a letter the text has one final sigma less
  have hlt : (lowerBetween [] (x ++ 'Σ' :: y) ['a']).count (sigma true) <
      (lowerBetween [] (x ++ 'Σ' :: y) []).count (sigma true) := by
    refine count_lowerBetween_lt (fun u v => ?_) (by simpa using halone) (by simpa using hbefore)
    rw [List.append_nil v]
    exact isWordFinal_of_append_after ['a']
  have hletter : lower (x ++ 'Σ' :: y ++ ['a']) =
      lowerBetween [] (x ++ 'Σ' :: y) ['a'] ++ ['a'] := by
    rw [lower, lowerAfter_append]
    rfl
  have hle := hinfix.sublist.count_le (sigma true)
  rw [hletter, lower, lowerAfter_eq_lowerBetween, List.count_append] at hle
  have hnone : ['a'].count (sigma true) = 0 := by decide
  omega

theorem decidesSigmas_of_isInfix {t : List Char} (hcons : lower t <:+: lower ('a' :: t))
    (hconcat : lower t <:+: lower (t ++ ['a'])) : DecidesSigmas t := by
  rintro x y rfl
  rw [← Bool.not_eq_false]
  intro h
  rcases decidesSigma_eq_false h with ⟨hx, hy⟩ | ⟨hx, hy⟩
  · exact not_lower_isInfix_cons hx hy hcons
  · exact not_lower_isInfix_concat hx hy hconcat

end UrlPolicy.Text
