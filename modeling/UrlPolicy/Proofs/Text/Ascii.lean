import UrlPolicy.Proofs.Text.LowerCase

/-!
Lower case of ASCII beside lower case of all characters. The two agree on a text in ASCII, and
what the second yields in ASCII comes from there, but for the `k` of the Kelvin sign and for an
`i` with a dot behind it.
-/

set_option autoImplicit false

namespace UrlPolicy.Text

theorem toNat_lt_of_isAlphanum {c : Char} (h : c.isAlphanum = true) : c.toNat < 128 := by
  have hbound (d : Char) (hd : d.toNat < 128) (hle : c.val ≤ d.val) : c.toNat < 128 :=
    Nat.lt_of_le_of_lt (UInt32.le_iff_toNat_le.1 hle) hd
  have hcases : (c.isUpper || c.isLower || c.isDigit) = true := h
  rw [Bool.or_eq_true, Bool.or_eq_true] at hcases
  rcases hcases with (hupper | hlower) | hdigit
  · exact hbound 'Z' (by decide) (of_decide_eq_true hupper).2
  · exact hbound 'z' (by decide) (of_decide_eq_true (Bool.and_eq_true_iff.1 hlower).2)
  · exact hbound '9' (by decide) (of_decide_eq_true (Bool.and_eq_true_iff.1 hdigit).2)

theorem toNat_toLower_lt_iff {c : Char} : c.toLower.toNat < 128 ↔ c.toNat < 128 := by
  by_cases h : c.toNat < 128
  · refine iff_of_true ?_ h
    exact forall_of_toNat_lt (P := fun c => c.toLower.toNat < 128) (by decide +kernel) h
  · rw [toLower_eq_self (by omega)]

theorem caseRuns_target : ∀ r ∈ caseRuns,
    128 ≤ r.target ∨ r.first = r.last ∧ Char.ofNat r.target = 'k' := by
  decide +kernel

theorem lowerChar_ne_nil (c : Char) : lowerChar c ≠ [] := by
  rw [lowerChar]
  split
  · simp
  · split <;> simp

theorem eq_of_toLower {c d : Char} (hc : IsMark c) (h : d.toLower = c) : c = d := by
  by_cases hd : d.toNat < 128
  · exact eq_of_mem_lowerChar hc (by simp [lowerChar, hd, h])
  · rw [← h, toLower_eq_self (by omega)]

/-- The only letters of ASCII that come from beyond ASCII are a `k`, and an `i` with a dot behind
it. -/
theorem ascii_of_lowerChar {c d : Char} {w : List Char} (h : lowerChar c = d :: w)
    (hd : d.toNat < 128) (hk : d ≠ 'k') :
    c.toNat < 128 ∨ d = 'i' ∧ w = ['\u0307'] := by
  by_cases hascii : c.toNat < 128
  · exact .inl hascii
  by_cases hdotted : c = '\u0130'
  · subst hdotted
    cases h
    exact .inr ⟨rfl, rfl⟩
  rw [lowerChar, if_neg hascii, if_neg hdotted] at h
  obtain ⟨hchar, -⟩ := List.cons.inj h
  rw [lowerCodePoint] at hchar
  cases htable : caseRuns.findSome? (·.lower? c.toNat) with
  | none =>
    rw [htable, Option.getD_none, c.ofNat_toNat] at hchar
    rw [hchar] at hascii
    exact absurd hd hascii
  | some m =>
    rw [htable, Option.getD_some] at hchar
    have hm : m = d.toNat := by rw [← toNat_ofNat_of_table htable, hchar]
    obtain ⟨r, hr, hlower⟩ := List.exists_of_findSome?_eq_some htable
    obtain ⟨⟨hfirst, hlast, _⟩, htarget⟩ := CaseRun.lower?_eq_some_iff.1 hlower
    rcases caseRuns_target r hr with hbeyond | ⟨hone, hkelvin⟩
    · omega
    · have hsame : m = r.target := by omega
      rw [← hchar, hsame, hkelvin] at hk
      exact absurd rfl hk

theorem lowerAfter_cons_of_ascii {c : Char} (before t : List Char) (h : c.toNat < 128) :
    lowerAfter before (c :: t) = c.toLower :: lowerAfter (c :: before) t := by
  have hsigma : c ≠ 'Σ' := by
    rintro rfl
    exact absurd h (by decide)
  rw [lowerAfter, if_neg hsigma, lowerChar, if_pos h]
  rfl

theorem mem_lower_of_ascii {c : Char} {t : List Char} (hc : c.toNat < 128) (hlow : c.toLower = c)
    (h : c ∈ t) : c ∈ lower t := by
  obtain ⟨s, u, rfl⟩ := List.append_of_mem h
  rw [lower, lowerAfter_append, lowerAfter_cons_of_ascii _ _ hc, hlow]
  simp

theorem lowerAfter_append_of_ascii {s : List Char} (before t : List Char)
    (h : ∀ c ∈ s, c.toNat < 128) :
    lowerAfter before (s ++ t) = lowerAscii s ++ lowerAfter (s.reverse ++ before) t := by
  induction s generalizing before with
  | nil => rfl
  | cons c s ih =>
    rw [List.cons_append, lowerAfter_cons_of_ascii _ _ (h c (by simp)),
      ih (c :: before) fun d hd => h d (by simp [hd])]
    simp [lowerAscii]

theorem eq_cons_of_lowerAfter {before t u : List Char} {d : Char} (hd : IsMark d)
    (h : lowerAfter before t = d :: u) : ∃ v, t = d :: v ∧ u = lowerAfter (d :: before) v := by
  cases t with
  | nil => cases h
  | cons c t =>
    have hc : d = c := by
      rw [lowerAfter] at h
      split at h
      · obtain ⟨rfl, -⟩ := List.cons.inj h
        split at hd <;> exact absurd hd (by decide)
      · cases hlower : lowerChar c with
        | nil => exact absurd hlower (lowerChar_ne_nil c)
        | cons e w =>
          rw [hlower, List.cons_append] at h
          obtain ⟨rfl, -⟩ := List.cons.inj h
          exact eq_of_mem_lowerChar hd (by simp [hlower])
    subst hc
    have hascii : d.toNat < 128 := by
      unfold IsMark at hd
      omega
    rw [lowerAfter_cons_of_ascii _ _ hascii] at h
    exact ⟨t, rfl, (List.cons.inj h).2.symm⟩

/-- A start of the lower case that is in ASCII and has no `k` comes from a start in ASCII, unless
it cuts a dotted `i`. -/
theorem exists_of_lowerAfter_eq_append {before s t u : List Char}
    (hs : ∀ c ∈ s, c.toNat < 128 ∧ c ≠ 'k') (hu : u.head? ≠ some '\u0307')
    (h : lowerAfter before t = s ++ u) :
    ∃ a b, t = a ++ b ∧ (∀ c ∈ a, c.toNat < 128) ∧ lowerAscii a = s ∧
      u = lowerAfter (a.reverse ++ before) b := by
  induction s generalizing before t with
  | nil => exact ⟨[], t, rfl, by simp, rfl, h.symm⟩
  | cons d s ih =>
    obtain ⟨hd, hk⟩ := hs d (by simp)
    cases t with
    | nil => cases h
    | cons c t =>
      have hc : c.toNat < 128 := by
        rw [lowerAfter] at h
        split at h
        · -- neither form of the sigma is in ASCII
          obtain ⟨rfl, -⟩ := List.cons.inj h
          split at hd <;> exact absurd hd (by decide)
        · cases hlower : lowerChar c with
          | nil => exact absurd hlower (lowerChar_ne_nil c)
          | cons e w =>
            rw [hlower, List.cons_append, List.cons_append] at h
            obtain ⟨rfl, hrest⟩ := List.cons.inj h
            refine (ascii_of_lowerChar hlower hd hk).resolve_right ?_
            rintro ⟨-, rfl⟩
            cases s with
            | nil => exact hu (by rw [← List.nil_append u, ← hrest]; rfl)
            | cons e s =>
              obtain ⟨rfl, -⟩ := List.cons.inj hrest
              exact absurd (hs '\u0307' (by simp)).1 (by decide)
      rw [lowerAfter_cons_of_ascii _ _ hc] at h
      obtain ⟨hlow, hrest⟩ := List.cons.inj h
      obtain ⟨a, b, rfl, ha, rfl, rfl⟩ := ih (fun e he => hs e (by simp [he])) hrest
      refine ⟨c :: a, b, rfl, ?_, by simp [lowerAscii, hlow], by simp⟩
      simpa using ⟨hc, ha⟩

end UrlPolicy.Text
