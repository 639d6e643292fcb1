import UrlPolicy.Text.LowerCase

/-!
Characters that lower case leaves alone. It yields no others, and a mark of ASCII comes of that mark
only. For the characters of the table this is read off the runs: the letters of a run meet no run
of capitals, and no marks.
-/

set_option autoImplicit false

namespace UrlPolicy.Text

/-- Lower case leaves the character alone, wherever it stands. -/
def IsLower (c : Char) : Prop := c ≠ 'Σ' ∧ lowerChar c = [c]

instance (c : Char) : Decidable (IsLower c) := inferInstanceAs (Decidable (_ ∧ _))

def sigma (isFinal : Bool) : Char := if isFinal then 'ς' else 'σ'

/-- The lower case of a character that stands between others. What comes before it is given
backwards. -/
def lowerCharBetween (before : List Char) (c : Char) (after : List Char) : List Char :=
  if c = 'Σ' then [sigma (isWordFinal before after)] else lowerChar c

/-- The lower case that a part of a text has where it stands. -/
def lowerBetween (before : List Char) : List Char → List Char → List Char
  | [], _ => []
  | c :: t, after =>
    lowerCharBetween before c (t ++ after) ++ lowerBetween (c :: before) t after

theorem lowerAfter_cons (before t : List Char) (c : Char) :
    lowerAfter before (c :: t) = lowerCharBetween before c t ++ lowerAfter (c :: before) t := by
  rw [lowerAfter, lowerCharBetween]
  split <;> rfl

theorem lowerAfter_append (before s t : List Char) :
    lowerAfter before (s ++ t) =
      lowerBetween before s t ++ lowerAfter (s.reverse ++ before) t := by
  induction s generalizing before with
  | nil => rfl
  | cons c s ih => simp [lowerBetween, lowerAfter_cons, ih]

theorem lowerAfter_eq_lowerBetween (before t : List Char) :
    lowerAfter before t = lowerBetween before t [] := by
  simpa [lowerAfter] using lowerAfter_append before t []

theorem lowerBetween_eq_self {s : List Char} (before t : List Char) (h : ∀ c ∈ s, IsLower c) :
    lowerBetween before s t = s := by
  induction s generalizing before with
  | nil => rfl
  | cons c s ih =>
    obtain ⟨hsigma, hc⟩ := h c (by simp)
    rw [lowerBetween, lowerCharBetween, if_neg hsigma, hc,
      ih (c :: before) fun d hd => h d (by simp [hd])]
    rfl

theorem lowerAfter_append_of_isLower {before s : List Char} (t : List Char)
    (h : ∀ c ∈ s, IsLower c) :
    lowerAfter before (s ++ t) = s ++ lowerAfter (s.reverse ++ before) t := by
  rw [lowerAfter_append, lowerBetween_eq_self _ _ h]

theorem lower_eq_self {t : List Char} (h : ∀ c ∈ t, IsLower c) : lower t = t := by
  rw [lower, lowerAfter_eq_lowerBetween, lowerBetween_eq_self _ _ h]

theorem mem_lowerBetween_cases {before s t : List Char} {c : Char}
    (h : c ∈ lowerBetween before s t) :
    (∃ isFinal, c = sigma isFinal) ∨ ∃ d ∈ s, c ∈ lowerChar d := by
  induction s generalizing before with
  | nil => cases h
  | cons d s ih =>
    rw [lowerBetween, lowerCharBetween] at h
    rcases List.mem_append.1 h with h | h
    · split at h
      · exact .inl ⟨_, List.mem_singleton.1 h⟩
      · exact .inr ⟨d, List.mem_cons_self, h⟩
    · refine (ih h).imp_right ?_
      rintro ⟨e, he, hc⟩
      exact ⟨e, List.mem_cons_of_mem d he, hc⟩

theorem forall_of_toNat_lt {P : Char → Prop} {n : Nat} (h : ∀ m < n, P (Char.ofNat m)) {c : Char}
    (hc : c.toNat < n) : P c := by
  have hchar := h c.toNat hc
  rwa [c.ofNat_toNat] at hchar

theorem forall_mem_of_all {P : Char → Prop} [DecidablePred P] {t : List Char}
    (h : t.all (fun c => decide (P c)) = true) : ∀ c ∈ t, P c := by
  simpa using h

/-- The letters of `r` and the capitals of `s` have no code point in common: one range ends before
the other starts, or both go in steps of two between each other. -/
def CaseRun.avoids (r s : CaseRun) : Bool :=
  (r.target + (r.last - r.first)).blt s.first || s.last.blt r.target ||
    s.step == 2 && (r.step == 2 || r.first == r.last) && (r.target + s.first) % 2 == 1

theorem CaseRun.lower?_eq_some_iff {r : CaseRun} {n m : Nat} :
    r.lower? n = some m ↔
      (r.first ≤ n ∧ n ≤ r.last ∧ (n - r.first) % r.step = 0) ∧ r.target + (n - r.first) = m := by
  rw [lower?]
  split
  · next h => simp [h]
  · next h => simp [h]

theorem CaseRun.lower?_eq_none_of_avoids {r s : CaseRun} {n m : Nat} (h : r.avoids s = true)
    (hm : r.lower? n = some m) : s.lower? m = none := by
  obtain ⟨⟨hfirst, hlast, hstep⟩, rfl⟩ := CaseRun.lower?_eq_some_iff.1 hm
  rw [lower?, if_neg]
  rintro ⟨hfirst', hlast', hstep'⟩
  simp only [avoids, Bool.or_eq_true, Bool.and_eq_true, Nat.blt_eq, beq_iff_eq] at h
  rcases h with (h | h) | ⟨⟨hs, hr⟩, hodd⟩
  · omega
  · omega
  · rw [hs] at hstep'
    rcases hr with hr | hr
    · rw [hr] at hstep
      omega
    · omega

def capitalRuns : List CaseRun := ⟨65, 90, 1, 97⟩ :: ⟨304, 304, 1, 105⟩ :: caseRuns

theorem caseRuns_avoid_capitalRuns :
    (caseRuns.all fun r => capitalRuns.all fun s => r.avoids s) = true := by
  decide +kernel

theorem caseRuns_valid : ∀ r ∈ caseRuns, r.target + (r.last - r.first) < 55296 ∨
    57343 < r.target ∧ r.target + (r.last - r.first) < 1114112 := by
  decide +kernel

theorem toLower_eq_self {c : Char} (h : c.toNat < 65 ∨ 90 < c.toNat) : c.toLower = c := by
  refine dif_neg ?_
  rintro ⟨hfirst, hlast⟩
  have hfirst' : 65 ≤ c.toNat := hfirst
  have hlast' : c.toNat ≤ 90 := hlast
  omega

theorem isLower_of_capitalRuns {c : Char} (h : ∀ r ∈ capitalRuns, r.lower? c.toNat = none) :
    IsLower c := by
  have hascii := h ⟨65, 90, 1, 97⟩ (by simp [capitalRuns])
  have hdotted := h ⟨304, 304, 1, 105⟩ (by simp [capitalRuns])
  have htable : caseRuns.findSome? (·.lower? c.toNat) = none :=
    List.findSome?_eq_none_iff.2 fun r hr => h r (by simp [capitalRuns, hr])
  constructor
  · rintro rfl
    revert htable
    decide +kernel
  · rw [lowerChar, lowerCodePoint, htable]
    split
    · rw [toLower_eq_self]
      simp [CaseRun.lower?, Nat.mod_one] at hascii
      omega
    · rw [if_neg]
      · simp
      · rintro rfl
        revert hdotted
        decide

theorem toNat_ofNat_of_table {n m : Nat} (h : caseRuns.findSome? (·.lower? n) = some m) :
    (Char.ofNat m).toNat = m := by
  obtain ⟨r, hr, hm⟩ := List.exists_of_findSome?_eq_some h
  have hvalid : m.isValidChar := by
    have := caseRuns_valid r hr
    obtain ⟨⟨hfirst, hlast, _⟩, rfl⟩ := CaseRun.lower?_eq_some_iff.1 hm
    simp only [Nat.isValidChar]
    omega
  rw [Char.ofNat, dif_pos hvalid]
  rfl

theorem isLower_of_table {n m : Nat} (h : caseRuns.findSome? (·.lower? n) = some m) :
    IsLower (Char.ofNat m) := by
  obtain ⟨r, hr, hm⟩ := List.exists_of_findSome?_eq_some h
  refine isLower_of_capitalRuns fun s hs => ?_
  have havoids := List.all_eq_true.1 (List.all_eq_true.1 caseRuns_avoid_capitalRuns r hr) s hs
  rw [toNat_ofNat_of_table h]
  exact CaseRun.lower?_eq_none_of_avoids havoids hm

theorem isLower_toLower {n : Nat} (h : n < 128) : IsLower (Char.ofNat n).toLower := by
  revert n
  decide +kernel

theorem isLower_of_no_table {c : Char} (hascii : 128 ≤ c.toNat) (hdotted : c ≠ '\u0130')
    (h : caseRuns.findSome? (·.lower? c.toNat) = none) : IsLower c := by
  refine isLower_of_capitalRuns fun r hr => ?_
  rcases List.mem_cons.1 hr with rfl | hr
  · simp [CaseRun.lower?]
    omega
  rcases List.mem_cons.1 hr with rfl | hr
  · have hne : c.toNat ≠ 304 := fun hc => hdotted (by rw [← c.ofNat_toNat, hc])
    simp [CaseRun.lower?]
    omega
  · exact List.findSome?_eq_none_iff.1 h r hr

theorem isLower_of_mem_lowerChar {c d : Char} (h : d ∈ lowerChar c) : IsLower d := by
  rw [lowerChar] at h
  split at h
  · next hascii =>
    rw [List.mem_singleton.1 h, ← c.ofNat_toNat]
    exact isLower_toLower hascii
  split at h
  · have hd : d = 'i' ∨ d = '\u0307' := by simpa using h
    rcases hd with rfl | rfl <;> decide +kernel
  · next hascii hdotted =>
    rw [List.mem_singleton.1 h, lowerCodePoint]
    cases htable : caseRuns.findSome? (·.lower? c.toNat) with
    | none =>
      rw [Option.getD_none, c.ofNat_toNat]
      exact isLower_of_no_table (by omega) hdotted htable
    | some m => exact isLower_of_table htable

theorem isLower_of_mem_lower {t : List Char} {c : Char} (h : c ∈ lower t) : IsLower c := by
  rw [lower, lowerAfter_eq_lowerBetween] at h
  rcases mem_lowerBetween_cases h with ⟨isFinal, rfl⟩ | ⟨d, _, hc⟩
  · cases isFinal <;> decide +kernel
  · exact isLower_of_mem_lowerChar hc

theorem lower_eq_self_iff {t : List Char} : lower t = t ↔ ∀ c ∈ t, IsLower c :=
  ⟨fun h _ hc => isLower_of_mem_lower (h ▸ hc), lower_eq_self⟩

/-- A character of ASCII that is no small letter. -/
def IsMark (c : Char) : Prop := c.toNat < 97 ∨ 122 < c.toNat ∧ c.toNat < 128

instance (c : Char) : Decidable (IsMark c) := inferInstanceAs (Decidable (_ ∨ _))

theorem caseRuns_avoid_marks : ∀ r ∈ caseRuns,
    128 ≤ r.target ∨ 97 ≤ r.target ∧ r.target + (r.last - r.first) ≤ 122 := by
  decide +kernel

theorem toLower_eq_self_of_isMark {n : Nat} (h : n < 128) (hmark : IsMark (Char.ofNat n).toLower) :
    (Char.ofNat n).toLower = Char.ofNat n := by
  revert n
  decide +kernel

theorem eq_of_mem_lowerChar {c d : Char} (hc : IsMark c) (h : c ∈ lowerChar d) : c = d := by
  rw [lowerChar] at h
  split at h
  · next hascii =>
    have hd := d.ofNat_toNat
    rw [List.mem_singleton.1 h, ← hd] at hc
    rw [List.mem_singleton.1 h, ← hd]
    exact toLower_eq_self_of_isMark hascii hc
  split at h
  · have hi : c = 'i' ∨ c = '\u0307' := by simpa using h
    rcases hi with rfl | rfl <;> exact absurd hc (by decide)
  · rw [List.mem_singleton.1 h, lowerCodePoint] at hc ⊢
    cases htable : caseRuns.findSome? (·.lower? d.toNat) with
    | none => rw [Option.getD_none, d.ofNat_toNat]
    | some m =>
      rw [htable, Option.getD_some, IsMark, toNat_ofNat_of_table htable] at hc
      obtain ⟨r, hr, hm⟩ := List.exists_of_findSome?_eq_some htable
      have havoid := caseRuns_avoid_marks r hr
      obtain ⟨⟨hfirst, hlast, _⟩, rfl⟩ := CaseRun.lower?_eq_some_iff.1 hm
      omega

theorem mem_of_mem_lowerBetween {before s t : List Char} {c : Char} (hc : IsMark c)
    (h : c ∈ lowerBetween before s t) : c ∈ s := by
  rcases mem_lowerBetween_cases h with ⟨isFinal, rfl⟩ | ⟨d, hd, hmem⟩
  · cases isFinal <;> exact absurd hc (by decide)
  · rwa [eq_of_mem_lowerChar hc hmem]

theorem mem_of_mem_lower {t : List Char} {c : Char} (hc : IsMark c) (h : c ∈ lower t) :
    c ∈ t := by
  rw [lower, lowerAfter_eq_lowerBetween] at h
  exact mem_of_mem_lowerBetween hc h

end UrlPolicy.Text
