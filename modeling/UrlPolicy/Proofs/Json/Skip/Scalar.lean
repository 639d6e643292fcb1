import UrlPolicy.Json.Skip
import UrlPolicy.Proofs.Json.Grammar
import UrlPolicy.Proofs.Json.Printer

set_option autoImplicit false

namespace UrlPolicy.Json

/-! Strings. -/

theorem IsHexFour.hexFour {four : Text} {n : Nat} (h : IsHexFour four n) (t : Text) :
    hexFour (four ++ t) = .ok (n, t) := by
  cases h with
  | mk ha hb hc hd => simp [Json.hexFour, ha, hb, hc, hd]

theorem isHexFour_of_hexFour {t rest : Text} {n : Nat} (h : hexFour t = .ok (n, rest)) :
    ∃ four, IsHexFour four n ∧ t = four ++ rest := by
  rw [Json.hexFour.eq_def] at h
  split at h
  · next a b c d t =>
    split at h
    · next ha hb hc hd =>
      cases h
      exact ⟨[a, b, c, d], .mk ha hb hc hd, rfl⟩
    · cases h
  · cases h

theorem simpleEscape?_u : simpleEscape? 'u' = none := by decide

theorem skipStringFrom_plain {c : Char} (n : Nat) (t : Text) (hc : IsPlain c) :
    skipStringFrom (n + 1) (c :: t) = skipStringFrom n t := by
  simp only [skipStringFrom, if_neg hc.1, if_neg hc.2.1, if_neg hc.2.2]

theorem skipStringFrom_simple {c d : Char} (n : Nat) (t : Text) (hc : simpleEscape? c = some d) :
    skipStringFrom (n + 1) ('\\' :: c :: t) = skipStringFrom n t := by
  have hu : c ≠ 'u' := by
    rintro rfl
    rw [simpleEscape?_u] at hc
    cases hc
  simp [skipStringFrom, hc]

theorem skipStringFrom_unicode (n : Nat) (t : Text) :
    skipStringFrom (n + 1) ('\\' :: 'u' :: t) =
      hexFour t >>= fun r => skipStringFrom n r.2 := by
  simp [skipStringFrom]

theorem skipStringFrom_append {body : Text} (h : IsBody body) {n : Nat} (hn : body.length < n)
    (rest : Text) : skipStringFrom n (body ++ '"' :: rest) = .ok rest := by
  induction h generalizing n with
  | nil =>
    obtain ⟨n, rfl⟩ := Nat.exists_eq_succ_of_ne_zero (Nat.ne_zero_of_lt hn)
    rfl
  | plain hc _ ih =>
    obtain ⟨n, rfl⟩ := Nat.exists_eq_succ_of_ne_zero (Nat.ne_zero_of_lt hn)
    rw [List.cons_append, skipStringFrom_plain n _ hc]
    exact ih (Nat.lt_of_succ_lt_succ hn)
  | simple hc _ ih =>
    obtain ⟨n, rfl⟩ := Nat.exists_eq_succ_of_ne_zero (Nat.ne_zero_of_lt hn)
    rw [List.cons_append, List.cons_append, skipStringFrom_simple n _ hc]
    exact ih (by simp only [List.length_cons] at hn; omega)
  | unicode hfour _ ih =>
    obtain ⟨n, rfl⟩ := Nat.exists_eq_succ_of_ne_zero (Nat.ne_zero_of_lt hn)
    rw [List.cons_append, List.cons_append, List.append_assoc, skipStringFrom_unicode,
      hfour.hexFour]
    exact ih (by simp only [List.length_cons, List.length_append] at hn; omega)

theorem exists_of_skipStringFrom {n : Nat} {t rest : Text} (h : skipStringFrom n t = .ok rest) :
    ∃ body, IsBody body ∧ t = body ++ '"' :: rest := by
  induction n generalizing t with
  | zero => cases h
  | succ n ih =>
    cases t with
    | nil => cases h
    | cons c t =>
      simp only [skipStringFrom] at h
      split at h
      · next hquote =>
        cases h
        exact ⟨[], .nil, by rw [hquote]; rfl⟩
      split at h
      · next hquote hslash =>
        subst hslash
        split at h
        · cases h
        · obtain ⟨⟨m, u⟩, hread, hskip⟩ := bind_eq_ok.1 h
          obtain ⟨four, hfour, rfl⟩ := isHexFour_of_hexFour hread
          obtain ⟨body, hbody, rfl⟩ := ih hskip
          exact ⟨_, .unicode hfour hbody, by simp⟩
        · split at h
          · next hescape =>
            obtain ⟨d, hd⟩ := Option.isSome_iff_exists.1 hescape
            obtain ⟨body, hbody, rfl⟩ := ih h
            exact ⟨_, .simple hd hbody, rfl⟩
          · cases h
      split at h
      · cases h
      · next hquote hslash hcontrol =>
        obtain ⟨body, hbody, rfl⟩ := ih h
        exact ⟨_, .plain ⟨hquote, hslash, hcontrol⟩ hbody, rfl⟩

theorem skipString_append {body : Text} (h : IsBody body) (rest : Text) :
    skipString (body ++ '"' :: rest) = .ok rest :=
  skipStringFrom_append h (by simp) rest

/-! Numbers. -/

theorem IsDigits.startsWithDigit {t : Text} (h : IsDigits t) (u : Text) :
    startsWithDigit (t ++ u) = true := by
  cases t with
  | nil => exact absurd rfl h.1
  | cons c t => exact h.2 c List.mem_cons_self

theorem dropWhile_isDigit_append {digits t : Text} (h : ∀ c ∈ digits, c.isDigit = true)
    (ht : startsWithDigit t = false) : (digits ++ t).dropWhile Char.isDigit = t := by
  rw [List.dropWhile_append_of_pos h]
  cases t with
  | nil => rfl
  | cons c t => exact List.dropWhile_cons_of_neg (Bool.eq_false_iff.1 ht)

theorem skipDigits_append {digits t : Text} (h : IsDigits digits)
    (ht : startsWithDigit t = false) : skipDigits (digits ++ t) = .ok t := by
  rw [skipDigits, if_pos (h.startsWithDigit t), dropWhile_isDigit_append h.2 ht]

theorem startsWithDigit_dropWhile (t : Text) :
    startsWithDigit (t.dropWhile Char.isDigit) = false := by
  cases hdrop : t.dropWhile Char.isDigit with
  | nil => rfl
  | cons c u =>
    have hhead := List.head_dropWhile_not Char.isDigit (by simp [hdrop] : t.dropWhile _ ≠ [])
    simp only [hdrop] at hhead
    exact hhead

theorem exists_of_skipDigits {t rest : Text} (h : skipDigits t = .ok rest) :
    ∃ digits, IsDigits digits ∧ startsWithDigit rest = false ∧ t = digits ++ rest := by
  rw [skipDigits] at h
  split at h
  · next hstart =>
    cases h
    refine ⟨t.takeWhile Char.isDigit, ⟨?_, fun c hc => List.mem_takeWhile_imp hc⟩,
      startsWithDigit_dropWhile t, (List.takeWhile_append_dropWhile).symm⟩
    cases t with
    | nil => cases hstart
    | cons c t => simp [List.takeWhile_cons_of_pos (show c.isDigit = true from hstart)]
  · cases h

theorem IsExponent.startsWithDigit {t rest : Text} (h : IsExponent t) (hrest : EndsNumber rest) :
    startsWithDigit (t ++ rest) = false := by
  obtain rfl | ⟨mark, hmark, sign, _, digits, _, rfl⟩ := h
  · exact hrest.startsWithDigit
  · simp only [List.mem_cons, List.not_mem_nil, or_false] at hmark
    obtain rfl | rfl := hmark <;> rfl

theorem IsExponent.ne_point {t rest : Text} (h : IsExponent t) (hrest : EndsNumber rest)
    (u : Text) : t ++ rest ≠ '.' :: u := by
  intro heq
  obtain rfl | ⟨mark, hmark, sign, _, digits, _, rfl⟩ := h
  · exact (hrest '.' (by rw [List.nil_append] at heq; simp [heq])).2.1 rfl
  · have hpoint : mark = '.' := (List.cons.inj heq).1
    simp [hpoint] at hmark

theorem skipExponent_digits {mark : Char} (hmark : mark ∈ ['e', 'E']) {t : Text}
    (ht : startsWithDigit t = true) : skipExponent (mark :: t) = skipDigits t := by
  have hplus : ∀ u, t ≠ '+' :: u := by
    rintro u rfl
    cases ht
  have hminus : ∀ u, t ≠ '-' :: u := by
    rintro u rfl
    cases ht
  simp only [List.mem_cons, List.not_mem_nil, or_false] at hmark
  obtain rfl | rfl := hmark <;> simp [skipExponent]

theorem skipExponent_sign {mark sign : Char} (hmark : mark ∈ ['e', 'E'])
    (hsign : sign ∈ ['+', '-']) (t : Text) :
    skipExponent (mark :: sign :: t) = skipDigits t := by
  simp only [List.mem_cons, List.not_mem_nil, or_false] at hmark hsign
  obtain rfl | rfl := hmark <;> obtain rfl | rfl := hsign <;> simp [skipExponent]

theorem skipExponent_append {t rest : Text} (h : IsExponent t) (hrest : EndsNumber rest) :
    skipExponent (t ++ rest) = .ok rest := by
  obtain rfl | ⟨mark, hmark, sign, hsign, digits, hdigits, rfl⟩ := h
  · rw [List.nil_append, skipExponent.eq_def]
    split
    · exact absurd rfl (hrest 'e' rfl).2.2.1
    · exact absurd rfl (hrest 'E' rfl).2.2.2
    · rfl
  have hskip := skipDigits_append hdigits hrest.startsWithDigit
  rw [List.cons_append, List.append_assoc, ← hskip]
  simp only [List.mem_cons, List.not_mem_nil, or_false] at hsign
  obtain rfl | rfl | rfl := hsign
  · exact skipExponent_digits hmark (hdigits.startsWithDigit rest)
  · exact skipExponent_sign hmark (by decide) _
  · exact skipExponent_sign hmark (by decide) _

theorem exists_of_skipExponent {t rest : Text} (h : skipExponent t = .ok rest) :
    ∃ u, IsExponent u ∧ t = u ++ rest := by
  rw [skipExponent.eq_def] at h
  split at h
  · split at h
    all_goals
      obtain ⟨digits, hdigits, _, rfl⟩ := exists_of_skipDigits h
    · exact ⟨_, .inr ⟨'e', by decide, ['+'], by decide, digits, hdigits, rfl⟩, rfl⟩
    · exact ⟨_, .inr ⟨'e', by decide, ['-'], by decide, digits, hdigits, rfl⟩, rfl⟩
    · exact ⟨_, .inr ⟨'e', by decide, [], by decide, digits, hdigits, rfl⟩, rfl⟩
  · split at h
    all_goals
      obtain ⟨digits, hdigits, _, rfl⟩ := exists_of_skipDigits h
    · exact ⟨_, .inr ⟨'E', by decide, ['+'], by decide, digits, hdigits, rfl⟩, rfl⟩
    · exact ⟨_, .inr ⟨'E', by decide, ['-'], by decide, digits, hdigits, rfl⟩, rfl⟩
    · exact ⟨_, .inr ⟨'E', by decide, [], by decide, digits, hdigits, rfl⟩, rfl⟩
  · cases h
    exact ⟨[], .inl rfl, rfl⟩

def skipWhole (t : Text) : Except Fault Text :=
  match t with
  | '0' :: t => if startsWithDigit t then .error .malformed else .ok t
  | t => skipDigits t

def skipAfterWhole (t : Text) : Except Fault Text :=
  match t with
  | '.' :: t => skipDigits t >>= skipExponent
  | t => skipExponent t

theorem skipNumber_eq (t : Text) : skipNumber t = skipWhole t >>= skipAfterWhole := by
  rw [skipNumber.eq_def]
  split
  · next u =>
    rw [skipWhole]
    split <;> rfl
  · next hzero =>
    rw [skipWhole]
    · rfl
    · exact hzero

theorem skipAfterWhole_append {fraction exponent rest : Text} (hfraction : IsFraction fraction)
    (hexponent : IsExponent exponent) (hrest : EndsNumber rest) :
    skipAfterWhole (fraction ++ (exponent ++ rest)) = .ok rest := by
  have hskip := skipExponent_append hexponent hrest
  obtain rfl | ⟨digits, hdigits, rfl⟩ := hfraction
  · rw [List.nil_append, skipAfterWhole.eq_def]
    split
    · next heq => exact absurd heq (hexponent.ne_point hrest _)
    · exact hskip
  · have hpoint := skipDigits_append hdigits (hexponent.startsWithDigit hrest)
    rw [List.cons_append, skipAfterWhole, hpoint]
    exact hskip

theorem exists_of_skipAfterWhole {t rest : Text} (h : skipAfterWhole t = .ok rest) :
    ∃ fraction exponent, IsFraction fraction ∧ IsExponent exponent ∧
      t = fraction ++ (exponent ++ rest) := by
  rw [skipAfterWhole.eq_def] at h
  split at h
  · obtain ⟨u, hskip, hexponent⟩ := bind_eq_ok.1 h
    obtain ⟨digits, hdigits, _, rfl⟩ := exists_of_skipDigits hskip
    obtain ⟨exponent, hmark, rfl⟩ := exists_of_skipExponent hexponent
    exact ⟨_, exponent, .inr ⟨digits, hdigits, rfl⟩, hmark, rfl⟩
  · obtain ⟨exponent, hexponent, rfl⟩ := exists_of_skipExponent h
    exact ⟨[], exponent, .inl rfl, hexponent, rfl⟩

theorem IsFraction.startsWithDigit {fraction t : Text} (h : IsFraction fraction)
    (ht : startsWithDigit t = false) : startsWithDigit (fraction ++ t) = false := by
  obtain rfl | ⟨digits, _, rfl⟩ := h
  · exact ht
  · rfl

theorem skipWhole_append {whole t : Text} (hwhole : IsWhole whole)
    (ht : startsWithDigit t = false) : skipWhole (whole ++ t) = .ok t := by
  rw [skipWhole.eq_def]
  split
  · next u heq =>
    have hzero : whole = ['0'] := by
      refine hwhole.2 ?_
      obtain ⟨c, w, rfl⟩ := List.exists_cons_of_ne_nil hwhole.1.1
      rw [(List.cons.inj heq).1]
      rfl
    have htail : u = t := by
      rw [hzero] at heq
      exact (List.cons.inj heq).2.symm
    rw [htail, ht]
    rfl
  · exact skipDigits_append hwhole.1 ht

theorem exists_of_skipWhole {t rest : Text} (h : skipWhole t = .ok rest) :
    ∃ whole, IsWhole whole ∧ t = whole ++ rest := by
  rw [skipWhole.eq_def] at h
  split at h
  · split at h
    · cases h
    · cases h
      exact ⟨['0'], isWhole_zero, rfl⟩
  · next hzero =>
    obtain ⟨digits, hdigits, _, rfl⟩ := exists_of_skipDigits h
    refine ⟨digits, ⟨hdigits, fun hhead => ?_⟩, rfl⟩
    obtain ⟨w, rfl⟩ := List.head?_eq_some_iff.1 hhead
    exact absurd rfl (hzero _)

theorem skipNumber_append {t rest : Text} (h : IsUnsigned t) (hrest : EndsNumber rest) :
    skipNumber (t ++ rest) = .ok rest := by
  cases h with
  | mk hwhole hfraction hexponent =>
    have hend := hfraction.startsWithDigit (hexponent.startsWithDigit hrest)
    rw [List.append_assoc, List.append_assoc, skipNumber_eq, skipWhole_append hwhole hend]
    exact skipAfterWhole_append hfraction hexponent hrest

theorem exists_of_skipNumber {t rest : Text} (h : skipNumber t = .ok rest) :
    ∃ u, IsUnsigned u ∧ t = u ++ rest := by
  rw [skipNumber_eq] at h
  obtain ⟨u, hskip, hafter⟩ := bind_eq_ok.1 h
  obtain ⟨whole, hwhole, rfl⟩ := exists_of_skipWhole hskip
  obtain ⟨fraction, exponent, hfraction, hexponent, rfl⟩ := exists_of_skipAfterWhole hafter
  exact ⟨_, .mk hwhole hfraction hexponent, by simp⟩

theorem IsUnsigned.startsWithDigit {t : Text} (h : IsUnsigned t) (u : Text) :
    startsWithDigit (t ++ u) = true := by
  cases h with
  | mk hwhole =>
    rw [List.append_assoc]
    exact hwhole.1.startsWithDigit _

/-! Values that hold no other. -/

theorem readWord_append (w t : Text) : readWord w (w ++ t) = .ok t := by
  induction w with
  | nil => rfl
  | cons c w ih => rw [List.cons_append, readWord, if_pos rfl, ih]

theorem eq_append_of_readWord {w t rest : Text} (h : readWord w t = .ok rest) : t = w ++ rest := by
  induction w generalizing t with
  | nil =>
    cases h
    rfl
  | cons c w ih =>
    cases t with
    | nil => cases h
    | cons d t =>
      rw [readWord] at h
      split at h
      · next heq => rw [heq, ih h, List.cons_append]
      · cases h

theorem skipScalar_of_isDigit {c : Char} (t : Text) (hc : c.isDigit = true) :
    skipScalar c t = skipNumber (c :: t) := by
  rw [skipScalar, if_neg (ne_of_isDigit hc rfl), if_neg (ne_of_isDigit hc rfl),
    if_neg (ne_of_isDigit hc rfl), if_neg (ne_of_isDigit hc rfl), if_pos hc]

theorem IsUnsigned.exists_cons {t : Text} (h : IsUnsigned t) :
    ∃ c u, t = c :: u ∧ c.isDigit = true := by
  have hstart := h.startsWithDigit []
  rw [List.append_nil] at hstart
  cases t with
  | nil => cases hstart
  | cons c u => exact ⟨c, u, rfl, hstart⟩

theorem IsScalar.skipScalar {v : Text} (h : IsScalar v) :
    ∃ c t, v = c :: t ∧ StartsScalar c ∧
      ∀ rest, EndsNumber rest → skipScalar c (t ++ rest) = .ok rest := by
  cases h with
  | null => exact ⟨_, _, rfl, by decide, fun rest _ => readWord_append _ rest⟩
  | true => exact ⟨_, _, rfl, by decide, fun rest _ => readWord_append _ rest⟩
  | false => exact ⟨_, _, rfl, by decide, fun rest _ => readWord_append _ rest⟩
  | number h =>
    obtain ⟨c, t, rfl, hc⟩ := h.exists_cons
    refine ⟨c, t, rfl, startsScalar_of_isDigit hc, fun rest hrest => ?_⟩
    rw [skipScalar_of_isDigit _ hc]
    exact skipNumber_append h hrest
  | negative h =>
    exact ⟨'-', _, rfl, by decide, fun rest hrest => skipNumber_append h hrest⟩
  | @string body h =>
    refine ⟨'"', _, rfl, by decide, fun rest _ => ?_⟩
    rw [List.append_assoc]
    exact skipString_append h rest

theorem exists_of_skipScalar {c : Char} {t rest : Text} (h : skipScalar c t = .ok rest) :
    ∃ u, IsScalar (c :: u) ∧ t = u ++ rest := by
  simp only [Json.skipScalar] at h
  split at h
  · next hc => exact ⟨_, hc ▸ .null, eq_append_of_readWord h⟩
  split at h
  · next hc => exact ⟨_, hc ▸ .true, eq_append_of_readWord h⟩
  split at h
  · next hc => exact ⟨_, hc ▸ .false, eq_append_of_readWord h⟩
  split at h
  · next hc =>
    obtain ⟨u, hu, rfl⟩ := exists_of_skipNumber h
    exact ⟨u, hc ▸ .negative hu, rfl⟩
  split at h
  · obtain ⟨u, hu, htext⟩ := exists_of_skipNumber h
    obtain ⟨d, w, rfl, _⟩ := hu.exists_cons
    obtain ⟨rfl, rfl⟩ := List.cons.inj htext
    exact ⟨w, .number hu, rfl⟩
  split at h
  · next hc =>
    obtain ⟨body, hbody, rfl⟩ := exists_of_skipStringFrom h
    exact ⟨body ++ ['"'], hc ▸ .string hbody, by simp⟩
  · cases h

end UrlPolicy.Json
