import UrlPolicy.Proofs.Json.Skip.Value

set_option autoImplicit false

namespace UrlPolicy.Json

/-! Strings. -/

theorem readStringFrom_plain {c : Char} (n : Nat) (t : Text) (hc : IsPlain c) :
    readStringFrom (n + 1) (c :: t) =
      readStringFrom n t >>= fun r => .ok (c :: r.1, r.2) := by
  rw [readStringFrom, if_neg hc.1, if_neg hc.2.1, if_neg hc.2.2]

theorem readStringFrom_escape (n : Nat) (t : Text) :
    readStringFrom (n + 1) ('\\' :: t) =
      escape t >>= fun r => readStringFrom n r.2 >>= fun r' => .ok (r.1 :: r'.1, r'.2) := by
  rw [readStringFrom, if_neg (by decide), if_pos rfl]

theorem escape_simple {c d : Char} (hc : simpleEscape? c = some d) (t : Text) :
    escape (c :: t) = .ok (d, t) := by
  have hu : c ≠ 'u' := by
    rintro rfl
    rw [simpleEscape?_u] at hc
    cases hc
  rw [escape, if_neg hu, hc]

theorem escape_unicode {four : Text} {n : Nat} (hfour : IsHexFour four n)
    (hleading : isLeading n = false) (htrailing : isTrailing n = false) (t : Text) :
    escape ('u' :: (four ++ t)) = .ok (Char.ofNat n, t) := by
  rw [escape, if_pos rfl, unicodeEscape, hfour.hexFour]
  simp [bind, Except.bind, hleading, htrailing]

theorem isTrailing_of_isLeading {n : Nat} (h : isLeading n = true) : isTrailing n = false := by
  simp only [isLeading, isTrailing, Bool.and_eq_true, decide_eq_true_eq, Bool.and_eq_false_iff,
    decide_eq_false_iff_not] at h ⊢
  omega

theorem escape_pair {four four' : Text} {n m : Nat} (hfour : IsHexFour four n)
    (hleading : isLeading n = true) (hfour' : IsHexFour four' m) (htrailing : isTrailing m = true)
    (t : Text) : escape ('u' :: (four ++ '\\' :: 'u' :: (four' ++ t))) =
      .ok (Char.ofNat (0x10000 + (n - 0xD800) * 0x400 + (m - 0xDC00)), t) := by
  rw [escape, if_pos rfl, unicodeEscape, hfour.hexFour]
  simp [bind, Except.bind, hleading, isTrailing_of_isLeading hleading, hfour'.hexFour, htrailing]

theorem readStringFrom_append {body s : Text} (h : Spells body s) {n : Nat}
    (hn : body.length < n) (rest : Text) :
    readStringFrom n (body ++ '"' :: rest) = .ok (s, rest) := by
  induction h generalizing n with
  | nil =>
    obtain ⟨n, rfl⟩ := Nat.exists_eq_add_one_of_ne_zero (Nat.ne_zero_of_lt hn)
    rfl
  | plain hc _ ih =>
    obtain ⟨n, rfl⟩ := Nat.exists_eq_add_one_of_ne_zero (Nat.ne_zero_of_lt hn)
    rw [List.cons_append, readStringFrom_plain n _ hc, ih (Nat.lt_of_succ_lt_succ hn)]
    rfl
  | simple hc _ ih =>
    obtain ⟨n, rfl⟩ := Nat.exists_eq_add_one_of_ne_zero (Nat.ne_zero_of_lt hn)
    simp only [List.length_cons] at hn
    simp only [List.cons_append, readStringFrom_escape, escape_simple hc, bind, Except.bind,
      ih (n := n) (by omega)]
  | unicode hfour hleading htrailing _ ih =>
    obtain ⟨n, rfl⟩ := Nat.exists_eq_add_one_of_ne_zero (Nat.ne_zero_of_lt hn)
    simp only [List.length_cons, List.length_append] at hn
    simp only [List.cons_append, List.append_assoc, readStringFrom_escape,
      escape_unicode hfour hleading htrailing, bind, Except.bind, ih (n := n) (by omega)]
  | pair hfour hleading hfour' htrailing _ ih =>
    obtain ⟨n, rfl⟩ := Nat.exists_eq_add_one_of_ne_zero (Nat.ne_zero_of_lt hn)
    simp only [List.length_cons, List.length_append] at hn
    simp only [List.cons_append, List.append_assoc, readStringFrom_escape,
      escape_pair hfour hleading hfour' htrailing, bind, Except.bind, ih (n := n) (by omega)]

theorem readString_append {body s : Text} (h : Spells body s) (rest : Text) :
    readString (body ++ '"' :: rest) = .ok (s, rest) :=
  readStringFrom_append h (by simp) rest

theorem exists_of_unicodeEscape {t rest : Text} {c : Char}
    (h : unicodeEscape t = .ok (c, rest)) : ∃ u, t = u ++ rest ∧
      ∀ body s, Spells body s → Spells ('\\' :: 'u' :: (u ++ body)) (c :: s) := by
  rw [unicodeEscape] at h
  obtain ⟨⟨n, u⟩, hread, hrest⟩ := bind_eq_ok.1 h
  obtain ⟨four, hfour, rfl⟩ := isHexFour_of_hexFour hread
  simp only at hrest
  split at hrest
  · cases hrest
  next htrailing =>
  split at hrest
  · next hleading =>
    split at hrest
    · cases hrest
    · cases hrest
    · next t' =>
      obtain ⟨⟨m, w⟩, hread', hpair⟩ := bind_eq_ok.1 hrest
      obtain ⟨four', hfour', rfl⟩ := isHexFour_of_hexFour hread'
      split at hpair
      · next htrailing' =>
        obtain ⟨rfl, rfl⟩ := Prod.mk.inj (Except.ok.inj hpair)
        refine ⟨four ++ '\\' :: 'u' :: four', by simp, fun body s hs => ?_⟩
        simpa using Spells.pair hfour hleading hfour' htrailing' hs
      · cases hpair
    · cases hrest
  · next hleading =>
    cases hrest
    exact ⟨four, rfl, fun body s hs =>
      .unicode hfour (Bool.eq_false_iff.2 hleading) (Bool.eq_false_iff.2 htrailing) hs⟩

theorem exists_of_escape {t rest : Text} {c : Char} (h : escape t = .ok (c, rest)) :
    ∃ u, t = u ++ rest ∧ ∀ body s, Spells body s → Spells ('\\' :: (u ++ body)) (c :: s) := by
  cases t with
  | nil => cases h
  | cons d t =>
    rw [escape] at h
    split at h
    · next hd =>
      obtain ⟨u, rfl, hspells⟩ := exists_of_unicodeEscape h
      exact ⟨d :: u, rfl, hd ▸ hspells⟩
    split at h
    · next hescape =>
      cases h
      exact ⟨[d], rfl, fun body s hs => .simple hescape hs⟩
    · cases h

theorem exists_of_readStringFrom {n : Nat} {t s rest : Text}
    (h : readStringFrom n t = .ok (s, rest)) :
    ∃ body, Spells body s ∧ t = body ++ '"' :: rest := by
  induction n generalizing t s with
  | zero => cases h
  | succ n ih =>
    cases t with
    | nil => cases h
    | cons c t =>
      rw [readStringFrom] at h
      split at h
      · next hquote =>
        cases h
        exact ⟨[], .nil, by rw [hquote]; rfl⟩
      split at h
      · next hslash =>
        obtain ⟨⟨d, u⟩, hescape, hread⟩ := bind_eq_ok.1 h
        obtain ⟨⟨s', w⟩, hread, heq⟩ := bind_eq_ok.1 hread
        cases heq
        obtain ⟨v, rfl, hspells⟩ := exists_of_escape hescape
        obtain ⟨body, hbody, rfl⟩ := ih hread
        exact ⟨_, hspells body s' hbody, by rw [hslash]; simp⟩
      split at h
      · cases h
      · next hquote hslash hcontrol =>
        obtain ⟨⟨s', w⟩, hread, heq⟩ := bind_eq_ok.1 h
        cases heq
        obtain ⟨body, hbody, rfl⟩ := ih hread
        exact ⟨_, .plain ⟨hquote, hslash, hcontrol⟩ hbody, rfl⟩

theorem exists_of_readString {t s rest : Text} (h : readString t = .ok (s, rest)) :
    ∃ body, Spells body s ∧ t = body ++ '"' :: rest :=
  exists_of_readStringFrom h

theorem IsBody.append_inj {body body' t t' : Text} (h : IsBody body) (h' : IsBody body')
    (heq : body ++ '"' :: t = body' ++ '"' :: t') : body = body' ∧ t = t' := by
  have hskip := skipString_append h t
  rw [heq, skipString_append h' t'] at hskip
  cases hskip
  exact ⟨List.append_cancel_right heq, rfl⟩

/-! Readers. -/

theorem toOption_ok {α : Type} (a : α) : (Except.ok a : Except Fault α).toOption = some a := rfl

theorem toOption_eq_some_iff {α : Type} {x : Except Fault α} {a : α} :
    x.toOption = some a ↔ x = .ok a := by
  cases x <;> simp [Except.toOption]

theorem toOption_bind {α β : Type} (x : Except Fault α) (f : α → Except Fault β) :
    (x >>= f).toOption = x.toOption.bind fun a => (f a).toOption := by
  cases x <;> rfl

theorem toOption_map_ok {α β : Type} (x : Except Fault α) (f : α → β) :
    (x >>= fun a => .ok (f a)).toOption = x.toOption.map f := by
  cases x <;> rfl

theorem toOption_eq_none {α : Type} {x : Except Fault α} (h : ∀ a, x ≠ .ok a) :
    x.toOption = none := by
  cases x with
  | error fault => rfl
  | ok a => exact absurd rfl (h a)

/-- A reader takes a text as a whole or refuses it, whatever follows. -/
def ReadsAlone {α : Type} (read : Text → Except Fault (α × Text)) (v : Text) : Prop :=
  ∃ o : Option α, ∀ rest, EndsNumber rest → (read (v ++ rest)).toOption = o.map fun a => (a, rest)

theorem ReadsAlone.toOption_eq {α : Type} {read : Text → Except Fault (α × Text)} {v rest : Text}
    (h : ReadsAlone read v) (hrest : EndsNumber rest) : (read (v ++ rest)).toOption =
      ((read v).toOption.map Prod.fst).map fun a => (a, rest) := by
  obtain ⟨o, hread⟩ := h
  have hv := hread [] endsNumber_nil
  rw [List.append_nil] at hv
  rw [hread rest hrest, hv]
  cases o <;> rfl

theorem readString_body {body : Text} (h : IsBody body) : ∃ o : Option Text, ∀ rest,
    (readString (body ++ '"' :: rest)).toOption = o.map fun s => (s, rest) := by
  by_cases hspells : ∃ s, Spells body s
  · obtain ⟨s, hs⟩ := hspells
    refine ⟨some s, fun rest => ?_⟩
    rw [readString_append hs]
    rfl
  · refine ⟨none, fun rest => toOption_eq_none fun ⟨s, rest'⟩ hread => hspells ?_⟩
    obtain ⟨body', hbody', htext⟩ := exists_of_readString hread
    obtain ⟨rfl, _⟩ := h.append_inj hbody'.isBody htext
    exact ⟨s, hbody'⟩

section Numbers

variable {negative : Bool} {s : Nat} {e : Int} {digits t rest : Text}

theorem takeDigits_append_rest (hdigits : ∀ c ∈ digits, c.isDigit = true)
    (ht : startsWithDigit t = false) : takeDigits s (digits ++ t) =
      ((takeDigits s digits).1, (takeDigits s digits).2.1, (takeDigits s digits).2.2 ++ t) := by
  induction digits generalizing s with
  | nil =>
    cases t with
    | nil => rfl
    | cons c t =>
      have hc : ¬ (c.isDigit = true ∧ s * 10 + digitValue c ≤ maxSignificand) := fun hc =>
        Bool.eq_false_iff.1 ht hc.1
      rw [List.nil_append]
      simp only [takeDigits, if_neg hc, List.nil_append]
  | cons c digits ih =>
    rw [List.cons_append, takeDigits, takeDigits]
    split
    · rw [ih fun d hd => hdigits d (List.mem_cons_of_mem c hd)]
    · rfl

theorem isDigit_of_mem_takeDigits (hdigits : ∀ c ∈ digits, c.isDigit = true) :
    ∀ c ∈ (takeDigits s digits).2.2, c.isDigit = true := by
  induction digits generalizing s with
  | nil => simp [takeDigits]
  | cons c digits ih =>
    rw [takeDigits]
    split
    · exact ih fun d hd => hdigits d (List.mem_cons_of_mem c hd)
    · exact hdigits

theorem takeDigits_length (s : Nat) (t : Text) :
    (takeDigits s t).2.1 + (takeDigits s t).2.2.length = t.length := by
  induction t generalizing s with
  | nil => rfl
  | cons c t ih =>
    rw [takeDigits]
    split
    · exact (Nat.add_right_comm _ 1 _).trans (congrArg (· + 1) (ih (s * 10 + digitValue c)))
    · simp

theorem takeWhile_isDigit_append (hdigits : ∀ c ∈ digits, c.isDigit = true)
    (ht : startsWithDigit t = false) : (digits ++ t).takeWhile Char.isDigit = digits := by
  rw [List.takeWhile_append_of_pos hdigits]
  cases t with
  | nil => simp
  | cons c t =>
    have hc : ¬ c.isDigit = true := Bool.eq_false_iff.1 ht
    rw [List.takeWhile_cons_of_neg hc, List.append_nil]

def exponentSign (t : Text) : Bool × Text :=
  match t with
  | '+' :: t => (false, t)
  | '-' :: t => (true, t)
  | t => (false, t)

def exponentDigits (negative : Bool) (significand : Nat) (e : Int) (signed : Bool × Text) :
    Except Fault (Number × Text) :=
  match signed.2 with
  | [] => .error .truncated
  | c :: _ =>
    if c.isDigit then do
      let n := (signed.2.takeWhile Char.isDigit).foldl (fun n c => n * 10 + digitValue c) 0
      let x ← scale negative significand (if signed.1 then e - n else e + n)
      .ok (x, signed.2.dropWhile Char.isDigit)
    else .error .malformed

theorem exponent_eq (t : Text) :
    exponent negative s e t = exponentDigits negative s e (exponentSign t) := rfl

theorem exponentSign_append {sign : Text} (hsign : sign ∈ [[], ['+'], ['-']])
    (h : startsWithDigit t = true) :
    exponentSign (sign ++ t) = (decide (sign = ['-']), t) := by
  simp only [List.mem_cons, List.not_mem_nil, or_false] at hsign
  obtain rfl | rfl | rfl := hsign
  · rw [List.nil_append, exponentSign.eq_def]
    split
    · cases h
    · cases h
    · rfl
  · rfl
  · rfl

/-- What an exponent makes of a significand does not depend on what follows its digits. -/
theorem exponent_append {sign : Text} (hsign : sign ∈ [[], ['+'], ['-']])
    (hdigits : IsDigits digits) : ∃ e' : Int, ∀ rest, startsWithDigit rest = false →
      exponent negative s e (sign ++ (digits ++ rest)) =
        scale negative s e' >>= fun x => .ok (x, rest) := by
  obtain ⟨c, w, hcons⟩ := List.exists_cons_of_ne_nil hdigits.1
  have hc : c.isDigit = true := hdigits.2 c (by simp [hcons])
  let n := digits.foldl (fun n c => n * 10 + digitValue c) 0
  refine ⟨if decide (sign = ['-']) then e - n else e + n, fun rest hrest => ?_⟩
  have htake := takeWhile_isDigit_append hdigits.2 hrest
  have hdrop := dropWhile_isDigit_append hdigits.2 hrest
  rw [exponent_eq, exponentSign_append hsign (hdigits.startsWithDigit rest), exponentDigits]
  simp only [htake, hdrop]
  simp only [hcons, List.cons_append, hc, if_true, n]

/-! A number ends before a text that does not go on with one. -/

theorem scaled_of_mark {mark : Char} (hmark : mark ∈ ['e', 'E']) (t : Text) :
    scaled negative s e (mark :: t) = exponent negative s e t := by
  simp only [List.mem_cons, List.not_mem_nil, or_false] at hmark
  obtain rfl | rfl := hmark <;> rfl

theorem exponent_alone {sign : Text} (hsign : sign ∈ [[], ['+'], ['-']])
    (hdigits : IsDigits digits) : ReadsAlone (exponent negative s e) (sign ++ digits) := by
  obtain ⟨e', hexponent⟩ := exponent_append hsign hdigits
  refine ⟨(scale negative s e').toOption, fun rest hrest => ?_⟩
  rw [List.append_assoc, hexponent rest hrest.startsWithDigit, toOption_map_ok]

theorem scaled_alone (h : IsExponent t) : ReadsAlone (scaled negative s e) t := by
  obtain rfl | ⟨mark, hmark, sign, hsign, digits, hdigits, rfl⟩ := h
  · refine ⟨(scale negative s e).toOption, fun rest hrest => ?_⟩
    rw [List.nil_append, scaled.eq_def]
    split
    · exact absurd rfl (hrest 'e' rfl).2.2.1
    · exact absurd rfl (hrest 'E' rfl).2.2.2
    · exact toOption_map_ok _ _
  · obtain ⟨o, hread⟩ : ReadsAlone (exponent negative s e) (sign ++ digits) :=
      exponent_alone hsign hdigits
    refine ⟨o, fun rest hrest => ?_⟩
    rw [List.cons_append, scaled_of_mark hmark]
    exact hread rest hrest

theorem fraction_alone (hdigits : IsDigits digits) (h : IsExponent t) :
    ReadsAlone (fraction negative s e) (digits ++ t) := by
  obtain ⟨⟨s', n, left⟩, htake⟩ : ∃ r, takeDigits s digits = r := ⟨_, rfl⟩
  have hleft : ∀ c ∈ left, c.isDigit = true := by
    have hmem := isDigit_of_mem_takeDigits (s := s) hdigits.2
    rwa [htake] at hmem
  obtain ⟨o, hread⟩ : ReadsAlone (scaled negative s' (e - n)) t := scaled_alone h
  refine ⟨o, fun rest hrest => ?_⟩
  have hend := h.startsWithDigit hrest
  rw [List.append_assoc, fraction, takeDigits_append_rest hdigits.2 hend, htake]
  simp only
  -- digits for which the significand has no room are skipped
  by_cases hnil : left = []
  · have hlength := takeDigits_length s digits
    have hn : n ≠ 0 := by
      rw [htake, hnil] at hlength
      rintro rfl
      exact hdigits.1 (List.length_eq_zero_iff.1 hlength.symm)
    rw [hnil, List.nil_append, hend, if_neg (by simp), if_neg hn]
    exact hread rest hrest
  · rw [IsDigits.startsWithDigit ⟨hnil, hleft⟩, if_pos rfl, dropWhile_isDigit_append hleft hend]
    exact hread rest hrest

theorem afterDigits_of_mark {mark : Char} (hmark : mark ∈ ['e', 'E']) (t : Text) :
    afterDigits negative s (mark :: t) = exponent negative s 0 t := by
  simp only [List.mem_cons, List.not_mem_nil, or_false] at hmark
  obtain rfl | rfl := hmark <;> rfl

/-- What follows digits before the point that are left over, as they exceed the significand. -/
def afterLeftDigits (negative : Bool) (s : Nat) (e : Int) (t : Text) :
    Except Fault (Number × Text) :=
  match t with
  | '.' :: t => fraction negative s e t
  | t => scaled negative s e t

theorem afterDigits_of_digits (hdigits : IsDigits digits) (ht : startsWithDigit t = false) :
    afterDigits negative s (digits ++ t) = afterLeftDigits negative s digits.length t := by
  rw [afterDigits.eq_def, hdigits.startsWithDigit, if_pos rfl,
    takeWhile_isDigit_append hdigits.2 ht, dropWhile_isDigit_append hdigits.2 ht]
  rfl

theorem afterLeftDigits_alone {fraction exponent : Text} (hfraction : IsFraction fraction)
    (hexponent : IsExponent exponent) :
    ReadsAlone (afterLeftDigits negative s e) (fraction ++ exponent) := by
  obtain rfl | ⟨point, hpoint, rfl⟩ := hfraction
  · obtain ⟨o, hread⟩ : ReadsAlone (scaled negative s e) exponent := scaled_alone hexponent
    refine ⟨o, fun rest hrest => ?_⟩
    rw [List.nil_append, afterLeftDigits.eq_def]
    split
    · next heq => exact absurd heq (hexponent.ne_point hrest _)
    · exact hread rest hrest
  · exact fraction_alone (s := s) (e := e) hpoint hexponent

theorem afterDigits_alone {fraction exponent : Text} (hfraction : IsFraction fraction)
    (hexponent : IsExponent exponent) :
    ReadsAlone (afterDigits negative s) (fraction ++ exponent) := by
  obtain rfl | ⟨point, hpoint, rfl⟩ := hfraction
  · obtain rfl | ⟨mark, hmark, sign, hsign, digits, hdigits, rfl⟩ := hexponent
    · refine ⟨some (whole negative s), fun rest hrest => ?_⟩
      rw [List.append_nil, List.nil_append, hrest.afterDigits]
      rfl
    · obtain ⟨o, hread⟩ : ReadsAlone (exponent negative s 0) (sign ++ digits) :=
        exponent_alone hsign hdigits
      refine ⟨o, fun rest hrest => ?_⟩
      rw [List.nil_append, List.cons_append, afterDigits_of_mark hmark]
      exact hread rest hrest
  · exact fraction_alone (s := s) (e := 0) hpoint hexponent

theorem readNumber_zero (ht : startsWithDigit t = false) :
    readNumber negative ('0' :: t) = afterDigits negative 0 t := by
  rw [readNumber, ht, if_neg (by simp)]

theorem readNumber_digits (hwhole : IsWhole digits) (hzero : digits ≠ ['0'])
    (ht : startsWithDigit t = false) : readNumber negative (digits ++ t) =
      afterDigits negative (takeDigits 0 digits).1 ((takeDigits 0 digits).2.2 ++ t) := by
  obtain ⟨c, w, rfl⟩ := List.exists_cons_of_ne_nil hwhole.1.1
  have hc : c ≠ '0' := fun heq => hzero (hwhole.2 (by rw [heq]; rfl))
  have htake := takeDigits_append_rest (s := 0) hwhole.1.2 ht
  rw [List.cons_append] at htake ⊢
  rw [readNumber.eq_def]
  split
  · next heq => cases heq
  · next heq => exact absurd (List.cons.inj heq).1 hc
  · next heq =>
    cases heq
    rw [if_pos (hwhole.1.2 c List.mem_cons_self), htake]

theorem readNumber_alone (h : IsUnsigned t) : ReadsAlone (readNumber negative) t := by
  cases h with
  | @mk whole fraction exponent hwhole hfraction hexponent =>
    have hstart : ∀ rest, EndsNumber rest →
        startsWithDigit (fraction ++ exponent ++ rest) = false := fun rest hrest => by
      rw [List.append_assoc]
      exact hfraction.startsWithDigit (hexponent.startsWithDigit hrest)
    by_cases hzero : whole = ['0']
    · obtain ⟨o, hread⟩ : ReadsAlone (afterDigits negative 0) (fraction ++ exponent) :=
        afterDigits_alone hfraction hexponent
      refine ⟨o, fun rest hrest => ?_⟩
      rw [hzero, List.append_assoc, List.singleton_append, readNumber_zero (hstart rest hrest)]
      exact hread rest hrest
    have hdigits := isDigit_of_mem_takeDigits (s := 0) hwhole.1.2
    by_cases hnil : (takeDigits 0 whole).2.2 = []
    · obtain ⟨o, hread⟩ : ReadsAlone (afterDigits negative (takeDigits 0 whole).1)
          (fraction ++ exponent) := afterDigits_alone hfraction hexponent
      refine ⟨o, fun rest hrest => ?_⟩
      rw [List.append_assoc, readNumber_digits hwhole hzero (hstart rest hrest), hnil]
      exact hread rest hrest
    · obtain ⟨o, hread⟩ : ReadsAlone (afterLeftDigits negative (takeDigits 0 whole).1
          (takeDigits 0 whole).2.2.length) (fraction ++ exponent) :=
        afterLeftDigits_alone hfraction hexponent
      refine ⟨o, fun rest hrest => ?_⟩
      rw [List.append_assoc, readNumber_digits hwhole hzero (hstart rest hrest),
        afterDigits_of_digits ⟨hnil, hdigits⟩ (hstart rest hrest)]
      exact hread rest hrest

end Numbers

/-! Values that hold no other. -/

theorem ReadsAlone.map {α β : Type} {read : Text → Except Fault (α × Text)}
    {read' : Text → Except Fault (β × Text)} {v v' : Text} (h : ReadsAlone read v) (f : α → β)
    (heq : ∀ rest, read' (v' ++ rest) = read (v ++ rest) >>= fun r => .ok (f r.1, r.2)) :
    ReadsAlone read' v' := by
  obtain ⟨o, hread⟩ := h
  refine ⟨o.map f, fun rest hrest => ?_⟩
  rw [heq, toOption_bind, hread rest hrest]
  cases o <;> rfl

theorem readScalar_digit {c : Char} (t : Text) (hc : c.isDigit = true) :
    readScalar c t = readNumber false (c :: t) >>= fun r => .ok (.number r.1, r.2) := by
  rw [readScalar, if_neg (ne_of_isDigit hc rfl), if_neg (ne_of_isDigit hc rfl),
    if_neg (ne_of_isDigit hc rfl), if_neg (ne_of_isDigit hc rfl), if_pos hc]

theorem IsScalar.readsAlone {v : Text} (h : IsScalar v) :
    ∃ c t, v = c :: t ∧ StartsScalar c ∧ ReadsAlone (readScalar c) t := by
  cases h with
  | null => exact ⟨_, _, rfl, by decide, some .null, fun rest _ => rfl⟩
  | true => exact ⟨_, _, rfl, by decide, some (.bool Bool.true), fun rest _ => rfl⟩
  | false => exact ⟨_, _, rfl, by decide, some (.bool Bool.false), fun rest _ => rfl⟩
  | number h =>
    obtain ⟨c, t, rfl, hc⟩ := h.exists_cons
    exact ⟨c, t, rfl, startsScalar_of_isDigit hc,
      (readNumber_alone h).map Json.number fun rest => readScalar_digit _ hc⟩
  | negative h =>
    exact ⟨'-', _, rfl, by decide, (readNumber_alone h).map Json.number fun rest => rfl⟩
  | @string body h =>
    obtain ⟨o, hread⟩ := readString_body h
    have halone : ReadsAlone readString (body ++ ['"']) :=
      ⟨o, fun rest _ => by rw [List.append_assoc]; exact hread rest⟩
    exact ⟨'"', _, rfl, by decide, halone.map Json.string fun rest => rfl⟩

end UrlPolicy.Json
