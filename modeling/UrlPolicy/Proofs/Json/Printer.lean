import UrlPolicy.Json.Printer
import UrlPolicy.Proofs.Json.Readable
import UrlPolicy.Proofs.Text.Cut

/-!
Values that are written on many lines and read back. Main statement: a value that has come out of
the reader comes out again, unless it holds a floating-point number.
-/

set_option autoImplicit false

namespace UrlPolicy.Json

/-! Strings. -/

theorem hexValue?_digitChar : ∀ n < 16, hexValue? (Nat.digitChar n) = some n := by
  decide

theorem unicodeEscape_control {n : Nat} (h : n < 32) (t : Text) :
    unicodeEscape ('0' :: '0' :: Nat.digitChar (n / 16) :: Nat.digitChar (n % 16) :: t) =
      .ok (Char.ofNat n, t) := by
  have hfour : hexFour ('0' :: '0' :: Nat.digitChar (n / 16) :: Nat.digitChar (n % 16) :: t) =
      .ok (n, t) := by
    have hsum : ((0 * 16 + 0) * 16 + n / 16) * 16 + n % 16 = n := by omega
    rw [hexFour, hexValue?_digitChar (n / 16) (by omega), hexValue?_digitChar (n % 16) (by omega),
      show hexValue? '0' = some 0 by decide]
    simp only [hsum]
  have htrailing : isTrailing n = false := by simp [isTrailing]; omega
  have hleading : isLeading n = false := by simp [isLeading]; omega
  rw [unicodeEscape, hfour]
  simp [htrailing, hleading, bind, Except.bind]

theorem escapeChar_cases (c : Char) :
    (∃ d u, escapeChar c = '\\' :: d :: u ∧ ∀ t, escape (d :: (u ++ t)) = .ok (c, t)) ∨
      escapeChar c = [c] ∧ c ≠ '"' ∧ c ≠ '\\' ∧ ¬ c.toNat < 32 := by
  by_cases hquote : c = '"'
  · subst hquote
    exact .inl ⟨'"', [], rfl, fun _ => rfl⟩
  by_cases hslash : c = '\\'
  · subst hslash
    exact .inl ⟨'\\', [], rfl, fun _ => rfl⟩
  by_cases hback : c = '\x08'
  · subst hback
    exact .inl ⟨'b', [], rfl, fun _ => rfl⟩
  by_cases htab : c = '\t'
  · subst htab
    exact .inl ⟨'t', [], rfl, fun _ => rfl⟩
  by_cases hfeed : c = '\n'
  · subst hfeed
    exact .inl ⟨'n', [], rfl, fun _ => rfl⟩
  by_cases hform : c = '\x0c'
  · subst hform
    exact .inl ⟨'f', [], rfl, fun _ => rfl⟩
  by_cases hreturn : c = '\r'
  · subst hreturn
    exact .inl ⟨'r', [], rfl, fun _ => rfl⟩
  rw [escapeChar, if_neg hquote, if_neg hslash, if_neg hback, if_neg htab, if_neg hfeed,
    if_neg hform, if_neg hreturn]
  by_cases hcontrol : c.toNat < 32
  · rw [if_pos hcontrol]
    refine .inl ⟨'u', _, rfl, fun t => ?_⟩
    exact (unicodeEscape_control hcontrol t).trans (by rw [c.ofNat_toNat])
  · exact .inr ⟨if_neg hcontrol, hquote, hslash, hcontrol⟩

theorem readStringFrom_escapeChar {c : Char} {n : Nat} {t s rest : Text}
    (h : readStringFrom n t = .ok (s, rest)) :
    readStringFrom (n + 1) (escapeChar c ++ t) = .ok (c :: s, rest) := by
  rcases escapeChar_cases c with ⟨d, u, htext, hescape⟩ | ⟨htext, hquote, hslash, hcontrol⟩
  · rw [htext, List.cons_append, List.cons_append, readStringFrom, if_neg (by decide), if_pos rfl,
      hescape]
    simp only [bind, Except.bind, h]
  · rw [htext, List.singleton_append, readStringFrom, if_neg hquote, if_neg hslash,
      if_neg hcontrol, h]
    rfl

theorem escapeChar_ne_nil (c : Char) : escapeChar c ≠ [] := by
  rcases escapeChar_cases c with ⟨_, _, htext, _⟩ | ⟨htext, _⟩ <;> simp [htext]

theorem readStringFrom_quote (t rest : Text) {n : Nat} (h : t.length < n) :
    readStringFrom n (t.flatMap escapeChar ++ '"' :: rest) = .ok (t, rest) := by
  induction t generalizing n with
  | nil =>
    obtain ⟨n, rfl⟩ := Nat.exists_eq_succ_of_ne_zero (Nat.ne_zero_of_lt h)
    rfl
  | cons c t ih =>
    obtain ⟨n, rfl⟩ := Nat.exists_eq_succ_of_ne_zero (Nat.ne_zero_of_lt h)
    rw [List.flatMap_cons, List.append_assoc]
    exact readStringFrom_escapeChar (ih (Nat.lt_of_succ_lt_succ h))

theorem length_le_flatMap_escapeChar (t : Text) : t.length ≤ (t.flatMap escapeChar).length := by
  induction t with
  | nil => exact Nat.le_refl 0
  | cons c t ih =>
    have hc := List.length_pos_iff.2 (escapeChar_ne_nil c)
    rw [List.flatMap_cons, List.length_append, List.length_cons]
    omega

theorem readString_quote (t rest : Text) :
    readString (t.flatMap escapeChar ++ '"' :: rest) = .ok (t, rest) := by
  refine readStringFrom_quote t rest ?_
  have hlength := length_le_flatMap_escapeChar t
  rw [List.length_append, List.length_cons]
  omega

theorem readScalar_quote (t rest : Text) :
    readScalar '"' (t.flatMap escapeChar ++ '"' :: rest) = .ok (.string t, rest) := by
  rw [readScalar, if_neg (by decide), if_neg (by decide), if_neg (by decide), if_neg (by decide),
    if_neg (by decide), if_pos rfl, readString_quote]
  rfl

/-! Numbers. -/

/-- A text that does not go on with a number that ends before it. -/
def EndsNumber (t : Text) : Prop :=
  ∀ c ∈ t.head?, c.isDigit = false ∧ c ≠ '.' ∧ c ≠ 'e' ∧ c ≠ 'E'

theorem EndsNumber.startsWithDigit {t : Text} (h : EndsNumber t) : startsWithDigit t = false := by
  cases t with
  | nil => rfl
  | cons c t => exact (h c rfl).1

theorem EndsNumber.afterDigits {t : Text} (h : EndsNumber t) (negative : Bool) (s : Nat) :
    afterDigits negative s t = .ok (whole negative s, t) := by
  have hne : ∀ c ∈ ['.', 'e', 'E'], ∀ u, t ≠ c :: u := by
    intro c hc u ht
    have hhead := h c (by simp [ht])
    simp only [List.mem_cons, List.not_mem_nil, or_false] at hc
    grind
  rw [afterDigits.eq_def, h.startsWithDigit]
  simp only [Bool.false_eq_true, if_false]
  split
  · exact absurd rfl (hne '.' (by simp) _)
  · exact absurd rfl (hne 'e' (by simp) _)
  · exact absurd rfl (hne 'E' (by simp) _)
  · rfl

theorem digitValue_digitChar : ∀ n < 10, digitValue (Nat.digitChar n) = n := by
  decide

theorem isDigit_digitChar : ∀ n < 10, (Nat.digitChar n).isDigit = true := by
  decide

theorem takeDigits_append {s s' n : Nat} {digits : Text} (t : Text)
    (h : takeDigits s digits = (s', n, [])) :
    takeDigits s (digits ++ t) =
      ((takeDigits s' t).1, n + (takeDigits s' t).2.1, (takeDigits s' t).2.2) := by
  induction digits generalizing s n with
  | nil =>
    cases h
    simp
  | cons c digits ih =>
    by_cases hc : c.isDigit ∧ s * 10 + digitValue c ≤ maxSignificand
    · obtain ⟨⟨s₁, n₁, rest₁⟩, hread⟩ : ∃ r, takeDigits (s * 10 + digitValue c) digits = r :=
        ⟨_, rfl⟩
      rw [takeDigits, if_pos hc, hread] at h
      cases h
      rw [List.cons_append, takeDigits, if_pos hc, ih hread, Nat.add_right_comm]
    · rw [takeDigits, if_neg hc] at h
      cases h

theorem takeDigits_digitChar {s n : Nat} (hn : n < 10) (h : s * 10 + n ≤ maxSignificand) :
    takeDigits s [Nat.digitChar n] = (s * 10 + n, 1, []) := by
  rw [takeDigits, digitValue_digitChar n hn, if_pos ⟨isDigit_digitChar n hn, h⟩]
  rfl

theorem takeDigits_toDigits (n : Nat) (h : n ≤ maxSignificand) :
    ∃ k, takeDigits 0 (Nat.toDigits 10 n) = (n, k, []) := by
  induction n using Nat.strongRecOn with
  | ind n ih =>
    rw [Nat.toDigits_eq_if (by decide)]
    split
    · next hn => exact ⟨1, by rw [takeDigits_digitChar hn (by omega), Nat.zero_mul, Nat.zero_add]⟩
    · next hn =>
      obtain ⟨k, hk⟩ := ih (n / 10) (by omega) (by omega)
      have hsum : n / 10 * 10 + n % 10 = n := by omega
      rw [takeDigits_append _ hk, takeDigits_digitChar (Nat.mod_lt n (by decide)) (by omega), hsum]
      exact ⟨_, rfl⟩

theorem EndsNumber.takeDigits {t : Text} (h : EndsNumber t) (s : Nat) :
    takeDigits s t = (s, 0, t) := by
  cases t with
  | nil => rfl
  | cons c t =>
    rw [Json.takeDigits, if_neg]
    simp [(h c rfl).1]

theorem exists_toDigits_eq_cons (n : Nat) :
    ∃ c t, Nat.toDigits 10 n = c :: t ∧ c.isDigit = true ∧ (0 < n → c ≠ '0') := by
  induction n using Nat.strongRecOn with
  | ind n ih =>
    rw [Nat.toDigits_eq_if (by decide)]
    split
    · next hn =>
      have hzero : ∀ m < 10, 0 < m → Nat.digitChar m ≠ '0' := by decide
      exact ⟨_, [], rfl, isDigit_digitChar n hn, hzero n hn⟩
    · obtain ⟨c, t, hdigits, hdigit, hne⟩ := ih (n / 10) (by omega)
      exact ⟨c, t ++ [Nat.digitChar (n % 10)], by rw [hdigits]; rfl, hdigit,
        fun _ => hne (by omega)⟩

theorem readNumber_toDigits {n : Nat} {rest : Text} (negative : Bool) (hn : n ≤ maxSignificand)
    (h : EndsNumber rest) :
    readNumber negative (Nat.toDigits 10 n ++ rest) = .ok (whole negative n, rest) := by
  by_cases hzero : n = 0
  · subst hzero
    have hread : readNumber negative ('0' :: rest) = afterDigits negative 0 rest := by
      rw [readNumber, h.startsWithDigit]
      rfl
    exact hread.trans (h.afterDigits negative 0)
  · obtain ⟨k, hk⟩ := takeDigits_toDigits n hn
    obtain ⟨c, t, hdigits, hdigit, hne⟩ := exists_toDigits_eq_cons n
    have htake := takeDigits_append rest hk
    rw [hdigits, List.cons_append, h.takeDigits] at htake
    rw [hdigits, List.cons_append, readNumber, if_pos hdigit, htake]
    · exact h.afterDigits negative n
    · exact hne (by omega)

/-! Values. -/

theorem ne_of_isDigit {c d : Char} (hc : c.isDigit = true) (hd : d.isDigit = false) : c ≠ d := by
  intro heq
  rw [heq, hd] at hc
  cases hc

theorem readScalar_of_isDigit {c : Char} {t rest : Text} {n : Number} (hc : c.isDigit = true)
    (h : readNumber false (c :: t) = .ok (n, rest)) :
    readScalar c t = .ok (.number n, rest) := by
  rw [readScalar, if_neg (ne_of_isDigit hc rfl), if_neg (ne_of_isDigit hc rfl),
    if_neg (ne_of_isDigit hc rfl), if_neg (ne_of_isDigit hc rfl), if_pos hc, h]
  rfl

def StartsScalar (c : Char) : Prop :=
  isJsonBlank c = false ∧ c ≠ ']' ∧ c ≠ '[' ∧ c ≠ '{'

instance (c : Char) : Decidable (StartsScalar c) := inferInstanceAs (Decidable (_ ∧ _))

theorem startsScalar_of_isDigit {c : Char} (hc : c.isDigit = true) : StartsScalar c := by
  refine ⟨?_, ne_of_isDigit hc rfl, ne_of_isDigit hc rfl, ne_of_isDigit hc rfl⟩
  have hspace : c ≠ ' ' := ne_of_isDigit hc rfl
  have hfeed : c ≠ '\n' := ne_of_isDigit hc rfl
  have htab : c ≠ '\t' := ne_of_isDigit hc rfl
  have hreturn : c ≠ '\r' := ne_of_isDigit hc rfl
  simp [isJsonBlank, hspace, hfeed, htab, hreturn]

theorem skipBlanks_cons {c : Char} (t : Text) (hc : isJsonBlank c = false) :
    skipBlanks (c :: t) = c :: t := by
  simp [skipBlanks, hc]

theorem readValue_scalar {c : Char} (depth : Nat) (t : Text) (hc : StartsScalar c) :
    readValue depth (c :: t) = readScalar c t := by
  obtain ⟨hblank, _, hbracket, hbrace⟩ := hc
  cases depth with
  | zero => rw [readValue, skipBlanks_cons t hblank]
  | succ depth =>
    rw [readValue, skipBlanks_cons t hblank]
    simp only [if_neg hbracket, if_neg hbrace]

theorem readValue_skipBlanks (depth : Nat) {c : Char} (t : Text) (hc : isJsonBlank c = true) :
    readValue depth (c :: t) = readValue depth t := by
  have hskip : skipBlanks (c :: t) = skipBlanks t := by simp [skipBlanks, hc]
  cases depth <;> rw [readValue, readValue, hskip]

theorem isJsonBlank_of_mem_newline {level : Nat} {c : Char} (h : c ∈ newline level) :
    isJsonBlank c = true := by
  rcases List.mem_cons.1 h with rfl | h
  · rfl
  · rw [List.eq_of_mem_replicate h]
    rfl

theorem skipBlanks_newline (level : Nat) (t : Text) :
    skipBlanks (newline level ++ t) = skipBlanks t :=
  List.dropWhile_append_of_pos fun _ => isJsonBlank_of_mem_newline

/-- A text from which the value is read wherever it stands in an array or an object. -/
structure ReadsBack {α : Type} (item : Text → Except Fault (α × Text)) (text : Text) (v : α) :
    Prop where
  start : ∃ c t, text = c :: t ∧ isJsonBlank c = false ∧ c ≠ ']'
  read : ∀ rest, EndsNumber rest → item (text ++ rest) = .ok (v, rest)

section Items

variable {α : Type} {item : Text → Except Fault (α × Text)} {json : α → Json} {level n : Nat}

theorem nextItem_true {c : Char} (level : Nat) (t : Text) (hblank : isJsonBlank c = false)
    (hend : c ≠ ']') : nextItem true (newline level ++ c :: t) = .ok (true, c :: t) := by
  rw [nextItem.eq_def, skipBlanks_newline, skipBlanks_cons t hblank]
  split
  · next heq => cases heq
  · next heq => exact absurd (List.cons.inj heq).1 hend
  · next heq =>
    cases heq
    rfl

theorem nextItem_false {c : Char} (level : Nat) (t : Text) (hblank : isJsonBlank c = false)
    (hend : c ≠ ']') :
    nextItem false (',' :: (newline level ++ c :: t)) = .ok (true, c :: t) := by
  rw [nextItem.eq_def, skipBlanks_cons _ (by decide)]
  split
  · next heq => cases heq
  · next heq => exact absurd (List.cons.inj heq).1 (by decide)
  next heq =>
  cases heq
  rw [if_neg (by decide), if_pos rfl, skipBlanks_newline, skipBlanks_cons t hblank]
  split
  · next heq => cases heq
  · next heq => exact absurd (List.cons.inj heq).1 hend
  · rfl

theorem nextItem_end (first : Bool) (level : Nat) (t : Text) :
    nextItem first (newline level ++ ']' :: t) = .ok (false, t) := by
  rw [nextItem, skipBlanks_newline, skipBlanks_cons t (by decide)]
  rfl

theorem readItemsFrom_nil {first : Bool} {t rest : Text}
    (h : nextItem first t = .ok (false, rest)) :
    readItemsFrom item (n + 1) first t = .ok ([], rest) := by
  rw [readItemsFrom, h]
  rfl

theorem readItemsFrom_cons {first : Bool} {t u w rest : Text} {v : α} {vs : List α}
    (hnext : nextItem first t = .ok (true, u)) (hv : item u = .ok (v, w))
    (hvs : readItemsFrom item n false w = .ok (vs, rest)) :
    readItemsFrom item (n + 1) first t = .ok (v :: vs, rest) := by
  rw [readItemsFrom, hnext]
  simp only [bind, Except.bind, if_true, hv, hvs]

theorem endsNumber_prettyItems (level : Nat) (vs : List Json) (rest : Text) :
    EndsNumber (prettyItems level vs ++ rest) := by
  cases vs <;> simp [EndsNumber, prettyItems, newline]

theorem readItemsFrom_prettyItems {vs : List α}
    (h : ∀ v ∈ vs, ReadsBack item ((json v).prettyAt (level + 1)) v) (hn : vs.length < n)
    (rest : Text) :
    readItemsFrom item n false (prettyItems level (vs.map json) ++ rest) = .ok (vs, rest) := by
  induction vs generalizing n with
  | nil =>
    obtain ⟨n, rfl⟩ := Nat.exists_eq_succ_of_ne_zero (Nat.ne_zero_of_lt hn)
    rw [List.map_nil, prettyItems, List.append_assoc]
    exact readItemsFrom_nil (nextItem_end false level rest)
  | cons v vs ih =>
    obtain ⟨n, rfl⟩ := Nat.exists_eq_succ_of_ne_zero (Nat.ne_zero_of_lt hn)
    have hv := h v List.mem_cons_self
    obtain ⟨c, t, htext, hblank, hend⟩ := hv.start
    have hread := hv.read _ (endsNumber_prettyItems level (vs.map json) rest)
    have hvs := ih (fun w hw => h w (List.mem_cons_of_mem v hw)) (Nat.lt_of_succ_lt_succ hn)
    rw [htext, List.cons_append] at hread
    rw [List.map_cons, prettyItems, htext]
    simp only [List.cons_append, List.append_assoc]
    exact readItemsFrom_cons (nextItem_false (level + 1) _ hblank hend) hread hvs

theorem length_le_prettyItems (level : Nat) (vs : List Json) :
    vs.length ≤ (prettyItems level vs).length := by
  induction vs with
  | nil => exact Nat.zero_le _
  | cons v vs ih =>
    simp only [prettyItems, List.length_append, List.length_cons]
    omega

theorem readItems_prettyAt (json : α → Json) (level : Nat) {vs : List α}
    (h : ∀ v ∈ vs, ReadsBack item ((json v).prettyAt (level + 1)) v) :
    ∃ body, (Json.array (vs.map json)).prettyAt level = '[' :: body ∧
      ∀ rest, readItems item (body ++ rest) = .ok (vs, rest) := by
  cases vs with
  | nil => exact ⟨[']'], rfl, fun rest => readItemsFrom_nil rfl⟩
  | cons v vs =>
    refine ⟨newline (level + 1) ++ ((json v).prettyAt (level + 1) ++
      prettyItems level (vs.map json)), ?_, fun rest => ?_⟩
    · rw [List.map_cons, prettyAt]
      simp only [List.cons_append, List.append_assoc]
    · have hv := h v List.mem_cons_self
      obtain ⟨c, t, htext, hblank, hend⟩ := hv.start
      have hread := hv.read _ (endsNumber_prettyItems level (vs.map json) rest)
      have hlength := length_le_prettyItems level (vs.map json)
      rw [htext, List.cons_append] at hread
      rw [readItems, htext]
      simp only [List.cons_append, List.append_assoc]
      refine readItemsFrom_cons (nextItem_true (level + 1) _ hblank hend) hread
        (readItemsFrom_prettyItems (fun w hw => h w (List.mem_cons_of_mem v hw)) ?_ rest)
      simp only [List.length_append, List.length_cons, List.length_map] at hlength ⊢
      omega

end Items

theorem quote_append (t u : Text) :
    quote t ++ u = '"' :: (t.flatMap escapeChar ++ '"' :: u) := by
  simp [quote]

theorem nextKey_true (level : Nat) (key t : Text) :
    nextKey true (newline level ++ (quote key ++ t)) = .ok (some key, t) := by
  rw [nextKey.eq_def, skipBlanks_newline, quote_append, skipBlanks_cons _ (by decide)]
  simp only [readString_quote, bind, Except.bind]
  rfl

theorem nextKey_false (level : Nat) (key t : Text) :
    nextKey false (',' :: (newline level ++ (quote key ++ t))) = .ok (some key, t) := by
  rw [nextKey.eq_def, skipBlanks_cons _ (by decide)]
  simp only [skipBlanks_newline, quote_append]
  rw [skipBlanks_cons _ (by decide)]
  simp only [readString_quote, bind, Except.bind]
  rfl

theorem nextKey_end (first : Bool) (level : Nat) (t : Text) :
    nextKey first (newline level ++ '}' :: t) = .ok (none, t) := by
  rw [nextKey.eq_def, skipBlanks_newline, skipBlanks_cons t (by decide)]
  rfl

theorem colon_space (t : Text) : colon (": ".toList ++ t) = .ok (' ' :: t) := by
  rfl

section Members

variable {α : Type} {item : Text → Except Fault (α × Text)} {n : Nat}

theorem readMembersFrom_nil {first : Bool} {t rest : Text}
    (h : nextKey first t = .ok (none, rest)) :
    readMembersFrom item (n + 1) first t = .ok ([], rest) := by
  rw [readMembersFrom, h]
  rfl

theorem readMembersFrom_cons {first : Bool} {t u w rest key : Text} {v : α} {ms : List (Text × α)}
    (hkey : nextKey first t = .ok (some key, ": ".toList ++ u))
    (hv : item (' ' :: u) = .ok (v, w))
    (hms : readMembersFrom item n false w = .ok (ms, rest)) :
    readMembersFrom item (n + 1) first t = .ok ((key, v) :: ms, rest) := by
  rw [readMembersFrom, hkey]
  simp only [bind, Except.bind, colon_space, hv, hms]

end Members

theorem endsNumber_prettyMembers (level : Nat) (ms : List (Text × Json)) (rest : Text) :
    EndsNumber (prettyMembers level ms ++ rest) := by
  cases ms <;> simp [EndsNumber, prettyMembers, newline]

theorem readMembersFrom_prettyMembers {depth level n : Nat} {ms : List (Text × Json)}
    (h : ∀ m ∈ ms, ReadsBack (readValue depth) (m.2.prettyAt (level + 1)) m.2)
    (hn : ms.length < n) (rest : Text) :
    readMembersFrom (readValue depth) n false (prettyMembers level ms ++ rest) =
      .ok (ms, rest) := by
  induction ms generalizing n with
  | nil =>
    obtain ⟨n, rfl⟩ := Nat.exists_eq_succ_of_ne_zero (Nat.ne_zero_of_lt hn)
    rw [prettyMembers, List.append_assoc]
    exact readMembersFrom_nil (nextKey_end false level rest)
  | cons m ms ih =>
    obtain ⟨n, rfl⟩ := Nat.exists_eq_succ_of_ne_zero (Nat.ne_zero_of_lt hn)
    obtain ⟨key, v⟩ := m
    have hv := (h (key, v) List.mem_cons_self).read _ (endsNumber_prettyMembers level ms rest)
    have hms := ih (fun m hm => h m (List.mem_cons_of_mem _ hm)) (Nat.lt_of_succ_lt_succ hn)
    rw [← readValue_skipBlanks depth _ (by decide : isJsonBlank ' ' = true)] at hv
    rw [prettyMembers]
    simp only [List.cons_append, List.append_assoc]
    exact readMembersFrom_cons (nextKey_false (level + 1) key _) hv hms

theorem length_le_prettyMembers (level : Nat) (ms : List (Text × Json)) :
    ms.length ≤ (prettyMembers level ms).length := by
  induction ms with
  | nil => exact Nat.zero_le _
  | cons m ms ih =>
    simp only [prettyMembers, List.length_append, List.length_cons]
    omega

theorem prettyAt_object_cons (level : Nat) (key : Text) (v : Json) (ms : List (Text × Json)) :
    (Json.object ((key, v) :: ms)).prettyAt level = '{' :: (newline (level + 1) ++ (quote key ++
      (": ".toList ++ (v.prettyAt (level + 1) ++ prettyMembers level ms)))) := by
  rw [prettyAt]
  simp only [List.cons_append, List.append_assoc]

theorem readMembers_prettyAt {depth level : Nat} {ms : List (Text × Json)}
    (h : ∀ m ∈ ms, ReadsBack (readValue depth) (m.2.prettyAt (level + 1)) m.2) :
    ∃ body, (Json.object ms).prettyAt level = '{' :: body ∧
      ∀ rest, readMembers (readValue depth) (body ++ rest) = .ok (ms, rest) := by
  cases ms with
  | nil => exact ⟨['}'], rfl, fun rest => readMembersFrom_nil rfl⟩
  | cons m ms =>
    obtain ⟨key, v⟩ := m
    refine ⟨_, prettyAt_object_cons level key v ms, fun rest => ?_⟩
    have hv := (h (key, v) List.mem_cons_self).read _ (endsNumber_prettyMembers level ms rest)
    have hlength := length_le_prettyMembers level ms
    rw [← readValue_skipBlanks depth _ (by decide : isJsonBlank ' ' = true)] at hv
    rw [readMembers]
    simp only [List.append_assoc]
    refine readMembersFrom_cons (nextKey_true (level + 1) key _) hv
      (readMembersFrom_prettyMembers (fun m hm => h m (List.mem_cons_of_mem _ hm)) ?_ rest)
    simp only [newline, List.length_append, List.length_cons]
    omega

theorem readsBack_scalar {depth : Nat} {text : Text} {v : Json} {c : Char} {t : Text}
    (htext : text = c :: t) (hc : StartsScalar c)
    (hread : ∀ rest, EndsNumber rest → readScalar c (t ++ rest) = .ok (v, rest)) :
    ReadsBack (readValue depth) text v := by
  refine ⟨⟨c, t, htext, hc.1, hc.2.1⟩, fun rest hrest => ?_⟩
  rw [htext, List.cons_append, readValue_scalar depth _ hc, hread rest hrest]

theorem readsBack_number {n : Number} (depth : Nat) (h : n.InRange)
    (hfloat : ¬ HoldsFloat (.number n)) : ReadsBack (readValue depth) n.text (.number n) := by
  cases n with
  | natural n =>
    obtain ⟨c, t, hdigits, hdigit, _⟩ := exists_toDigits_eq_cons n
    refine readsBack_scalar hdigits (startsScalar_of_isDigit hdigit) fun rest hrest => ?_
    have hread := readNumber_toDigits false h hrest
    rw [hdigits] at hread
    exact readScalar_of_isDigit hdigit hread
  | negative n =>
    have hn : n ≤ maxSignificand := Nat.le_trans h.2 (by decide)
    have hwhole : whole true n = .negative n := by
      rw [whole, if_neg (by decide), if_neg]
      have := h.1
      have := h.2
      omega
    refine readsBack_scalar rfl (by decide) fun rest hrest => ?_
    have hread := readNumber_toDigits true hn hrest
    rw [hwhole] at hread
    rw [readScalar, if_neg (by decide), if_neg (by decide), if_neg (by decide), if_pos rfl, hread]
    rfl
  | float x => exact absurd (.number x) hfloat

/-- What has come out of the reader is read back from its text. -/
theorem readsBack_prettyAt {depth : Nat} {v : Json} (h : Readable depth v)
    (hfloat : ¬ HoldsFloat v) (level : Nat) :
    ReadsBack (readValue depth) (v.prettyAt level) v := by
  induction h generalizing level with
  | null => exact readsBack_scalar rfl (by decide) fun rest _ => rfl
  | bool b => cases b <;> exact readsBack_scalar rfl (by decide) fun rest _ => rfl
  | number h => exact readsBack_number _ h hfloat
  | string t =>
    refine readsBack_scalar (t := t.flatMap escapeChar ++ ['"']) rfl (by decide) fun rest _ => ?_
    rw [List.append_assoc, List.singleton_append]
    exact readScalar_quote t rest
  | @array depth items _ ih =>
    have hitems : ∀ v ∈ items, ReadsBack (readValue depth) (v.prettyAt (level + 1)) v :=
      fun v hv => ih v hv (fun h => hfloat (.item hv h)) (level + 1)
    obtain ⟨body, htext, hread⟩ := readItems_prettyAt id level hitems
    rw [List.map_id] at htext
    refine ⟨⟨'[', body, htext, rfl, by decide⟩, fun rest _ => ?_⟩
    rw [htext, List.cons_append, readValue, skipBlanks_cons _ rfl]
    simp only [if_true, hread, bind, Except.bind]
  | @object depth members hkeys _ ih =>
    have hmembers : ∀ m ∈ members, ReadsBack (readValue depth) (m.2.prettyAt (level + 1)) m.2 :=
      fun m hm => ih m hm (fun h => hfloat (.member hm h)) (level + 1)
    obtain ⟨body, htext, hread⟩ := readMembers_prettyAt hmembers
    refine ⟨⟨'{', body, htext, rfl, by decide⟩, fun rest _ => ?_⟩
    rw [htext, List.cons_append, readValue, skipBlanks_cons _ rfl]
    simp only [hread, bind, Except.bind, hkeys.sortMembers]
    rfl

end UrlPolicy.Json
