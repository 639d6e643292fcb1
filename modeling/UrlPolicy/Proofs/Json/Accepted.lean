import UrlPolicy.Proofs.Json.Alone.Value

set_option autoImplicit false

namespace UrlPolicy.Json

/-! Numbers. -/

section Numbers

variable {negative : Bool} {s : Nat} {e : Int} {t rest : Text} {n : Number}

theorem exists_takeWhile_isDigit (t : Text) : ∃ digits, (∀ c ∈ digits, c.isDigit = true) ∧
    t = digits ++ t.dropWhile Char.isDigit :=
  ⟨_, fun _ hc => List.mem_takeWhile_imp hc, (List.takeWhile_append_dropWhile).symm⟩

theorem eq_append_of_takeDigits (s : Nat) (t : Text) :
    ∃ digits, (∀ c ∈ digits, c.isDigit = true) ∧ digits.length = (takeDigits s t).2.1 ∧
      t = digits ++ (takeDigits s t).2.2 := by
  induction t generalizing s with
  | nil => exact ⟨[], by simp, rfl, rfl⟩
  | cons c t ih =>
    rw [takeDigits]
    split
    · next hc =>
      obtain ⟨digits, hdigits, hlength, htext⟩ := ih (s * 10 + digitValue c)
      exact ⟨c :: digits, List.forall_mem_cons.2 ⟨hc.1, hdigits⟩, by rw [List.length_cons, hlength],
        congrArg (c :: ·) htext⟩
    · exact ⟨[], by simp, rfl, rfl⟩

theorem eq_append_exponentSign (t : Text) :
    ∃ sign ∈ [[], ['+'], ['-']], t = sign ++ (exponentSign t).2 := by
  rw [exponentSign.eq_def]
  split
  · exact ⟨['+'], by decide, rfl⟩
  · exact ⟨['-'], by decide, rfl⟩
  · exact ⟨[], by decide, rfl⟩

theorem exists_of_exponent (h : exponent negative s e t = .ok (n, rest)) :
    ∃ sign ∈ [[], ['+'], ['-']], ∃ digits, IsDigits digits ∧ t = sign ++ (digits ++ rest) := by
  obtain ⟨sign, hsign, htext⟩ := eq_append_exponentSign t
  rw [exponent_eq, exponentDigits] at h
  split at h
  · cases h
  · next c u heq =>
    split at h
    · next hc =>
      obtain ⟨x, _, hrest⟩ := bind_eq_ok.1 h
      cases hrest
      obtain ⟨digits, hdigits, hsplit⟩ := exists_takeWhile_isDigit (exponentSign t).2
      refine ⟨sign, hsign, digits, ⟨?_, hdigits⟩, ?_⟩
      · rintro rfl
        rw [List.nil_append, heq] at hsplit
        have hdrop := startsWithDigit_dropWhile (c :: u)
        rw [← hsplit] at hdrop
        exact absurd hc (Bool.eq_false_iff.1 hdrop)
      · rw [← hsplit, ← htext]
    · cases h

theorem exists_of_scaled (h : scaled negative s e t = .ok (n, rest)) :
    ∃ u, IsExponent u ∧ t = u ++ rest := by
  rw [scaled.eq_def] at h
  split at h
  · obtain ⟨sign, hsign, digits, hdigits, rfl⟩ := exists_of_exponent h
    exact ⟨_, .inr ⟨'e', by decide, sign, hsign, digits, hdigits, rfl⟩, by simp⟩
  · obtain ⟨sign, hsign, digits, hdigits, rfl⟩ := exists_of_exponent h
    exact ⟨_, .inr ⟨'E', by decide, sign, hsign, digits, hdigits, rfl⟩, by simp⟩
  · obtain ⟨x, _, hrest⟩ := bind_eq_ok.1 h
    cases hrest
    exact ⟨[], .inl rfl, rfl⟩

theorem exists_of_fraction (h : fraction negative s e t = .ok (n, rest)) :
    ∃ digits u, IsDigits digits ∧ IsExponent u ∧ t = digits ++ (u ++ rest) := by
  obtain ⟨digits, hdigits, hlength, htext⟩ := eq_append_of_takeDigits s t
  simp only [fraction] at h
  split at h
  · next hleft =>
    obtain ⟨left, hleftDigits, hsplit⟩ := exists_takeWhile_isDigit (takeDigits s t).2.2
    obtain ⟨u, hu, hrest⟩ := exists_of_scaled h
    have hne : left ≠ [] := by
      rintro rfl
      rw [List.nil_append] at hsplit
      have hdrop := startsWithDigit_dropWhile (takeDigits s t).2.2
      rw [← hsplit, hleft] at hdrop
      cases hdrop
    refine ⟨digits ++ left, u, ⟨by simp [hne], ?_⟩, hu, ?_⟩
    · intro c hc
      exact (List.mem_append.1 hc).elim (hdigits c) (hleftDigits c)
    · rw [List.append_assoc, ← hrest, ← hsplit, ← htext]
  split at h
  · cases h
  · next hn =>
    obtain ⟨u, hu, hrest⟩ := exists_of_scaled h
    refine ⟨digits, u, ⟨?_, hdigits⟩, hu, by rw [← hrest, ← htext]⟩
    rintro rfl
    exact hn hlength.symm

theorem exists_of_afterDigits (h : afterDigits negative s t = .ok (n, rest)) :
    ∃ digits fraction exponent, (∀ c ∈ digits, c.isDigit = true) ∧ IsFraction fraction ∧
      IsExponent exponent ∧ t = digits ++ (fraction ++ (exponent ++ rest)) := by
  rw [afterDigits.eq_def] at h
  split at h
  · obtain ⟨digits, hdigits, htext⟩ := exists_takeWhile_isDigit t
    simp only at h
    split at h
    · next heq =>
      obtain ⟨point, u, hpoint, hu, hrest⟩ := exists_of_fraction h
      exact ⟨digits, _, u, hdigits, .inr ⟨point, hpoint, rfl⟩, hu, by rw [htext, heq, hrest]; rfl⟩
    · obtain ⟨u, hu, hrest⟩ := exists_of_scaled h
      exact ⟨digits, [], u, hdigits, .inl rfl, hu, by rw [htext, hrest]; rfl⟩
  split at h
  · obtain ⟨point, u, hpoint, hu, rfl⟩ := exists_of_fraction h
    exact ⟨[], _, u, by simp, .inr ⟨point, hpoint, rfl⟩, hu, rfl⟩
  · obtain ⟨sign, hsign, digits, hdigits, rfl⟩ := exists_of_exponent h
    exact ⟨[], [], _, by simp, .inl rfl, .inr ⟨'e', by decide, sign, hsign, digits, hdigits, rfl⟩,
      by simp⟩
  · obtain ⟨sign, hsign, digits, hdigits, rfl⟩ := exists_of_exponent h
    exact ⟨[], [], _, by simp, .inl rfl, .inr ⟨'E', by decide, sign, hsign, digits, hdigits, rfl⟩,
      by simp⟩
  · cases h
    exact ⟨[], [], [], by simp, .inl rfl, .inl rfl, rfl⟩

theorem takeDigits_ne_zero {c : Char} (hc : c.isDigit = true) (t : Text) :
    (takeDigits 0 (c :: t)).2.1 ≠ 0 := by
  have hle : 0 * 10 + digitValue c ≤ maxSignificand := by
    have hlt := c.val.toNat_lt
    have hmax : maxSignificand = 18446744073709551615 := rfl
    rw [digitValue, Char.toNat, hmax]
    omega
  rw [takeDigits, if_pos ⟨hc, hle⟩]
  exact Nat.succ_ne_zero _

theorem exists_of_readNumber (h : readNumber negative t = .ok (n, rest)) :
    ∃ u, IsUnsigned u ∧ t = u ++ rest := by
  rw [readNumber.eq_def] at h
  split at h
  · cases h
  · next t =>
    split at h
    · cases h
    next hstart =>
    obtain ⟨digits, fraction, exponent, hdigits, hfraction, hexponent, rfl⟩ :=
      exists_of_afterDigits h
    have hnil : digits = [] := by
      cases digits with
      | nil => rfl
      | cons c digits => exact absurd (hdigits c List.mem_cons_self) hstart
    exact ⟨_, .mk isWhole_zero hfraction hexponent, by simp [hnil]⟩
  · next c t hzero =>
    split at h
    · next hc =>
      obtain ⟨taken, htaken, hlength, htext⟩ := eq_append_of_takeDigits 0 (c :: t)
      have hafter : afterDigits negative (takeDigits 0 (c :: t)).1 (takeDigits 0 (c :: t)).2.2 =
        .ok (n, rest) := h
      obtain ⟨digits, fraction, exponent, hdigits, hfraction, hexponent, hrest⟩ :=
        exists_of_afterDigits hafter
      have hne : taken ≠ [] := by
        rintro rfl
        exact takeDigits_ne_zero hc t hlength.symm
      have hwhole : IsWhole (taken ++ digits) := by
        refine ⟨⟨by simp [hne], fun d hd => (List.mem_append.1 hd).elim (htaken d) (hdigits d)⟩,
          fun hhead => absurd ?_ hzero⟩
        obtain ⟨d, w, rfl⟩ := List.exists_cons_of_ne_nil hne
        rw [(List.cons.inj htext).1]
        simpa using hhead
      exact ⟨_, .mk hwhole hfraction hexponent, by rw [htext, hrest]; simp⟩
    · cases h

end Numbers

/-! Values that hold no other. -/

theorem exists_of_readScalar {c : Char} {t rest : Text} {v : Json}
    (h : readScalar c t = .ok (v, rest)) : ∃ u, IsScalar (c :: u) ∧ t = u ++ rest := by
  simp only [readScalar] at h
  split at h
  · next hc =>
    obtain ⟨u, hword, heq⟩ := bind_eq_ok.1 h
    cases heq
    exact ⟨_, hc ▸ .null, eq_append_of_readWord hword⟩
  split at h
  · next hc =>
    obtain ⟨u, hword, heq⟩ := bind_eq_ok.1 h
    cases heq
    exact ⟨_, hc ▸ .true, eq_append_of_readWord hword⟩
  split at h
  · next hc =>
    obtain ⟨u, hword, heq⟩ := bind_eq_ok.1 h
    cases heq
    exact ⟨_, hc ▸ .false, eq_append_of_readWord hword⟩
  split at h
  · next hc =>
    obtain ⟨⟨n, u⟩, hn, heq⟩ := bind_eq_ok.1 h
    cases heq
    obtain ⟨w, hw, htext⟩ := exists_of_readNumber hn
    exact ⟨w, hc ▸ .negative hw, htext⟩
  split at h
  · obtain ⟨⟨n, u⟩, hn, heq⟩ := bind_eq_ok.1 h
    cases heq
    obtain ⟨w, hw, htext⟩ := exists_of_readNumber hn
    obtain ⟨d, w, rfl, _⟩ := hw.exists_cons
    obtain ⟨rfl, hrest⟩ := List.cons.inj htext
    exact ⟨w, .number hw, hrest⟩
  split at h
  · next hc =>
    obtain ⟨⟨s, u⟩, hs, heq⟩ := bind_eq_ok.1 h
    cases heq
    obtain ⟨body, hbody, htext⟩ := exists_of_readString hs
    exact ⟨body ++ ['"'], hc ▸ .string hbody.isBody, by simp [htext]⟩
  · cases h

/-! Arrays. -/

/-- A reader that takes nothing but a value, with blanks before it. -/
def TakesValue {α : Type} (read : Text → Except Fault (α × Text)) : Prop :=
  ∀ t a rest, read t = .ok (a, rest) → StartsWithValue t rest

theorem skipBlanks_eq_cons {t u : Text} {c : Char} (h : skipBlanks t = c :: u) :
    ∃ blanks, IsBlanks blanks ∧ t = blanks ++ c :: u := by
  obtain ⟨blanks, hblanks, htext⟩ := exists_skipBlanks t
  exact ⟨blanks, hblanks, by rw [htext, h]⟩

theorem exists_of_nextItem_close {first : Bool} {t rest : Text}
    (h : nextItem first t = .ok (false, rest)) :
    ∃ blanks, IsBlanks blanks ∧ t = blanks ++ ']' :: rest := by
  rw [nextItem.eq_def] at h
  split at h
  · cases h
  · next heq =>
    cases h
    exact skipBlanks_eq_cons heq
  · split at h
    · cases h
    split at h
    · split at h <;> cases h
    · cases h

theorem exists_of_nextItem_first {t u : Text} (h : nextItem true t = .ok (true, u)) :
    ∃ blanks, IsBlanks blanks ∧ t = blanks ++ u := by
  rw [nextItem.eq_def] at h
  split at h
  · cases h
  · cases h
  · next heq =>
    cases h
    exact skipBlanks_eq_cons heq

theorem exists_of_nextItem_comma {t u : Text} (h : nextItem false t = .ok (true, u)) :
    ∃ blanks blanks', IsBlanks blanks ∧ IsBlanks blanks' ∧ t = blanks ++ ',' :: (blanks' ++ u) := by
  rw [nextItem.eq_def] at h
  split at h
  · cases h
  · cases h
  next heq =>
  rw [if_neg (by simp)] at h
  split at h
  · next hc =>
    obtain ⟨blanks, hblanks, rfl⟩ := skipBlanks_eq_cons heq
    obtain ⟨blanks', hblanks', htext⟩ := exists_skipBlanks _
    split at h
    · cases h
    · cases h
    · cases h
      exact ⟨blanks, blanks', hblanks, hblanks', by rw [hc, ← htext]⟩
  · cases h

section Items

variable {α : Type} {item : Text → Except Fault (α × Text)} {n : Nat}

theorem exists_of_readItemsFrom (hitem : TakesValue item) {t rest : Text} {vs : List α}
    (h : readItemsFrom item n false t = .ok (vs, rest)) :
    ∃ (blanks : Text) (is : List Item), IsBlanks blanks ∧ (∀ i ∈ is, i.Valid) ∧
      t = blanks ++ (following (is.map Item.text) ']' ++ rest) := by
  induction n generalizing t vs with
  | zero => cases h
  | succ n ih =>
    rw [readItemsFrom] at h
    obtain ⟨⟨more, u⟩, hnext, hmore⟩ := bind_eq_ok.1 h
    cases more with
    | false =>
      cases hmore
      obtain ⟨blanks, hblanks, rfl⟩ := exists_of_nextItem_close hnext
      exact ⟨blanks, [], hblanks, by simp, rfl⟩
    | true =>
      obtain ⟨⟨v, w⟩, hv, hrest⟩ := bind_eq_ok.1 hmore
      obtain ⟨⟨ws, x⟩, hws, heq⟩ := bind_eq_ok.1 hrest
      cases heq
      obtain ⟨blanks, blanks', hblanks, hblanks', rfl⟩ := exists_of_nextItem_comma hnext
      obtain ⟨before, value, hbefore, hvalue, rfl⟩ := hitem _ _ _ hv
      obtain ⟨after, is, hafter, his, rfl⟩ := ih hws
      refine ⟨blanks, ⟨blanks' ++ before, value, after⟩ :: is, hblanks,
        List.forall_mem_cons.2 ⟨⟨⟨hblanks'.append hbefore, hafter⟩, hvalue⟩, his⟩, ?_⟩
      simp [Item.text]

theorem exists_of_readItems (hitem : TakesValue item) {t rest : Text} {vs : List α}
    (h : readItems item t = .ok (vs, rest)) :
    ∃ (blanks : Text) (is : List Item), IsBlanks blanks ∧ (∀ i ∈ is, i.Valid) ∧
      t = enclosed blanks (is.map Item.text) ']' ++ rest := by
  rw [readItems, readItemsFrom] at h
  obtain ⟨⟨more, u⟩, hnext, hmore⟩ := bind_eq_ok.1 h
  cases more with
  | false =>
    cases hmore
    obtain ⟨blanks, hblanks, rfl⟩ := exists_of_nextItem_close hnext
    exact ⟨blanks, [], hblanks, by simp, by simp⟩
  | true =>
    obtain ⟨⟨v, w⟩, hv, hrest⟩ := bind_eq_ok.1 hmore
    obtain ⟨⟨ws, x⟩, hws, heq⟩ := bind_eq_ok.1 hrest
    cases heq
    obtain ⟨blanks, hblanks, rfl⟩ := exists_of_nextItem_first hnext
    obtain ⟨before, value, hbefore, hvalue, rfl⟩ := hitem _ _ _ hv
    obtain ⟨after, is, hafter, his, rfl⟩ := exists_of_readItemsFrom hitem hws
    refine ⟨blanks, ⟨before, value, after⟩ :: is, hblanks,
      List.forall_mem_cons.2 ⟨⟨⟨hbefore, hafter⟩, hvalue⟩, his⟩, ?_⟩
    rw [List.map_cons, enclosed_cons]
    simp [Item.text]

end Items

/-! Objects. -/

def readKey (t : Text) : Except Fault (Option Text × Text) :=
  match t with
  | '"' :: t => keyRead (readString t)
  | _ => .error .malformed

theorem nextKey_eq (first : Bool) (t : Text) : nextKey first t =
    match skipBlanks t with
    | [] => .error .truncated
    | c :: t =>
      if c = '}' then .ok (none, t)
      else if first then readKey (c :: t)
      else if c = ',' then
        match skipBlanks t with
        | [] => .error .truncated
        | t => readKey t
      else .error .malformed := rfl

theorem eq_cons_of_readKey {t rest : Text} {key : Option Text} (h : readKey t = .ok (key, rest)) :
    ∃ k written, key = some k ∧ Spells written k ∧ t = '"' :: (written ++ '"' :: rest) := by
  rw [readKey.eq_def] at h
  split at h
  · obtain ⟨⟨k, u⟩, hread, heq⟩ := bind_eq_ok.1 h
    cases heq
    obtain ⟨written, hwritten, rfl⟩ := exists_of_readString hread
    exact ⟨k, written, rfl, hwritten, rfl⟩
  · cases h

theorem exists_of_nextKey_close {first : Bool} {t rest : Text}
    (h : nextKey first t = .ok (none, rest)) :
    ∃ blanks, IsBlanks blanks ∧ t = blanks ++ '}' :: rest := by
  rw [nextKey_eq] at h
  split at h
  · cases h
  next heq =>
  split at h
  · next hc =>
    cases h
    exact skipBlanks_eq_cons (hc ▸ heq)
  split at h
  · obtain ⟨_, _, hkey, _⟩ := eq_cons_of_readKey h
    cases hkey
  split at h
  · split at h
    · cases h
    · obtain ⟨_, _, hkey, _⟩ := eq_cons_of_readKey h
      cases hkey
  · cases h

def StartsWithKey (t key rest : Text) : Prop :=
  ∃ before written, IsBlanks before ∧ Spells written key ∧
    t = before ++ '"' :: (written ++ '"' :: rest)

theorem startsWithKey_of_readKey {t key rest : Text}
    (h : readKey (skipBlanks t) = .ok (some key, rest)) : StartsWithKey t key rest := by
  obtain ⟨blanks, hblanks, htext⟩ := exists_skipBlanks t
  obtain ⟨k, written, hkey, hwritten, hskip⟩ := eq_cons_of_readKey h
  cases hkey
  exact ⟨blanks, written, hblanks, hwritten, by rw [htext, hskip]⟩

theorem startsWithKey_of_nextKey_first {t key rest : Text}
    (h : nextKey true t = .ok (some key, rest)) : StartsWithKey t key rest := by
  rw [nextKey_eq] at h
  split at h
  · cases h
  next heq =>
  split at h
  · cases h
  · rw [if_pos rfl, ← heq] at h
    exact startsWithKey_of_readKey h

theorem exists_of_nextKey_comma {t key rest : Text}
    (h : nextKey false t = .ok (some key, rest)) :
    ∃ blanks u, IsBlanks blanks ∧ StartsWithKey u key rest ∧ t = blanks ++ ',' :: u := by
  rw [nextKey_eq] at h
  split at h
  · cases h
  next heq =>
  split at h
  · cases h
  rw [if_neg (by simp)] at h
  split at h
  · next hc =>
    obtain ⟨blanks, hblanks, htext⟩ := skipBlanks_eq_cons heq
    split at h
    · cases h
    · exact ⟨blanks, _, hblanks, startsWithKey_of_readKey h, by rw [htext, hc]⟩
  · cases h

theorem StartsWithKey.exists_member {t key u : Text} (h : StartsWithKey t key u) {w x : Text}
    (hcolon : colon u = .ok w) (hvalue : StartsWithValue w x) {after rest : Text}
    (hafter : IsBlanks after) (hx : x = after ++ rest) :
    ∃ m : Member, m.Valid ∧ Spells m.key key ∧ t = m.text ++ rest := by
  obtain ⟨before, written, hbefore, hwritten, rfl⟩ := h
  obtain ⟨between, hbetween, rfl⟩ := eq_cons_of_colon hcolon
  obtain ⟨lead, value, hlead, hv, rfl⟩ := hvalue
  refine ⟨⟨before, written, between, ⟨lead, value, after⟩⟩,
    ⟨⟨hbefore, hwritten.isBody, hbetween, ⟨hlead, hafter⟩⟩, hv⟩, hwritten, ?_⟩
  simp [Member.text, Item.text, hx]

section Members

variable {α : Type} {item : Text → Except Fault (α × Text)} {n : Nat}

theorem exists_of_readMembersFrom (hitem : TakesValue item) {t rest : Text}
    {vs : List (Text × α)} (h : readMembersFrom item n false t = .ok (vs, rest)) :
    ∃ (blanks : Text) (ms : List Member), IsBlanks blanks ∧ (∀ m ∈ ms, m.Valid) ∧
      t = blanks ++ (following (ms.map Member.text) '}' ++ rest) := by
  induction n generalizing t vs with
  | zero => cases h
  | succ n ih =>
    rw [readMembersFrom] at h
    obtain ⟨⟨key, u⟩, hnext, hkey⟩ := bind_eq_ok.1 h
    cases key with
    | none =>
      cases hkey
      obtain ⟨blanks, hblanks, rfl⟩ := exists_of_nextKey_close hnext
      exact ⟨blanks, [], hblanks, by simp, rfl⟩
    | some key =>
      obtain ⟨w, hcolon, hvalue⟩ := bind_eq_ok.1 hkey
      obtain ⟨⟨v, x⟩, hv, hrest⟩ := bind_eq_ok.1 hvalue
      obtain ⟨⟨ws, y⟩, hws, heq⟩ := bind_eq_ok.1 hrest
      cases heq
      obtain ⟨blanks, u', hblanks, hstart, rfl⟩ := exists_of_nextKey_comma hnext
      obtain ⟨after, ms, hafter, hms, hx⟩ := ih hws
      obtain ⟨m, hm, _, rfl⟩ := hstart.exists_member hcolon (hitem _ _ _ hv) hafter hx
      exact ⟨blanks, m :: ms, hblanks, List.forall_mem_cons.2 ⟨hm, hms⟩, by simp⟩

theorem exists_of_readMembers (hitem : TakesValue item) {t rest : Text}
    {vs : List (Text × α)} (h : readMembers item t = .ok (vs, rest)) :
    ∃ (blanks : Text) (ms : List Member), IsBlanks blanks ∧ (∀ m ∈ ms, m.Valid) ∧
      t = enclosed blanks (ms.map Member.text) '}' ++ rest := by
  rw [readMembers, readMembersFrom] at h
  obtain ⟨⟨key, u⟩, hnext, hkey⟩ := bind_eq_ok.1 h
  cases key with
  | none =>
    cases hkey
    obtain ⟨blanks, hblanks, rfl⟩ := exists_of_nextKey_close hnext
    exact ⟨blanks, [], hblanks, by simp, by simp⟩
  | some key =>
    obtain ⟨w, hcolon, hvalue⟩ := bind_eq_ok.1 hkey
    obtain ⟨⟨v, x⟩, hv, hrest⟩ := bind_eq_ok.1 hvalue
    obtain ⟨⟨ws, y⟩, hws, heq⟩ := bind_eq_ok.1 hrest
    cases heq
    obtain ⟨after, ms, hafter, hms, hx⟩ := exists_of_readMembersFrom hitem hws
    obtain ⟨m, hm, _, rfl⟩ := (startsWithKey_of_nextKey_first hnext).exists_member hcolon
      (hitem _ _ _ hv) hafter hx
    refine ⟨[], m :: ms, isBlanks_nil, List.forall_mem_cons.2 ⟨hm, hms⟩, ?_⟩
    rw [List.map_cons, enclosed_cons]
    simp

end Members

/-! Values. -/

theorem takesValue_readValue (depth : Nat) : TakesValue (readValue depth) := by
  induction depth with
  | zero =>
    intro t v rest h
    rw [readValue] at h
    split at h
    · cases h
    · next heq =>
      obtain ⟨blanks, hblanks, rfl⟩ := skipBlanks_eq_cons heq
      obtain ⟨u, hu, rfl⟩ := exists_of_readScalar h
      exact ⟨blanks, _, hblanks, .scalar hu, rfl⟩
  | succ depth ih =>
    intro t v rest h
    rw [readValue] at h
    split at h
    · cases h
    next heq =>
    obtain ⟨blanks, hblanks, rfl⟩ := skipBlanks_eq_cons heq
    split at h
    · next hc =>
      obtain ⟨⟨vs, u⟩, hvs, hrest⟩ := bind_eq_ok.1 h
      cases hrest
      obtain ⟨inner, is, hinner, his, rfl⟩ := exists_of_readItems ih hvs
      exact ⟨blanks, _, hblanks, isValue_array hinner his, by rw [hc]; rfl⟩
    split at h
    · next hc =>
      obtain ⟨⟨ms, u⟩, hms, hrest⟩ := bind_eq_ok.1 h
      cases hrest
      obtain ⟨inner, members, hinner, hmembers, rfl⟩ := exists_of_readMembers ih hms
      exact ⟨blanks, _, hblanks, isValue_object hinner hmembers, by rw [hc]; rfl⟩
    · obtain ⟨u, hu, rfl⟩ := exists_of_readScalar h
      exact ⟨blanks, _, hblanks, .scalar hu, rfl⟩

theorem takesValue_readText : TakesValue readText := by
  intro t s rest h
  rw [readText] at h
  split at h
  · cases h
  next heq =>
  obtain ⟨blanks, hblanks, rfl⟩ := skipBlanks_eq_cons heq
  split at h
  · next hc =>
    obtain ⟨body, hbody, rfl⟩ := exists_of_readString h
    exact ⟨blanks, _, hblanks, .scalar (.string hbody.isBody), by rw [hc]; simp⟩
  · exact absurd h refuse_ne_ok

theorem takesValue_readTextOrNull : TakesValue readTextOrNull := by
  intro t s rest h
  obtain ⟨blanks, hblanks, htext⟩ := exists_skipBlanks t
  rw [readTextOrNull.eq_def] at h
  split at h
  · next heq =>
    obtain ⟨u, hword, hrest⟩ := bind_eq_ok.1 h
    cases hrest
    exact ⟨blanks, _, hblanks, .scalar .null, by rw [htext, heq, eq_append_of_readWord hword]; rfl⟩
  · obtain ⟨⟨s', u⟩, hs, hrest⟩ := bind_eq_ok.1 h
    cases hrest
    obtain ⟨before, v, hbefore, hv, hu⟩ := takesValue_readText _ _ _ hs
    exact ⟨blanks ++ before, v, hblanks.append hbefore, hv,
      by rw [htext, hu, List.append_assoc]⟩

theorem takesValue_readList {α : Type} {item : Text → Except Fault (α × Text)}
    (hitem : TakesValue item) : TakesValue (readList item) := by
  intro t vs rest h
  rw [readList] at h
  split at h
  · cases h
  next heq =>
  obtain ⟨blanks, hblanks, rfl⟩ := skipBlanks_eq_cons heq
  split at h
  · next hc =>
    obtain ⟨inner, is, hinner, his, rfl⟩ := exists_of_readItems hitem h
    exact ⟨blanks, _, hblanks, isValue_array hinner his, by rw [hc]; rfl⟩
  · exact absurd h refuse_ne_ok

/-! The grammar is decided by the readers. -/

theorem isBody_iff {body : Text} : IsBody body ↔ skipString (body ++ ['"']) = .ok [] := by
  constructor
  · intro h
    exact skipString_append h []
  · intro h
    obtain ⟨body', hbody', htext⟩ := exists_of_skipStringFrom h
    rwa [List.append_cancel_right htext]

theorem spells_iff {body s : Text} : Spells body s ↔ readString (body ++ ['"']) = .ok (s, []) := by
  constructor
  · intro h
    exact readString_append h []
  · intro h
    obtain ⟨body', hbody', htext⟩ := exists_of_readString h
    rwa [List.append_cancel_right htext]

instance (body : Text) : Decidable (IsBody body) := decidable_of_iff _ isBody_iff.symm

instance (body s : Text) : Decidable (Spells body s) := decidable_of_iff _ spells_iff.symm

theorem Member.valid_iff {m : Member} : m.Valid ↔ IsBlanks m.before ∧ IsBody m.key ∧
    IsBlanks m.between ∧ IsBlanks m.item.before ∧ IsBlanks m.item.after ∧ IsValue m.item.value := by
  constructor
  · intro h
    exact ⟨h.before, h.key, h.between, h.item.before, h.item.after, h.value⟩
  · rintro ⟨hbefore, hkey, hbetween, hlead, hafter, hvalue⟩
    exact ⟨⟨hbefore, hkey, hbetween, ⟨hlead, hafter⟩⟩, hvalue⟩

instance (m : Member) : Decidable m.Valid := decidable_of_iff _ Member.valid_iff.symm

end UrlPolicy.Json
