import UrlPolicy.Proofs.Json.Alone.Scalar

set_option autoImplicit false

namespace UrlPolicy.Json

/-! Arrays. -/

theorem nextItem_close (first : Bool) {blanks : Text} (h : IsBlanks blanks) (t : Text) :
    nextItem first (blanks ++ ']' :: t) = .ok (false, t) := by
  rw [nextItem.eq_def, skipBlanks_append h]
  rfl

theorem Item.Valid.skipBlanks {i : Item} (h : i.Valid) (t : Text) :
    skipBlanks (i.text ++ t) = i.value ++ (i.after ++ t) := by
  rw [Item.text, List.append_assoc, List.append_assoc, skipBlanks_append h.before,
    h.value.skipBlanks]

theorem nextItem_first {blanks : Text} (hblanks : IsBlanks blanks) {i : Item} (h : i.Valid)
    (t : Text) :
    nextItem true (blanks ++ (i.text ++ t)) = .ok (true, i.value ++ (i.after ++ t)) := by
  obtain ⟨c, u, hvalue, _, hend⟩ := h.value.start
  rw [nextItem.eq_def, skipBlanks_append hblanks, h.skipBlanks, hvalue]
  split
  · next heq => cases heq
  · next heq => exact absurd (List.cons.inj heq).1 hend
  · next heq =>
    cases heq
    rfl

theorem nextItem_comma {blanks : Text} (hblanks : IsBlanks blanks) {i : Item} (h : i.Valid)
    (t : Text) :
    nextItem false (blanks ++ ',' :: (i.text ++ t)) = .ok (true, i.value ++ (i.after ++ t)) := by
  obtain ⟨c, u, hvalue, _, hend⟩ := h.value.start
  rw [nextItem.eq_def, skipBlanks_append hblanks, skipBlanks_cons _ (by decide)]
  split
  · next heq => cases heq
  · next heq => exact absurd (List.cons.inj heq).1 (by decide)
  next heq =>
  cases heq
  rw [if_neg (by decide), if_pos rfl, h.skipBlanks, hvalue]
  split
  · next heq => cases heq
  · next heq => exact absurd (List.cons.inj heq).1 hend
  · rfl

section Items

variable {α : Type} {item : Text → Except Fault (α × Text)} {n : Nat}

/-- The reader takes the item as a whole or refuses it, and so it does with those behind it. -/
theorem toOption_readItemsFrom {first : Bool} {t rest : Text} {i : Item} {texts : List Text}
    {o : Option α} {os : Option (List α)} (hi : i.Valid)
    (hnext : nextItem first t = .ok (true, i.value ++ (i.after ++ (following texts ']' ++ rest))))
    (hread : ∀ rest, EndsNumber rest →
      (item (i.value ++ rest)).toOption = o.map fun v => (v, rest))
    (hreads : (readItemsFrom item n false (i.after ++ (following texts ']' ++ rest))).toOption =
      os.map fun vs => (vs, rest)) :
    (readItemsFrom item (n + 1) first t).toOption =
      (o.bind fun v => os.map (v :: ·)).map fun vs => (vs, rest) := by
  have hend := endsNumber_append hi.after (endsNumber_following (.inl rfl) texts rest)
  have hstep : readItemsFrom item (n + 1) first t =
      item (i.value ++ (i.after ++ (following texts ']' ++ rest))) >>= fun r =>
        readItemsFrom item n false r.2 >>= fun s => .ok (r.1 :: s.1, s.2) := by
    rw [readItemsFrom, hnext]
    rfl
  rw [hstep, toOption_bind, hread _ hend]
  cases o with
  | none => rfl
  | some v =>
    rw [Option.map_some, Option.bind_some, toOption_map_ok, hreads]
    cases os <;> rfl

theorem readItemsFrom_following {is : List Item} (hvalid : ∀ i ∈ is, i.Valid)
    (h : ∀ i ∈ is, ReadsAlone item i.value) : ∃ os : Option (List α), ∀ n blanks rest,
      is.length < n → IsBlanks blanks →
      (readItemsFrom item n false (blanks ++ (following (is.map Item.text) ']' ++ rest))).toOption =
        os.map fun vs => (vs, rest) := by
  induction is with
  | nil =>
    refine ⟨some [], fun n blanks rest hn hblanks => ?_⟩
    obtain ⟨n, rfl⟩ := Nat.exists_eq_add_one_of_ne_zero (Nat.ne_zero_of_lt hn)
    exact congrArg Except.toOption (readItemsFrom_nil (nextItem_close false hblanks rest))
  | cons i is ih =>
    obtain ⟨hi, his⟩ := List.forall_mem_cons.1 hvalid
    obtain ⟨⟨o, hread⟩, hreads⟩ := List.forall_mem_cons.1 h
    obtain ⟨os, hreads⟩ := ih his hreads
    refine ⟨o.bind fun v => os.map (v :: ·), fun n blanks rest hn hblanks => ?_⟩
    obtain ⟨n, rfl⟩ := Nat.exists_eq_add_one_of_ne_zero (Nat.ne_zero_of_lt hn)
    rw [List.map_cons, following_cons, List.cons_append, List.append_assoc]
    exact toOption_readItemsFrom hi (nextItem_comma hblanks hi _) hread
      (hreads n i.after rest (Nat.lt_of_succ_lt_succ hn) hi.after)

theorem length_le_following {β : Type} (text : β → Text) (bs : List β) (close : Char) :
    bs.length < (following (bs.map text) close).length := by
  induction bs with
  | nil => exact Nat.zero_lt_one
  | cons b bs ih =>
    simp only [List.map_cons, following_cons, List.length_cons, List.length_append]
    omega

theorem length_le_enclosed {β : Type} (text : β → Text) (blanks : Text) (bs : List β)
    (close : Char) : bs.length ≤ (enclosed blanks (bs.map text) close).length := by
  cases bs with
  | nil => exact Nat.zero_le _
  | cons b bs =>
    have hlength := length_le_following text bs close
    simp only [List.map_cons, enclosed_cons, List.length_cons, List.length_append]
    omega

theorem readItems_enclosed {blanks : Text} {is : List Item} (hblanks : IsBlanks blanks)
    (hvalid : ∀ i ∈ is, i.Valid) (h : ∀ i ∈ is, ReadsAlone item i.value) :
    ReadsAlone (readItems item) (enclosed blanks (is.map Item.text) ']') := by
  cases is with
  | nil =>
    refine ⟨some [], fun rest _ => ?_⟩
    rw [List.map_nil, enclosed_nil, List.append_assoc, readItems]
    exact congrArg Except.toOption (readItemsFrom_nil (nextItem_close true hblanks rest))
  | cons i is =>
    obtain ⟨hi, his⟩ := List.forall_mem_cons.1 hvalid
    obtain ⟨⟨o, hread⟩, hreads⟩ := List.forall_mem_cons.1 h
    obtain ⟨os, hreads⟩ := readItemsFrom_following his hreads
    refine ⟨o.bind fun v => os.map (v :: ·), fun rest _ => ?_⟩
    have hlength := length_le_following Item.text is ']'
    rw [List.map_cons, enclosed_cons, List.append_assoc, List.append_assoc, readItems]
    refine toOption_readItemsFrom hi (nextItem_first hblanks hi _) hread
      (hreads _ i.after rest ?_ hi.after)
    simp only [List.length_append]
    omega

end Items

/-! Objects. -/

theorem nextKey_close (first : Bool) {blanks : Text} (h : IsBlanks blanks) (t : Text) :
    nextKey first (blanks ++ '}' :: t) = .ok (none, t) := by
  rw [nextKey.eq_def, skipBlanks_append h]
  rfl

theorem Member.Valid.skipBlanks {m : Member} (h : m.Valid) (t : Text) :
    skipBlanks (m.text ++ t) =
      '"' :: (m.key ++ '"' :: (m.between ++ ':' :: (m.item.text ++ t))) := by
  rw [m.text_append, skipBlanks_append h.before, skipBlanks_cons _ (by decide)]

def keyRead (read : Except Fault (Text × Text)) : Except Fault (Option Text × Text) :=
  read >>= fun r => .ok (some r.1, r.2)

theorem nextKey_first {blanks : Text} (hblanks : IsBlanks blanks) {m : Member} (h : m.Valid)
    (t : Text) : nextKey true (blanks ++ (m.text ++ t)) =
      keyRead (readString (m.key ++ '"' :: (m.between ++ ':' :: (m.item.text ++ t)))) := by
  rw [nextKey.eq_def, skipBlanks_append hblanks, h.skipBlanks]
  rfl

theorem nextKey_comma {blanks : Text} (hblanks : IsBlanks blanks) {m : Member} (h : m.Valid)
    (t : Text) : nextKey false (blanks ++ ',' :: (m.text ++ t)) =
      keyRead (readString (m.key ++ '"' :: (m.between ++ ':' :: (m.item.text ++ t)))) := by
  rw [nextKey.eq_def, skipBlanks_append hblanks, skipBlanks_cons _ (by decide)]
  simp only [h.skipBlanks]
  rfl

def SkipsBlanks {α : Type} (read : Text → Except Fault α) : Prop :=
  ∀ blanks t, IsBlanks blanks → read (blanks ++ t) = read t

section Members

variable {α : Type} {item : Text → Except Fault (α × Text)} {n : Nat}

theorem SkipsBlanks.append_item (hskip : SkipsBlanks item) {i : Item} (hi : i.Valid) (t : Text) :
    item (i.text ++ t) = item (i.value ++ (i.after ++ t)) := by
  rw [Item.text, List.append_assoc, List.append_assoc, hskip _ _ hi.before]

theorem Member.Valid.toItem {m : Member} (h : m.Valid) : m.item.Valid := ⟨h.item, h.value⟩

theorem toOption_readMembersFrom (hskip : SkipsBlanks item) {first : Bool} {t rest : Text}
    {m : Member} {texts : List Text} {k : Option Text} {o : Option α}
    {os : Option (List (Text × α))} (hm : m.Valid)
    (hnext : nextKey first t = keyRead (readString (m.key ++ '"' :: (m.between ++
      ':' :: (m.item.text ++ (following texts '}' ++ rest))))))
    (hkey : ∀ rest, (readString (m.key ++ '"' :: rest)).toOption = k.map fun s => (s, rest))
    (hread : ∀ rest, EndsNumber rest →
      (item (m.item.value ++ rest)).toOption = o.map fun v => (v, rest))
    (hreads : (readMembersFrom item n false
      (m.item.after ++ (following texts '}' ++ rest))).toOption = os.map fun ms => (ms, rest)) :
    (readMembersFrom item (n + 1) first t).toOption =
      (k.bind fun key => o.bind fun v => os.map ((key, v) :: ·)).map fun ms => (ms, rest) := by
  have hend := endsNumber_append hm.item.after (endsNumber_following (.inr rfl) texts rest)
  have hstep : readMembersFrom item (n + 1) first t =
      readString (m.key ++ '"' :: (m.between ++
        ':' :: (m.item.text ++ (following texts '}' ++ rest)))) >>= fun r =>
          colon r.2 >>= fun u => item u >>= fun r' =>
            readMembersFrom item n false r'.2 >>= fun s => .ok ((r.1, r'.1) :: s.1, s.2) := by
    rw [readMembersFrom, hnext, keyRead]
    cases readString _ <;> rfl
  rw [hstep, toOption_bind, hkey]
  cases k with
  | none => rfl
  | some key =>
    rw [Option.map_some, Option.bind_some, toOption_bind, colon_append hm.between, toOption_ok,
      Option.bind_some, hskip.append_item hm.toItem, toOption_bind, hread _ hend]
    cases o with
    | none => rfl
    | some v =>
      rw [Option.map_some, Option.bind_some, toOption_map_ok, hreads]
      cases os <;> rfl

theorem readMembersFrom_following (hskip : SkipsBlanks item) {ms : List Member}
    (hvalid : ∀ m ∈ ms, m.Valid) (h : ∀ m ∈ ms, ReadsAlone item m.item.value) :
    ∃ os : Option (List (Text × α)), ∀ n blanks rest, ms.length < n → IsBlanks blanks →
      (readMembersFrom item n false
        (blanks ++ (following (ms.map Member.text) '}' ++ rest))).toOption =
          os.map fun vs => (vs, rest) := by
  induction ms with
  | nil =>
    refine ⟨some [], fun n blanks rest hn hblanks => ?_⟩
    obtain ⟨n, rfl⟩ := Nat.exists_eq_add_one_of_ne_zero (Nat.ne_zero_of_lt hn)
    exact congrArg Except.toOption (readMembersFrom_nil (nextKey_close false hblanks rest))
  | cons m ms ih =>
    obtain ⟨hm, hms⟩ := List.forall_mem_cons.1 hvalid
    obtain ⟨⟨o, hread⟩, hreads⟩ := List.forall_mem_cons.1 h
    obtain ⟨k, hkey⟩ := readString_body hm.key
    obtain ⟨os, hreads⟩ := ih hms hreads
    refine ⟨k.bind fun key => o.bind fun v => os.map ((key, v) :: ·),
      fun n blanks rest hn hblanks => ?_⟩
    obtain ⟨n, rfl⟩ := Nat.exists_eq_add_one_of_ne_zero (Nat.ne_zero_of_lt hn)
    rw [List.map_cons, following_cons, List.cons_append, List.append_assoc]
    exact toOption_readMembersFrom hskip hm (nextKey_comma hblanks hm _) hkey hread
      (hreads n m.item.after rest (Nat.lt_of_succ_lt_succ hn) hm.item.after)

theorem readMembers_enclosed (hskip : SkipsBlanks item) {blanks : Text} {ms : List Member}
    (hblanks : IsBlanks blanks) (hvalid : ∀ m ∈ ms, m.Valid)
    (h : ∀ m ∈ ms, ReadsAlone item m.item.value) :
    ReadsAlone (readMembers item) (enclosed blanks (ms.map Member.text) '}') := by
  cases ms with
  | nil =>
    refine ⟨some [], fun rest _ => ?_⟩
    rw [List.map_nil, enclosed_nil, List.append_assoc, readMembers]
    exact congrArg Except.toOption (readMembersFrom_nil (nextKey_close true hblanks rest))
  | cons m ms =>
    obtain ⟨hm, hms⟩ := List.forall_mem_cons.1 hvalid
    obtain ⟨⟨o, hread⟩, hreads⟩ := List.forall_mem_cons.1 h
    obtain ⟨k, hkey⟩ := readString_body hm.key
    obtain ⟨os, hreads⟩ := readMembersFrom_following hskip hms hreads
    refine ⟨k.bind fun key => o.bind fun v => os.map ((key, v) :: ·), fun rest _ => ?_⟩
    have hlength := length_le_following Member.text ms '}'
    rw [List.map_cons, enclosed_cons, List.append_assoc, List.append_assoc, readMembers]
    refine toOption_readMembersFrom hskip hm (nextKey_first hblanks hm _) hkey hread
      (hreads _ m.item.after rest ?_ hm.item.after)
    simp only [List.length_append]
    omega

end Members

/-! Values. -/

theorem skipsBlanks_readValue (depth : Nat) : SkipsBlanks (readValue depth) := by
  intro blanks t hblanks
  cases depth <;> rw [readValue, readValue, skipBlanks_append hblanks]

theorem readValue_bracket (depth : Nat) (t : Text) : readValue (depth + 1) ('[' :: t) =
    readItems (readValue depth) t >>= fun r => .ok (.array r.1, r.2) := by
  rw [readValue, skipBlanks_cons _ (by decide)]
  rfl

theorem readValue_brace (depth : Nat) (t : Text) : readValue (depth + 1) ('{' :: t) =
    readMembers (readValue depth) t >>= fun r => .ok (.object (sortMembers r.1), r.2) := by
  rw [readValue, skipBlanks_cons _ (by decide)]
  rfl

/-- A value is taken as a whole or refused, whatever follows it. -/
theorem IsValue.readsAlone {v : Text} (h : IsValue v) (depth : Nat) :
    ReadsAlone (readValue depth) v := by
  induction h generalizing depth with
  | scalar h =>
    obtain ⟨c, t, rfl, hc, o, hread⟩ := h.readsAlone
    refine ⟨o, fun rest hrest => ?_⟩
    rw [List.cons_append, readValue_scalar depth _ hc]
    exact hread rest hrest
  | @array blanks items hblanks hspaced hvalues ih =>
    -- at the lowest level arrays and objects are refused before anything inside is read
    cases depth with
    | zero => exact ⟨none, fun rest _ => by rw [List.cons_append, readValue]; rfl⟩
    | succ depth =>
      have hitems := readItems_enclosed hblanks (fun i hi => ⟨hspaced i hi, hvalues i hi⟩)
        fun i hi => ih i hi depth
      exact hitems.map Json.array fun rest => readValue_bracket depth _
  | @object blanks members hblanks hspaced hvalues ih =>
    cases depth with
    | zero => exact ⟨none, fun rest _ => by rw [List.cons_append, readValue]; rfl⟩
    | succ depth =>
      have hmembers := readMembers_enclosed (skipsBlanks_readValue depth) hblanks
        (fun m hm => ⟨hspaced m hm, hvalues m hm⟩) fun m hm => ih m hm depth
      exact hmembers.map (fun ms => .object (sortMembers ms)) fun rest => readValue_brace depth _

/-! Values of a kind that is known beforehand. -/

theorem toOption_refuse {α : Type} (c : Char) (t : Text) :
    (refuse c t : Except Fault α).toOption = none :=
  toOption_eq_none fun _ => refuse_ne_ok

theorem not_isUnsigned_cons {c : Char} {t : Text} (hc : c.isDigit = false) :
    ¬ IsUnsigned (c :: t) := by
  intro h
  have hstart := h.startsWithDigit []
  rw [List.append_nil, startsWithDigit, hc] at hstart
  cases hstart

theorem IsValue.of_quote {t : Text} (h : IsValue ('"' :: t)) :
    ∃ body, IsBody body ∧ t = body ++ ['"'] := by
  cases h with
  | scalar h =>
    cases h with
    | number h => exact absurd h (not_isUnsigned_cons rfl)
    | @string body h => exact ⟨body, h, rfl⟩

theorem IsValue.of_bracket {t : Text} (h : IsValue ('[' :: t)) :
    ∃ (blanks : Text) (items : List Item), IsBlanks blanks ∧ (∀ i ∈ items, i.Valid) ∧
      t = enclosed blanks (items.map Item.text) ']' := by
  cases h with
  | scalar h =>
    cases h with
    | number h => exact absurd h (not_isUnsigned_cons rfl)
  | @array blanks items hblanks hspaced hvalues =>
    exact ⟨blanks, items, hblanks, fun i hi => ⟨hspaced i hi, hvalues i hi⟩, rfl⟩

theorem IsValue.of_n {t : Text} (h : IsValue ('n' :: t)) : t = "ull".toList := by
  cases h with
  | scalar h =>
    cases h with
    | null => rfl
    | number h => exact absurd h (not_isUnsigned_cons rfl)

theorem skipsBlanks_readTextOrNull : SkipsBlanks readTextOrNull := by
  intro blanks t hblanks
  rw [readTextOrNull.eq_def, readTextOrNull.eq_def, skipBlanks_append hblanks]

theorem skipsBlanks_readList {α : Type} (item : Text → Except Fault (α × Text)) :
    SkipsBlanks (readList item) := by
  intro blanks t hblanks
  rw [readList, readList, skipBlanks_append hblanks]

theorem IsValue.readText {v : Text} (h : IsValue v) : ReadsAlone readText v := by
  obtain ⟨c, t, rfl, hc, _⟩ := h.start
  by_cases hquote : c = '"'
  · subst hquote
    obtain ⟨body, hbody, rfl⟩ := h.of_quote
    obtain ⟨o, hread⟩ := readString_body hbody
    refine ⟨o, fun rest _ => ?_⟩
    rw [List.cons_append, Json.readText, skipBlanks_cons _ hc, List.append_assoc]
    exact hread rest
  · refine ⟨none, fun rest _ => ?_⟩
    rw [List.cons_append, Json.readText, skipBlanks_cons _ hc]
    simp only [if_neg hquote, toOption_refuse]
    rfl

theorem IsValue.readTextOrNull {v : Text} (h : IsValue v) : ReadsAlone readTextOrNull v := by
  obtain ⟨c, t, rfl, hc, _⟩ := h.start
  by_cases hn : c = 'n'
  · subst hn
    rw [h.of_n]
    exact ⟨some none, fun rest _ => rfl⟩
  · refine h.readText.map some fun rest => ?_
    rw [Json.readTextOrNull.eq_def, List.cons_append, skipBlanks_cons _ hc]
    split
    · next heq => exact absurd (List.cons.inj heq).1 hn
    · rfl

theorem IsValue.readList {α : Type} {item : Text → Except Fault (α × Text)}
    (hitem : ∀ v, IsValue v → ReadsAlone item v) {v : Text} (h : IsValue v) :
    ReadsAlone (readList item) v := by
  obtain ⟨c, t, rfl, hc, _⟩ := h.start
  by_cases hbracket : c = '['
  · subst hbracket
    obtain ⟨blanks, items, hblanks, hitems, rfl⟩ := h.of_bracket
    obtain ⟨o, hread⟩ :=
      readItems_enclosed hblanks hitems fun i hi => hitem i.value (hitems i hi).value
    refine ⟨o, fun rest hrest => ?_⟩
    rw [List.cons_append, Json.readList, skipBlanks_cons _ hc]
    exact hread rest hrest
  · refine ⟨none, fun rest _ => ?_⟩
    rw [List.cons_append, Json.readList, skipBlanks_cons _ hc]
    simp only [if_neg hbracket, toOption_refuse]
    rfl

end UrlPolicy.Json
