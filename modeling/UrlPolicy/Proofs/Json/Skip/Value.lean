import Mathlib.Data.List.DropRight
import UrlPolicy.Proofs.Json.Skip.Scalar

set_option autoImplicit false

namespace UrlPolicy.Json

theorem endsNumber_nil : EndsNumber [] := by simp [EndsNumber]

theorem EndsNumber.of_cons {c : Char} {t : Text}
    (hc : c.isDigit = false ∧ c ≠ '.' ∧ c ≠ 'e' ∧ c ≠ 'E') : EndsNumber (c :: t) := by
  rintro d hd
  cases hd
  exact hc

theorem endsNumber_append {blanks t : Text} (h : IsBlanks blanks) (ht : EndsNumber t) :
    EndsNumber (blanks ++ t) := by
  cases blanks with
  | nil => exact ht
  | cons c blanks =>
    have hblank := h c List.mem_cons_self
    simp only [isJsonBlank, Bool.or_eq_true, beq_iff_eq] at hblank
    obtain ((rfl | rfl) | rfl) | rfl := hblank <;> exact .of_cons (by decide)

theorem endsNumber_following {close : Char} (h : close = ']' ∨ close = '}') (texts : List Text)
    (t : Text) : EndsNumber (following texts close ++ t) := by
  cases texts with
  | nil => obtain rfl | rfl := h <;> exact .of_cons (by decide)
  | cons w ws =>
    rw [following_cons]
    exact .of_cons (by decide)

theorem IsValue.start {v : Text} (h : IsValue v) :
    ∃ c t, v = c :: t ∧ isJsonBlank c = false ∧ c ≠ ']' := by
  cases h with
  | scalar h =>
    obtain ⟨c, t, rfl, hc, _⟩ := h.skipScalar
    exact ⟨c, t, rfl, hc.1, hc.2.1⟩
  | array => exact ⟨'[', _, rfl, rfl, by decide⟩
  | object => exact ⟨'{', _, rfl, rfl, by decide⟩

theorem IsValue.skipBlanks {v : Text} (h : IsValue v) (t : Text) :
    skipBlanks (v ++ t) = v ++ t := by
  obtain ⟨c, u, rfl, hc, _⟩ := h.start
  exact skipBlanks_cons _ hc

theorem skipValueFrom_append {blanks : Text} (h : IsBlanks blanks) (n : Nat) (t : Text) :
    skipValueFrom n (blanks ++ t) = skipValueFrom n t := by
  cases n with
  | zero => rfl
  | succ n => rw [skipValueFrom, skipValueFrom, skipBlanks_append h]

/-- A value that is passed over in at most two steps for each of its characters. -/
def PassedOver (v : Text) : Prop :=
  ∀ n rest, 2 * v.length < n → EndsNumber rest → skipValueFrom n (v ++ rest) = .ok rest

theorem IsScalar.passedOver {v : Text} (h : IsScalar v) : PassedOver v := by
  intro n rest hn hrest
  obtain ⟨n, rfl⟩ := Nat.exists_eq_succ_of_ne_zero (Nat.ne_zero_of_lt hn)
  obtain ⟨c, t, rfl, ⟨hblank, _, hbracket, hbrace⟩, hskip⟩ := h.skipScalar
  rw [List.cons_append, skipValueFrom, skipBlanks_cons _ hblank]
  simp only [if_neg hbracket, if_neg hbrace]
  exact hskip rest hrest

theorem PassedOver.item {i : Item} (h : PassedOver i.value) (hspaced : i.Spaced) {n : Nat}
    (hn : 2 * i.text.length < n) {t : Text} (ht : EndsNumber t) :
    skipValueFrom n (i.text ++ t) = .ok (i.after ++ t) := by
  rw [Item.text, List.append_assoc, List.append_assoc, skipValueFrom_append hspaced.before]
  refine h n _ (Nat.lt_of_le_of_lt ?_ hn) (endsNumber_append hspaced.after ht)
  simp only [Item.text, List.length_append]
  omega

/-- A loop passes over several texts when it passes over each of them with the comma or the mark
behind it. -/
theorem loop_following {α : Type} {loop : Nat → Text → Except Fault Text} {text : α → Text}
    {close : Char} {a : α} {as : List α}
    (hmore : ∀ b ∈ a :: as, ∀ n t, 2 * (text b).length < n →
      loop (n + 1) (text b ++ ',' :: t) = loop n t)
    (hend : ∀ b ∈ a :: as, ∀ n t, 2 * (text b).length < n →
      loop (n + 1) (text b ++ close :: t) = .ok t)
    {n : Nat} (hn : 2 * (text a ++ following (as.map text) close).length ≤ n) (rest : Text) :
    loop n (text a ++ (following (as.map text) close ++ rest)) = .ok rest := by
  induction as generalizing a n with
  | nil =>
    simp only [List.length_append, List.map_nil, following_nil, List.length_cons] at hn
    obtain ⟨n, rfl⟩ := Nat.exists_eq_add_one_of_ne_zero (show n ≠ 0 by omega)
    exact hend a List.mem_cons_self n rest (by omega)
  | cons b bs ih =>
    simp only [List.length_append, List.map_cons, following_cons, List.length_cons] at hn
    obtain ⟨n, rfl⟩ := Nat.exists_eq_add_one_of_ne_zero (show n ≠ 0 by omega)
    rw [List.map_cons, following_cons, List.cons_append, List.append_assoc,
      hmore a List.mem_cons_self n _ (by omega)]
    refine ih (fun c hc => hmore c (List.mem_cons_of_mem a hc))
      (fun c hc => hend c (List.mem_cons_of_mem a hc)) ?_
    rw [List.length_append]
    omega

def afterItem (n : Nat) (t : Text) : Except Fault Text :=
  match skipBlanks t with
  | [] => .error .truncated
  | ']' :: t => .ok t
  | ',' :: t => skipItemsFrom n t
  | _ => .error .malformed

theorem skipItemsFrom_succ (n : Nat) (t : Text) :
    skipItemsFrom (n + 1) t = skipValueFrom n t >>= afterItem n := by
  rw [skipItemsFrom]
  rfl

theorem afterItem_append {blanks : Text} (h : IsBlanks blanks) (n : Nat) (t : Text) :
    afterItem n (blanks ++ t) = afterItem n t := by
  rw [afterItem, afterItem, skipBlanks_append h]

theorem PassedOver.skipItemsFrom {i : Item} (h : PassedOver i.value) (hspaced : i.Spaced) {n : Nat}
    (hn : 2 * i.text.length < n) {t : Text} (ht : EndsNumber t) :
    skipItemsFrom (n + 1) (i.text ++ t) = afterItem n t := by
  rw [skipItemsFrom_succ, h.item hspaced hn ht, ← afterItem_append hspaced.after]
  rfl

theorem colon_append {blanks : Text} (h : IsBlanks blanks) (t : Text) :
    colon (blanks ++ ':' :: t) = .ok t := by
  rw [colon.eq_def, skipBlanks_append h]
  rfl

theorem skipKey_append {key between : Text} (hkey : IsBody key) (hbetween : IsBlanks between)
    (t : Text) : skipKey ('"' :: (key ++ '"' :: (between ++ ':' :: t))) = .ok t := by
  rw [skipKey, skipString_append hkey]
  exact colon_append hbetween t

theorem Member.text_append (m : Member) (t : Text) : m.text ++ t =
    m.before ++ '"' :: (m.key ++ '"' :: (m.between ++ ':' :: (m.item.text ++ t))) := by
  simp [Member.text]

def afterMember (n : Nat) (t : Text) : Except Fault Text :=
  match skipBlanks t with
  | [] => .error .truncated
  | '}' :: t => .ok t
  | ',' :: t => skipMembersFrom n t
  | _ => .error .malformed

theorem afterMember_append {blanks : Text} (h : IsBlanks blanks) (n : Nat) (t : Text) :
    afterMember n (blanks ++ t) = afterMember n t := by
  rw [afterMember, afterMember, skipBlanks_append h]

theorem skipMembersFrom_quote {t u : Text} (h : skipBlanks t = '"' :: u) (n : Nat) :
    skipMembersFrom (n + 1) t =
      skipKey ('"' :: u) >>= fun w => skipValueFrom n w >>= afterMember n := by
  rw [skipMembersFrom, h]
  rfl

theorem PassedOver.skipMembersFrom {m : Member} (h : PassedOver m.item.value) (hspaced : m.Spaced)
    {n : Nat} (hn : 2 * m.text.length < n) {t : Text} (ht : EndsNumber t) :
    skipMembersFrom (n + 1) (m.text ++ t) = afterMember n t := by
  have hlength : 2 * m.item.text.length < n := by
    simp only [Member.text, List.length_append, List.length_cons] at hn
    omega
  have hitem := h.item hspaced.item hlength ht
  have hquote : skipBlanks (m.text ++ t) =
      '"' :: (m.key ++ '"' :: (m.between ++ ':' :: (m.item.text ++ t))) := by
    rw [m.text_append, skipBlanks_append hspaced.before, skipBlanks_cons _ (by decide)]
  rw [skipMembersFrom_quote hquote, skipKey_append hspaced.key hspaced.between,
    ← afterMember_append hspaced.item.after]
  exact congrArg (· >>= afterMember n) hitem

theorem skipBlanks_skipBlanks (t : Text) : skipBlanks (skipBlanks t) = skipBlanks t :=
  List.dropWhile_idempotent isJsonBlank t

theorem skipValueFrom_skipBlanks (n : Nat) (t : Text) :
    skipValueFrom n (skipBlanks t) = skipValueFrom n t := by
  obtain ⟨blanks, hblanks, htext⟩ := exists_skipBlanks t
  conv_rhs => rw [htext, skipValueFrom_append hblanks]

theorem skipItemsFrom_skipBlanks (n : Nat) (t : Text) :
    skipItemsFrom n (skipBlanks t) = skipItemsFrom n t := by
  cases n with
  | zero => rfl
  | succ n => rw [skipItemsFrom, skipItemsFrom, skipValueFrom_skipBlanks]

theorem skipMembersFrom_skipBlanks (n : Nat) (t : Text) :
    skipMembersFrom n (skipBlanks t) = skipMembersFrom n t := by
  cases n with
  | zero => rfl
  | succ n => rw [skipMembersFrom, skipMembersFrom, skipBlanks_skipBlanks]

theorem skipValueFrom_bracket (n : Nat) (t : Text) : skipValueFrom (n + 1) ('[' :: t) =
    match skipBlanks t with
    | ']' :: t => .ok t
    | t => skipItemsFrom n t := by
  rw [skipValueFrom, skipBlanks_cons _ (by decide)]
  rfl

theorem skipValueFrom_brace (n : Nat) (t : Text) : skipValueFrom (n + 1) ('{' :: t) =
    match skipBlanks t with
    | '}' :: t => .ok t
    | t => skipMembersFrom n t := by
  rw [skipValueFrom, skipBlanks_cons _ (by decide)]
  rfl

theorem skipValueFrom_emptyArray {blanks : Text} (h : IsBlanks blanks) (n : Nat) (t : Text) :
    skipValueFrom (n + 1) ('[' :: (blanks ++ ']' :: t)) = .ok t := by
  rw [skipValueFrom_bracket, skipBlanks_append h]
  rfl

theorem skipValueFrom_emptyObject {blanks : Text} (h : IsBlanks blanks) (n : Nat) (t : Text) :
    skipValueFrom (n + 1) ('{' :: (blanks ++ '}' :: t)) = .ok t := by
  rw [skipValueFrom_brace, skipBlanks_append h]
  rfl

theorem skipValueFrom_array {blanks : Text} (hblanks : IsBlanks blanks) {i : Item}
    (hspaced : i.Spaced) (h : IsValue i.value) (n : Nat) (t : Text) :
    skipValueFrom (n + 1) ('[' :: (blanks ++ (i.text ++ t))) = skipItemsFrom n (i.text ++ t) := by
  obtain ⟨c, u, hvalue, hblank, hend⟩ := h.start
  have hskip : skipBlanks (i.text ++ t) = c :: (u ++ (i.after ++ t)) := by
    rw [Item.text, List.append_assoc, skipBlanks_append hspaced.before, hvalue]
    simp [skipBlanks_cons _ hblank]
  rw [skipValueFrom_bracket, skipBlanks_append hblanks]
  split
  · next heq =>
    rw [hskip] at heq
    exact absurd (List.cons.inj heq).1 hend
  · exact skipItemsFrom_skipBlanks n _

theorem skipValueFrom_object {blanks : Text} (hblanks : IsBlanks blanks) {m : Member}
    (hspaced : m.Spaced) (n : Nat) (t : Text) :
    skipValueFrom (n + 1) ('{' :: (blanks ++ (m.text ++ t))) =
      skipMembersFrom n (m.text ++ t) := by
  rw [skipValueFrom_brace, skipBlanks_append hblanks]
  split
  · next heq =>
    rw [m.text_append, skipBlanks_append hspaced.before, skipBlanks_cons _ (by decide)] at heq
    exact absurd (List.cons.inj heq).1 (by decide)
  · exact skipMembersFrom_skipBlanks n _

theorem IsValue.passedOver {v : Text} (h : IsValue v) : PassedOver v := by
  induction h with
  | scalar h => exact h.passedOver
  | @array blanks items hblanks hspaced hvalues ih =>
    -- the fuel that is enough for the array is enough for what stands in it
    intro n rest hn _
    obtain ⟨n, rfl⟩ := Nat.exists_eq_add_one_of_ne_zero (Nat.ne_zero_of_lt hn)
    cases items with
    | nil =>
      rw [List.map_nil, enclosed_nil, List.cons_append, List.append_assoc]
      exact skipValueFrom_emptyArray hblanks n rest
    | cons i is =>
      rw [List.map_cons, enclosed_cons, List.length_cons, List.length_append] at hn
      rw [List.map_cons, enclosed_cons, List.cons_append, List.append_assoc, List.append_assoc,
        skipValueFrom_array hblanks (hspaced i List.mem_cons_self) (hvalues i List.mem_cons_self)]
      refine loop_following ?_ ?_ (by omega) rest
      · intro j hj n t hn
        rw [(ih j hj).skipItemsFrom (hspaced j hj) hn (.of_cons (by decide))]
        rfl
      · intro j hj n t hn
        rw [(ih j hj).skipItemsFrom (hspaced j hj) hn (.of_cons (by decide))]
        rfl
  | @object blanks members hblanks hspaced _ ih =>
    intro n rest hn _
    obtain ⟨n, rfl⟩ := Nat.exists_eq_add_one_of_ne_zero (Nat.ne_zero_of_lt hn)
    cases members with
    | nil =>
      rw [List.map_nil, enclosed_nil, List.cons_append, List.append_assoc]
      exact skipValueFrom_emptyObject hblanks n rest
    | cons m ms =>
      rw [List.map_cons, enclosed_cons, List.length_cons, List.length_append] at hn
      rw [List.map_cons, enclosed_cons, List.cons_append, List.append_assoc, List.append_assoc,
        skipValueFrom_object hblanks (hspaced m List.mem_cons_self)]
      refine loop_following ?_ ?_ (by omega) rest
      · intro l hl n t hn
        rw [(ih l hl).skipMembersFrom (hspaced l hl) hn (.of_cons (by decide))]
        rfl
      · intro l hl n t hn
        rw [(ih l hl).skipMembersFrom (hspaced l hl) hn (.of_cons (by decide))]
        rfl

/-- A value is passed over up to its end, whatever follows it. -/
theorem skipValue_append {blanks v rest : Text} (hblanks : IsBlanks blanks) (h : IsValue v)
    (hrest : EndsNumber rest) : skipValue (blanks ++ (v ++ rest)) = .ok rest := by
  rw [skipValue, skipValueFrom_append hblanks]
  refine h.passedOver _ _ ?_ hrest
  simp only [List.length_append]
  omega

/-! What is passed over is a value. -/

/-- A text that starts with a value, with blanks before it, and goes on with the given rest. -/
def StartsWithValue (t rest : Text) : Prop :=
  ∃ blanks v, IsBlanks blanks ∧ IsValue v ∧ t = blanks ++ (v ++ rest)

/-- A text that starts with at least one of several texts between commas and the mark that ends
them, and goes on with the given rest. -/
def StartsWithEnclosed {α : Type} (text : α → Text) (Valid : α → Prop) (close : Char)
    (t rest : Text) : Prop :=
  ∃ a as, (∀ b ∈ a :: as, Valid b) ∧ t = text a ++ (following (as.map text) close ++ rest)

theorem StartsWithValue.exists_item {t rest : Text} (h : StartsWithValue t rest) :
    ∃ i : Item, i.Valid ∧ t = i.text ++ skipBlanks rest := by
  obtain ⟨before, v, hbefore, hv, rfl⟩ := h
  obtain ⟨after, hafter, hrest⟩ := exists_skipBlanks rest
  refine ⟨⟨before, v, after⟩, ⟨⟨hbefore, hafter⟩, hv⟩, ?_⟩
  rw [Item.text, List.append_assoc, List.append_assoc, ← hrest]

theorem eq_cons_of_colon {t rest : Text} (h : colon t = .ok rest) :
    ∃ blanks, IsBlanks blanks ∧ t = blanks ++ ':' :: rest := by
  obtain ⟨blanks, hblanks, htext⟩ := exists_skipBlanks t
  rw [colon.eq_def] at h
  split at h
  · cases h
  · next heq =>
    cases h
    exact ⟨blanks, hblanks, by rw [htext, heq]⟩
  · cases h

theorem exists_of_skipKey {t rest : Text} (h : skipKey t = .ok rest) :
    ∃ key between, IsBody key ∧ IsBlanks between ∧
      t = '"' :: (key ++ '"' :: (between ++ ':' :: rest)) := by
  rw [skipKey.eq_def] at h
  split at h
  · obtain ⟨u, hkey, hcolon⟩ := bind_eq_ok.1 h
    obtain ⟨key, hbody, rfl⟩ := exists_of_skipStringFrom hkey
    obtain ⟨between, hbetween, rfl⟩ := eq_cons_of_colon hcolon
    exact ⟨key, between, hbody, hbetween, rfl⟩
  · cases h

section Steps

variable {n : Nat} {t rest : Text}

theorem startsWithItems_of_step
    (hvalue : ∀ t rest, skipValueFrom n t = .ok rest → StartsWithValue t rest)
    (hitems : ∀ t rest, skipItemsFrom n t = .ok rest →
      StartsWithEnclosed Item.text Item.Valid ']' t rest)
    (h : skipItemsFrom (n + 1) t = .ok rest) :
    StartsWithEnclosed Item.text Item.Valid ']' t rest := by
  rw [skipItemsFrom] at h
  obtain ⟨u, hu, hnext⟩ := bind_eq_ok.1 h
  obtain ⟨i, hi, rfl⟩ := (hvalue _ _ hu).exists_item
  split at hnext
  · cases hnext
  · next heq =>
    cases hnext
    exact ⟨i, [], by simpa using hi, by rw [heq]; rfl⟩
  · next heq =>
    obtain ⟨j, js, hjs, rfl⟩ := hitems _ _ hnext
    exact ⟨i, j :: js, List.forall_mem_cons.2 ⟨hi, hjs⟩, by rw [heq]; simp⟩
  · cases hnext

theorem startsWithMembers_of_step
    (hvalue : ∀ t rest, skipValueFrom n t = .ok rest → StartsWithValue t rest)
    (hmembers : ∀ t rest, skipMembersFrom n t = .ok rest →
      StartsWithEnclosed Member.text Member.Valid '}' t rest)
    (h : skipMembersFrom (n + 1) t = .ok rest) :
    StartsWithEnclosed Member.text Member.Valid '}' t rest := by
  obtain ⟨before, hbefore, htext⟩ := exists_skipBlanks t
  rw [skipMembersFrom.eq_def] at h
  simp only at h
  split at h
  · cases h
  obtain ⟨u, hu, hvalueNext⟩ := bind_eq_ok.1 h
  obtain ⟨w, hw, hnext⟩ := bind_eq_ok.1 hvalueNext
  obtain ⟨key, between, hkey, hbetween, hu⟩ := exists_of_skipKey hu
  obtain ⟨i, hi, rfl⟩ := (hvalue _ _ hw).exists_item
  have hm : Member.Valid ⟨before, key, between, i⟩ :=
    ⟨⟨hbefore, hkey, hbetween, hi.toSpaced⟩, hi.value⟩
  have ht : t = Member.text ⟨before, key, between, i⟩ ++ skipBlanks w := by
    rw [Member.text_append, ← hu, ← htext]
  split at hnext
  · cases hnext
  · next heq =>
    cases hnext
    exact ⟨_, [], by simpa using hm, by rw [ht, heq]; rfl⟩
  · next heq =>
    obtain ⟨l, ls, hls, hrest⟩ := hmembers _ _ hnext
    exact ⟨_, l :: ls, List.forall_mem_cons.2 ⟨hm, hls⟩, by rw [ht, heq, hrest]; simp⟩
  · cases hnext

theorem startsWithValue_of_step
    (hitems : ∀ t rest, skipItemsFrom n t = .ok rest →
      StartsWithEnclosed Item.text Item.Valid ']' t rest)
    (hmembers : ∀ t rest, skipMembersFrom n t = .ok rest →
      StartsWithEnclosed Member.text Member.Valid '}' t rest)
    (h : skipValueFrom (n + 1) t = .ok rest) : StartsWithValue t rest := by
  obtain ⟨blanks, hblanks, htext⟩ := exists_skipBlanks t
  rw [skipValueFrom] at h
  split at h
  · cases h
  next c u heq =>
  obtain ⟨inner, hinner, hu⟩ := exists_skipBlanks u
  rw [heq] at htext
  split at h
  · next hc =>
    split at h
    · next heq' =>
      cases h
      have hv := @isValue_array inner [] hinner (by simp)
      exact ⟨blanks, _, hblanks, hv, by rw [htext, hc, hu, heq']; simp⟩
    · obtain ⟨i, is, his, hrest⟩ := hitems _ _ h
      have hv := isValue_array hinner his
      exact ⟨blanks, _, hblanks, hv, by rw [htext, hc, hu, hrest]; simp [enclosed_cons]⟩
  split at h
  · next hc =>
    split at h
    · next heq' =>
      cases h
      have hv := @isValue_object inner [] hinner (by simp)
      exact ⟨blanks, _, hblanks, hv, by rw [htext, hc, hu, heq']; simp⟩
    · obtain ⟨m, ms, hms, hrest⟩ := hmembers _ _ h
      have hv := isValue_object hinner hms
      exact ⟨blanks, _, hblanks, hv, by rw [htext, hc, hu, hrest]; simp [enclosed_cons]⟩
  · obtain ⟨v, hv, hrest⟩ := exists_of_skipScalar h
    exact ⟨blanks, _, hblanks, .scalar hv, by rw [htext, hrest]; rfl⟩

end Steps

/-- By induction on the number of steps for the three loops at once, as each calls the others with
one step less. -/
theorem startsWith_of_skipFrom (n : Nat) :
    (∀ t rest, skipValueFrom n t = .ok rest → StartsWithValue t rest) ∧
      (∀ t rest, skipItemsFrom n t = .ok rest →
        StartsWithEnclosed Item.text Item.Valid ']' t rest) ∧
      (∀ t rest, skipMembersFrom n t = .ok rest →
        StartsWithEnclosed Member.text Member.Valid '}' t rest) := by
  induction n with
  | zero =>
    refine ⟨?_, ?_, ?_⟩ <;>
    · intro t rest h
      cases h
  | succ n ih =>
    obtain ⟨hvalue, hitems, hmembers⟩ := ih
    exact ⟨fun _ _ => startsWithValue_of_step hitems hmembers,
      fun _ _ => startsWithItems_of_step hvalue hitems,
      fun _ _ => startsWithMembers_of_step hvalue hmembers⟩

theorem startsWithValue_of_skipValue {t rest : Text} (h : skipValue t = .ok rest) :
    StartsWithValue t rest :=
  (startsWith_of_skipFrom _).1 t rest h

theorem isValue_iff {v : Text} : IsValue v ↔ skipValue v = .ok [] ∧ skipBlanks v = v := by
  constructor
  · intro h
    have hskip := skipValue_append isBlanks_nil h endsNumber_nil
    have hblanks := h.skipBlanks []
    rw [List.append_nil] at hskip hblanks
    exact ⟨hskip, hblanks⟩
  · rintro ⟨hskip, hblanks⟩
    obtain ⟨blanks, u, hmem, hu, rfl⟩ := startsWithValue_of_skipValue hskip
    rw [List.append_nil] at hblanks ⊢
    have hu' := hu.skipBlanks []
    rw [List.append_nil] at hu'
    rw [skipBlanks_append hmem, hu'] at hblanks
    rwa [← hblanks]

instance (v : Text) : Decidable (IsValue v) := decidable_of_iff _ isValue_iff.symm

end UrlPolicy.Json
