import UrlPolicy.Json.Typed

/-!
What values come out of the reader: whole numbers of 64 bits, arrays and objects nested no deeper
than the reader goes, and objects with their keys in order.
-/

set_option autoImplicit false

namespace UrlPolicy

namespace Json

theorem bind_eq_ok {α β : Type} {x : Except Fault α} {f : α → Except Fault β} {b : β} :
    x >>= f = .ok b ↔ ∃ a, x = .ok a ∧ f a = .ok b := by
  cases x <;> simp [bind, Except.bind]

theorem refuse_ne_ok {α : Type} {c : Char} {t : Text} {r : α} : refuse c t ≠ .ok r := by
  rw [refuse]
  split
  · simp
  · split <;> simp

end Json

/-- Whole numbers are unsigned or, below zero, signed integers of 64 bits. -/
def Number.InRange : Number → Prop
  | .natural n => n ≤ Json.maxSignificand
  | .negative n => 0 < n ∧ n ≤ UInt64.size / 2
  | .float _ => True

namespace Json

section Numbers

variable {negative : Bool} {s : Nat} {e : Int} {t rest : Text} {n : Number}

theorem scale_inRange (h : scale negative s e = .ok n) : n.InRange := by
  simp only [scale] at h
  repeat' split at h
  all_goals cases h
  all_goals trivial

theorem exponent_inRange (h : exponent negative s e t = .ok (n, rest)) : n.InRange := by
  simp only [exponent] at h
  split at h
  · cases h
  split at h
  · obtain ⟨m, hm, heq⟩ := bind_eq_ok.1 h
    cases heq
    exact scale_inRange hm
  · cases h

theorem scaled_inRange (h : scaled negative s e t = .ok (n, rest)) : n.InRange := by
  rw [scaled.eq_def] at h
  split at h
  · exact exponent_inRange h
  · exact exponent_inRange h
  · obtain ⟨m, hm, heq⟩ := bind_eq_ok.1 h
    cases heq
    exact scale_inRange hm

theorem fraction_inRange (h : fraction negative s e t = .ok (n, rest)) : n.InRange := by
  simp only [fraction] at h
  split at h
  · exact scaled_inRange h
  split at h
  · cases h
  · exact scaled_inRange h

theorem whole_inRange (hs : s ≤ maxSignificand) : (whole negative s).InRange := by
  rw [whole]
  split
  · exact hs
  split
  · trivial
  · next hrange => exact ⟨by omega, by omega⟩

theorem afterDigits_inRange (hs : s ≤ maxSignificand)
    (h : afterDigits negative s t = .ok (n, rest)) : n.InRange := by
  simp only [afterDigits] at h
  split at h
  · split at h
    · exact fraction_inRange h
    · exact scaled_inRange h
  · split at h
    · exact fraction_inRange h
    · exact exponent_inRange h
    · exact exponent_inRange h
    · cases h
      exact whole_inRange hs

theorem takeDigits_le (hs : s ≤ maxSignificand) (t : Text) :
    (takeDigits s t).1 ≤ maxSignificand := by
  induction t generalizing s with
  | nil => exact hs
  | cons c t ih =>
    rw [takeDigits]
    split
    · next hc => exact ih hc.2
    · exact hs

theorem readNumber_inRange (h : readNumber negative t = .ok (n, rest)) : n.InRange := by
  rw [readNumber.eq_def] at h
  split at h
  · cases h
  · split at h
    · cases h
    · exact afterDigits_inRange (Nat.zero_le _) h
  · next c t _ =>
    split at h
    · have hread : afterDigits negative (takeDigits 0 (c :: t)).1 (takeDigits 0 (c :: t)).2.2 =
          .ok (n, rest) := h
      exact afterDigits_inRange (takeDigits_le (Nat.zero_le _) _) hread
    · cases h

end Numbers

/-- Members in the order of their keys, none of which comes twice. -/
def KeysAscend (members : List (Text × Json)) : Prop :=
  members.Pairwise fun m m' => m.1 < m'.1

/-- What a reader may yield that goes down so many levels. -/
inductive Readable : Nat → Json → Prop where
  | null {depth : Nat} : Readable depth .null
  | bool {depth : Nat} (b : Bool) : Readable depth (.bool b)
  | number {depth : Nat} {n : Number} (h : n.InRange) : Readable depth (.number n)
  | string {depth : Nat} (t : Text) : Readable depth (.string t)
  | array {depth : Nat} {items : List Json} (h : ∀ v ∈ items, Readable depth v) :
      Readable (depth + 1) (.array items)
  | object {depth : Nat} {members : List (Text × Json)}
      (hkeys : KeysAscend members) (h : ∀ m ∈ members, Readable depth m.2) :
      Readable (depth + 1) (.object members)

theorem readScalar_readable {c : Char} {t rest : Text} {v : Json} (depth : Nat)
    (h : readScalar c t = .ok (v, rest)) : Readable depth v := by
  simp only [readScalar] at h
  split at h
  · obtain ⟨_, _, heq⟩ := bind_eq_ok.1 h
    cases heq
    exact .null
  split at h
  · obtain ⟨_, _, heq⟩ := bind_eq_ok.1 h
    cases heq
    exact .bool true
  split at h
  · obtain ⟨_, _, heq⟩ := bind_eq_ok.1 h
    cases heq
    exact .bool false
  split at h
  · obtain ⟨_, hn, heq⟩ := bind_eq_ok.1 h
    cases heq
    exact .number (readNumber_inRange hn)
  split at h
  · obtain ⟨_, hn, heq⟩ := bind_eq_ok.1 h
    cases heq
    exact .number (readNumber_inRange hn)
  split at h
  · obtain ⟨s, _, heq⟩ := bind_eq_ok.1 h
    cases heq
    exact .string s.1
  · cases h

section Lists

variable {α : Type} {item : Text → Except Fault (α × Text)} {P : α → Prop}

theorem readItemsFrom_forall (hitem : ∀ t v rest, item t = .ok (v, rest) → P v) {n : Nat}
    {first : Bool} {t rest : Text} {vs : List α}
    (h : readItemsFrom item n first t = .ok (vs, rest)) : ∀ v ∈ vs, P v := by
  induction n generalizing first t vs with
  | zero => cases h
  | succ n ih =>
    obtain ⟨⟨more, u⟩, _, h⟩ := bind_eq_ok.1 h
    cases more with
    | false =>
      cases h
      simp
    | true =>
      obtain ⟨⟨v, u⟩, hv, h⟩ := bind_eq_ok.1 h
      obtain ⟨⟨ws, u⟩, hws, h⟩ := bind_eq_ok.1 h
      cases h
      exact List.forall_mem_cons.2 ⟨hitem _ _ _ hv, ih hws⟩

theorem readMembersFrom_forall (hitem : ∀ t v rest, item t = .ok (v, rest) → P v) {n : Nat}
    {first : Bool} {t rest : Text} {ms : List (Text × α)}
    (h : readMembersFrom item n first t = .ok (ms, rest)) : ∀ m ∈ ms, P m.2 := by
  induction n generalizing first t ms with
  | zero => cases h
  | succ n ih =>
    obtain ⟨⟨key, u⟩, _, h⟩ := bind_eq_ok.1 h
    cases key with
    | none =>
      cases h
      simp
    | some key =>
      obtain ⟨u, _, h⟩ := bind_eq_ok.1 h
      obtain ⟨⟨v, u⟩, hv, h⟩ := bind_eq_ok.1 h
      obtain ⟨⟨ns, u⟩, hns, h⟩ := bind_eq_ok.1 h
      cases h
      exact List.forall_mem_cons.2 ⟨hitem _ _ _ hv, ih hns⟩

end Lists

theorem mem_insertMember {key : Text} {v : Json} {ms : List (Text × Json)} {m : Text × Json}
    (h : m ∈ insertMember key v ms) : m = (key, v) ∨ m ∈ ms := by
  induction ms with
  | nil => simpa [insertMember] using h
  | cons n ms ih =>
    rw [insertMember] at h
    split at h
    · rcases List.mem_cons.1 h with h | h
      · exact .inl h
      · exact .inr (List.mem_cons_of_mem _ h)
    split at h
    · exact List.mem_cons.1 h
    · rcases List.mem_cons.1 h with h | h
      · exact .inr (h ▸ List.mem_cons_self)
      · exact (ih h).imp_right (List.mem_cons_of_mem _)

theorem KeysAscend.insertMember (key : Text) (v : Json) {ms : List (Text × Json)}
    (h : KeysAscend ms) : KeysAscend (insertMember key v ms) := by
  induction ms with
  | nil => exact List.pairwise_singleton _ _
  | cons n ms ih =>
    obtain ⟨hn, hms⟩ := List.pairwise_cons.1 h
    rw [Json.insertMember]
    split
    · next heq => exact List.pairwise_cons.2 ⟨fun m hm => heq ▸ hn m hm, hms⟩
    split
    · next hlt =>
      refine List.pairwise_cons.2 ⟨fun m hm => ?_, h⟩
      rcases List.mem_cons.1 hm with rfl | hm
      · exact hlt
      · exact List.lt_trans hlt (hn m hm)
    · next hne hnlt =>
      refine List.pairwise_cons.2 ⟨fun m hm => ?_, ih hms⟩
      rcases mem_insertMember hm with rfl | hm
      · refine Decidable.byContradiction fun hlt => hne ?_
        exact List.le_antisymm (List.not_lt.1 hlt) (List.not_lt.1 hnlt)
      · exact hn m hm

theorem mem_foldl_insertMember {ms sorted : List (Text × Json)} {m : Text × Json}
    (h : m ∈ ms.foldl (fun sorted m => insertMember m.1 m.2 sorted) sorted) :
    m ∈ ms ∨ m ∈ sorted := by
  induction ms generalizing sorted with
  | nil => exact .inr h
  | cons n ms ih =>
    rcases ih h with hm | hm
    · exact .inl (List.mem_cons_of_mem n hm)
    rcases mem_insertMember hm with rfl | hm
    · exact .inl List.mem_cons_self
    · exact .inr hm

theorem mem_sortMembers {ms : List (Text × Json)} {m : Text × Json} (h : m ∈ sortMembers ms) :
    m ∈ ms :=
  (mem_foldl_insertMember h).resolve_right (by simp)

theorem keysAscend_sortMembers (ms : List (Text × Json)) : KeysAscend (sortMembers ms) := by
  have hfold : ∀ sorted, KeysAscend sorted →
      KeysAscend (ms.foldl (fun sorted m => insertMember m.1 m.2 sorted) sorted) := by
    induction ms with
    | nil => exact fun _ h => h
    | cons n ms ih => exact fun sorted h => ih _ (h.insertMember n.1 n.2)
  exact hfold [] .nil

theorem insertMember_eq_concat {key : Text} (v : Json) {ms : List (Text × Json)}
    (h : ∀ m ∈ ms, m.1 < key) : insertMember key v ms = ms ++ [(key, v)] := by
  induction ms with
  | nil => rfl
  | cons n ms ih =>
    have hn := h n List.mem_cons_self
    have hne : key ≠ n.1 := fun heq => List.lt_irrefl key (heq ▸ hn)
    rw [insertMember, if_neg hne, if_neg (List.lt_asymm hn),
      ih fun m hm => h m (List.mem_cons_of_mem n hm)]
    rfl

theorem KeysAscend.sortMembers {ms : List (Text × Json)} (h : KeysAscend ms) :
    sortMembers ms = ms := by
  have hfold : ∀ sorted, KeysAscend (sorted ++ ms) →
      ms.foldl (fun sorted m => Json.insertMember m.1 m.2 sorted) sorted = sorted ++ ms := by
    clear h
    induction ms with
    | nil => simp
    | cons n ms ih =>
      intro sorted hsorted
      have hlast : ∀ m ∈ sorted, m.1 < n.1 := fun m hm =>
        (List.pairwise_append.1 hsorted).2.2 m hm n List.mem_cons_self
      rw [List.foldl_cons, insertMember_eq_concat n.2 hlast, ih _ (by simpa using hsorted)]
      simp
  exact hfold [] h

theorem readValue_readable {depth : Nat} {t rest : Text} {v : Json}
    (h : readValue depth t = .ok (v, rest)) : Readable depth v := by
  induction depth generalizing t rest v with
  | zero =>
    rw [readValue] at h
    split at h
    · cases h
    · exact readScalar_readable 0 h
  | succ depth ih =>
    rw [readValue] at h
    split at h
    · cases h
    split at h
    · obtain ⟨⟨vs, u⟩, hvs, h⟩ := bind_eq_ok.1 h
      cases h
      exact .array (readItemsFrom_forall (fun _ _ _ => ih) hvs)
    split at h
    · obtain ⟨⟨ms, u⟩, hms, h⟩ := bind_eq_ok.1 h
      cases h
      have hmembers := readMembersFrom_forall (fun _ _ _ => ih) hms
      exact .object (keysAscend_sortMembers ms) fun m hm => hmembers m (mem_sortMembers hm)
    · exact readScalar_readable (depth + 1) h

/-! Values without floating-point numbers. -/

inductive HoldsFloat : Json → Prop where
  | number (x : Float) : HoldsFloat (.number (.float x))
  | item {items : List Json} {v : Json} (hv : v ∈ items) (h : HoldsFloat v) :
      HoldsFloat (.array items)
  | member {members : List (Text × Json)} {m : Text × Json} (hm : m ∈ members)
      (h : HoldsFloat m.2) : HoldsFloat (.object members)

@[simp] theorem not_holdsFloat_null : ¬ HoldsFloat .null := by
  intro h
  cases h

@[simp] theorem not_holdsFloat_bool (b : Bool) : ¬ HoldsFloat (.bool b) := by
  intro h
  cases h

@[simp] theorem not_holdsFloat_string (t : Text) : ¬ HoldsFloat (.string t) := by
  intro h
  cases h

@[simp] theorem holdsFloat_number_iff {n : Number} :
    HoldsFloat (.number n) ↔ ∃ x, n = .float x := by
  constructor
  · intro h
    cases h with
    | number x => exact ⟨x, rfl⟩
  · rintro ⟨x, rfl⟩
    exact .number x

@[simp] theorem holdsFloat_array_iff {items : List Json} :
    HoldsFloat (.array items) ↔ ∃ v ∈ items, v.HoldsFloat := by
  constructor
  · intro h
    cases h with
    | item hv h => exact ⟨_, hv, h⟩
  · intro ⟨_, hv, h⟩
    exact .item hv h

@[simp] theorem holdsFloat_object_iff {members : List (Text × Json)} :
    HoldsFloat (.object members) ↔ ∃ m ∈ members, m.2.HoldsFloat := by
  constructor
  · intro h
    cases h with
    | member hm h => exact ⟨_, hm, h⟩
  · intro ⟨_, hm, h⟩
    exact .member hm h

mutual

theorem eq_of_same {v w : Json} (hfloat : ¬ v.HoldsFloat) (h : v.same w = true) : v = w := by
  cases v with
  | null => cases w <;> first | rfl | cases h
  | bool b => cases w <;> simp_all [same]
  | number n =>
    cases w with
    | number m => cases n <;> cases m <;> simp_all [same, Number.same]
    | _ => cases h
  | string t => cases w <;> simp_all [same]
  | array items =>
    cases w with
    | array items' => rw [eq_of_sameItems (by simpa using hfloat) h]
    | _ => cases h
  | object members =>
    cases w with
    | object members' => rw [eq_of_sameMembers (by simpa using hfloat) h]
    | _ => cases h

theorem eq_of_sameItems {vs ws : List Json} (hfloat : ∀ v ∈ vs, ¬ v.HoldsFloat)
    (h : sameItems vs ws = true) : vs = ws := by
  cases vs with
  | nil => cases ws <;> first | rfl | cases h
  | cons v vs =>
    cases ws with
    | nil => cases h
    | cons w ws =>
      rw [sameItems, Bool.and_eq_true] at h
      rw [eq_of_same (hfloat v List.mem_cons_self) h.1,
        eq_of_sameItems (fun u hu => hfloat u (List.mem_cons_of_mem v hu)) h.2]

theorem eq_of_sameMembers {ms ns : List (Text × Json)} (hfloat : ∀ m ∈ ms, ¬ m.2.HoldsFloat)
    (h : sameMembers ms ns = true) : ms = ns := by
  cases ms with
  | nil => cases ns <;> first | rfl | cases h
  | cons m ms =>
    cases ns with
    | nil => cases h
    | cons n ns =>
      obtain ⟨k, v⟩ := m
      obtain ⟨l, w⟩ := n
      simp only [sameMembers, Bool.and_eq_true, beq_iff_eq] at h
      have hv : v = w := eq_of_same (hfloat (k, v) List.mem_cons_self) h.1.2
      rw [h.1.1, hv, eq_of_sameMembers (fun u hu => hfloat u (List.mem_cons_of_mem _ hu)) h.2]

end
end Json

end UrlPolicy
