/-!
Texts are lists of characters. They are cut after a given start, before a given end, at the last
occurrence of a character, and at the leftmost occurrence of another text.
-/

set_option autoImplicit false

namespace UrlPolicy

abbrev Text := List Char

namespace Text

def size : Text → Nat
  | [] => 0
  | c :: t => c.utf8Size + size t

theorem size_append (s t : Text) : size (s ++ t) = size s + size t := by
  induction s with
  | nil => simp [size]
  | cons c s ih => simp [size, ih, Nat.add_assoc]

/-- What follows `p` in a text that starts with it. -/
def dropStart? : Text → Text → Option Text
  | [], t => some t
  | _ :: _, [] => none
  | c :: p, d :: t => if c = d then dropStart? p t else none

theorem dropStart?_eq_some_iff {p t r : Text} : dropStart? p t = some r ↔ t = p ++ r := by
  induction p generalizing t with
  | nil => simp [dropStart?]
  | cons c p ih =>
    cases t with
    | nil => simp [dropStart?]
    | cons d t =>
      by_cases h : c = d
      · subst h; simp [dropStart?, ih]
      · simp [dropStart?, h]; intro h'; exact absurd h'.symm h

def dropEnd? (p t : Text) : Option Text := (dropStart? p.reverse t.reverse).map List.reverse

theorem dropEnd?_eq_some_iff {p t r : Text} : dropEnd? p t = some r ↔ t = r ++ p := by
  simp only [dropEnd?, Option.map_eq_some_iff, dropStart?_eq_some_iff]
  constructor
  · rintro ⟨a, h, rfl⟩
    have := congrArg List.reverse h
    simpa using this
  · rintro rfl
    exact ⟨r.reverse, by simp, by simp⟩

/-- The text without one final `c`, if it ends with one. -/
def chop (c : Char) (t : Text) : Text := (dropEnd? [c] t).getD t

theorem chop_append (c : Char) (t : Text) : chop c (t ++ [c]) = t := by
  rw [chop, dropEnd?_eq_some_iff.2 rfl]; rfl

/-- The text after the last `c`; all of it when there is none. -/
def afterLast (c : Char) (t : Text) : Text := (t.reverse.takeWhile (· ≠ c)).reverse

/-- The pieces of a text between the separators. -/
abbrev split (sep : Char) (t : Text) : List Text := List.splitOn sep t

theorem not_mem_of_mem_splitOn {sep : Char} {t w : Text} (h : w ∈ List.splitOn sep t) :
    sep ∉ w := by
  induction t generalizing w with
  | nil =>
    rw [List.splitOn_nil, List.mem_singleton] at h
    simp [h]
  | cons c t ih =>
    rw [List.splitOn_cons_eq_if_modifyHead] at h
    obtain ⟨v, vs, hs⟩ := List.exists_cons_of_ne_nil (List.splitOn_ne_nil sep t)
    rw [hs] at h ih
    split at h
    · rcases List.mem_cons.1 h with rfl | h
      · simp
      · exact ih h
    · next hc =>
      rcases List.mem_cons.1 h with rfl | h
      · simpa [Ne.symm (ne_of_beq_false (Bool.eq_false_iff.2 hc))] using ih (w := v) (by simp)
      · exact ih (by simp [h])

/-- What precedes and what follows the leftmost occurrence of `p`. -/
def cut? (p : Text) : Text → Option (Text × Text)
  | [] => if p = [] then some ([], []) else none
  | c :: t =>
    match dropStart? p (c :: t) with
    | some rest => some ([], rest)
    | none => (cut? p t).map fun (before, rest) => (c :: before, rest)

theorem eq_of_cut? {p t before after : Text} (h : cut? p t = some (before, after)) :
    t = before ++ p ++ after := by
  induction t generalizing before with
  | nil =>
    rw [cut?] at h
    split at h <;> simp_all
  | cons c t ih =>
    rw [cut?] at h
    split at h
    · next rest hr =>
      cases h
      simpa using dropStart?_eq_some_iff.1 hr
    · obtain ⟨⟨b, a⟩, hb, heq⟩ := Option.map_eq_some_iff.1 h
      cases heq
      simp [ih hb]

theorem cut?_isSome_of_append (p before after : Text) :
    (cut? p (before ++ p ++ after)).isSome := by
  induction before with
  | nil =>
    cases p with
    | nil => cases after <;> simp [cut?, dropStart?]
    | cons c p =>
      have h : dropStart? (c :: p) (c :: (p ++ after)) = some after :=
        dropStart?_eq_some_iff.2 rfl
      simp [cut?, h]
  | cons c before ih =>
    simp only [List.cons_append] at ih ⊢
    rw [cut?]
    split
    · rfl
    · simpa using ih

def holds (p t : Text) : Bool := (cut? p t).isSome

theorem holds_iff {p t : Text} : holds p t = true ↔ ∃ before after, t = before ++ p ++ after := by
  constructor
  · intro h
    obtain ⟨⟨before, after⟩, hc⟩ := Option.isSome_iff_exists.1 h
    exact ⟨before, after, eq_of_cut? hc⟩
  · rintro ⟨before, after, rfl⟩
    exact cut?_isSome_of_append p before after

/-- The lines of a text. A line feed ends a line, and a carriage return right before it belongs
to the line's end; what follows the last line feed is a line unless it is empty. -/
def lines : Text → List Text
  | t =>
    let pieces := split '\n' t
    pieces.dropLast.map (chop '\r') ++ pieces.getLast?.toList.filter (· ≠ [])

end Text

end UrlPolicy
