import UrlPolicy.Proofs.Pattern.Path

/-!
Texts with their stars filled in. In a path each `**` that stands alone between slashes may be
filled with several segments; in a canonical text these are just the segments that are read as
`anyMany`.
-/

set_option autoImplicit false

namespace UrlPolicy

/-- What fillings are made of: lower-case letters of ASCII, digits and `-`. -/
def isFillChar (c : Char) : Bool := c.isLower || c.isDigit || c == '-'

structure IsFilling (w : Text) : Prop where
  ne_nil : w ≠ []
  char : ∀ c ∈ w, isFillChar c = true

theorem isFilling_iff {w : Text} : (w != [] && w.all isFillChar) = true ↔ IsFilling w := by
  rw [Bool.and_eq_true, bne_iff_ne, List.all_eq_true]
  exact ⟨fun h => ⟨h.1, h.2⟩, fun h => ⟨h.ne_nil, h.char⟩⟩

instance (w : Text) : Decidable (IsFilling w) := decidable_of_iff _ isFilling_iff

/-- The second text is the first with a filling in place of each star. -/
inductive Filled : Text → Text → Prop where
  | nil : Filled [] []
  | char {c : Char} {s t : Text} (hc : c ≠ '*') (h : Filled s t) : Filled (c :: s) (c :: t)
  | star {w s t : Text} (hw : IsFilling w) (h : Filled s t) : Filled ('*' :: s) (w ++ t)

/-- The pieces of a path, filled in one by one. A piece `**` makes room for one or more fillings,
each of them a piece. -/
inductive FilledPieces : List Text → List Text → Prop where
  | nil : FilledPieces [] []
  | many {fillings pieces filled : List Text} (hne : fillings ≠ [])
      (hfillings : ∀ w ∈ fillings, IsFilling w) (h : FilledPieces pieces filled) :
      FilledPieces (['*', '*'] :: pieces) (fillings ++ filled)
  | one {piece t : Text} {pieces filled : List Text} (hpiece : piece ≠ ['*', '*'])
      (ht : Filled piece t) (h : FilledPieces pieces filled) :
      FilledPieces (piece :: pieces) (t :: filled)

/-- The second path is the first with the pieces between its slashes filled in. -/
def FilledPath (path t : Text) : Prop :=
  ∃ filled, FilledPieces (List.splitOn '/' path) filled ∧ t = ['/'].intercalate filled

namespace Filled

theorem append {s t s' t' : Text} (h : Filled s t) (h' : Filled s' t') :
    Filled (s ++ s') (t ++ t') := by
  induction h with
  | nil => exact h'
  | char hc _ ih => exact .char hc ih
  | star hw _ ih =>
    rw [List.append_assoc]
    exact .star hw ih

theorem of_append {s s' u : Text} (h : Filled (s ++ s') u) :
    ∃ t t', u = t ++ t' ∧ Filled s t ∧ Filled s' t' := by
  induction s generalizing u with
  | nil => exact ⟨[], u, rfl, .nil, h⟩
  | cons c s ih =>
    cases h with
    | char hc h =>
      obtain ⟨t, t', rfl, hs, hs'⟩ := ih h
      exact ⟨c :: t, t', rfl, .char hc hs, hs'⟩
    | @star w _ _ hw h =>
      obtain ⟨t, t', rfl, hs, hs'⟩ := ih h
      exact ⟨w ++ t, t', (List.append_assoc w t t').symm, .star hw hs, hs'⟩

theorem of_star_not_mem {s : Text} (h : '*' ∉ s) : Filled s s := by
  induction s with
  | nil => exact .nil
  | cons c s ih =>
    have hc : c ≠ '*' := fun hc => h (by simp [hc])
    exact .char hc (ih fun hmem => h (List.mem_cons_of_mem c hmem))

theorem eq_of_star_not_mem {s t : Text} (h : Filled s t) (hs : '*' ∉ s) : t = s := by
  induction h with
  | nil => rfl
  | char _ _ ih => rw [ih fun hmem => hs (List.mem_cons_of_mem _ hmem)]
  | star _ _ _ => simp at hs

theorem of_isFilling {w : Text} (h : IsFilling w) : Filled ['*'] w := by
  have hstar := Filled.star h .nil
  rwa [List.append_nil] at hstar

theorem ne_nil {s t : Text} (h : Filled s t) (hs : s ≠ []) : t ≠ [] := by
  cases h with
  | nil => exact absurd rfl hs
  | char => simp
  | star hw _ => simp [hw.ne_nil]

theorem mem {s t : Text} (h : Filled s t) {c : Char} (hc : c ∈ t) :
    isFillChar c = true ∨ c ∈ s := by
  induction h with
  | nil => cases hc
  | char _ _ ih =>
    rcases List.mem_cons.1 hc with rfl | hc
    · exact .inr (by simp)
    · exact (ih hc).imp_right (List.mem_cons_of_mem _)
  | star hw _ ih =>
    rcases List.mem_append.1 hc with hc | hc
    · exact .inl (hw.char c hc)
    · exact (ih hc).imp_right (List.mem_cons_of_mem _)

end Filled

theorem startsQuery_of_isFillChar {c : Char} (h : isFillChar c = true) :
    startsQuery c = false := by
  rw [← Bool.not_eq_true]
  intro hquery
  rcases startsQuery_iff.1 hquery with rfl | rfl <;> exact absurd h (by decide)

theorem Filled.startsQuery_eq_false {s t : Text} (h : Filled s t)
    (hs : ∀ c ∈ s, startsQuery c = false) : ∀ c ∈ t, startsQuery c = false :=
  fun c hc => (h.mem hc).elim startsQuery_of_isFillChar (hs c)

theorem Filled.splitQuery {s t : Text} (h : Filled s t) :
    Filled (splitQuery s).1 (splitQuery t).1 := by
  rw [← splitQuery_append s] at h
  obtain ⟨dirs, query, rfl, hdirs, hquery⟩ := h.of_append
  have hstart : ∀ c ∈ query.head?, startsQuery c = true := by
    intro c hc
    have hhead : ∀ d ∈ (UrlPolicy.splitQuery s).2.head?, startsQuery d = true :=
      fun d hd => startsQuery_of_head hd
    generalize (UrlPolicy.splitQuery s).2 = q at hquery hhead
    cases hquery with
    | nil => cases hc
    | @char d _ _ _ _ =>
      cases hc
      exact hhead c rfl
    | star _ _ => cases hhead '*' rfl
  rw [splitQuery_append_query (hdirs.startsQuery_eq_false fun c hc => not_startsQuery_of_mem hc)
    hstart]
  exact hdirs

namespace FilledPieces

theorem ne_nil {ws us : List Text} (h : FilledPieces ws us) (hws : ws ≠ []) : us ≠ [] := by
  cases h with
  | nil => exact absurd rfl hws
  | many hne _ _ => simp [hne]
  | one => simp

theorem of_append {xs ys zs : List Text} (h : FilledPieces (xs ++ ys) zs) :
    ∃ us vs, zs = us ++ vs ∧ FilledPieces xs us ∧ FilledPieces ys vs := by
  induction xs generalizing zs with
  | nil => exact ⟨[], zs, rfl, .nil, h⟩
  | cons x xs ih =>
    cases h with
    | @many fillings _ _ hne hfillings h =>
      obtain ⟨us, vs, rfl, hxs, hys⟩ := ih h
      exact ⟨fillings ++ us, vs, (List.append_assoc _ us vs).symm, .many hne hfillings hxs, hys⟩
    | @one _ t _ _ hx ht h =>
      obtain ⟨us, vs, rfl, hxs, hys⟩ := ih h
      exact ⟨t :: us, vs, rfl, .one hx ht hxs, hys⟩

theorem mem {ws us : List Text} (h : FilledPieces ws us) {u : Text} (hu : u ∈ us) {c : Char}
    (hc : c ∈ u) : isFillChar c = true ∨ ∃ w ∈ ws, c ∈ w := by
  induction h with
  | nil => cases hu
  | many _ hfillings _ ih =>
    rcases List.mem_append.1 hu with hu | hu
    · exact .inl ((hfillings u hu).char c hc)
    · refine (ih hu).imp_right ?_
      rintro ⟨w, hw, hcw⟩
      exact ⟨w, List.mem_cons_of_mem _ hw, hcw⟩
  | @one piece t _ _ _ ht _ ih =>
    rcases List.mem_cons.1 hu with rfl | hu
    · exact (ht.mem hc).imp_right fun hc => ⟨piece, by simp, hc⟩
    · refine (ih hu).imp_right ?_
      rintro ⟨w, hw, hcw⟩
      exact ⟨w, List.mem_cons_of_mem _ hw, hcw⟩

theorem nil_not_mem {ws us : List Text} (h : FilledPieces ws us) (hws : [] ∉ ws) : [] ∉ us := by
  induction h with
  | nil => simp
  | many _ hfillings _ ih =>
    intro hmem
    rcases List.mem_append.1 hmem with hmem | hmem
    · exact (hfillings [] hmem).ne_nil rfl
    · exact ih (fun h => hws (List.mem_cons_of_mem _ h)) hmem
  | @one piece t _ _ _ ht _ ih =>
    intro hmem
    rcases List.mem_cons.1 hmem with rfl | hmem
    · exact ht.ne_nil (fun h => hws (by simp [h])) rfl
    · exact ih (fun h => hws (List.mem_cons_of_mem _ h)) hmem

/-- Where no piece is `**`, filling in the pieces is filling in the whole text. -/
theorem filled_intercalate {ws us : List Text} (h : FilledPieces ws us) (hmany : ['*', '*'] ∉ ws) :
    Filled (['/'].intercalate ws) (['/'].intercalate us) := by
  induction h with
  | nil => exact .nil
  | many => simp at hmany
  | @one piece t pieces filled _ ht h ih =>
    have hfilled := ih fun hmem => hmany (List.mem_cons_of_mem _ hmem)
    by_cases hpieces : pieces = []
    · rw [hpieces] at h ⊢
      cases h
      rwa [List.intercalate_singleton, List.intercalate_singleton]
    · rw [Text.intercalate_cons piece hpieces, Text.intercalate_cons t (h.ne_nil hpieces)]
      exact ht.append (.char (by decide) hfilled)

end FilledPieces

namespace FilledPath

theorem filled {path t : Text} (h : FilledPath path t)
    (hmany : ['*', '*'] ∉ List.splitOn '/' path) : Filled path t := by
  obtain ⟨pieces, hpieces, rfl⟩ := h
  have hjoin := hpieces.filled_intercalate hmany
  rwa [List.intercalate_splitOn] at hjoin

theorem many_not_mem_splitOn {t : Text} (h : '*' ∉ t) : ['*', '*'] ∉ List.splitOn '/' t :=
  fun hmem => h (Text.mem_of_mem_splitOn hmem (by simp))

theorem eq_of_star_not_mem {path t : Text} (h : FilledPath path t) (hpath : '*' ∉ path) :
    t = path :=
  (h.filled (many_not_mem_splitOn hpath)).eq_of_star_not_mem hpath

theorem exists_of_slash {path t : Text} (h : FilledPath ('/' :: path) t) :
    ∃ u, t = '/' :: u ∧ FilledPath path u := by
  obtain ⟨pieces, hpieces, rfl⟩ := h
  have hsplit : List.splitOn '/' ('/' :: path) = [] :: List.splitOn '/' path :=
    List.splitOn_append_cons_self [] path
  rw [hsplit] at hpieces
  cases hpieces with
  | @one _ t _ filled _ ht h =>
    cases ht
    refine ⟨['/'].intercalate filled, ?_, filled, h, rfl⟩
    rw [Text.intercalate_cons [] (h.ne_nil (List.splitOn_ne_nil '/' path))]
    rfl

theorem mem {path t : Text} (h : FilledPath path t) {c : Char} (hc : c ∈ t) :
    c = '/' ∨ isFillChar c = true ∨ c ∈ path := by
  obtain ⟨pieces, hpieces, rfl⟩ := h
  by_cases hslash : c = '/'
  · exact .inl hslash
  · obtain ⟨u, hu, hcu⟩ := (Text.mem_intercalate_iff hslash).1 hc
    refine .inr ((hpieces.mem hu hcu).imp_right ?_)
    rintro ⟨w, hw, hcw⟩
    exact Text.mem_of_mem_splitOn hw hcw

end FilledPath

namespace SegmentPattern

theorem not_many_infix_joinGlob {head tail : Text} {middle : List Text}
    (h : StarFree (head :: (middle ++ [tail]))) (hmiddle : [] ∉ middle) :
    ¬ ['*', '*'] <:+: joinGlob head middle tail := by
  rintro ⟨before, after, hjoin⟩
  -- between two stars that stand side by side there is an empty piece
  have hsplit : head :: (middle ++ [tail]) =
      List.splitOn '*' before ++ [] :: List.splitOn '*' after := by
    rw [← splitOn_joinGlob h, ← hjoin, List.append_assoc]
    exact (List.splitOn_append_cons_self before ('*' :: after)).trans
      (congrArg _ (List.splitOn_append_cons_self [] after))
  obtain ⟨first, more, hbefore⟩ := List.exists_cons_of_ne_nil (List.splitOn_ne_nil '*' before)
  have hafter := List.dropLast_concat_getLast (List.splitOn_ne_nil '*' after)
  rw [hbefore, ← hafter, List.cons_append, List.cons.injEq] at hsplit
  have hinner : middle ++ [tail] = (more ++ [] :: (List.splitOn '*' after).dropLast) ++
      [(List.splitOn '*' after).getLast (List.splitOn_ne_nil '*' after)] := by
    rw [hsplit.2]
    simp
  rw [(List.append_inj' hinner rfl).1] at hmiddle
  simp at hmiddle

/-- Two stars that make up a piece of a canonical text are the whole segment, also if the segment
has a query with slashes in it. -/
theorem many_not_mem_splitOn_canonical {s : Text} (h : s ≠ ['*', '*']) :
    ['*', '*'] ∉ List.splitOn '/' (canonical s) := by
  rcases ofText_cases s with
    ⟨rfl, _⟩ | ⟨hmany, _⟩ | ⟨hstar, _⟩ | ⟨head, middle, tail, hfree, _, _, _, hs⟩
  · decide
  · exact absurd hmany h
  · rw [canonical_of_star_not_mem hstar]
    exact FilledPath.many_not_mem_splitOn hstar
  · rw [canonical, hs, text_glob]
    intro hmem
    have hinfix : ['*', '*'] <:+: joinGlob head (middle.filter (· ≠ [])) tail := by
      rw [← @List.intercalate_splitOn _ (joinGlob head _ tail) _ _ '/']
      exact Text.infix_intercalate hmem
    exact not_many_infix_joinGlob hfree.filter (by simp) hinfix

end SegmentPattern

end UrlPolicy
