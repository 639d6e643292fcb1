import UrlPolicy.Pattern.Segment
import UrlPolicy.Proofs.Text.Cut

/-!
The canonical text of a segment of a pattern. Repeated stars are the only thing that it leaves
out, and it is read as the same pattern again, unless the segment is nothing but stars: three or
more of them are printed as one, and one star is read as `any`.
-/

set_option autoImplicit false

namespace UrlPolicy.SegmentPattern

/-- What a segment of three or more stars is read as. -/
def starRun : SegmentPattern := .glob [] [] []

def StarFree (ws : List Text) : Prop := ∀ w ∈ ws, '*' ∉ w

def joinGlob (head : Text) (middle : List Text) (tail : Text) : Text :=
  ['*'].intercalate (head :: (middle ++ [tail]))

section

variable {head tail : Text} {middle : List Text}

theorem joinGlob_nil : joinGlob head [] tail = head ++ '*' :: tail := by
  simp [joinGlob]

theorem joinGlob_cons {piece : Text} :
    joinGlob head (piece :: middle) tail = head ++ '*' :: joinGlob piece middle tail :=
  Text.intercalate_cons head (by simp)

theorem splitOn_joinGlob (h : StarFree (head :: (middle ++ [tail]))) :
    List.splitOn '*' (joinGlob head middle tail) = head :: (middle ++ [tail]) :=
  List.splitOn_intercalate '*' h (by simp)

theorem joinGlob_inj {head' tail' : Text} {middle' : List Text}
    (h : StarFree (head :: (middle ++ [tail]))) (h' : StarFree (head' :: (middle' ++ [tail'])))
    (heq : joinGlob head middle tail = joinGlob head' middle' tail') :
    head = head' ∧ middle = middle' ∧ tail = tail' := by
  have hsplit := splitOn_joinGlob h
  rw [heq, splitOn_joinGlob h', List.cons.injEq] at hsplit
  obtain ⟨hmiddle, htail⟩ := List.append_inj' hsplit.2.symm rfl
  exact ⟨hsplit.1.symm, hmiddle, by simpa using htail⟩

theorem star_mem_joinGlob : '*' ∈ joinGlob head middle tail := by
  rw [joinGlob, Text.intercalate_cons head (by simp)]
  simp

theorem text_glob : (glob head middle tail).text = joinGlob head middle tail := by
  rw [text]
  induction middle generalizing head with
  | nil => simp [joinGlob_nil]
  | cons piece middle ih =>
    rw [joinGlob_cons, ← ih]
    simp

theorem StarFree.filter (h : StarFree (head :: (middle ++ [tail]))) :
    StarFree (head :: (middle.filter (· ≠ []) ++ [tail])) := by
  intro w hw
  refine h w ?_
  rcases List.mem_cons.1 hw with rfl | hw
  · simp
  rcases List.mem_append.1 hw with hw | hw
  · simp [(List.mem_filter.1 hw).1]
  · simp [List.mem_singleton.1 hw]

end

theorem ofText_cases (s : Text) :
    s = ['*'] ∧ ofText s = .any ∨ s = ['*', '*'] ∧ ofText s = .anyMany ∨
      '*' ∉ s ∧ ofText s = .literal s ∨
      ∃ head middle tail, StarFree (head :: (middle ++ [tail])) ∧
        s = joinGlob head middle tail ∧ s ≠ ['*'] ∧ s ≠ ['*', '*'] ∧
        ofText s = .glob head (middle.filter (· ≠ [])) tail := by
  by_cases hany : s = ['*']
  · exact .inl ⟨hany, by rw [ofText, if_pos hany]⟩
  by_cases hmany : s = ['*', '*']
  · exact .inr (.inl ⟨hmany, by rw [ofText, if_neg hany, if_pos hmany]⟩)
  have hjoin := @List.intercalate_splitOn _ s _ _ '*'
  have hfree : StarFree (List.splitOn '*' s) := fun w hw => Text.not_mem_of_mem_splitOn hw
  cases hs : List.splitOn '*' s with
  | nil => exact absurd hs (List.splitOn_ne_nil '*' s)
  | cons head more =>
    rw [hs] at hjoin hfree
    cases more with
    | nil =>
      have heq : head = s := by rwa [List.intercalate_singleton] at hjoin
      refine .inr (.inr (.inl ⟨?_, ?_⟩))
      · rw [← heq]
        exact hfree head (by simp)
      · rw [ofText, if_neg hany, if_neg hmany, Text.split, hs]
    | cons piece pieces =>
      have hmore := List.dropLast_concat_getLast (List.cons_ne_nil piece pieces)
      refine .inr (.inr (.inr ⟨head, (piece :: pieces).dropLast,
        (piece :: pieces).getLast (by simp), ?_, ?_, hany, hmany, ?_⟩))
      · rwa [hmore]
      · rw [joinGlob, hmore, hjoin]
      · rw [ofText, if_neg hany, if_neg hmany, Text.split, hs]

theorem ofText_ne_rest (s : Text) : ofText s ≠ .rest := by
  rcases ofText_cases s with ⟨_, hs⟩ | ⟨_, hs⟩ | ⟨_, hs⟩ | ⟨_, _, _, _, _, _, _, hs⟩ <;> simp [hs]

theorem ofText_of_star_not_mem {s : Text} (h : '*' ∉ s) : ofText s = .literal s := by
  rcases ofText_cases s with ⟨rfl, _⟩ | ⟨rfl, _⟩ | ⟨_, hs⟩ | ⟨_, _, _, _, rfl, _⟩
  · simp at h
  · simp at h
  · exact hs
  · exact absurd star_mem_joinGlob h

theorem ofText_joinGlob {head tail : Text} {middle : List Text}
    (h : StarFree (head :: (middle ++ [tail]))) (hmiddle : [] ∉ middle) :
    ofText (joinGlob head middle tail) =
      if glob head middle tail = starRun then .any else .glob head middle tail := by
  rcases ofText_cases (joinGlob head middle tail) with
    ⟨hs, hread⟩ | ⟨hs, _⟩ | ⟨hs, _⟩ | ⟨head', middle', tail', hfree, heq, hany, _, hread⟩
  · have heq : joinGlob head middle tail = joinGlob [] [] [] := hs
    obtain ⟨rfl, rfl, rfl⟩ := joinGlob_inj h (by simp [StarFree]) heq
    exact hread
  · have heq : joinGlob head middle tail = joinGlob [] [[]] [] := hs
    obtain ⟨_, rfl, _⟩ := joinGlob_inj h (by simp [StarFree]) heq
    simp at hmiddle
  · exact absurd star_mem_joinGlob hs
  · obtain ⟨rfl, rfl, rfl⟩ := joinGlob_inj h hfree heq
    rw [hread, if_neg, List.filter_eq_self.2]
    · intro w hw
      simpa using ne_of_mem_of_not_mem hw hmiddle
    · intro hrun
      cases hrun
      exact hany rfl

def canonical (s : Text) : Text := (ofText s).text

/-- The canonical text is read as the segment is, but for a run of stars. -/
theorem ofText_canonical (s : Text) :
    ofText (canonical s) = if ofText s = starRun then .any else ofText s := by
  rcases ofText_cases s with
    ⟨rfl, _⟩ | ⟨rfl, _⟩ | ⟨_, hs⟩ | ⟨head, middle, tail, hfree, _, _, _, hs⟩
  · rfl
  · rfl
  · rw [canonical, hs, if_neg (by simp [starRun])]
    exact hs
  · rw [canonical, hs, text_glob]
    exact ofText_joinGlob hfree.filter (by simp)

theorem ofText_canonical_ne_starRun (s : Text) : ofText (canonical s) ≠ starRun := by
  rw [ofText_canonical]
  split
  · simp [starRun]
  · next h => exact h

theorem canonical_canonical (s : Text) : canonical (canonical s) = canonical s := by
  rw [canonical, ofText_canonical, canonical]
  split
  · next h =>
    rw [h]
    rfl
  · rfl

theorem ofText_eq_any_iff {s : Text} : ofText s = .any ↔ s = ['*'] := by
  refine ⟨fun h => ?_, fun h => by rw [h]; rfl⟩
  rcases ofText_cases s with ⟨hs, _⟩ | ⟨_, hs⟩ | ⟨_, hs⟩ | ⟨_, _, _, _, _, _, _, hs⟩
  · exact hs
  all_goals cases hs.symm.trans h

theorem ofText_eq_anyMany_iff {s : Text} : ofText s = .anyMany ↔ s = ['*', '*'] := by
  refine ⟨fun h => ?_, fun h => by rw [h]; rfl⟩
  rcases ofText_cases s with ⟨_, hs⟩ | ⟨hs, _⟩ | ⟨_, hs⟩ | ⟨_, _, _, _, _, _, _, hs⟩
  case inr.inl => exact hs
  all_goals cases hs.symm.trans h

theorem canonical_eq_any_iff {s : Text} :
    canonical s = ['*'] ↔ s = ['*'] ∨ ofText s = starRun := by
  rw [← ofText_eq_any_iff, ofText_canonical, ← ofText_eq_any_iff]
  split
  · next h => simp [h]
  · next h => simp [h]

theorem canonical_eq_anyMany_iff {s : Text} : canonical s = ['*', '*'] ↔ s = ['*', '*'] := by
  rw [← ofText_eq_anyMany_iff, ofText_canonical, ← ofText_eq_anyMany_iff]
  split
  · next h => simp [h, starRun]
  · rfl

theorem canonical_of_star_not_mem {s : Text} (h : '*' ∉ s) : canonical s = s := by
  rw [canonical, ofText_of_star_not_mem h]
  rfl

theorem star_mem_canonical_iff {s : Text} : '*' ∈ canonical s ↔ '*' ∈ s := by
  rcases ofText_cases s with ⟨rfl, _⟩ | ⟨rfl, _⟩ | ⟨h, _⟩ | ⟨head, middle, tail, _, rfl, _, _, hs⟩
  · decide
  · decide
  · rw [canonical_of_star_not_mem h]
  · rw [canonical, hs, text_glob]
    exact iff_of_true star_mem_joinGlob star_mem_joinGlob

def withoutStars (t : Text) : Text := t.filter (· ≠ '*')

theorem mem_withoutStars_iff {c : Char} {t : Text} : c ∈ withoutStars t ↔ c ∈ t ∧ c ≠ '*' := by
  simp [withoutStars]

theorem withoutStars_of_not_mem {t : Text} (h : '*' ∉ t) : withoutStars t = t := by
  refine List.filter_eq_self.2 fun c hc => ?_
  simpa using ne_of_mem_of_not_mem hc h

theorem withoutStars_intercalate {ws : List Text} (h : StarFree ws) :
    withoutStars (['*'].intercalate ws) = ws.flatten := by
  induction ws with
  | nil => rfl
  | cons w ws ih =>
    have hw := withoutStars_of_not_mem (h w (by simp))
    by_cases hws : ws = []
    · simpa [hws] using hw
    · rw [Text.intercalate_cons w hws, withoutStars, List.filter_append, ← withoutStars, hw,
        List.flatten_cons, ← ih fun v hv => h v (by simp [hv])]
      simp [withoutStars]

theorem withoutStars_canonical (s : Text) : withoutStars (canonical s) = withoutStars s := by
  rcases ofText_cases s with
    ⟨rfl, _⟩ | ⟨rfl, _⟩ | ⟨h, _⟩ | ⟨head, middle, tail, hfree, rfl, _, _, hs⟩
  · rfl
  · rfl
  · rw [canonical_of_star_not_mem h]
  · rw [canonical, hs, text_glob, joinGlob, joinGlob, withoutStars_intercalate hfree.filter,
      withoutStars_intercalate hfree]
    simp only [List.flatten_cons, List.flatten_append, List.flatten_filter_ne_nil]

theorem mem_canonical_iff {c : Char} {s : Text} (hc : c ≠ '*') : c ∈ canonical s ↔ c ∈ s := by
  have h : c ∈ withoutStars (canonical s) ↔ c ∈ withoutStars s := by rw [withoutStars_canonical]
  simpa [mem_withoutStars_iff, hc] using h

theorem canonical_ne_nil {s : Text} (h : s ≠ []) : canonical s ≠ [] := by
  obtain ⟨c, hc⟩ := List.exists_mem_of_ne_nil s h
  by_cases hstar : c = '*'
  · rw [hstar] at hc
    exact List.ne_nil_of_mem (star_mem_canonical_iff.2 hc)
  · exact List.ne_nil_of_mem ((mem_canonical_iff hstar).2 hc)

end UrlPolicy.SegmentPattern
