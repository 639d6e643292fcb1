import UrlPolicy.Proofs.Matching.Glob
import UrlPolicy.Proofs.Pattern.Segment

set_option autoImplicit false

namespace UrlPolicy

/-- The second text is the first with a text, which may be empty, in place of each star. -/
inductive Expands : Text → Text → Prop where
  | nil : Expands [] []
  | char {c : Char} {s t : Text} (hc : c ≠ '*') (h : Expands s t) : Expands (c :: s) (c :: t)
  | star (w : Text) {s t : Text} (h : Expands s t) : Expands ('*' :: s) (w ++ t)

namespace InOrder

theorem append_left {pieces : List Text} {t : Text} (front : Text) (h : InOrder pieces t) :
    InOrder pieces (front ++ t) := by
  cases h with
  | nil => exact .nil _
  | cons gap h =>
    rw [← List.append_assoc, ← List.append_assoc]
    exact .cons (front ++ gap) h

theorem nil_cons_iff {pieces : List Text} {t : Text} :
    InOrder ([] :: pieces) t ↔ InOrder pieces t := by
  constructor
  · rintro (_ | ⟨gap, h⟩)
    rw [List.append_nil]
    exact h.append_left gap
  · exact fun h => .cons [] h

theorem cons_congr {piece : Text} {pieces pieces' : List Text}
    (h : ∀ t, InOrder pieces t ↔ InOrder pieces' t) (t : Text) :
    InOrder (piece :: pieces) t ↔ InOrder (piece :: pieces') t := by
  constructor
  · rintro (_ | ⟨gap, hpieces⟩)
    exact .cons gap ((h _).1 hpieces)
  · rintro (_ | ⟨gap, hpieces⟩)
    exact .cons gap ((h _).2 hpieces)

theorem filter_ne_nil_iff {pieces : List Text} {t : Text} :
    InOrder (pieces.filter (· ≠ [])) t ↔ InOrder pieces t := by
  induction pieces generalizing t with
  | nil => rfl
  | cons piece pieces ih =>
    by_cases hpiece : piece = []
    · rw [List.filter_cons_of_neg (by simpa using hpiece), hpiece, nil_cons_iff]
      exact ih
    · rw [List.filter_cons_of_pos (by simpa using hpiece)]
      exact cons_congr (fun _ => ih) t

theorem iff_exists_gaps {pieces : List Text} {t : Text} :
    InOrder pieces t ↔ ∃ first gaps, gaps.length = pieces.length ∧
      t = first ++ (List.zipWith (· ++ ·) pieces gaps).flatten := by
  constructor
  · intro h
    induction h with
    | nil t => exact ⟨t, [], rfl, (List.append_nil t).symm⟩
    | cons gap _ ih =>
      obtain ⟨first, gaps, hlength, rfl⟩ := ih
      exact ⟨gap, first :: gaps, by simp [hlength], by simp⟩
  · rintro ⟨first, gaps, hlength, rfl⟩
    induction pieces generalizing first gaps with
    | nil => exact .nil _
    | cons piece pieces ih =>
      obtain ⟨gap, gaps, rfl⟩ := List.exists_cons_of_length_eq_add_one hlength
      rw [List.zipWith_cons_cons, List.flatten_cons, List.append_assoc, ← List.append_assoc]
      exact .cons first (ih gap gaps (by simpa using hlength))

end InOrder

theorem globMatches_iff_inOrder {head tail t : Text} {middle : List Text} :
    globMatches head middle tail t = true ↔
      ∃ window, t = head ++ window ++ tail ∧ InOrder middle window := by
  constructor
  · intro h
    rw [globMatches] at h
    cases hcut : (Text.dropStart? head t).bind (Text.dropEnd? tail) with
    | none =>
      rw [hcut] at h
      cases h
    | some window =>
      rw [hcut] at h
      obtain ⟨rest, hhead, htail⟩ := Option.bind_eq_some_iff.1 hcut
      refine ⟨window, ?_, holdsInOrder_iff.1 h⟩
      rw [Text.dropStart?_eq_some_iff.1 hhead, Text.dropEnd?_eq_some_iff.1 htail,
        List.append_assoc]
  · rintro ⟨window, rfl, h⟩
    exact globMatches_of_inOrder h

namespace Expands

theorem star_cons_iff {s t : Text} :
    Expands ('*' :: s) t ↔ ∃ w u, t = w ++ u ∧ Expands s u := by
  constructor
  · intro h
    cases h with
    | char hc _ => exact absurd rfl hc
    | star w h => exact ⟨w, _, rfl, h⟩
  · rintro ⟨w, u, rfl, h⟩
    exact .star w h

theorem append_iff_of_star_not_mem {p s t : Text} (hp : '*' ∉ p) :
    Expands (p ++ s) t ↔ ∃ u, t = p ++ u ∧ Expands s u := by
  induction p generalizing t with
  | nil => simp
  | cons c p ih =>
    rw [List.mem_cons, not_or] at hp
    constructor
    · intro h
      cases h with
      | char _ h =>
        obtain ⟨u, rfl, hu⟩ := (ih hp.2).1 h
        exact ⟨u, rfl, hu⟩
      | star _ _ => exact absurd rfl hp.1
    · rintro ⟨u, rfl, hu⟩
      exact .char (Ne.symm hp.1) ((ih hp.2).2 ⟨u, rfl, hu⟩)

theorem iff_eq_of_star_not_mem {s t : Text} (hs : '*' ∉ s) : Expands s t ↔ t = s := by
  have h : Expands (s ++ []) t ↔ ∃ u, t = s ++ u ∧ Expands [] u := append_iff_of_star_not_mem hs
  rw [List.append_nil] at h
  rw [h]
  constructor
  · rintro ⟨_, rfl, ⟨⟩⟩
    exact List.append_nil s
  · rintro rfl
    exact ⟨[], (List.append_nil t).symm, .nil⟩

open SegmentPattern (StarFree joinGlob joinGlob_nil joinGlob_cons)

/-- A segment becomes a text when the pieces between its stars occur in that text in order, the
outer ones at its ends. -/
theorem joinGlob_iff_inOrder {head tail t : Text} {middle : List Text}
    (hfree : StarFree (head :: (middle ++ [tail]))) :
    Expands (joinGlob head middle tail) t ↔
      ∃ window, t = head ++ window ++ tail ∧ InOrder middle window := by
  induction middle generalizing head t with
  | nil =>
    have htail : '*' ∉ tail := hfree tail (by simp)
    rw [joinGlob_nil, append_iff_of_star_not_mem (hfree head (by simp))]
    simp only [star_cons_iff, iff_eq_of_star_not_mem htail]
    constructor
    · rintro ⟨_, rfl, window, _, rfl, rfl⟩
      exact ⟨window, (List.append_assoc ..).symm, .nil window⟩
    · rintro ⟨window, rfl, _⟩
      exact ⟨window ++ tail, List.append_assoc .., window, tail, rfl, rfl⟩
  | cons piece middle ih =>
    rw [joinGlob_cons, append_iff_of_star_not_mem (hfree head (by simp))]
    simp only [star_cons_iff, ih fun w hw => hfree w (List.mem_cons_of_mem head hw)]
    constructor
    · rintro ⟨_, rfl, gap, _, rfl, window, rfl, h⟩
      exact ⟨gap ++ piece ++ window, by simp, .cons gap h⟩
    · rintro ⟨_, rfl, _ | ⟨gap, h⟩⟩
      exact ⟨_, List.append_assoc .., gap, _, by simp, _, rfl, h⟩

end Expands

theorem SegmentPattern.ofText_accepts_iff_expands {s t : Text} (hstar : '*' ∈ s)
    (hmany : s ≠ ['*', '*']) : (ofText s).accepts t = true ↔ Expands s t := by
  rcases ofText_cases s with
    ⟨rfl, hs⟩ | ⟨hs, _⟩ | ⟨hs, _⟩ | ⟨head, middle, tail, hfree, rfl, _, _, hs⟩
  · rw [hs, Expands.star_cons_iff]
    exact iff_of_true rfl ⟨t, [], (List.append_nil t).symm, .nil⟩
  · exact absurd hs hmany
  · exact absurd hstar hs
  · rw [hs, accepts, globMatches_iff_inOrder, Expands.joinGlob_iff_inOrder hfree]
    exact exists_congr fun _ => and_congr_right fun _ => InOrder.filter_ne_nil_iff

/-- A glob matches exactly the texts that put its pieces in order between its two ends, wherever
they may overlap or repeat; and a segment with stars, but for a lone `**`, matches exactly what it
becomes when its stars are replaced. -/
theorem globMatches_iff_gaps :
    (∀ (head : Text) (middle : List Text) (tail t : Text),
      globMatches head middle tail t = true ↔
        ∃ first gaps, gaps.length = middle.length ∧
          t = head ++ first ++ (List.zipWith (· ++ ·) middle gaps).flatten ++ tail) ∧
    ∀ s t : Text, '*' ∈ s → s ≠ ['*', '*'] →
      ((SegmentPattern.ofText s).accepts t = true ↔ Expands s t) := by
  refine ⟨fun head middle tail t => ?_, fun s t hstar hmany =>
    SegmentPattern.ofText_accepts_iff_expands hstar hmany⟩
  rw [globMatches_iff_inOrder]
  simp only [InOrder.iff_exists_gaps]
  constructor
  · rintro ⟨_, rfl, first, gaps, hlength, rfl⟩
    exact ⟨first, gaps, hlength, by simp⟩
  · rintro ⟨first, gaps, hlength, rfl⟩
    exact ⟨_, by simp, first, gaps, hlength, rfl⟩

/-- The two ends of a segment may not share characters of the text, and a star may stand for
nothing. -/
theorem globMatches_iff_gaps_overlap :
    let s := "ab**ba".toList
    '*' ∈ s ∧ s ≠ ['*', '*'] ∧ Expands s "abba".toList ∧ ¬ Expands s "aba".toList := by
  intro s
  have hstar : '*' ∈ s := by decide
  have hmany : s ≠ ['*', '*'] := by decide
  refine ⟨hstar, hmany, ?_, ?_⟩
  · rw [← globMatches_iff_gaps.2 s _ hstar hmany]
    decide
  · rw [← globMatches_iff_gaps.2 s _ hstar hmany]
    decide

end UrlPolicy
