import UrlPolicy.Proofs.Matching.Glob
import UrlPolicy.Proofs.Matching.Path
import UrlPolicy.Proofs.Pattern.Filling

set_option autoImplicit false

namespace UrlPolicy

open SegmentPattern (canonical StarFree)

namespace SegmentPattern

theorem inOrder_of_filled {middle : List Text} {t : Text} (after : Text) (hfree : StarFree middle)
    (h : Filled (middle.flatMap ('*' :: ·)) t) : InOrder middle (t ++ after) := by
  induction middle generalizing t with
  | nil => exact .nil _
  | cons piece middle ih =>
    rw [List.flatMap_cons] at h
    obtain ⟨front, back, rfl, hfront, hback⟩ := h.of_append
    cases hfront with
    | char hc _ => exact absurd rfl hc
    | @star gap _ piece' _ hpiece =>
      cases hpiece.eq_of_star_not_mem (hfree piece (by simp))
      rw [List.append_assoc]
      exact .cons gap (ih (fun w hw => hfree w (by simp [hw])) hback)

theorem globMatches_of_filled {head tail t : Text} {middle : List Text}
    (hfree : StarFree (head :: (middle ++ [tail]))) (h : Filled (glob head middle tail).text t) :
    globMatches head middle tail t = true := by
  obtain ⟨front, back, rfl, hfront, hback⟩ := Filled.of_append h
  obtain ⟨start, pieces, rfl, hstart, hpieces⟩ := hfront.of_append
  cases hstart.eq_of_star_not_mem (hfree head (by simp))
  cases hback with
  | char hc _ => exact absurd rfl hc
  | @star gap _ tail' _ htail =>
    cases htail.eq_of_star_not_mem (hfree tail (by simp))
    have horder := inOrder_of_filled gap (fun w hw => hfree w (by simp [hw])) hpieces
    have hmatches : globMatches head middle tail (head ++ (pieces ++ gap) ++ tail) = true :=
      globMatches_of_inOrder horder
    simpa only [List.append_assoc] using hmatches

theorem ofText_accepts_of_filled {s t : Text} (h : Filled (canonical s) t) :
    (ofText s).accepts t = true := by
  rcases ofText_cases s with
    ⟨_, hs⟩ | ⟨_, hs⟩ | ⟨hstar, hs⟩ | ⟨head, middle, tail, hfree, _, _, _, hs⟩
  · rw [hs]
    rfl
  · rw [hs]
    rfl
  · rw [canonical_of_star_not_mem hstar] at h
    rw [hs, h.eq_of_star_not_mem hstar]
    exact beq_self_eq_true s
  · rw [canonical, hs] at h
    rw [hs]
    exact globMatches_of_filled hfree.filter h

theorem isSingle_ofText {s : Text} (h : s ≠ ['*', '*']) : (ofText s).isSingle = true := by
  rcases ofText_cases s with ⟨_, hs⟩ | ⟨hmany, _⟩ | ⟨_, hs⟩ | ⟨_, _, _, _, _, _, _, hs⟩
  case inr.inl => exact absurd hmany h
  all_goals
    rw [hs]
    rfl

end SegmentPattern

namespace Fits

theorem anyMany_of_ne_nil {ps : List SegmentPattern} {taken ts : List Text} (hne : taken ≠ [])
    (h : Fits ps ts) : Fits (.anyMany :: ps) (taken ++ ts) := by
  induction taken with
  | nil => exact absurd rfl hne
  | cons t taken ih =>
    by_cases htaken : taken = []
    · rw [htaken]
      exact .last t h
    · exact .more t (ih htaken)

theorem of_filledPieces {ws us : List Text} {ps : List SegmentPattern} {ts : List Text}
    (h : FilledPieces (ws.map canonical) us) (hps : Fits ps ts) :
    Fits (ws.map .ofText ++ ps) (us ++ ts) := by
  generalize hpieces : ws.map canonical = pieces at h
  induction h generalizing ws with
  | nil =>
    rw [List.map_eq_nil_iff.1 hpieces]
    exact hps
  | many hne _ _ ih =>
    obtain ⟨w, ws, rfl, hw, hws⟩ := List.map_eq_cons_iff.1 hpieces
    cases SegmentPattern.canonical_eq_anyMany_iff.1 hw
    rw [List.append_assoc]
    exact anyMany_of_ne_nil hne (ih hws)
  | one hpiece ht _ ih =>
    obtain ⟨w, ws, rfl, rfl, hws⟩ := List.map_eq_cons_iff.1 hpieces
    rw [Ne, SegmentPattern.canonical_eq_anyMany_iff] at hpiece
    exact .single (SegmentPattern.isSingle_ofText hpiece)
      (SegmentPattern.ofText_accepts_of_filled ht) (ih hws)

end Fits

theorem IsFilling.slash_not_mem {w : Text} (h : IsFilling w) : '/' ∉ w :=
  fun hmem => absurd (h.char '/' hmem) (by decide)

theorem IsSegmentation.filled {leading us vs : List Text} {last : Text}
    (h : IsSegmentation leading last) (hleading : FilledPieces leading us)
    (hlast : FilledPieces [last] vs) :
    ∃ front final, us ++ vs = front ++ [final] ∧ IsSegmentation front final := by
  have hne : ∀ u ∈ us, u ≠ [] := fun u hu hnil =>
    hleading.nil_not_mem (fun hmem => h.leading_ne [] hmem rfl) (hnil ▸ hu)
  have hslash : ∀ u ∈ us, '/' ∉ u := by
    intro u hu hmem
    rcases hleading.mem hu hmem with hchar | ⟨w, hw, hmem⟩
    · exact absurd hchar (by decide)
    · exact h.leading_slash w hw hmem
  have hquery : ∀ u ∈ us, ∀ c ∈ u, startsQuery c = false := by
    intro u hu c hc
    rcases hleading.mem hu hc with hchar | ⟨w, hw, hc⟩
    · exact startsQuery_of_isFillChar hchar
    · exact h.leading_query w hw c hc
  cases hlast with
  | @many fillings _ _ hfillings_ne hfillings hnil =>
    cases hnil
    obtain ⟨more, final, rfl⟩ := (List.eq_nil_or_concat fillings).resolve_left hfillings_ne
    rw [List.concat_eq_append] at hfillings ⊢
    have hfinal := hfillings final (by simp)
    have hmore : ∀ w ∈ more, IsFilling w := fun w hw => hfillings w (by simp [hw])
    refine ⟨us ++ more, final, by simp, ⟨?_, ?_, ?_, hfinal.ne_nil, ?_⟩⟩
    · exact fun w hw => (List.mem_append.1 hw).elim (hne w) fun hw => (hmore w hw).ne_nil
    · exact fun w hw => (List.mem_append.1 hw).elim (hslash w) fun hw => (hmore w hw).slash_not_mem
    · refine fun w hw => (List.mem_append.1 hw).elim (hquery w) fun hw c hc => ?_
      exact startsQuery_of_isFillChar ((hmore w hw).char c hc)
    · exact fun hmem => hfinal.slash_not_mem (mem_of_mem_splitQuery_fst hmem)
  | @one _ final _ _ _ hfinal hnil =>
    cases hnil
    refine ⟨us, final, rfl, ⟨hne, hslash, hquery, hfinal.ne_nil h.last_ne, fun hmem => ?_⟩⟩
    rcases hfinal.splitQuery.mem hmem with hchar | hmem
    · exact absurd hchar (by decide)
    · exact h.last_slash hmem

namespace FilledPath

theorem intercalate_concat {ws : List Text} {w u : Text} (hslash : ∀ v ∈ ws, '/' ∉ v)
    (h : FilledPath (['/'].intercalate (ws ++ [w])) u) :
    ∃ us v, FilledPieces ws us ∧ FilledPath w v ∧ u = ['/'].intercalate (us ++ [v]) := by
  obtain ⟨pieces, hpieces, rfl⟩ := h
  rw [Text.splitOn_intercalate_concat w hslash] at hpieces
  obtain ⟨us, vs, rfl, hws, hw⟩ := hpieces.of_append
  refine ⟨us, ['/'].intercalate vs, hws, ⟨vs, hw, rfl⟩, ?_⟩
  rw [Text.intercalate_concat_intercalate us (hw.ne_nil (List.splitOn_ne_nil '/' w))]

theorem pieces_of_canonical {s v : Text} (h : FilledPath (canonical s) v) :
    ∃ vs, FilledPieces [canonical s] vs ∧ v = ['/'].intercalate vs := by
  by_cases hmany : s = ['*', '*']
  · rw [hmany] at h ⊢
    exact h
  · refine ⟨[v], .one ?_ (h.filled (SegmentPattern.many_not_mem_splitOn_canonical hmany)) .nil,
      List.intercalate_singleton.symm⟩
    rwa [Ne, SegmentPattern.canonical_eq_anyMany_iff]

end FilledPath

namespace PathPattern

variable {leading : List Text} {last : Text}

theorem fits_lastSegment {vs : List Text} (h : FilledPieces [canonical last] vs) :
    Fits [lastSegment last] vs := by
  rw [lastSegment]
  split
  · exact .rest [] vs
  · have hfits : Fits ([last].map .ofText ++ []) (vs ++ []) := .of_filledPieces h .nil
    rwa [List.append_nil, List.append_nil] at hfits

theorem segmented_accepts_of_filled {u : Text} (h : IsSegmentation leading last)
    (hlone : ¬ (leading = [] ∧ last = ['*', '*']))
    (hu : FilledPath (['/'].intercalate (leading.map canonical ++ [canonical last])) u) :
    (segmented (leading.map .ofText ++ [lastSegment last])).accepts ('/' :: u) = true := by
  have hcanonical := isSegmentation_canonical h
  rw [canonicalLast_eq hlone] at hcanonical
  obtain ⟨us, v, hus, hv, rfl⟩ := hu.intercalate_concat hcanonical.leading_slash
  obtain ⟨vs, hvs, rfl⟩ := hv.pieces_of_canonical
  obtain ⟨front, final, hsegments, hwell⟩ := hcanonical.filled hus hvs
  rw [accepts, segmentsMatch_iff, Text.intercalate_concat_intercalate us (hvs.ne_nil (by simp)),
    hsegments, pathSegments_intercalate hwell, ← hsegments]
  exact .of_filledPieces hus (fits_lastSegment hvs)

theorem under_accepts_of_filled {base t : Text} (hbase : '*' ∉ base)
    (h : FilledPath (under base).text t) : (under base).accepts t = true := by
  have hmany : ['*', '*'] ∉ List.splitOn '/' (under base).text := by
    rw [text, List.splitOn_append_cons_self, List.mem_append]
    exact not_or_intro (FilledPath.many_not_mem_splitOn hbase) (by decide)
  obtain ⟨front, back, rfl, hfront, hback⟩ := (h.filled hmany).of_append
  cases hfront.eq_of_star_not_mem hbase
  cases hback with
  | @char _ _ rest _ _ =>
    have hdrop : Text.dropStart? base (base ++ '/' :: rest) = some ('/' :: rest) :=
      Text.dropStart?_eq_some_iff.2 rfl
    rw [accepts, hdrop]
    rfl

theorem ofTexts_accepts_of_filled {t : Text} (h : IsSegmentation leading last)
    (ht : FilledPath (ofTexts leading last).text t) : (ofTexts leading last).accepts t = true := by
  rcases ofTexts_cases leading last with ⟨_, hread⟩ | ⟨hfree, hread⟩ |
    ⟨⟨_, hfree, rfl⟩, hread⟩ | ⟨⟨hlone, _⟩, hread⟩
  · rw [hread] at ht ⊢
    obtain ⟨u, rfl, hu⟩ := FilledPath.exists_of_slash ht
    have hne : u ≠ [] := (hu.filled (by decide)).ne_nil (by simp)
    simp [accepts, isRoot, hne]
  · rw [hread] at ht ⊢
    rw [ht.eq_of_star_not_mem (star_not_mem_intercalate hfree)]
    exact beq_self_eq_true _
  · rw [hread] at ht ⊢
    exact under_accepts_of_filled (star_not_mem_intercalate hfree) ht
  · have hmany : ¬ (leading = [] ∧ last = ['*', '*']) := fun h => hlone ⟨h.1, .inr h.2⟩
    rw [text_ofTexts, canonicalLast_eq hmany] at ht
    obtain ⟨u, rfl, hu⟩ := ht.exists_of_slash
    rw [hread]
    exact segmented_accepts_of_filled h hmany hu

theorem accepts_of_filled {body t : Text} {p : PathPattern} (h : parse? ('/' :: body) = some p)
    (ht : FilledPath p.text t) : p.accepts t = true := by
  by_cases hbody : body = []
  · rw [hbody] at h
    cases h
    rw [ht.eq_of_star_not_mem (by decide)]
    rfl
  · obtain ⟨leading, last, _, hsegments, rfl⟩ := parse?_eq_some hbody h
    exact ofTexts_accepts_of_filled hsegments ht

end PathPattern

end UrlPolicy
