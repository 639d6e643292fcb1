import Mathlib.Data.List.Induction
import Mathlib.Data.List.TakeWhile
import UrlPolicy.Text.Blank

set_option autoImplicit false

namespace UrlPolicy.Text

section

variable {p : Char → Bool} {t u : Text}

theorem takeWhile_append_stop (ht : ∀ c ∈ t, p c = true) (hu : ∀ c ∈ u.head?, p c = false) :
    (t ++ u).takeWhile p = t := by
  rw [List.takeWhile_append_of_pos ht]
  cases u with
  | nil => simp
  | cons c u => simp [hu c rfl]

theorem prefix_takeWhile (h : u <+: t) (hu : ∀ c ∈ u, p c = true) : u <+: t.takeWhile p := by
  obtain ⟨v, rfl⟩ := h
  rw [List.takeWhile_append_of_pos hu]
  exact List.prefix_append u _

theorem dropWhile_append_stop (ht : ∀ c ∈ t, p c = true) (hu : ∀ c ∈ u.head?, p c = false) :
    (t ++ u).dropWhile p = u := by
  rw [List.dropWhile_append_of_pos ht]
  cases u with
  | nil => rfl
  | cons c u => simp [hu c rfl]

theorem dropWhile_eq_self (h : ∀ c ∈ t.head?, p c = false) : t.dropWhile p = t :=
  dropWhile_append_stop (t := []) (by simp) h

theorem dropWhile_reverse_eq_self (h : ∀ c ∈ t.getLast?, p c = false) :
    t.reverse.dropWhile p = t.reverse :=
  dropWhile_eq_self fun c hc => h c (by rwa [List.head?_reverse] at hc)

theorem head?_dropWhile {c : Char} (h : c ∈ (t.dropWhile p).head?) : p c = false := by
  have := List.head?_dropWhile_not p t
  rw [Option.mem_def.1 h] at this
  simpa using this

end

theorem trim_eq_self_of_ends {t : Text} (hhead : ∀ c ∈ t.head?, isBlank c = false)
    (hlast : ∀ c ∈ t.getLast?, isBlank c = false) : trim t = t := by
  rw [trim, dropWhile_eq_self hhead, dropWhile_reverse_eq_self hlast, List.reverse_reverse]

theorem trim_eq_self {t : Text} (h : ∀ c ∈ t, isBlank c = false) : trim t = t :=
  trim_eq_self_of_ends (fun c hc => h c (List.mem_of_mem_head? hc))
    fun c hc => h c (List.mem_of_mem_getLast? hc)

theorem mem_of_mem_trim {c : Char} {t : Text} (h : c ∈ trim t) : c ∈ t := by
  rw [trim, List.mem_reverse] at h
  exact (List.dropWhile_sublist _).subset
    (List.mem_reverse.1 ((List.dropWhile_sublist _).subset h))

theorem trim_cons_of_isBlank {c : Char} (t : Text) (h : isBlank c = true) :
    trim (c :: t) = trim t := by
  simp [trim, h]

theorem trim_concat_of_isBlank {c : Char} (t : Text) (h : isBlank c = true) :
    trim (t ++ [c]) = trim t := by
  rw [trim, List.dropWhile_append]
  split
  · next hempty => simp [trim, h, List.isEmpty_iff.1 hempty]
  · simp [trim, h]

theorem trim_prefix (t : Text) : trim t <+: t.dropWhile isBlank := by
  have hsuffix := List.dropWhile_suffix (l := (t.dropWhile isBlank).reverse) isBlank
  simpa [trim] using List.reverse_prefix.2 hsuffix

theorem isBlank_of_head?_trim {c : Char} {t : Text} (h : c ∈ (trim t).head?) :
    isBlank c = false := by
  refine head?_dropWhile (t := t) (p := isBlank) ?_
  obtain ⟨r, hr⟩ := trim_prefix t
  rw [← hr, List.head?_append, Option.mem_def.1 h]
  rfl

theorem isBlank_of_getLast?_trim {c : Char} {t : Text} (h : c ∈ (trim t).getLast?) :
    isBlank c = false := by
  rw [trim, List.getLast?_reverse] at h
  exact head?_dropWhile h

theorem trim_trim (t : Text) : trim (trim t) = trim t :=
  trim_eq_self_of_ends (fun _ => isBlank_of_head?_trim) fun _ => isBlank_of_getLast?_trim

theorem trim_cons_trim {c : Char} (t : Text) (h : isBlank c = false) :
    trim (c :: trim t) = c :: trim t := by
  refine trim_eq_self_of_ends (by simpa using h) fun d hd => ?_
  cases hlast : (trim t).getLast? with
  | none =>
    rw [List.getLast?_cons, hlast] at hd
    rwa [← Option.some.inj hd]
  | some e =>
    rw [List.getLast?_cons, hlast] at hd
    rw [← Option.some.inj hd]
    exact isBlank_of_getLast?_trim hlast

theorem trim_trim_concat {c : Char} (t : Text) (h : isBlank c = false) :
    trim (trim t ++ [c]) = trim t ++ [c] := by
  refine trim_eq_self_of_ends (fun d hd => ?_) (by simpa using h)
  rw [List.head?_append] at hd
  cases hhead : (trim t).head? with
  | none =>
    rw [hhead] at hd
    rwa [← Option.some.inj hd]
  | some e =>
    rw [hhead] at hd
    rw [← Option.some.inj hd]
    exact isBlank_of_head?_trim hhead

def trimEnd (t : Text) : Text := (t.reverse.dropWhile isBlank).reverse

theorem trimEnd_cons {c : Char} (t : Text) (h : isBlank c = false) :
    trimEnd (c :: t) = c :: trimEnd t := by
  rw [trimEnd, List.reverse_cons, List.dropWhile_append]
  split
  · next hempty => simp [trimEnd, h, List.isEmpty_iff.1 hempty]
  · rw [List.reverse_append]
    rfl

/-- Only the end of a text is trimmed if it starts with a character that stays. -/
theorem trim_append {s : Text} (t : Text) (hhead : ∀ c ∈ s.head?, isBlank c = false)
    (hlast : ∀ c ∈ s.getLast?, isBlank c = false) (hs : s ≠ []) :
    trim (s ++ t) = s ++ trimEnd t := by
  have hstart : (s ++ t).dropWhile isBlank = s ++ t := by
    refine dropWhile_eq_self fun c hc => hhead c ?_
    rw [List.head?_append, List.head?_eq_some_head hs, Option.some_or] at hc
    rwa [List.head?_eq_some_head hs]
  rw [trim, hstart, List.reverse_append, List.dropWhile_append, dropWhile_reverse_eq_self hlast,
    trimEnd]
  split
  · next hempty => rw [List.reverse_reverse, List.isEmpty_iff.1 hempty]; simp
  · rw [List.reverse_append, List.reverse_reverse]

theorem afterLast_append {c : Char} (s : Text) {t : Text} (h : c ∉ t) :
    afterLast c (s ++ c :: t) = t := by
  have hpass : ∀ d ∈ t.reverse, decide (d ≠ c) = true := by
    simpa using fun d hd => ne_of_mem_of_not_mem hd h
  have hstop : ∀ d ∈ (c :: s.reverse).head?, decide (d ≠ c) = false := by simp
  have hreverse : (s ++ c :: t).reverse = t.reverse ++ c :: s.reverse := by simp
  rw [afterLast, hreverse, takeWhile_append_stop hpass hstop, List.reverse_reverse]

theorem afterLast_eq_self {c : Char} {t : Text} (h : c ∉ t) : afterLast c t = t := by
  rw [afterLast, List.takeWhile_eq_self_iff.2, List.reverse_reverse]
  intro d hd
  have hne : d ≠ c := by
    rintro rfl
    exact h (List.mem_reverse.1 hd)
  simpa using hne

theorem not_mem_afterLast (c : Char) (t : Text) : c ∉ afterLast c t := by
  intro h
  rw [afterLast, List.mem_reverse] at h
  simpa using List.mem_takeWhile_imp h

theorem exists_append_afterLast {c : Char} {t : Text} (h : c ∈ t) :
    ∃ s, t = s ++ c :: afterLast c t := by
  obtain ⟨u, s, hreverse, hu⟩ := List.eq_append_cons_of_mem (List.mem_reverse.2 h)
  have ht : t = s.reverse ++ c :: u.reverse := by
    rw [← List.reverse_reverse t, hreverse]
    simp
  refine ⟨s.reverse, ?_⟩
  rw [ht, afterLast_append s.reverse (by simpa using hu)]

theorem chop_cases (c : Char) (t : Text) : t = chop c t ++ [c] ∨ chop c t = t := by
  cases h : dropEnd? [c] t with
  | none => exact .inr (by rw [chop, h]; rfl)
  | some s =>
    have hs := dropEnd?_eq_some_iff.1 h
    exact .inl (by rw [chop, h]; exact hs)

theorem chop_concat (c d : Char) (t : Text) :
    chop c (t ++ [d]) = if d = c then t else t ++ [d] := by
  by_cases hd : d = c
  · rw [if_pos hd, hd, chop_append]
  · rw [if_neg hd]
    refine (chop_cases c (t ++ [d])).resolve_left fun h => hd ?_
    simpa using (List.append_inj' h rfl).2

theorem chop_eq_self_of_getLast? {c : Char} {t : Text} (h : t.getLast? ≠ some c) :
    chop c t = t := by
  refine (chop_cases c t).resolve_left fun ht => h ?_
  rw [ht, List.getLast?_append, List.getLast?_singleton]
  rfl

theorem chop_eq_self_iff {c : Char} {t : Text} : chop c t = t ↔ t.getLast? ≠ some c := by
  refine ⟨fun h hlast => ?_, chop_eq_self_of_getLast?⟩
  obtain ⟨u, rfl⟩ := List.getLast?_eq_some_iff.1 hlast
  rw [chop_append] at h
  simpa using congrArg List.length h

theorem chop_eq_chop_iff {c : Char} {t u : Text} : chop c t = chop c u ↔
    t = u ∨ ∃ v, v.getLast? ≠ some c ∧ (t = v ∧ u = v ++ [c] ∨ t = v ++ [c] ∧ u = v) := by
  constructor
  · intro h
    rcases chop_cases c t with ht | ht <;> rcases chop_cases c u with hu | hu
    · exact .inl (by rw [ht, h, ← hu])
    · exact .inr ⟨u, chop_eq_self_iff.1 hu, .inr ⟨by rw [← hu, ← h, ← ht], rfl⟩⟩
    · exact .inr ⟨t, chop_eq_self_iff.1 ht, .inl ⟨rfl, by rw [← ht, h, ← hu]⟩⟩
    · exact .inl (by rw [← ht, h, hu])
  · rintro (rfl | ⟨v, hv, ⟨rfl, rfl⟩ | ⟨rfl, rfl⟩⟩)
    · rfl
    · rw [chop_append, chop_eq_self_of_getLast? hv]
    · rw [chop_append, chop_eq_self_of_getLast? hv]

theorem chop_append_ite {c : Char} {t : Text} (b : Bool) (h : t.getLast? ≠ some c) :
    chop c (t ++ if b then [c] else []) = t := by
  cases b with
  | true => exact chop_append c t
  | false => exact (List.append_nil t).symm ▸ chop_eq_self_of_getLast? h

theorem chop_append_replicate {c : Char} {t : Text} (n : Nat) (h : t.getLast? ≠ some c) :
    chop c (t ++ List.replicate n c) = t ++ List.replicate (n - 1) c := by
  cases n with
  | zero => simpa using chop_eq_self_of_getLast? h
  | succ n =>
    rw [List.replicate_succ', ← List.append_assoc, chop_append]
    rfl

theorem getLast?_append_replicate_iff {c : Char} {t : Text} (n : Nat) (h : t.getLast? ≠ some c) :
    (t ++ List.replicate n c).getLast? = some c ↔ n ≠ 0 := by
  cases n with
  | zero => simpa using h
  | succ n => simp [List.replicate_succ']

theorem exists_append_replicate (c : Char) (t : Text) :
    ∃ s n, t = s ++ List.replicate n c ∧ s.getLast? ≠ some c := by
  induction t using List.reverseRecOn with
  | nil => exact ⟨[], 0, rfl, by simp⟩
  | append_singleton t d ih =>
    by_cases hd : d = c
    · obtain ⟨s, n, ht, hs⟩ := ih
      exact ⟨s, n + 1, by rw [ht, hd, List.replicate_succ', List.append_assoc], hs⟩
    · exact ⟨t ++ [d], 0, by simp, by simpa using hd⟩

theorem chop_append_of_ne_nil (c : Char) (s : Text) {t : Text} (h : t ≠ []) :
    chop c (s ++ t) = s ++ chop c t := by
  obtain ⟨u, d, rfl⟩ := List.eq_nil_or_concat t |>.resolve_left h
  rw [List.concat_eq_append, ← List.append_assoc, chop_concat, chop_concat]
  split <;> simp

theorem chop_isPrefix (c : Char) (t : Text) : chop c t <+: t := by
  rcases chop_cases c t with ht | ht
  · exact ⟨[c], ht.symm⟩
  · exact ⟨[], by rw [ht, List.append_nil]⟩

theorem mem_of_mem_chop {c d : Char} {t : Text} (h : d ∈ chop c t) : d ∈ t :=
  (chop_isPrefix c t).subset h

theorem mem_chop_iff {c d : Char} {t : Text} (h : d ≠ c) : d ∈ chop c t ↔ d ∈ t := by
  refine ⟨mem_of_mem_chop, fun hd => ?_⟩
  rcases chop_cases c t with ht | ht
  · rw [ht] at hd
    simpa [h] using hd
  · rwa [ht]

theorem holds_iff_infix {p t : Text} : holds p t = true ↔ p <:+: t := by
  rw [holds_iff]
  exact exists_congr fun _ => exists_congr fun _ => eq_comm

theorem intercalate_cons {sep : Char} (w : Text) {ws : List Text} (h : ws ≠ []) :
    [sep].intercalate (w :: ws) = w ++ sep :: [sep].intercalate ws := by
  rw [List.intercalate_cons_of_ne_nil h, List.append_assoc, List.singleton_append]

theorem intercalate_concat {sep : Char} {ws : List Text} (w : Text) (h : ws ≠ []) :
    [sep].intercalate (ws ++ [w]) = [sep].intercalate ws ++ sep :: w := by
  induction ws with
  | nil => exact absurd rfl h
  | cons v ws ih =>
    by_cases hws : ws = []
    · simp [hws]
    · rw [List.cons_append, intercalate_cons v (by simp), ih hws, intercalate_cons v hws]
      simp

theorem intercalate_append {sep : Char} {vs ws : List Text} (hv : vs ≠ []) (hw : ws ≠ []) :
    [sep].intercalate (vs ++ ws) =
      [sep].intercalate vs ++ sep :: [sep].intercalate ws := by
  induction vs with
  | nil => exact absurd rfl hv
  | cons v vs ih =>
    by_cases hvs : vs = []
    · rw [hvs, List.singleton_append, intercalate_cons v hw, List.intercalate_singleton]
    · rw [List.cons_append, intercalate_cons v (by simp [hvs]), ih hvs, intercalate_cons v hvs]
      simp

theorem intercalate_concat_append (sep : Char) (ws : List Text) (w t : Text) :
    [sep].intercalate (ws ++ [w ++ t]) = [sep].intercalate (ws ++ [w]) ++ t := by
  by_cases hws : ws = []
  · simp [hws]
  · rw [intercalate_concat _ hws, intercalate_concat _ hws]
    simp

theorem intercalate_concat_intercalate {sep : Char} (vs : List Text) {ws : List Text}
    (h : ws ≠ []) : [sep].intercalate (vs ++ [[sep].intercalate ws]) =
      [sep].intercalate (vs ++ ws) := by
  by_cases hv : vs = []
  · simp [hv]
  · rw [intercalate_concat _ hv, intercalate_append hv h]

theorem intercalate_cons_flatMap (sep : Char) (w : Text) (ws : List Text) :
    [sep].intercalate (w :: ws) = w ++ ws.flatMap (sep :: ·) := by
  induction ws generalizing w with
  | nil => simp
  | cons v ws ih => rw [intercalate_cons w (by simp), ih, List.flatMap_cons, List.cons_append]

theorem infix_intercalate {sep : Char} {ws : List Text} {w : Text} (h : w ∈ ws) :
    w <:+: [sep].intercalate ws := by
  induction ws with
  | nil => cases h
  | cons v ws ih =>
    by_cases hws : ws = []
    · rw [hws] at h ⊢
      obtain rfl := List.mem_singleton.1 h
      exact ⟨[], [], by simp⟩
    · rw [intercalate_cons v hws]
      rcases List.mem_cons.1 h with rfl | h
      · exact ⟨[], sep :: [sep].intercalate ws, rfl⟩
      · obtain ⟨before, after, hw⟩ := ih h
        exact ⟨v ++ sep :: before, after, by simp [← hw]⟩

theorem mem_intercalate_iff {sep c : Char} {ws : List Text} (hc : c ≠ sep) :
    c ∈ [sep].intercalate ws ↔ ∃ w ∈ ws, c ∈ w := by
  induction ws with
  | nil => simp
  | cons w ws ih =>
    by_cases hws : ws = []
    · simp [hws]
    · rw [intercalate_cons w hws]
      simp [ih, hc]

theorem mem_of_mem_splitOn {sep c : Char} {t w : Text} (hw : w ∈ List.splitOn sep t)
    (hc : c ∈ w) : c ∈ t := by
  have hne : c ≠ sep := by
    rintro rfl
    exact not_mem_of_mem_splitOn hw hc
  rw [← @List.intercalate_splitOn _ t _ _ sep]
  exact (mem_intercalate_iff hne).2 ⟨w, hw, hc⟩

theorem splitOn_concat {sep c : Char} (t : Text) (h : c ≠ sep) :
    ∃ ws w, List.splitOn sep t = ws ++ [w] ∧ List.splitOn sep (t ++ [c]) = ws ++ [w ++ [c]] := by
  induction t with
  | nil => exact ⟨[], [], rfl, by simp [List.splitOn_cons_eq_if_modifyHead, h]⟩
  | cons d t ih =>
    obtain ⟨ws, w, ht, htc⟩ := ih
    rw [List.cons_append, List.splitOn_cons_eq_if_modifyHead, List.splitOn_cons_eq_if_modifyHead,
      ht, htc]
    split
    · exact ⟨[] :: ws, w, rfl, rfl⟩
    · cases ws with
      | nil => exact ⟨[], d :: w, rfl, rfl⟩
      | cons v ws => exact ⟨(d :: v) :: ws, w, rfl, rfl⟩

theorem splitOn_intercalate_concat {sep : Char} {ws : List Text} (t : Text)
    (h : ∀ w ∈ ws, sep ∉ w) :
    List.splitOn sep ([sep].intercalate (ws ++ [t])) = ws ++ List.splitOn sep t := by
  induction ws with
  | nil => simp
  | cons w ws ih =>
    rw [List.cons_append, intercalate_cons w (by simp),
      List.splitOn_append_cons_self_of_not_mem (h w (by simp)), ih fun v hv => h v (by simp [hv])]
    rfl

/-- A text without empty pieces does not end with the separator. -/
theorem getLast?_ne_of_splitOn {sep : Char} {t : Text} (h : [] ∉ List.splitOn sep t) :
    t.getLast? ≠ some sep := by
  intro hlast
  obtain ⟨s, rfl⟩ := List.getLast?_eq_some_iff.1 hlast
  rw [List.splitOn_append_cons_self, List.splitOn_nil] at h
  exact absurd (List.mem_append_right _ List.mem_cons_self) h

theorem chop_eq_self {sep : Char} {t : Text} (h : [] ∉ List.splitOn sep t) : chop sep t = t :=
  chop_eq_self_of_getLast? (getLast?_ne_of_splitOn h)

end UrlPolicy.Text
