import UrlPolicy.Proofs.Rule.Best

/-!
Lists from which entries are left out that can never decide anything: entries that are no pattern,
and entries with the pattern of an earlier one. No winner changes.
-/

set_option autoImplicit false

namespace UrlPolicy

/-- `ys` is `xs` without some of the entries that have no pattern and some of those with the
pattern of an earlier entry that stayed; entries with the patterns `seen` have stayed before. -/
inductive Thinned {α : Type} (pattern : α → Option Pattern) :
    List Pattern → List α → List α → Prop where
  | nil (seen : List Pattern) : Thinned pattern seen [] []
  | keep {seen : List Pattern} {x : α} {xs ys : List α}
      (h : Thinned pattern ((pattern x).toList ++ seen) xs ys) :
      Thinned pattern seen (x :: xs) (x :: ys)
  | dropInvalid {seen : List Pattern} {x : α} {xs ys : List α} (hx : pattern x = none)
      (h : Thinned pattern seen xs ys) : Thinned pattern seen (x :: xs) ys
  | dropRepeated {seen : List Pattern} {x : α} {xs ys : List α} {p : Pattern}
      (hx : pattern x = some p) (hp : p ∈ seen) (h : Thinned pattern seen xs ys) :
      Thinned pattern seen (x :: xs) ys

namespace Thinned

theorem map {α β : Type} {pattern : α → Option Pattern} {pattern' : β → Option Pattern}
    {f : α → β} (hf : ∀ x, pattern' (f x) = pattern x) {seen : List Pattern} {xs ys : List α}
    (h : Thinned pattern seen xs ys) : Thinned pattern' seen (xs.map f) (ys.map f) := by
  induction h with
  | nil seen => exact .nil seen
  | keep _ ih => exact .keep (by rwa [hf])
  | dropInvalid hx _ ih => exact .dropInvalid (by rwa [hf]) ih
  | dropRepeated hx hp _ ih => exact .dropRepeated (by rwa [hf]) hp ih

end Thinned

def Pattern.parse? (raw : Text) : Option Pattern := (Pattern.parse raw).toOption

theorem Rule.read_pattern (raw : Text) : (Rule.read raw).1.pattern = Pattern.parse? raw := by
  rw [Rule.read, Pattern.parse?]
  cases Pattern.parse raw <;> rfl

theorem readRules_thinned {seen : List Pattern} {raws kept : List Text}
    (h : Thinned Pattern.parse? seen raws kept) :
    Thinned Rule.pattern seen (readRules raws) (readRules kept) :=
  h.map Rule.read_pattern

theorem dedupAfter_thinned (seen : List Pattern) (rules : List Rule) :
    Thinned Rule.pattern seen rules (dedupAfter seen rules).kept := by
  induction rules generalizing seen with
  | nil => exact .nil seen
  | cons r rules ih =>
    cases hr : r.pattern with
    | none =>
      simp only [dedupAfter, hr]
      exact .keep (by rw [hr]; exact ih seen)
    | some p =>
      by_cases hp : p ∈ seen
      · simp only [dedupAfter, hr, List.contains_iff_mem, hp, if_true]
        exact .dropRepeated hr hp (ih seen)
      · simp only [dedupAfter, hr, List.contains_iff_mem, hp, if_false]
        exact .keep (by rw [hr]; exact ih (p :: seen))

theorem Rule.not_accepts_of_none {r : Rule} (h : r.pattern = none) (a : Address) :
    r.accepts a = false := by
  simp [Rule.accepts, Rule.outcome, h]

theorem Rule.specificity_of_some {r : Rule} {p : Pattern} (h : r.pattern = some p) :
    r.specificity = p.specificity := by
  simp [Rule.specificity, h]

theorem Rule.accepts_of_some {r : Rule} {p : Pattern} (h : r.pattern = some p) {a : Address} :
    r.accepts a = true ↔ p.outcome a = .matched := by
  simp [Rule.accepts, Rule.outcome, h]

/-- The best rule so far is as specific as every pattern of `seen` that matches. -/
def Covers (seen : List Pattern) (a : Address) (best : Option Rule) : Prop :=
  ∀ p ∈ seen, p.outcome a = .matched → ∃ b, best = some b ∧ p.specificity ≤ b.specificity

namespace Covers

theorem nil (a : Address) (best : Option Rule) : Covers [] a best := by
  intro p hp
  cases hp

theorem better {seen : List Pattern} {a : Address} {best : Option Rule}
    (h : Covers seen a best) (r : Rule) : Covers seen a (Rule.better best r) := by
  intro p hp hmatched
  obtain ⟨b, rfl, hle⟩ := h p hp hmatched
  rw [Rule.better_some]
  refine ⟨_, rfl, ?_⟩
  split <;> omega

theorem keep_better {seen : List Pattern} {a : Address} {best : Option Rule} {r : Rule}
    (h : Covers seen a best) : Covers (r.pattern.toList ++ seen) a (Rule.better best r) := by
  intro p hp
  rcases List.mem_append.1 hp with hp | hp
  · have hr := Rule.specificity_of_some (Option.mem_toList.1 hp)
    intro _
    cases best with
    | none => exact ⟨r, rfl, by omega⟩
    | some b =>
      rw [Rule.better_some]
      refine ⟨_, rfl, ?_⟩
      split <;> omega
  · exact h.better r p hp

theorem keep_of_not_accepts {seen : List Pattern} {a : Address} {best : Option Rule} {r : Rule}
    (h : Covers seen a best) (hr : ¬ r.accepts a = true) :
    Covers (r.pattern.toList ++ seen) a best := by
  intro p hp
  rcases List.mem_append.1 hp with hp | hp
  · exact fun hm => absurd ((Rule.accepts_of_some (Option.mem_toList.1 hp)).2 hm) hr
  · exact h p hp

end Covers

theorem foldl_better_thinned {seen : List Pattern} {rules kept : List Rule} {a : Address}
    (h : Thinned Rule.pattern seen rules kept) {best : Option Rule} (hb : Covers seen a best) :
    (rules.filter (·.accepts a)).foldl Rule.better best =
      (kept.filter (·.accepts a)).foldl Rule.better best := by
  induction h generalizing best with
  | nil => rfl
  | @keep _ r _ _ _ ih =>
    by_cases hr : r.accepts a = true
    · simp only [List.filter_cons, if_pos hr, List.foldl_cons]
      exact ih hb.keep_better
    · simp only [List.filter_cons, if_neg hr]
      exact ih (hb.keep_of_not_accepts hr)
  | dropInvalid hr _ ih =>
    rw [List.filter_cons, Rule.not_accepts_of_none hr]
    exact ih hb
  | @dropRepeated _ r _ _ p hr hp _ ih =>
    by_cases hra : r.accepts a = true
    · obtain ⟨b, rfl, hle⟩ := hb p hp ((Rule.accepts_of_some hr).1 hra)
      have hstay : r.specificity ≤ b.specificity := by rwa [Rule.specificity_of_some hr]
      rw [List.filter_cons, if_pos hra, List.foldl_cons, Rule.better_some, if_pos hstay]
      exact ih hb
    · rw [List.filter_cons, if_neg hra]
      exact ih hb

theorem Ruleset.winner_thinned {rs rs' : Ruleset} {side : Side} {a : Address}
    (h : Thinned Rule.pattern [] (rs.list side) (rs'.list side)) :
    rs'.winner side a = rs.winner side a := by
  rw [winner_eq_foldl, winner_eq_foldl]
  exact (foldl_better_thinned h (Covers.nil a none)).symm

end UrlPolicy
