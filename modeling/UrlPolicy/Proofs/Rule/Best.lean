import UrlPolicy.Rule.Ruleset

set_option autoImplicit false

namespace UrlPolicy

/-- The first of those elements of a list that have the greatest key. -/
def IsFirstMax {α : Type} (key : α → Nat) (xs : List α) (x : α) : Prop :=
  ∃ before after, xs = before ++ x :: after ∧ (∀ y ∈ before, key y < key x) ∧
    ∀ y ∈ after, key y ≤ key x

namespace IsFirstMax

variable {α : Type} {key : α → Nat} {xs : List α} {x y b : α}

theorem mem (h : IsFirstMax key xs x) : x ∈ xs := by
  obtain ⟨before, after, rfl, _, _⟩ := h
  simp

theorem key_le (h : IsFirstMax key xs x) (hy : y ∈ xs) : key y ≤ key x := by
  obtain ⟨before, after, rfl, hb, ha⟩ := h
  rcases List.mem_append.1 hy with hy | hy
  · exact Nat.le_of_lt (hb y hy)
  · rcases List.mem_cons.1 hy with rfl | hy
    · exact Nat.le_refl _
    · exact ha y hy

theorem cons (h : IsFirstMax key xs x) (hb : key b < key x) : IsFirstMax key (b :: xs) x := by
  obtain ⟨before, after, rfl, hbefore, hafter⟩ := h
  refine ⟨b :: before, after, rfl, ?_, hafter⟩
  intro y hy
  rcases List.mem_cons.1 hy with rfl | hy
  · exact hb
  · exact hbefore y hy

theorem insert (h : IsFirstMax key (b :: xs) x) (hy : key y ≤ key b) :
    IsFirstMax key (b :: y :: xs) x := by
  obtain ⟨before, after, he, hbefore, hafter⟩ := h
  cases before with
  | nil =>
    obtain ⟨rfl, rfl⟩ := List.cons.inj he
    exact ⟨[], y :: xs, rfl, by simp, by simpa [hy] using hafter⟩
  | cons c before =>
    obtain ⟨rfl, rfl⟩ := List.cons.inj he
    have hbx := hbefore b (by simp)
    refine ⟨b :: y :: before, after, rfl, ?_, hafter⟩
    intro z hz
    rcases List.mem_cons.1 hz with rfl | hz
    · exact hbx
    · rcases List.mem_cons.1 hz with rfl | hz
      · omega
      · exact hbefore z (by simp [hz])

/-- A search that keeps what it has unless the next one is better finds the first of the best. -/
theorem exists_foldl {better : Option α → α → Option α}
    (hbetter : ∀ b y, better (some b) y = some (if key y ≤ key b then b else y)) (b : α)
    (xs : List α) : ∃ x, xs.foldl better (some b) = some x ∧ IsFirstMax key (b :: xs) x := by
  induction xs generalizing b with
  | nil => exact ⟨b, rfl, [], [], rfl, by simp, by simp⟩
  | cons y xs ih =>
    rw [List.foldl_cons, hbetter]
    by_cases hy : key y ≤ key b
    · obtain ⟨x, hx, hmax⟩ := ih b
      exact ⟨x, by rw [if_pos hy]; exact hx, hmax.insert hy⟩
    · obtain ⟨x, hx, hmax⟩ := ih y
      have hle := hmax.key_le (y := y) (by simp)
      exact ⟨x, by rw [if_neg hy]; exact hx, hmax.cons (by omega)⟩

end IsFirstMax

/-- The first of the most specific rules of a list. -/
def IsBest (rules : List Rule) (r : Rule) : Prop :=
  ∃ before after, rules = before ++ r :: after ∧
    (∀ s ∈ before, s.specificity < r.specificity) ∧
    ∀ s ∈ after, s.specificity ≤ r.specificity

namespace IsBest

theorem mem {rules : List Rule} {r : Rule} (h : IsBest rules r) : r ∈ rules :=
  (show IsFirstMax Rule.specificity rules r from h).mem

theorem specificity_le {rules : List Rule} {r s : Rule} (h : IsBest rules r) (hs : s ∈ rules) :
    s.specificity ≤ r.specificity :=
  (show IsFirstMax Rule.specificity rules r from h).key_le hs

end IsBest

/-- The search for the best match, on rules alone. -/
def Rule.better (best : Option Rule) (r : Rule) : Option Rule :=
  match best with
  | none => some r
  | some b => if r.specificity ≤ b.specificity then some b else some r

theorem Rule.better_some (b r : Rule) :
    Rule.better (some b) r = some (if r.specificity ≤ b.specificity then b else r) := by
  rw [Rule.better]
  split <;> rfl

theorem foldl_better_map (found : List RuleMatch) (best : Option RuleMatch) :
    (found.foldl RuleMatch.better best).map RuleMatch.rule =
      (found.map RuleMatch.rule).foldl Rule.better (best.map RuleMatch.rule) := by
  induction found generalizing best with
  | nil => rfl
  | cons m found ih =>
    have hm : (RuleMatch.better best m).map RuleMatch.rule =
        Rule.better (best.map RuleMatch.rule) m.rule := by
      cases best with
      | none => rfl
      | some b =>
        simp only [RuleMatch.better, Rule.better, Option.map_some]
        split <;> rfl
    rw [List.foldl_cons, ih, hm]
    rfl

theorem map_matchingRules (rules : List Rule) (a : Address) :
    (matchingRules rules a).map RuleMatch.rule = rules.filter (·.accepts a) := by
  have h : ∀ n, ((rules.zipIdx n).filter fun r => r.1.accepts a).map Prod.fst =
      rules.filter (·.accepts a) := by
    induction rules with
    | nil => simp
    | cons r rules ih =>
      intro n
      by_cases hr : r.accepts a = true
      · simp [List.zipIdx_cons, hr, ih]
      · simp [List.zipIdx_cons, hr, ih]
  rw [matchingRules, List.map_map, ← h 0]
  rfl

namespace Ruleset

def accepting (rs : Ruleset) (side : Side) (a : Address) : List Rule :=
  (rs.list side).filter (·.accepts a)

theorem mem_accepting {rs : Ruleset} {side : Side} {a : Address} {r : Rule} :
    r ∈ rs.accepting side a ↔ r ∈ rs.list side ∧ r.accepts a = true :=
  List.mem_filter

def winner (rs : Ruleset) (side : Side) (a : Address) : Option Rule :=
  (rs.best side a).map RuleMatch.rule

theorem winner_eq_foldl (rs : Ruleset) (side : Side) (a : Address) :
    rs.winner side a = (rs.accepting side a).foldl Rule.better none := by
  rw [winner, best, bestMatch, foldl_better_map, matching, map_matchingRules]
  rfl

theorem winner_cases (rs : Ruleset) (side : Side) (a : Address) :
    (rs.winner side a = none ∧ rs.accepting side a = []) ∨
      ∃ r, rs.winner side a = some r ∧ IsBest (rs.accepting side a) r := by
  rw [winner_eq_foldl]
  cases rs.accepting side a with
  | nil => exact .inl ⟨rfl, rfl⟩
  | cons b rules => exact .inr (IsFirstMax.exists_foldl Rule.better_some b rules)

theorem isBest_of_winner {rs : Ruleset} {side : Side} {a : Address} {r : Rule}
    (h : rs.winner side a = some r) : IsBest (rs.accepting side a) r := by
  rcases rs.winner_cases side a with ⟨hn, _⟩ | ⟨b, hb, hbest⟩
  · cases hn.symm.trans h
  · cases hb.symm.trans h
    exact hbest

theorem winner_eq_none_iff {rs : Ruleset} {side : Side} {a : Address} :
    rs.winner side a = none ↔ rs.accepting side a = [] := by
  rcases rs.winner_cases side a with ⟨hn, hempty⟩ | ⟨r, hr, hbest⟩
  · exact iff_of_true hn hempty
  · exact iff_of_false (by simp [hr]) (List.ne_nil_of_mem hbest.mem)

end Ruleset

end UrlPolicy
