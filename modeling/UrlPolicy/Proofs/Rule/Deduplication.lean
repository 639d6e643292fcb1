import UrlPolicy.Proofs.Rule.Compilation
import UrlPolicy.Proofs.Rule.Thinning

/-!
Compiling two lists of entries: which rules are left out, and what is reported. Main statement: a
rule is left out exactly when an earlier rule of its list has its pattern; and places and numbers
are reported as the entries were given, before any of their rules was left out.
-/

set_option autoImplicit false

namespace UrlPolicy

/-- The rule at a place has a pattern, and an earlier rule of the list has it too. -/
def RepeatsAt (rules : List Rule) (n : Nat) : Prop :=
  ∃ p ∈ rules[n]?.bind Rule.pattern, ∃ r ∈ rules.take n, r.pattern = some p

instance (rules : List Rule) : DecidablePred (RepeatsAt rules) :=
  fun n => inferInstanceAs (Decidable (∃ p ∈ rules[n]?.bind Rule.pattern, _))

/-- The rules at the places that meet a condition. The first of the rules is at `start`. -/
def pickFrom (start : Nat) (P : Nat → Prop) [DecidablePred P] (rules : List Rule) : List Rule :=
  ((rules.zipIdx start).filter fun r => P r.2).map Prod.fst

theorem pickFrom_cons (start : Nat) (P : Nat → Prop) [DecidablePred P] (r : Rule)
    (rules : List Rule) : pickFrom start P (r :: rules) =
      if P start then r :: pickFrom (start + 1) P rules else pickFrom (start + 1) P rules := by
  by_cases h : P start <;> simp [pickFrom, List.zipIdx_cons, h]

/-- A rule without a pattern adds nothing to what has been seen. -/
theorem dedupAfter_cons (seen : List Pattern) (r : Rule) (rules : List Rule) :
    dedupAfter seen (r :: rules) =
      if ∃ p ∈ r.pattern, p ∈ seen then
        ⟨(dedupAfter seen rules).kept, r :: (dedupAfter seen rules).dropped⟩
      else
        ⟨r :: (dedupAfter (r.pattern.toList ++ seen) rules).kept,
          (dedupAfter (r.pattern.toList ++ seen) rules).dropped⟩ := by
  cases hr : r.pattern with
  | none => simp [dedupAfter, hr]
  | some p => simp [dedupAfter, hr]

section

variable {before rules : List Rule} {seen : List Pattern}

theorem repeatsAt_length (r : Rule) : RepeatsAt (before ++ r :: rules) before.length ↔
    ∃ p ∈ r.pattern, p ∈ before.filterMap Rule.pattern := by
  simp [RepeatsAt]

/-- The places count the rules `before`, whose patterns have been seen. -/
theorem dedupAfter_eq (before : List Rule)
    (hseen : ∀ p, p ∈ seen ↔ p ∈ before.filterMap Rule.pattern) : dedupAfter seen rules =
      ⟨pickFrom before.length (fun n => ¬ RepeatsAt (before ++ rules) n) rules,
        pickFrom before.length (RepeatsAt (before ++ rules)) rules⟩ := by
  induction rules generalizing before seen with
  | nil => rfl
  | cons r rules ih =>
    have hhead : RepeatsAt (before ++ r :: rules) before.length ↔
        ∃ p ∈ r.pattern, p ∈ seen := by
      simp only [repeatsAt_length, hseen]
    have htail {seen' : List Pattern}
        (h : ∀ p, p ∈ seen' ↔ p ∈ before.filterMap Rule.pattern ∨ r.pattern = some p) :
        dedupAfter seen' rules =
          ⟨pickFrom (before.length + 1) (fun n => ¬ RepeatsAt (before ++ r :: rules) n) rules,
            pickFrom (before.length + 1) (RepeatsAt (before ++ r :: rules)) rules⟩ := by
      have hrest := ih (before ++ [r]) (by simpa using h)
      simpa using hrest
    rw [dedupAfter_cons, pickFrom_cons, pickFrom_cons]
    by_cases hrepeats : ∃ p ∈ r.pattern, p ∈ seen
    · rw [if_pos hrepeats, if_neg (not_not_intro (hhead.2 hrepeats)), if_pos (hhead.2 hrepeats),
        htail fun q => ?_]
      obtain ⟨p, hp, hmem⟩ := hrepeats
      rw [hseen q, Option.mem_def.1 hp, Option.some.injEq]
      exact (or_iff_left_of_imp fun hq => hq ▸ (hseen p).1 hmem).symm
    · have hno := fun h => hrepeats (hhead.1 h)
      rw [if_neg hrepeats, if_pos hno, if_neg hno,
        htail fun q => by rw [List.mem_append, Option.mem_toList, hseen, or_comm]]

theorem dedup_eq (rules : List Rule) :
    dedup rules =
      ⟨pickFrom 0 (fun n => ¬ RepeatsAt rules n) rules, pickFrom 0 (RepeatsAt rules) rules⟩ :=
  dedupAfter_eq [] (by simp)

theorem filterMap_pattern_cons (r : Rule) (rules : List Rule) :
    (r :: rules).filterMap Rule.pattern = r.pattern.toList ++ rules.filterMap Rule.pattern := by
  cases hr : r.pattern <;> simp [hr]

theorem patterns_dedupAfter (seen : List Pattern) (rules : List Rule) :
    ((dedupAfter seen rules).kept.filterMap Rule.pattern).Nodup ∧
      ∀ p ∈ (dedupAfter seen rules).kept.filterMap Rule.pattern, p ∉ seen := by
  induction rules generalizing seen with
  | nil => simp [dedupAfter]
  | cons r rules ih =>
    rw [dedupAfter_cons]
    split
    · exact ih seen
    · next hnew =>
      obtain ⟨hnodup, hunseen⟩ := ih (r.pattern.toList ++ seen)
      simp only [List.mem_append, not_or] at hunseen
      have hsingle : r.pattern.toList.Nodup := by cases r.pattern <;> simp
      rw [filterMap_pattern_cons]
      refine ⟨List.nodup_append.2 ⟨hsingle, hnodup, fun p hp q hq heq => ?_⟩, fun p hp hmem => ?_⟩
      · exact (hunseen q hq).1 (heq ▸ hp)
      · rcases List.mem_append.1 hp with hp | hp
        · exact hnew ⟨p, Option.mem_toList.1 hp, hmem⟩
        · exact (hunseen p hp).2 hmem

theorem dedupAfter_eq_self (hnodup : (rules.filterMap Rule.pattern).Nodup)
    (hseen : ∀ p ∈ rules.filterMap Rule.pattern, p ∉ seen) :
    dedupAfter seen rules = ⟨rules, []⟩ := by
  induction rules generalizing seen with
  | nil => rfl
  | cons r rules ih =>
    rw [filterMap_pattern_cons] at hnodup hseen
    obtain ⟨_, hrules, hdistinct⟩ := List.nodup_append.1 hnodup
    have hnew : ¬ ∃ p ∈ r.pattern, p ∈ seen := by
      intro ⟨p, hp, hmem⟩
      exact hseen p (List.mem_append_left _ (Option.mem_toList.2 hp)) hmem
    rw [dedupAfter_cons, if_neg hnew, ih hrules]
    intro p hp hmem
    rcases List.mem_append.1 hmem with hmem | hmem
    · exact hdistinct p hmem p hp rfl
    · exact hseen p (List.mem_append_right _ hp) hmem

theorem dedup_kept (rules : List Rule) : dedup (dedup rules).kept = ⟨(dedup rules).kept, []⟩ :=
  dedupAfter_eq_self (patterns_dedupAfter [] rules).1 (by simp)

theorem length_dedupAfter (seen : List Pattern) (rules : List Rule) :
    (dedupAfter seen rules).kept.length + (dedupAfter seen rules).dropped.length =
      rules.length := by
  induction rules generalizing seen with
  | nil => rfl
  | cons r rules ih =>
    rw [dedupAfter_cons]
    split
    · have h := ih seen
      simp only [List.length_cons]
      omega
    · have h := ih (r.pattern.toList ++ seen)
      simp only [List.length_cons]
      omega

def placeholders (rules : List Rule) : List Rule := rules.filter (!·.isValid)

theorem placeholders_dedupAfter (seen : List Pattern) (rules : List Rule) :
    placeholders (dedupAfter seen rules).kept = placeholders rules := by
  induction rules generalizing seen with
  | nil => rfl
  | cons r rules ih =>
    rw [dedupAfter_cons]
    split
    · next hrepeats =>
      obtain ⟨p, hp, _⟩ := hrepeats
      have hvalid : r.isValid = true := by rw [Rule.isValid, Option.mem_def.1 hp]; rfl
      rw [ih, placeholders, placeholders, List.filter_cons_of_neg (by simp [hvalid])]
    · simp only [placeholders, List.filter_cons] at ih ⊢
      rw [ih]

end

theorem Rule.read_snd_eq_some_iff {raw : Text} {e : PatternError} :
    (Rule.read raw).2 = some e ↔ Pattern.parse raw = .error e := by
  rw [Rule.read]
  cases Pattern.parse raw <;> simp

theorem mem_diagnose_iff {side : Side} {entries : List Text} {d : Diagnostic} :
    d ∈ diagnose side entries ↔ d.side = side ∧ entries[d.position]? = some d.raw ∧
      Pattern.parse d.raw = .error d.error := by
  simp only [diagnose, List.mem_filterMap, List.mem_zipIdx_iff_getElem?, Option.map_eq_some_iff,
    Rule.read_snd_eq_some_iff]
  constructor
  · intro ⟨_, hentry, _, herror, heq⟩
    subst heq
    exact ⟨rfl, hentry, herror⟩
  · intro ⟨hside, hentry, herror⟩
    exact ⟨(d.raw, d.position), hentry, d.error, herror, by rw [← hside]⟩

theorem diagnose_pairwise (side : Side) (entries : List Text) :
    (diagnose side entries).Pairwise fun d e => d.position < e.position := by
  have hplaces : entries.zipIdx.Pairwise fun e f => e.2 < f.2 := by
    refine List.pairwise_map.1 ?_
    rw [List.zipIdx_map_snd]
    exact List.pairwise_lt_range'
  refine hplaces.filterMap _ fun e f hlt d hd d' hd' => ?_
  obtain ⟨_, _, rfl⟩ := Option.map_eq_some_iff.1 hd
  obtain ⟨_, _, rfl⟩ := Option.map_eq_some_iff.1 hd'
  exact hlt

theorem Rule.isSome_read_snd (raw : Text) :
    (Rule.read raw).2.isSome = !(Rule.read raw).1.isValid := by
  rw [Rule.read]
  cases Pattern.parse raw <;> rfl

theorem length_diagnose (side : Side) (entries : List Text) :
    (diagnose side entries).length = (placeholders (readRules entries)).length := by
  calc (diagnose side entries).length
      = (entries.zipIdx.map Prod.fst).countP fun raw => (Rule.read raw).2.isSome := by
        simp only [diagnose, List.length_filterMap_eq_countP, List.countP_map, Option.isSome_map]
        rfl
    _ = entries.countP fun raw => !(Rule.read raw).1.isValid := by
        simp only [List.zipIdx_map_fst, Rule.isSome_read_snd]
    _ = (placeholders (readRules entries)).length := by
        rw [placeholders, readRules, ← List.countP_eq_length_filter, List.countP_map]
        rfl

/-- The allow list comes before the deny list, and earlier entries before later ones. -/
def Diagnostic.Before (d e : Diagnostic) : Prop :=
  d.side = .allow ∧ e.side = .deny ∨ d.side = e.side ∧ d.position < e.position

def Side.entries (allow deny : List Text) : Side → List Text
  | .allow => allow
  | .deny => deny

theorem mem_diagnostics_iff {allow deny : List Text} {d : Diagnostic} :
    d ∈ (Ruleset.ofEntries allow deny).diagnostics ↔
      (d.side.entries allow deny)[d.position]? = some d.raw ∧
        Pattern.parse d.raw = .error d.error := by
  obtain ⟨side, position, raw, error⟩ := d
  cases side <;> simp [Ruleset.ofEntries, mem_diagnose_iff, Side.entries]

theorem diagnostics_pairwise (allow deny : List Text) :
    (Ruleset.ofEntries allow deny).diagnostics.Pairwise Diagnostic.Before := by
  have hside (side : Side) (entries : List Text) :
      (diagnose side entries).Pairwise Diagnostic.Before := by
    refine (diagnose_pairwise side entries).imp_of_mem fun hd he hlt => .inr ⟨?_, hlt⟩
    rw [(mem_diagnose_iff.1 hd).1, (mem_diagnose_iff.1 he).1]
  refine List.pairwise_append.2 ⟨hside .allow allow, hside .deny deny, fun d hd e he => ?_⟩
  exact .inl ⟨(mem_diagnose_iff.1 hd).1, (mem_diagnose_iff.1 he).1⟩

/-- What a compilation of two lists of entries has to be, given the ruleset with a rule for each
entry. -/
structure Compilation.Condenses (c : Compilation) (whole : Ruleset)
    (entries : Side → List Text) : Prop where
  /-- A rule stays at its place among the others unless it repeats a pattern. -/
  rules : ∀ side, c.rules.list side =
    pickFrom 0 (fun n => ¬ RepeatsAt (whole.list side) n) (whole.list side)
  placeholders_stay : ∀ side, placeholders (c.rules.list side) = placeholders (whole.list side)
  patterns : ∀ side, ((c.rules.list side).filterMap Rule.pattern).Nodup
  stable : ∀ side, dedup (c.rules.list side) = ⟨c.rules.list side, []⟩
  diagnostics : c.rules.diagnostics = whole.diagnostics
  /-- The text of an entry is reported as it was given, with its place among all entries. -/
  diagnostic : ∀ d, d ∈ c.rules.diagnostics ↔ (entries d.side)[d.position]? = some d.raw ∧
    Pattern.parse d.raw = .error d.error
  order : c.rules.diagnostics.Pairwise Diagnostic.Before
  before : c.stats.before = (entries .allow).length + (entries .deny).length
  after : c.stats.after = c.rules.allow.length + c.rules.deny.length
  deduped : c.stats.after + c.stats.deduped = c.stats.before
  invalid : c.stats.invalid = c.rules.diagnostics.length
  invalid_kept : c.stats.invalid =
    (placeholders c.rules.allow).length + (placeholders c.rules.deny).length

/-- Exactly the rules that repeat a pattern of their list are left out, and leaving out repeated
rules once more changes nothing. The diagnostics name the entries as they were given, and the
numbers add up over both lists. -/
theorem compile_condenses (allow deny : List Text) :
    (compile allow deny).Condenses (.ofEntries allow deny) (Side.entries allow deny) where
  rules side := by
    rw [list_compile, dedup_eq]
  placeholders_stay side := by
    rw [list_compile]
    exact placeholders_dedupAfter [] _
  patterns side := by
    rw [list_compile]
    exact (patterns_dedupAfter [] _).1
  stable side := by
    rw [list_compile, dedup_kept]
  diagnostics := by
    rw [compile_eq]
  diagnostic d := by
    rw [compile_eq]
    exact mem_diagnostics_iff
  order := by
    rw [compile_eq]
    exact diagnostics_pairwise allow deny
  before := by
    rw [compile_eq]
    rfl
  after := by
    rw [compile_eq]
  deduped := by
    have hallow := length_dedupAfter [] (readRules allow)
    have hdeny := length_dedupAfter [] (readRules deny)
    simp only [readRules, List.length_map] at hallow hdeny
    simp only [compile_eq, dedup, readRules]
    omega
  invalid := by
    rw [compile_eq]
  invalid_kept := by
    have hallow := length_diagnose .allow allow
    have hdeny := length_diagnose .deny deny
    simp only [compile_eq, Ruleset.ofEntries, dedup, placeholders_dedupAfter, List.length_append]
    omega

end UrlPolicy
