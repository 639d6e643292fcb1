import UrlPolicy.Proofs.Decision.Thinning
import UrlPolicy.Proofs.Pattern.Spelling
import UrlPolicy.Proofs.RuleList
import UrlPolicy.Proofs.Text.Ascii

/-!
Policies whose rule lists are written out as plain text and read back. What a list loses in its
text, blank entries and entries that read as comments, is no pattern. What its text adds are the
lines of an entry with line feeds in it. Main statement: no decision changes if no such line is a
pattern.
-/

set_option autoImplicit false

namespace UrlPolicy

namespace Pattern

theorem parse?_eq_some_iff {raw : Text} {p : Pattern} :
    parse? raw = some p ↔ parse raw = .ok p := by
  rw [parse?]
  cases parse raw <;> simp [Except.toOption]

theorem parse?_trim (raw : Text) : parse? (Text.trim raw) = parse? raw := by
  simp only [parse?, parse, Text.trim_trim]

theorem parse?_eq_none_of_newline {raw : Text} (h : '\n' ∈ Text.trim raw) :
    parse? raw = none := by
  refine Option.eq_none_iff_forall_ne_some.2 fun p hp => ?_
  obtain ⟨_, hplain, _⟩ := parse_eq_ok_iff.1 (parse?_eq_some_iff.1 hp)
  have hmem := Text.mem_lower_of_ascii (by decide) (by decide) h
  exact absurd (hplain '\n' hmem).2 (by decide)

theorem Spelling.Valid.head {s : Spelling} (h : s.Valid) {c : Char} (hc : c ∈ s.text.head?) :
    c.isAlpha = true ∨ c = '*' ∨ isHostChar c = true := by
  cases hscheme : s.scheme with
  | some scheme =>
    have hvalid := h.scheme scheme hscheme
    cases scheme with
    | nil => cases hvalid
    | cons d scheme =>
      simp only [text, hscheme, Option.elim_some, List.cons_append, List.head?_cons,
        Option.mem_some_iff] at hc
      rw [isScheme, Bool.and_eq_true, hc] at hvalid
      exact .inl hvalid.1
  | none =>
    have hhost : ∀ d ∈ s.host, d = '*' ∨ isHostChar d = true := by
      intro d hd
      rw [host, List.mem_append, List.mem_append] at hd
      rcases hd with (hd | hd) | hd
      · rcases mem_subdomainMark hd with rfl | rfl
        · exact .inl rfl
        · exact .inr (by decide)
      · exact .inr (isHostChar_of_mem_intercalate h.label_char hd)
      · rw [mem_dot hd]
        exact .inr (by decide)
    have hne : s.host ≠ [] := by simp [host, h.isDomain.ne_nil]
    obtain ⟨d, t, ht⟩ := List.exists_cons_of_ne_nil hne
    simp only [text, hscheme, Option.elim_none, List.nil_append, ht, List.cons_append,
      List.head?_cons, Option.mem_some_iff] at hc
    exact .inr (hhost c (by simp [ht, hc]))

theorem parse?_eq_none_of_isComment {raw : Text} (h : RuleList.isComment (Text.trim raw) = true) :
    parse? raw = none := by
  refine Option.eq_none_iff_forall_ne_some.2 fun p hp => ?_
  obtain ⟨s, hvalid, htext⟩ := exists_spelling (parse?_eq_some_iff.1 hp)
  obtain ⟨c, t, hraw, hc⟩ := RuleList.eq_cons_of_isComment h
  have hascii : c.toNat < 128 ∧ c.toLower = c := by
    rcases hc with rfl | rfl <;> decide
  have hhead : c ∈ s.text.head? := by
    rw [htext, hraw, Text.lower, Text.lowerAfter_cons_of_ascii _ _ hascii.1, hascii.2]
    rfl
  have hstart := hvalid.head hhead
  revert hstart
  rcases hc with rfl | rfl <;> decide +kernel

theorem parse?_eq_none_of_not_isRuleLine {raw : Text}
    (h : RuleList.isRuleLine (Text.trim raw) = false) : parse? raw = none := by
  by_cases hcomment : RuleList.isComment (Text.trim raw) = true
  · exact parse?_eq_none_of_isComment hcomment
  · have hempty : Text.trim raw = [] := by
      simpa [RuleList.isRuleLine, hcomment] using h
    rw [← parse?_trim, hempty]
    rfl

end Pattern

def validRules (entries : List Text) : List Rule := (readRules entries).filter Rule.isValid

theorem Rule.isValid_read (raw : Text) :
    (Rule.read raw).1.isValid = (Pattern.parse? raw).isSome := by
  rw [isValid, Rule.read_pattern]

theorem Rule.read_fst (raw : Text) :
    (Rule.read raw).1 = ⟨Text.trim raw, Pattern.parse? raw⟩ := by
  rw [Rule.read, Pattern.parse?]
  cases Pattern.parse raw <;> rfl

theorem validRules_eq_nil_iff {entries : List Text} :
    validRules entries = [] ↔ ∀ e ∈ entries, Pattern.parse? e = none := by
  simp [validRules, readRules, Rule.isValid_read]

theorem validRules_flatMap (f : Text → List Text) (entries : List Text) :
    validRules (entries.flatMap f) = entries.flatMap fun e => validRules (f e) := by
  simp [validRules, readRules, List.map_flatMap, List.filter_flatMap]

theorem validRules_eq_flatMap (entries : List Text) :
    validRules entries = entries.flatMap fun e => validRules [e] := by
  rw [← validRules_flatMap]
  simp

theorem validRules_singleton_eq_nil {entry : Text} (h : Pattern.parse? entry = none) :
    validRules [entry] = [] :=
  validRules_eq_nil_iff.2 (by simpa using h)

namespace RuleList

/-- An entry that its lines stand for: a single line, or several of which none is a pattern. -/
def IsExportable (entry : Text) : Prop :=
  '\n' ∈ Text.trim entry → ∀ line ∈ parse entry, Pattern.parse? line = none

instance (entry : Text) : Decidable (IsExportable entry) := inferInstanceAs (Decidable (_ → _))

theorem validRules_parse_iff (entry : Text) :
    validRules (parse entry) = validRules [entry] ↔ IsExportable entry := by
  by_cases hline : '\n' ∈ Text.trim entry
  · rw [validRules_singleton_eq_nil (Pattern.parse?_eq_none_of_newline hline),
      validRules_eq_nil_iff]
    simp [IsExportable, hline]
  · refine iff_of_true ?_ fun h => absurd h hline
    rw [← parse_trim, parse_of_not_mem hline, Text.trim_trim]
    cases hkeep : isRuleLine (Text.trim entry) with
    | true =>
      simp [hkeep, validRules, readRules, Rule.read_fst, Text.trim_trim, Pattern.parse?_trim]
    | false =>
      rw [validRules_singleton_eq_nil (Pattern.parse?_eq_none_of_not_isRuleLine hkeep)]
      simp [hkeep, validRules, readRules]

end RuleList

theorem length_flatMap_le {α β : Type} {f g : α → List β} {xs : List α}
    (h : ∀ x ∈ xs, (g x).length ≤ (f x).length) :
    (xs.flatMap g).length ≤ (xs.flatMap f).length := by
  induction xs with
  | nil => exact Nat.le_refl _
  | cons x xs ih =>
    have hx := h x (by simp)
    have hxs := ih fun y hy => h y (by simp [hy])
    simp only [List.flatMap_cons, List.length_append]
    omega

theorem flatMap_eq_flatMap_iff {α β : Type} {f g : α → List β} {xs : List α}
    (h : ∀ x ∈ xs, (g x).length ≤ (f x).length) :
    xs.flatMap f = xs.flatMap g ↔ ∀ x ∈ xs, f x = g x := by
  induction xs with
  | nil => simp
  | cons x xs ih =>
    have hrest : ∀ y ∈ xs, (g y).length ≤ (f y).length := fun y hy => h y (by simp [hy])
    rw [List.flatMap_cons, List.flatMap_cons, List.forall_mem_cons, ← ih hrest]
    constructor
    · intro heq
      have hlength := congrArg List.length heq
      have hx := h x (by simp)
      have hxs := length_flatMap_le hrest
      simp only [List.length_append] at hlength
      exact List.append_inj heq (by omega)
    · intro ⟨hx, hxs⟩
      rw [hx, hxs]

namespace RuleList

theorem length_validRules_le (entry : Text) :
    (validRules [entry]).length ≤ (validRules (parse entry)).length := by
  by_cases h : IsExportable entry
  · rw [(validRules_parse_iff entry).2 h]
  · have hline : '\n' ∈ Text.trim entry := by
      by_contra hline
      exact h fun hmem => absurd hmem hline
    rw [validRules_singleton_eq_nil (Pattern.parse?_eq_none_of_newline hline)]
    exact Nat.zero_le _

/-- A list comes back with the same rules, but for entries that are no pattern, exactly when all
its entries can be written out. -/
theorem validRules_parse_format_iff (entries : List Text) :
    validRules (parse (format entries)) = validRules entries ↔
      ∀ entry ∈ entries, IsExportable entry := by
  rw [parse_format, validRules_flatMap, validRules_eq_flatMap entries,
    flatMap_eq_flatMap_iff fun entry _ => length_validRules_le entry]
  simp only [validRules_parse_iff]

end RuleList

theorem Rule.isValid_of_accepts {r : Rule} {a : Address} (h : r.accepts a = true) :
    r.isValid = true := by
  cases hr : r.pattern with
  | none => rw [not_accepts_of_none hr a] at h; cases h
  | some p => simp [isValid, hr]

theorem Ruleset.winner_congr_of_isValid {rs rs' : Ruleset} {side : Side} (a : Address)
    (h : (rs'.list side).filter Rule.isValid = (rs.list side).filter Rule.isValid) :
    rs'.winner side a = rs.winner side a := by
  have haccepting : ∀ rules : List Rule,
      rules.filter (·.accepts a) = (rules.filter Rule.isValid).filter (·.accepts a) := by
    intro rules
    rw [List.filter_filter]
    refine List.filter_congr fun r _ => ?_
    cases hr : r.accepts a with
    | false => rfl
    | true => rw [Rule.isValid_of_accepts hr]; rfl
  rw [winner_eq_foldl, winner_eq_foldl, accepting, accepting, haccepting, h, ← haccepting]

open RuleList in
theorem winner_exported {allow deny : List Text} (hallow : ∀ entry ∈ allow, IsExportable entry)
    (hdeny : ∀ entry ∈ deny, IsExportable entry) (side : Side) (a : Address) :
    (compile (parse (format allow)) (parse (format deny))).rules.winner side a =
      (compile allow deny).rules.winner side a := by
  rw [Ruleset.winner_thinned (compile_thinned allow deny side),
    Ruleset.winner_thinned (compile_thinned (parse (format allow)) (parse (format deny)) side)]
  refine Ruleset.winner_congr_of_isValid a ?_
  cases side with
  | allow => exact (validRules_parse_format_iff allow).2 hallow
  | deny => exact (validRules_parse_format_iff deny).2 hdeny

open RuleList in
/-- Rule lists that are written out and read back decide as before, unless an entry has a line
feed in it and one of its lines is a pattern. -/
theorem decide_exported {allow deny : List Text} (hallow : ∀ entry ∈ allow, IsExportable entry)
    (hdeny : ∀ entry ∈ deny, IsExportable entry) (allowKeywords denyKeywords : List Keyword)
    (mode : Mode) (url : Text) (isExempt : Text → Bool) :
    let decideOver := fun allow deny : List Text =>
      (⟨(compile allow deny).rules, allowKeywords, denyKeywords, mode⟩ : Policy).decide url
        isExempt false
    decideOver (parse (format allow)) (parse (format deny)) = decideOver allow deny :=
  Policy.decide_untraced_congr isExempt fun side => winner_exported hallow hdeny side _

open RuleList in
/-- A comment and an entry of two lines without a pattern go, and the first rule still prevails. -/
theorem decide_exported_comments :
    let allow := ["  a.com/x\r".toList, "#a.com".toList, "bad..com\n! b.com".toList]
    let deny := ["a.com/*".toList]
    let decideOver := fun allow deny : List Text =>
      (⟨(compile allow deny).rules, [], [], .combined⟩ : Policy).decide "a.com/x".toList
        (fun _ => false) false
    (∀ entry ∈ allow, IsExportable entry) ∧ (∀ entry ∈ deny, IsExportable entry) ∧
      parse (format allow) = ["a.com/x".toList, "bad..com".toList] ∧
      decideOver (parse (format allow)) (parse (format deny)) = decideOver allow deny := by
  have hallow : ∀ entry ∈ ["  a.com/x\r".toList, "#a.com".toList, "bad..com\n! b.com".toList],
      IsExportable entry := by decide
  have hdeny : ∀ entry ∈ ["a.com/*".toList], IsExportable entry := by decide
  exact ⟨hallow, hdeny, by decide, decide_exported hallow hdeny [] [] .combined _ _⟩

open RuleList in
/-- An entry of two lines is no pattern, but both its lines come back as rules. -/
theorem decide_exported_lineFeed :
    let deny := ["a.com\nb.com".toList]
    let decideOver := fun allow deny : List Text =>
      (⟨(compile allow deny).rules, [], [], .blacklist⟩ : Policy).decide "b.com".toList
        (fun _ => false) false
    parse (format deny) = ["a.com".toList, "b.com".toList] ∧
      (decideOver [] deny).verdict.blocked = false ∧
      (decideOver (parse (format [])) (parse (format deny))).verdict.blocked = true ∧
      decideOver (parse (format [])) (parse (format deny)) ≠ decideOver [] deny := by
  decide +kernel

end UrlPolicy
