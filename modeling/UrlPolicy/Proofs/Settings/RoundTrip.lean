import UrlPolicy.Proofs.Json.Printer
import UrlPolicy.Settings

/-!
Settings that are written out and read back. Main statement: whatever document settings were read
from, the document in the current form is read as the same settings, unless a keyword holds a
floating-point number.
-/

set_option autoImplicit false

namespace UrlPolicy

open Json (Fault EndsNumber ReadsBack bind_eq_ok)

namespace Json

theorem readList_forall {α : Type} {item : Text → Except Fault (α × Text)} {P : α → Prop}
    (hitem : ∀ t v rest, item t = .ok (v, rest) → P v) {t rest : Text} {vs : List α}
    (h : readList item t = .ok (vs, rest)) : ∀ v ∈ vs, P v := by
  rw [readList] at h
  split at h
  · cases h
  split at h
  · exact readItemsFrom_forall hitem h
  · exact absurd h refuse_ne_ok

theorem readList_prettyAt {α : Type} {item : Text → Except Fault (α × Text)} (json : α → Json)
    (level : Nat) {vs : List α}
    (h : ∀ v ∈ vs, ReadsBack item ((json v).prettyAt (level + 1)) v) (rest : Text) :
    readList item (' ' :: ((Json.array (vs.map json)).prettyAt level ++ rest)) =
      .ok (vs, rest) := by
  obtain ⟨body, htext, hread⟩ := readItems_prettyAt json level h
  rw [htext, readList]
  exact hread rest

theorem readText_quote (t rest : Text) : readText (quote t ++ rest) = .ok (t, rest) := by
  rw [quote_append, readText, skipBlanks_cons _ rfl]
  exact readString_quote t rest

theorem readsBack_readText (t : Text) : ReadsBack readText (quote t) t :=
  ⟨⟨'"', _, rfl, rfl, by decide⟩, fun rest _ => readText_quote t rest⟩

theorem readList_strings (texts : List Text) (level : Nat) (rest : Text) :
    readList readText (' ' :: ((Json.array (texts.map .string)).prettyAt level ++ rest)) =
      .ok (texts, rest) :=
  readList_prettyAt Json.string level (fun t _ => readsBack_readText t) rest

theorem readList_values {depth : Nat} {values : List Json}
    (h : ∀ v ∈ values, v.Readable depth ∧ ¬ v.HoldsFloat) (level : Nat) (rest : Text) :
    readList (readValue depth) (' ' :: ((Json.array values).prettyAt level ++ rest)) =
      .ok (values, rest) := by
  have hread := readList_prettyAt id level
    (fun v hv => readsBack_prettyAt (h v hv).1 (h v hv).2 (level + 1)) rest
  rwa [List.map_id] at hread

theorem readTextOrNull_quote (t rest : Text) :
    readTextOrNull (' ' :: (quote t ++ rest)) = .ok (some t, rest) := by
  have hskip : skipBlanks (' ' :: (quote t ++ rest)) = quote t ++ rest := rfl
  have hread : readTextOrNull (' ' :: (quote t ++ rest)) =
      readText (quote t ++ rest) >>= fun r => .ok (some r.1, r.2) := by
    rw [readTextOrNull.eq_def, hskip]
    rfl
  rw [hread, readText_quote]
  rfl

end Json

namespace Settings

/-- Settings whose keywords can have been read at the depth that is left to them. -/
structure Readable (s : Settings) : Prop where
  allowKeywords : ∀ v ∈ s.allowKeywords, v.Readable Draft.keywordDepth
  denyKeywords : ∀ v ∈ s.denyKeywords, v.Readable Draft.keywordDepth

def HoldsFloat (s : Settings) : Prop := ∃ v ∈ s.allowKeywords ++ s.denyKeywords, v.HoldsFloat

namespace Draft

theorem read_readable {d d' : Draft} {f : Field} {t rest : Text} (hd : d.settings.Readable)
    (h : d.read f t = .ok (d', rest)) : d'.settings.Readable := by
  cases f with
  | mode =>
    obtain ⟨_, _, h⟩ := bind_eq_ok.1 h
    cases h
    exact ⟨hd.allowKeywords, hd.denyKeywords⟩
  | allowRules =>
    obtain ⟨_, _, h⟩ := bind_eq_ok.1 h
    cases h
    exact ⟨hd.allowKeywords, hd.denyKeywords⟩
  | denyRules =>
    obtain ⟨_, _, h⟩ := bind_eq_ok.1 h
    cases h
    exact ⟨hd.allowKeywords, hd.denyKeywords⟩
  | allowKeywords =>
    obtain ⟨_, hkeywords, h⟩ := bind_eq_ok.1 h
    cases h
    exact ⟨Json.readList_forall (fun _ _ _ => Json.readValue_readable) hkeywords, hd.denyKeywords⟩
  | denyKeywords =>
    obtain ⟨_, hkeywords, h⟩ := bind_eq_ok.1 h
    cases h
    exact ⟨hd.allowKeywords, Json.readList_forall (fun _ _ _ => Json.readValue_readable) hkeywords⟩

theorem readMember_readable {d d' : Draft} {key t rest : Text} (hd : d.settings.Readable)
    (h : d.readMember key t = .ok (d', rest)) : d'.settings.Readable := by
  rw [readMember] at h
  split at h
  · obtain ⟨_, _, h⟩ := bind_eq_ok.1 h
    obtain ⟨_, _, h⟩ := bind_eq_ok.1 h
    cases h
    exact hd
  split at h
  · cases h
  · obtain ⟨_, _, h⟩ := bind_eq_ok.1 h
    exact read_readable hd h

theorem readMembers_readable {d d' : Draft} {n : Nat} {first : Bool} {t rest : Text}
    (hd : d.settings.Readable) (h : readMembers n first d t = .ok (d', rest)) :
    d'.settings.Readable := by
  induction n generalizing d first t with
  | zero => cases h
  | succ n ih =>
    obtain ⟨⟨key, u⟩, _, h⟩ := bind_eq_ok.1 h
    cases key with
    | none =>
      cases h
      exact hd
    | some key =>
      obtain ⟨⟨e, u⟩, he, h⟩ := bind_eq_ok.1 h
      exact ih (readMember_readable hd he) h

theorem readItems_readable {d d' : Draft} {fields : List Field} {first : Bool} {t rest : Text}
    (hd : d.settings.Readable) (h : d.readItems first fields t = .ok (d', rest)) :
    d'.settings.Readable := by
  induction fields generalizing d first t with
  | nil =>
    rw [readItems] at h
    split at h
    · cases h
    · cases h
      exact hd
    · cases h
  | cons f fields ih =>
    obtain ⟨⟨more, u⟩, _, h⟩ := bind_eq_ok.1 h
    cases more with
    | false =>
      cases h
      exact hd
    | true =>
      obtain ⟨⟨e, u⟩, he, h⟩ := bind_eq_ok.1 h
      exact ih (read_readable hd he) h

end Draft

theorem readable_of_read {t : Text} {s : Settings} (h : read t = .ok s) : s.Readable := by
  have hempty : (Draft.settings {}).Readable := ⟨by simp [Draft.settings], by simp [Draft.settings]⟩
  rw [read] at h
  cases hread : readDocument t with
  | error fault => rw [hread] at h; cases h
  | ok r =>
    obtain ⟨d, rest⟩ := r
    have hd : d.settings.Readable := by
      rw [readDocument] at hread
      split at hread
      · cases hread
      split at hread
      · exact Draft.readMembers_readable hempty hread
      split at hread
      · exact Draft.readItems_readable hempty hread
      · exact absurd hread Json.refuse_ne_ok
    rw [hread, Json.document] at h
    split at h
    · cases h
      exact hd
    · cases h

namespace Draft

/-- A list of members that fills in a draft, each of them a field that was not there before. -/
inductive Fills : Draft → List (Text × Json) → Draft → Prop where
  | nil (d : Draft) : Fills d [] d
  | cons {d d' d'' : Draft} {f : Field} {key : Text} {v : Json} {ms : List (Text × Json)}
      (hkey : Field.ofKey? key = some f) (hnew : d.has f = false)
      (hread : ∀ rest, EndsNumber rest →
        d.read f (' ' :: (v.prettyAt 1 ++ rest)) = .ok (d', rest))
      (h : Fills d' ms d'') : Fills d ((key, v) :: ms) d''

theorem readMember_of_field {d d' : Draft} {f : Field} {key t rest : Text}
    (hkey : Field.ofKey? key = some f) (hnew : d.has f = false)
    (hread : d.read f (' ' :: t) = .ok (d', rest)) :
    d.readMember key (": ".toList ++ t) = .ok (d', rest) := by
  rw [readMember, hkey]
  simp only [hnew, Bool.false_eq_true, if_false, Json.colon_space, bind, Except.bind, hread]

theorem readMembers_cons {d d' d'' : Draft} {n : Nat} {first : Bool} {t u w rest key : Text}
    (hkey : Json.nextKey first t = .ok (some key, u)) (hmember : d.readMember key u = .ok (d', w))
    (hrest : readMembers n false d' w = .ok (d'', rest)) :
    readMembers (n + 1) first d t = .ok (d'', rest) := by
  rw [readMembers, hkey]
  simp only [bind, Except.bind, hmember, hrest]

theorem readMembers_nil {d : Draft} {n : Nat} {first : Bool} {t rest : Text}
    (h : Json.nextKey first t = .ok (none, rest)) :
    readMembers (n + 1) first d t = .ok (d, rest) := by
  rw [readMembers, h]
  rfl

theorem Fills.readMembers {d d' : Draft} {ms : List (Text × Json)} (h : Fills d ms d') {n : Nat}
    (hn : ms.length < n) (rest : Text) :
    readMembers n false d (Json.prettyMembers 0 ms ++ rest) = .ok (d', rest) := by
  induction h generalizing n with
  | nil d =>
    obtain ⟨n, rfl⟩ := Nat.exists_eq_succ_of_ne_zero (Nat.ne_zero_of_lt hn)
    rw [Json.prettyMembers, List.append_assoc]
    exact readMembers_nil (Json.nextKey_end false 0 rest)
  | @cons d d' d'' f key v ms hkey hnew hread _ ih =>
    obtain ⟨n, rfl⟩ := Nat.exists_eq_succ_of_ne_zero (Nat.ne_zero_of_lt hn)
    have hv := hread _ (Json.endsNumber_prettyMembers 0 ms rest)
    rw [Json.prettyMembers]
    simp only [List.cons_append, List.append_assoc]
    exact readMembers_cons (Json.nextKey_false 1 key _) (readMember_of_field hkey hnew hv)
      (ih (Nat.lt_of_succ_lt_succ hn))

theorem Fills.readDocument {d : Draft} {ms : List (Text × Json)} (h : Fills {} ms d) :
    readDocument (Json.object ms).pretty = .ok (d, []) := by
  cases h with
  | nil => rfl
  | @cons _ d' _ f key v ms hkey hnew hread h =>
    have hv := hread _ (Json.endsNumber_prettyMembers 0 ms [])
    have hlength := Json.length_le_prettyMembers 0 ms
    rw [Json.pretty, Json.prettyAt_object_cons, ← List.append_nil (Json.prettyMembers 0 ms),
      Settings.readDocument, Json.skipBlanks_cons _ rfl]
    refine readMembers_cons (Json.nextKey_true 1 key _) (readMember_of_field hkey hnew hv)
      (h.readMembers ?_ [])
    simp only [Json.newline, List.length_append, List.length_cons]
    omega

theorem read_mode (d : Draft) (mode rest : Text) :
    d.read .mode (' ' :: ((Json.string mode).prettyAt 1 ++ rest)) =
      .ok ({ d with mode := some (some mode) }, rest) := by
  rw [read, Json.prettyAt, Json.readTextOrNull_quote]
  rfl

theorem read_allowRules (d : Draft) (rules : List Text) (rest : Text) :
    d.read .allowRules (' ' :: ((Json.array (rules.map .string)).prettyAt 1 ++ rest)) =
      .ok ({ d with allowRules := some rules }, rest) := by
  rw [read, Json.readList_strings]
  rfl

theorem read_denyRules (d : Draft) (rules : List Text) (rest : Text) :
    d.read .denyRules (' ' :: ((Json.array (rules.map .string)).prettyAt 1 ++ rest)) =
      .ok ({ d with denyRules := some rules }, rest) := by
  rw [read, Json.readList_strings]
  rfl

theorem read_allowKeywords (d : Draft) {keywords : List Json}
    (h : ∀ v ∈ keywords, v.Readable keywordDepth ∧ ¬ v.HoldsFloat) (rest : Text) :
    d.read .allowKeywords (' ' :: ((Json.array keywords).prettyAt 1 ++ rest)) =
      .ok ({ d with allowKeywords := some keywords }, rest) := by
  rw [read, Json.readList_values h]
  rfl

theorem read_denyKeywords (d : Draft) {keywords : List Json}
    (h : ∀ v ∈ keywords, v.Readable keywordDepth ∧ ¬ v.HoldsFloat) (rest : Text) :
    d.read .denyKeywords (' ' :: ((Json.array keywords).prettyAt 1 ++ rest)) =
      .ok ({ d with denyKeywords := some keywords }, rest) := by
  rw [read, Json.readList_values h]
  rfl

end Draft

theorem exists_fills {s : Settings} (hs : s.Readable) (hfloat : ¬ s.HoldsFloat) :
    ∃ ms d, s.toJson = .object ms ∧ Draft.Fills {} ms d ∧ d.settings = s := by
  have hallow : ∀ v ∈ s.allowKeywords, v.Readable Draft.keywordDepth ∧ ¬ v.HoldsFloat :=
    fun v hv => ⟨hs.allowKeywords v hv, fun h => hfloat ⟨v, by simp [hv], h⟩⟩
  have hdeny : ∀ v ∈ s.denyKeywords, v.Readable Draft.keywordDepth ∧ ¬ v.HoldsFloat :=
    fun v hv => ⟨hs.denyKeywords v hv, fun h => hfloat ⟨v, by simp [hv], h⟩⟩
  have hlists : ∀ d : Draft, d.allowRules = none → d.denyRules = none → d.allowKeywords = none →
      d.denyKeywords = none → Draft.Fills d [
        ("allowRules".toList, Json.array (s.allowRules.map Json.string)),
        ("denyRules".toList, .array (s.denyRules.map Json.string)),
        ("allowKeywords".toList, .array s.allowKeywords),
        ("denyKeywords".toList, .array s.denyKeywords)]
        ⟨d.mode, some s.allowRules, some s.denyRules, some s.allowKeywords,
          some s.denyKeywords⟩ := by
    intro d h₁ h₂ h₃ h₄
    refine .cons rfl ?_ (fun rest _ => d.read_allowRules s.allowRules rest) ?_
    · simp [Draft.has, h₁]
    refine .cons rfl ?_ (fun rest _ => Draft.read_denyRules _ s.denyRules rest) ?_
    · simp [Draft.has, h₂]
    refine .cons rfl ?_ (fun rest _ => Draft.read_allowKeywords _ hallow rest) ?_
    · simp [Draft.has, h₃]
    refine .cons rfl ?_ (fun rest _ => Draft.read_denyKeywords _ hdeny rest) (.nil _)
    · simp [Draft.has, h₄]
  cases hmode : s.mode with
  | none =>
    refine ⟨_, _, by rw [toJson, hmode]; rfl, hlists {} rfl rfl rfl rfl, ?_⟩
    rw [Draft.settings, ← hmode]
    rfl
  | some mode =>
    refine ⟨_, _, by rw [toJson, hmode]; rfl, .cons rfl rfl
      (fun rest _ => Draft.read_mode {} mode rest) (hlists _ rfl rfl rfl rfl), ?_⟩
    rw [Draft.settings, ← hmode]
    rfl

theorem eq_of_same {s s' : Settings} (hfloat : ¬ s.HoldsFloat) (h : s.same s' = true) :
    s = s' := by
  obtain ⟨mode, allowRules, denyRules, allowKeywords, denyKeywords⟩ := s
  obtain ⟨mode', allowRules', denyRules', allowKeywords', denyKeywords'⟩ := s'
  simp only [same, Bool.and_eq_true, beq_iff_eq] at h
  obtain ⟨⟨⟨⟨rfl, rfl⟩, rfl⟩, hallow⟩, hdeny⟩ := h
  rw [Json.eq_of_sameItems (fun v hv hv' => hfloat ⟨v, by simp [hv], hv'⟩) hallow,
    Json.eq_of_sameItems (fun v hv hv' => hfloat ⟨v, by simp [hv], hv'⟩) hdeny]

theorem read_eq_ok {t : Text} {s : Settings} (hfloat : ¬ s.HoldsFloat)
    (h : (read t).toOption.any s.same = true) : read t = .ok s := by
  cases hread : read t with
  | error fault => simp [hread, Except.toOption] at h
  | ok s' => rw [eq_of_same hfloat (by simpa [hread, Except.toOption] using h)]

/-- Settings that were read from any document come out of their own text again, unless a keyword
holds a floating-point number. -/
theorem read_text {t : Text} {s : Settings} (h : read t = .ok s) (hfloat : ¬ s.HoldsFloat) :
    read s.text = .ok s := by
  obtain ⟨ms, d, hjson, hfills, hsettings⟩ := exists_fills (readable_of_read h) hfloat
  rw [text, hjson, read, hfills.readDocument, ← hsettings]
  rfl

theorem read_text_aliases :
    let document := ("\x7b\"blockList\": [\"a.com\\n\", \"\\u00e9.com\"], \"x\": [1e400], " ++
      "\"allowKeywords\": [\x7b\"pattern\": \"docs\", \"b\": [-1], " ++
      "\"b\": \x7b\x7d\x7d, 7]\x7d").toList
    let fields := ("[null, [], [\"a.com\\u000a\", \"é.com\"], " ++
      "[\x7b\"b\": \x7b\x7d, \"pattern\": \"docs\"\x7d, 7]]").toList
    let s : Settings := ⟨none, [], ["a.com\n".toList, "é.com".toList],
      [.object [(['b'], .object []), ("pattern".toList, .string "docs".toList)],
        .number (.natural 7)], []⟩
    read document = .ok s ∧ read fields = .ok s ∧ ¬ s.HoldsFloat ∧ read s.text = .ok s := by
  intro document fields s
  have hfloat : ¬ s.HoldsFloat := by simp [HoldsFloat, s]
  have hdocument : read document = .ok s := read_eq_ok hfloat (by decide +kernel)
  have hfields : read fields = .ok s := read_eq_ok hfloat (by decide +kernel)
  exact ⟨hdocument, hfields, hfloat, read_text hdocument hfloat⟩

end Settings

end UrlPolicy
