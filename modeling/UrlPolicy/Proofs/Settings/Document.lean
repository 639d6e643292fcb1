import UrlPolicy.Proofs.Json.Alone.Value
import UrlPolicy.Proofs.Settings.RoundTrip

set_option autoImplicit false

namespace UrlPolicy.Settings

open Json (Fault EndsNumber IsValue ReadsAlone SkipsBlanks IsBlanks)

/-! Fields. -/

def Field.Value : Field → Type
  | .mode => Option Text
  | .allowRules | .denyRules => List Text
  | .allowKeywords | .denyKeywords => List Json

def Field.read : (f : Field) → Text → Except Fault (f.Value × Text)
  | .mode => Json.readTextOrNull
  | .allowRules | .denyRules => Json.readList Json.readText
  | .allowKeywords | .denyKeywords => Json.readList (Json.readValue Draft.keywordDepth)

theorem Field.skipsBlanks_read (f : Field) : SkipsBlanks f.read := by
  cases f with
  | mode => exact Json.skipsBlanks_readTextOrNull
  | allowRules => exact Json.skipsBlanks_readList _
  | denyRules => exact Json.skipsBlanks_readList _
  | allowKeywords => exact Json.skipsBlanks_readList _
  | denyKeywords => exact Json.skipsBlanks_readList _

theorem Field.readsAlone (f : Field) {v : Text} (h : IsValue v) : ReadsAlone f.read v := by
  cases f with
  | mode => exact h.readTextOrNull
  | allowRules => exact h.readList fun _ hv => hv.readText
  | denyRules => exact h.readList fun _ hv => hv.readText
  | allowKeywords => exact h.readList fun _ hv => hv.readsAlone _
  | denyKeywords => exact h.readList fun _ hv => hv.readsAlone _

theorem Field.ofKey?_eq_some_iff {key : Text} {f : Field} :
    ofKey? key = some f ↔ key ∈ f.names := by
  constructor
  · intro h
    have hcontains := List.find?_some (p := fun f : Field => f.names.contains key) h
    simpa using hcontains
  · intro h
    have hkeys : ∀ f : Field, ∀ key ∈ f.names, ofKey? key = some f := by
      intro f
      cases f <;> decide
    exact hkeys f key h

theorem Field.ofKey?_eq_none_iff {key : Text} : ofKey? key = none ↔ ∀ f : Field, key ∉ f.names := by
  simp [Option.eq_none_iff_forall_ne_some, ofKey?_eq_some_iff]

namespace Draft

def get (d : Draft) : (f : Field) → Option f.Value
  | .mode => d.mode
  | .allowRules => d.allowRules
  | .denyRules => d.denyRules
  | .allowKeywords => d.allowKeywords
  | .denyKeywords => d.denyKeywords

def set (d : Draft) : (f : Field) → f.Value → Draft
  | .mode, mode => { d with mode := some mode }
  | .allowRules, rules => { d with allowRules := some rules }
  | .denyRules, rules => { d with denyRules := some rules }
  | .allowKeywords, keywords => { d with allowKeywords := some keywords }
  | .denyKeywords, keywords => { d with denyKeywords := some keywords }

@[simp] theorem get_set_self (d : Draft) (f : Field) (x : f.Value) :
    (d.set f x).get f = some x := by
  cases f <;> rfl

theorem get_set_of_ne (d : Draft) {f g : Field} (h : f ≠ g) (x : f.Value) :
    (d.set f x).get g = d.get g := by
  cases f <;> cases g <;> first | rfl | exact absurd rfl h

theorem has_eq (d : Draft) (f : Field) : d.has f = (d.get f).isSome := by
  cases f <;> rfl

theorem ext_get {d d' : Draft} (h : ∀ f, d.get f = d'.get f) : d = d' := by
  have hmode := h .mode
  have hallowRules := h .allowRules
  have hdenyRules := h .denyRules
  have hallowKeywords := h .allowKeywords
  have hdenyKeywords := h .denyKeywords
  cases d
  cases d'
  simp_all [get]

theorem read_eq (d : Draft) (f : Field) (t : Text) :
    d.read f t = f.read t >>= fun r => .ok (d.set f r.1, r.2) := by
  cases f <;> rfl

end Draft

/-! Documents. -/

structure Entry extends Json.Member where
  name : Text
  valid : toMember.Valid
  spells : Json.Spells key name

namespace Entry

def text (e : Entry) : Text := e.toMember.text

def field? (e : Entry) : Option Field := Field.ofKey? e.name

/-- What the entry gives for a field, if its value is of the kind of the field. -/
def value? (e : Entry) (f : Field) : Option f.Value := (f.read e.item.value).toOption.map Prod.fst

end Entry

structure Document where
  before : Text
  inside : Text
  entries : List Entry
  after : Text
  isBlanks_before : IsBlanks before
  isBlanks_inside : IsBlanks inside
  isBlanks_after : IsBlanks after

def Document.text (doc : Document) : Text :=
  doc.before ++ '{' :: (Json.enclosed doc.inside (doc.entries.map Entry.text) '}' ++ doc.after)

namespace Draft

def add? (d : Draft) (e : Entry) : Option Draft :=
  match e.field? with
  | none => some d
  | some f => if d.has f then none else (e.value? f).map (d.set f)

/-- What a draft comes to with several entries, whatever their order. -/
structure Gathers (d : Draft) (es : List Entry) (d' : Draft) : Prop where
  once : (es.filterMap Entry.field?).Nodup
  fresh : ∀ e ∈ es, ∀ f, e.field? = some f → d.get f = none
  given : ∀ e ∈ es, ∀ f, e.field? = some f → ∃ x, e.value? f = some x ∧ d'.get f = some x
  kept : ∀ f, (∀ e ∈ es, e.field? ≠ some f) → d'.get f = d.get f

theorem gathers_nil_iff {d d' : Draft} : d.Gathers [] d' ↔ d = d' := by
  constructor
  · intro h
    exact ext_get fun f => (h.kept f (by simp)).symm
  · rintro rfl
    exact ⟨List.nodup_nil, by simp, by simp, fun _ _ => rfl⟩

theorem gathers_cons_of_none {d d' : Draft} {e : Entry} {es : List Entry}
    (he : e.field? = none) : d.Gathers (e :: es) d' ↔ d.Gathers es d' := by
  constructor
  · intro ⟨honce, hfresh, hgiven, hkept⟩
    rw [List.filterMap_cons_none he] at honce
    refine ⟨honce, fun e' he' => hfresh e' (List.mem_cons_of_mem e he'),
      fun e' he' => hgiven e' (List.mem_cons_of_mem e he'), fun f hf => hkept f ?_⟩
    exact List.forall_mem_cons.2 ⟨by simp [he], hf⟩
  · intro ⟨honce, hfresh, hgiven, hkept⟩
    refine ⟨by rwa [List.filterMap_cons_none he], ?_, ?_, fun f hf => hkept f ?_⟩
    · exact List.forall_mem_cons.2 ⟨by simp [he], hfresh⟩
    · exact List.forall_mem_cons.2 ⟨by simp [he], hgiven⟩
    · exact (List.forall_mem_cons.1 hf).2

section

variable {d d' : Draft} {e : Entry} {es : List Entry} {f : Field}

theorem Gathers.exists_of_cons (h : d.Gathers (e :: es) d') (he : e.field? = some f) :
    d.get f = none ∧ ∃ x, e.value? f = some x ∧ (d.set f x).Gathers es d' := by
  have honce := h.once
  rw [List.filterMap_cons_some he, List.nodup_cons] at honce
  have hnot : ∀ e' ∈ es, e'.field? ≠ some f := fun e' he' heq =>
    honce.1 (List.mem_filterMap.2 ⟨e', he', heq⟩)
  obtain ⟨x, hx, hget⟩ := h.given e List.mem_cons_self f he
  refine ⟨h.fresh e List.mem_cons_self f he, x, hx, honce.2, ?fresh,
    fun e' he' => h.given e' (List.mem_cons_of_mem e he'), ?kept⟩
  case fresh =>
    intro e' he' g hg
    have hne : f ≠ g := fun heq => hnot e' he' (heq ▸ hg)
    rw [get_set_of_ne d hne]
    exact h.fresh e' (List.mem_cons_of_mem e he') g hg
  case kept =>
    intro g hg
    by_cases hfg : f = g
    · subst hfg
      rw [get_set_self, hget]
    · rw [get_set_of_ne d hfg]
      refine h.kept g (List.forall_mem_cons.2 ⟨?_, hg⟩)
      rw [he]
      exact fun heq => hfg (Option.some.inj heq)

theorem Gathers.cons {x : f.Value} (h : (d.set f x).Gathers es d') (he : e.field? = some f)
    (hnone : d.get f = none) (hx : e.value? f = some x) : d.Gathers (e :: es) d' := by
  -- the field is set before the others, so that none of them can be the same
  have hnot : ∀ e' ∈ es, e'.field? ≠ some f := by
    intro e' he' heq
    have hfound := h.fresh e' he' f heq
    rw [get_set_self] at hfound
    cases hfound
  refine ⟨?once, List.forall_mem_cons.2 ⟨?fresh_head, ?fresh⟩,
    List.forall_mem_cons.2 ⟨?given_head, h.given⟩, ?kept⟩
  case once =>
    rw [List.filterMap_cons_some he, List.nodup_cons]
    refine ⟨fun hmem => ?_, h.once⟩
    obtain ⟨e', he', heq⟩ := List.mem_filterMap.1 hmem
    exact hnot e' he' heq
  case fresh_head =>
    intro g hg
    rw [he] at hg
    cases hg
    exact hnone
  case fresh =>
    intro e' he' g hg
    have hne : f ≠ g := fun heq => hnot e' he' (heq ▸ hg)
    rw [← get_set_of_ne d hne x]
    exact h.fresh e' he' g hg
  case given_head =>
    intro g hg
    rw [he] at hg
    cases hg
    exact ⟨x, hx, by rw [h.kept f hnot, get_set_self]⟩
  case kept =>
    intro g hg
    obtain ⟨hg, hges⟩ := List.forall_mem_cons.1 hg
    have hne : f ≠ g := fun heq => hg (heq ▸ he)
    rw [h.kept g hges, get_set_of_ne d hne]

theorem gathers_cons_of_some (he : e.field? = some f) : d.Gathers (e :: es) d' ↔
    d.get f = none ∧ ∃ x, e.value? f = some x ∧ (d.set f x).Gathers es d' :=
  ⟨fun h => h.exists_of_cons he, fun ⟨hnone, _, hx, h⟩ => h.cons he hnone hx⟩

end

theorem add?_of_some {d : Draft} {e : Entry} {f : Field} (he : e.field? = some f) :
    d.add? e = if d.has f then none else (e.value? f).map (d.set f) := by
  rw [add?, he]

/-- Entries are gathered in their order, but their order does not matter. -/
theorem foldlM_add?_eq_some_iff {d d' : Draft} {es : List Entry} :
    es.foldlM add? d = some d' ↔ d.Gathers es d' := by
  induction es generalizing d with
  | nil => simp [gathers_nil_iff]
  | cons e es ih =>
    rw [List.foldlM_cons]
    cases he : e.field? with
    | none =>
      rw [gathers_cons_of_none he, ← ih, add?, he]
      rfl
    | some f =>
      rw [gathers_cons_of_some he, add?_of_some he, has_eq]
      cases hget : d.get f with
      | some y => simp
      | none =>
        -- the value is of the kind of the field, or the entry is refused
        cases hvalue : e.value? f with
        | none => simp
        | some x => simp [ih]

theorem toOption_readMember (d : Draft) (e : Entry) {t : Text} (ht : EndsNumber t) :
    (d.readMember e.name (e.between ++ ':' :: (e.item.text ++ t))).toOption =
      (d.add? e).map fun d' => (d', e.item.after ++ t) := by
  have hitem := e.valid.toItem
  have hend := Json.endsNumber_append hitem.after ht
  have hcolon := Json.colon_append e.valid.between (e.item.text ++ t)
  rw [readMember, add?]
  cases hfield : e.field? with
  | none =>
    have hskip : Json.skipValue (e.item.text ++ t) = .ok (e.item.after ++ t) := by
      rw [Json.Item.text, List.append_assoc, List.append_assoc]
      exact Json.skipValue_append hitem.before hitem.value hend
    rw [Entry.field?] at hfield
    simp only [hfield, hcolon, hskip, bind, Except.bind]
    rfl
  | some f =>
    rw [Entry.field?] at hfield
    simp only [hfield]
    split
    · rfl
    · have hread := (f.readsAlone hitem.value).toOption_eq hend
      have hstep : (do d.read f (← Json.colon (e.between ++ ':' :: (e.item.text ++ t)))) =
          f.read (e.item.value ++ (e.item.after ++ t)) >>= fun r => .ok (d.set f r.1, r.2) := by
        rw [hcolon]
        exact (d.read_eq f _).trans (by rw [f.skipsBlanks_read.append_item hitem])
      rw [hstep, Json.toOption_map_ok, hread, Entry.value?]
      cases (f.read e.item.value).toOption <;> rfl

theorem nextKey_first {blanks : Text} (hblanks : IsBlanks blanks) (e : Entry) (t : Text) :
    Json.nextKey true (blanks ++ (e.text ++ t)) =
      .ok (some e.name, e.between ++ ':' :: (e.item.text ++ t)) := by
  rw [Entry.text, Json.nextKey_first hblanks e.valid, Json.readString_append e.spells]
  rfl

theorem nextKey_comma {blanks : Text} (hblanks : IsBlanks blanks) (e : Entry) (t : Text) :
    Json.nextKey false (blanks ++ ',' :: (e.text ++ t)) =
      .ok (some e.name, e.between ++ ':' :: (e.item.text ++ t)) := by
  rw [Entry.text, Json.nextKey_comma hblanks e.valid, Json.readString_append e.spells]
  rfl

theorem toOption_readMembers {n : Nat} {first : Bool} {t rest : Text} (d : Draft) (e : Entry)
    (texts : List Text) (hnext : Json.nextKey first t =
      .ok (some e.name, e.between ++ ':' :: (e.item.text ++ (Json.following texts '}' ++ rest)))) :
    (readMembers (n + 1) first d t).toOption = (d.add? e).bind fun d' =>
      (readMembers n false d' (e.item.after ++ (Json.following texts '}' ++ rest))).toOption := by
  have hstep : readMembers (n + 1) first d t =
      d.readMember e.name
        (e.between ++ ':' :: (e.item.text ++ (Json.following texts '}' ++ rest))) >>= fun r =>
          readMembers n false r.1 r.2 := by
    rw [readMembers, hnext]
    rfl
  rw [hstep, Json.toOption_bind,
    d.toOption_readMember e (Json.endsNumber_following (.inr rfl) texts rest)]
  cases d.add? e <;> rfl

theorem readMembers_following {n : Nat} (d : Draft) (es : List Entry) {blanks : Text}
    (hblanks : IsBlanks blanks) (hn : es.length < n) (rest : Text) :
    (readMembers n false d
      (blanks ++ (Json.following (es.map Entry.text) '}' ++ rest))).toOption =
        (es.foldlM add? d).map fun d' => (d', rest) := by
  induction es generalizing n d blanks with
  | nil =>
    obtain ⟨n, rfl⟩ := Nat.exists_eq_add_one_of_ne_zero (Nat.ne_zero_of_lt hn)
    exact congrArg Except.toOption (readMembers_nil (Json.nextKey_close false hblanks rest))
  | cons e es ih =>
    obtain ⟨n, rfl⟩ := Nat.exists_eq_add_one_of_ne_zero (Nat.ne_zero_of_lt hn)
    rw [List.map_cons, Json.following_cons, List.cons_append, List.append_assoc,
      toOption_readMembers d e _ (nextKey_comma hblanks e _),
      List.foldlM_cons]
    cases d.add? e with
    | none => rfl
    | some d' => exact ih d' e.valid.item.after (Nat.lt_of_succ_lt_succ hn)

theorem readMembers_enclosed (d : Draft) (es : List Entry) {blanks : Text}
    (hblanks : IsBlanks blanks) {n : Nat} (hn : es.length < n) (rest : Text) :
    (readMembers n true d (Json.enclosed blanks (es.map Entry.text) '}' ++ rest)).toOption =
      (es.foldlM add? d).map fun d' => (d', rest) := by
  obtain ⟨n, rfl⟩ := Nat.exists_eq_add_one_of_ne_zero (Nat.ne_zero_of_lt hn)
  cases es with
  | nil =>
    rw [List.map_nil, Json.enclosed_nil, List.append_assoc]
    exact congrArg Except.toOption (readMembers_nil (Json.nextKey_close true hblanks rest))
  | cons e es =>
    rw [List.map_cons, Json.enclosed_cons, List.append_assoc, List.append_assoc,
      toOption_readMembers d e _ (nextKey_first hblanks e _),
      List.foldlM_cons]
    cases d.add? e with
    | none => rfl
    | some d' =>
      exact readMembers_following d' es e.valid.item.after (Nat.lt_of_succ_lt_succ hn) rest

end Draft

theorem toOption_document {α : Type} {x : Except Fault (α × Text)} {o : Option α} {after : Text}
    (hafter : IsBlanks after) (h : x.toOption = o.map fun a => (a, after)) :
    (Json.document x).toOption = o := by
  have hskip : Json.skipBlanks after = [] := by
    rw [← List.append_nil after, Json.skipBlanks_append hafter]
    rfl
  cases x with
  | error fault => cases o <;> simp_all [Json.document, Except.toOption]
  | ok r => cases o <;> simp_all [Json.document, Except.toOption]

theorem toOption_read_text (doc : Document) :
    (read doc.text).toOption = (doc.entries.foldlM Draft.add? {}).map Draft.settings := by
  have hdocument : (Json.document (readDocument doc.text)).toOption =
      doc.entries.foldlM Draft.add? {} := by
    have hlength := Json.length_le_enclosed Entry.text doc.inside doc.entries '}'
    refine toOption_document doc.isBlanks_after ?_
    rw [readDocument, Document.text, Json.skipBlanks_append doc.isBlanks_before,
      Json.skipBlanks_cons _ (by decide)]
    refine Draft.readMembers_enclosed {} doc.entries doc.isBlanks_inside ?_ doc.after
    rw [List.length_append]
    omega
  rw [read, ← hdocument]
  cases Json.document (readDocument doc.text) <;> rfl

end UrlPolicy.Settings
