import UrlPolicy.Proofs.Json.Accepted
import UrlPolicy.Proofs.Settings.Document

/-!
Documents that say the same. Main statement: the settings that come of an object do not depend on
the order of its keys, on which names the fields go by or on keys that are no fields, and no field
may be given twice.
-/

set_option autoImplicit false

namespace UrlPolicy.Settings

/-- Entries that are put in another order, go by another name of their field, or belong to no
field and are added or left out. -/
inductive Rearranged : List Entry → List Entry → Prop where
  | perm {es es' : List Entry} (h : es.Perm es') : Rearranged es es'
  | rename {e e' : Entry} (es : List Entry) {f : Field} (h : e.name ∈ f.names)
      (h' : e'.name ∈ f.names) (hvalue : e'.item.value = e.item.value) :
      Rearranged (e :: es) (e' :: es)
  | insert {e : Entry} (es : List Entry) (h : ∀ f : Field, e.name ∉ f.names) :
      Rearranged es (e :: es)
  | remove {e : Entry} (es : List Entry) (h : ∀ f : Field, e.name ∉ f.names) :
      Rearranged (e :: es) es
  | trans {es es' es'' : List Entry} (h : Rearranged es es') (h' : Rearranged es' es'') :
      Rearranged es es''

namespace Draft

theorem Gathers.perm {d d' : Draft} {es es' : List Entry} (h : d.Gathers es d')
    (hperm : es.Perm es') : d.Gathers es' d' where
  once := (hperm.filterMap Entry.field?).nodup_iff.1 h.once
  fresh e he := h.fresh e (hperm.mem_iff.2 he)
  given e he := h.given e (hperm.mem_iff.2 he)
  kept f hf := h.kept f fun e he => hf e (hperm.mem_iff.1 he)

theorem gathers_cons_congr {d d' : Draft} {e e' : Entry} {f : Field} (h : e.field? = some f)
    (h' : e'.field? = some f) (hvalue : e'.item.value = e.item.value) (es : List Entry) :
    d.Gathers (e :: es) d' ↔ d.Gathers (e' :: es) d' := by
  have heq : e'.value? f = e.value? f := by rw [Entry.value?, Entry.value?, hvalue]
  rw [gathers_cons_of_some h, gathers_cons_of_some h', heq]

/-- A field that two entries give makes the draft impossible. -/
theorem not_gathers_of_twice {d d' : Draft} {es : List Entry} {e e' : Entry} {f : Field}
    (hes : [e, e'].Sublist es) (he : e.field? = some f) (he' : e'.field? = some f) :
    ¬ d.Gathers es d' := by
  intro h
  have htwice : [f, f].Sublist (es.filterMap Entry.field?) := by
    have hsub := hes.filterMap Entry.field?
    rwa [List.filterMap_cons_some he, List.filterMap_cons_some he', List.filterMap_nil] at hsub
  simpa using h.once.sublist htwice

end Draft

theorem Rearranged.gathers_iff {es es' : List Entry} (h : Rearranged es es') {d d' : Draft} :
    d.Gathers es d' ↔ d.Gathers es' d' := by
  induction h with
  | perm h => exact ⟨fun hd => hd.perm h, fun hd => hd.perm h.symm⟩
  | rename es h h' hvalue =>
    exact Draft.gathers_cons_congr (Field.ofKey?_eq_some_iff.2 h) (Field.ofKey?_eq_some_iff.2 h')
      hvalue es
  | insert es h => exact (Draft.gathers_cons_of_none (Field.ofKey?_eq_none_iff.2 h)).symm
  | remove es h => exact Draft.gathers_cons_of_none (Field.ofKey?_eq_none_iff.2 h)
  | trans _ _ ih ih' => exact ih.trans ih'

theorem read_text_eq_ok_iff {doc : Document} {s : Settings} :
    read doc.text = .ok s ↔ ∃ d, Draft.Gathers {} doc.entries d ∧ d.settings = s := by
  rw [← Json.toOption_eq_some_iff, toOption_read_text, Option.map_eq_some_iff]
  simp only [Draft.foldlM_add?_eq_some_iff]

/-! Objects that are accepted are documents. -/

theorem Field.takesValue_read (f : Field) : Json.TakesValue f.read := by
  cases f with
  | mode => exact Json.takesValue_readTextOrNull
  | allowRules => exact Json.takesValue_readList Json.takesValue_readText
  | denyRules => exact Json.takesValue_readList Json.takesValue_readText
  | allowKeywords => exact Json.takesValue_readList (Json.takesValue_readValue _)
  | denyKeywords => exact Json.takesValue_readList (Json.takesValue_readValue _)

namespace Draft

theorem exists_of_readMember {d d' : Draft} {key t rest : Text}
    (h : d.readMember key t = .ok (d', rest)) :
    ∃ u, Json.colon t = .ok u ∧ Json.StartsWithValue u rest := by
  rw [readMember] at h
  split at h
  · obtain ⟨u, hcolon, hskip⟩ := Json.bind_eq_ok.1 h
    obtain ⟨w, hw, heq⟩ := Json.bind_eq_ok.1 hskip
    cases heq
    exact ⟨u, hcolon, Json.startsWithValue_of_skipValue hw⟩
  · next f _ =>
    split at h
    · cases h
    · obtain ⟨u, hcolon, hread⟩ := Json.bind_eq_ok.1 h
      rw [read_eq] at hread
      obtain ⟨⟨x, w⟩, hx, heq⟩ := Json.bind_eq_ok.1 hread
      cases heq
      exact ⟨u, hcolon, f.takesValue_read _ _ _ hx⟩

theorem exists_entry {d d' : Draft} {t u key x after rest : Text}
    (hkey : Json.StartsWithKey t key u) (hread : d.readMember key u = .ok (d', x))
    (hafter : Json.IsBlanks after) (hx : x = after ++ rest) :
    ∃ e : Entry, t = e.text ++ rest := by
  obtain ⟨w, hcolon, hvalue⟩ := exists_of_readMember hread
  obtain ⟨m, hm, hspells, rfl⟩ := hkey.exists_member hcolon hvalue hafter hx
  exact ⟨⟨m, key, hm, hspells⟩, rfl⟩

theorem exists_of_readMembers {n : Nat} {d d' : Draft} {t rest : Text}
    (h : readMembers n false d t = .ok (d', rest)) :
    ∃ (blanks : Text) (es : List Entry), Json.IsBlanks blanks ∧
      t = blanks ++ (Json.following (es.map Entry.text) '}' ++ rest) := by
  induction n generalizing d t with
  | zero => cases h
  | succ n ih =>
    rw [readMembers] at h
    obtain ⟨⟨key, u⟩, hnext, hkey⟩ := Json.bind_eq_ok.1 h
    cases key with
    | none =>
      cases hkey
      obtain ⟨blanks, hblanks, rfl⟩ := Json.exists_of_nextKey_close hnext
      exact ⟨blanks, [], hblanks, rfl⟩
    | some key =>
      obtain ⟨⟨d₁, x⟩, hread, hrest⟩ := Json.bind_eq_ok.1 hkey
      obtain ⟨blanks, u', hblanks, hstart, rfl⟩ := Json.exists_of_nextKey_comma hnext
      obtain ⟨after, es, hafter, hx⟩ := ih hrest
      obtain ⟨e, rfl⟩ := exists_entry hstart hread hafter hx
      exact ⟨blanks, e :: es, hblanks, by simp⟩

theorem exists_of_readMembers_first {n : Nat} {d d' : Draft} {t rest : Text}
    (h : readMembers n true d t = .ok (d', rest)) :
    ∃ (blanks : Text) (es : List Entry), Json.IsBlanks blanks ∧
      t = Json.enclosed blanks (es.map Entry.text) '}' ++ rest := by
  cases n with
  | zero => cases h
  | succ n =>
    rw [readMembers] at h
    obtain ⟨⟨key, u⟩, hnext, hkey⟩ := Json.bind_eq_ok.1 h
    cases key with
    | none =>
      cases hkey
      obtain ⟨blanks, hblanks, rfl⟩ := Json.exists_of_nextKey_close hnext
      exact ⟨blanks, [], hblanks, by simp⟩
    | some key =>
      obtain ⟨⟨d₁, x⟩, hread, hrest⟩ := Json.bind_eq_ok.1 hkey
      obtain ⟨after, es, hafter, hx⟩ := exists_of_readMembers hrest
      obtain ⟨e, rfl⟩ :=
        exists_entry (Json.startsWithKey_of_nextKey_first hnext) hread hafter hx
      refine ⟨[], e :: es, Json.isBlanks_nil, ?_⟩
      rw [List.map_cons, Json.enclosed_cons]
      simp

end Draft

theorem isBlanks_of_skipBlanks {t : Text} (h : Json.skipBlanks t = []) : Json.IsBlanks t := by
  obtain ⟨blanks, hblanks, htext⟩ := Json.exists_skipBlanks t
  rw [h, List.append_nil] at htext
  rwa [htext]

theorem exists_document {t : Text} {s : Settings} (h : read t = .ok s)
    (hobject : (Json.skipBlanks t).head? = some '{') : ∃ doc : Document, doc.text = t := by
  obtain ⟨u, hu⟩ := List.head?_eq_some_iff.1 hobject
  obtain ⟨before, hbefore, htext⟩ := Json.exists_skipBlanks t
  obtain ⟨⟨d, after⟩, hread, hafter⟩ : ∃ r, readDocument t = .ok r ∧ Json.skipBlanks r.2 = [] := by
    rw [read] at h
    cases hread : readDocument t with
    | error fault =>
      rw [hread] at h
      cases h
    | ok r =>
      rw [hread, Json.document] at h
      split at h
      · next hskip => exact ⟨r, rfl, hskip⟩
      · cases h
  rw [readDocument, hu] at hread
  obtain ⟨inside, es, hinside, hes⟩ := Draft.exists_of_readMembers_first (t := u) hread
  refine ⟨⟨before, inside, es, after, hbefore, hinside, isBlanks_of_skipBlanks hafter⟩, ?_⟩
  rw [Document.text, ← hes, ← hu, ← htext]

/-- Every object that is accepted is a document. Entries that are rearranged give the same
settings, and no document is accepted in which two entries give one field. -/
theorem read_rearranged :
    (∀ (t : Text) (s : Settings), read t = .ok s → (Json.skipBlanks t).head? = some '{' →
      ∃ doc : Document, doc.text = t) ∧
    (∀ (doc doc' : Document) (s : Settings), Rearranged doc.entries doc'.entries →
      (read doc.text = .ok s ↔ read doc'.text = .ok s)) ∧
    (∀ (doc : Document) (f : Field) (e e' : Entry), [e, e'].Sublist doc.entries →
      e.name ∈ f.names → e'.name ∈ f.names → ∃ fault, read doc.text = .error fault) := by
  refine ⟨fun t s => exists_document, fun doc doc' s h => ?_, fun doc f e e' hes he he' => ?_⟩
  · simp only [read_text_eq_ok_iff, h.gathers_iff]
  · cases hread : read doc.text with
    | error fault => exact ⟨fault, rfl⟩
    | ok s =>
      obtain ⟨d, hd, _⟩ := read_text_eq_ok_iff.1 hread
      exact absurd hd (Draft.not_gathers_of_twice hes (Field.ofKey?_eq_some_iff.2 he)
        (Field.ofKey?_eq_some_iff.2 he'))

/-- An older name with an escape in it, in front of the mode, and another unknown key instead of
one with a number out of range and half of a surrogate pair; then both names at once. -/
theorem read_rearranged_aliases :
    let s : Settings := ⟨none, ["a.com".toList], [], [], []⟩
    ∃ doc doc' twice : Document,
      doc.text = ("\x7b\"mode\":null,\"allowRules\": [\"a.com\"]," ++
        "\"x\":\x7b\"mode\":[1e400,\"\\ud800\"]\x7d\x7d").toList ∧
      doc'.text = ("\x7b\"blocklist\":7,\"allow\\u004cist\":[\"a.com\"]," ++
        "\"mode\":null\x7d").toList ∧
      twice.text = ("\x7b\"allowRules\": [\"a.com\"]," ++
        "\"allow\\u004cist\":[\"a.com\"]\x7d").toList ∧
      Rearranged doc.entries doc'.entries ∧ read doc.text = .ok s ∧ read doc'.text = .ok s ∧
      ∃ fault, read twice.text = .error fault := by
  intro s
  let mode : Entry := ⟨⟨[], "mode".toList, [], ⟨[], "null".toList, []⟩⟩, "mode".toList,
    by decide +kernel, by decide +kernel⟩
  let current : Entry := ⟨⟨[], "allowRules".toList, [], ⟨[' '], "[\"a.com\"]".toList, []⟩⟩,
    "allowRules".toList, by decide +kernel, by decide +kernel⟩
  let older : Entry := ⟨⟨[], "allow\\u004cist".toList, [], ⟨[], "[\"a.com\"]".toList, []⟩⟩,
    "allowList".toList, by decide +kernel, by decide +kernel⟩
  let unknown : Entry := ⟨⟨[], "x".toList, [],
    ⟨[], "\x7b\"mode\":[1e400,\"\\ud800\"]\x7d".toList, []⟩⟩, "x".toList,
    by decide +kernel, by decide +kernel⟩
  let other : Entry := ⟨⟨[], "blocklist".toList, [], ⟨[], "7".toList, []⟩⟩, "blocklist".toList,
    by decide +kernel, by decide +kernel⟩
  let document (entries : List Entry) : Document :=
    ⟨[], [], entries, [], Json.isBlanks_nil, Json.isBlanks_nil, Json.isBlanks_nil⟩
  have hrearranged : Rearranged [mode, current, unknown] [other, older, mode] := by
    have hperm : [mode, current, unknown].Perm [unknown, current, mode] :=
      List.reverse_perm [unknown, current, mode]
    have hunknown : ∀ f : Field, unknown.name ∉ f.names := by
      intro f
      cases f <;> decide
    have hother : ∀ f : Field, other.name ∉ f.names := by
      intro f
      cases f <;> decide
    have hrename : Rearranged [current, mode] [older, mode] :=
      .rename [mode] (f := .allowRules) (by decide) (by decide) rfl
    exact (Rearranged.perm hperm).trans ((Rearranged.remove _ hunknown).trans
      (hrename.trans (.insert _ hother)))
  have hread : read (document [mode, current, unknown]).text = .ok s :=
    read_eq_ok (by simp [HoldsFloat, s]) (by decide +kernel)
  have hsame := (read_rearranged.2.1 (document [mode, current, unknown])
    (document [other, older, mode]) s hrearranged).1 hread
  have htwice := read_rearranged.2.2 (document [current, older]) .allowRules current older
    (List.Sublist.refl _) (by decide) (by decide)
  exact ⟨document [mode, current, unknown], document [other, older, mode],
    document [current, older], rfl, rfl, rfl, hrearranged, hread, hsame, htwice⟩

end UrlPolicy.Settings
