import UrlPolicy.Policy.Session
import UrlPolicy.Proofs.Settings

/-!
Runs of a session. Main statement: editions are numbered one after another as they are published,
the edition published last decides, a document that is refused leaves no trace, and an edition
that is kept stays as it was.
-/

set_option autoImplicit false

namespace UrlPolicy

namespace Publisher

def publishAll (b : Publisher) (es : List Edition) : Publisher := es.foldl publish b

theorem publishAll_cons (b : Publisher) (e : Edition) (es : List Edition) :
    b.publishAll (e :: es) = (b.publish e).publishAll es := rfl

theorem publishAll_append (b : Publisher) (es fs : List Edition) :
    b.publishAll (es ++ fs) = (b.publishAll es).publishAll fs :=
  List.foldl_append

theorem policy_publishAll (b : Publisher) (es : List Edition) :
    (b.publishAll es).current.policy = (es.getLast?.getD b.current).policy := by
  induction es generalizing b with
  | nil => rfl
  | cons e es ih =>
    rw [publishAll_cons, ih, List.getLast?_cons]
    cases es.getLast? <;> rfl

theorem generation_publish {b : Publisher} (e : Edition)
    (h : b.current.generation + 1 < UInt64.size) :
    (b.publish e).current.generation = b.current.generation + 1 :=
  Nat.mod_eq_of_lt h

/-- The numbers count the editions as long as they have room in 64 bits. -/
theorem generation_publishAll {b : Publisher} {es : List Edition}
    (h : b.current.generation + es.length < UInt64.size) :
    (b.publishAll es).current.generation = b.current.generation + es.length := by
  induction es generalizing b with
  | nil => rfl
  | cons e es ih =>
    rw [List.length_cons] at h ⊢
    have hnext := b.generation_publish e (by omega)
    rw [publishAll_cons, ih (by omega), hnext]
    omega

end Publisher

namespace Session

def Answer.publishedAs? : Answer → Option Nat
  | .loaded n _ | .published n | .republished n _ => some n
  | _ => none

/-- The edition that a command publishes, with the number that it had before. -/
def publication? (s : Session) : Command → Option Edition
  | .load document =>
    match Settings.compileText document with
    | .error _ => none
    | .ok compiled => some compiled.policy.draft
  | .publish e => some e
  | .republish index => s.held[index]?
  | _ => none

def keeping (s : Session) : Command → List Edition
  | .hold => [s.publisher.current]
  | _ => []

/-- All that a command does to a session is to publish and to keep editions, and it reports the
new number if it publishes. -/
theorem step_eq (s : Session) (c : Command) :
    (s.step c).2 =
      ⟨s.publisher.publishAll (s.publication? c).toList, s.held ++ s.keeping c⟩ ∧
    (s.step c).1.publishedAs? =
      (s.publication? c).map fun e => (s.publisher.publish e).current.generation := by
  have hnone : (⟨s.publisher.publishAll [], s.held ++ []⟩ : Session) = s := by
    rw [List.append_nil]
    rfl
  have hsome (e : Edition) : (⟨s.publisher.publishAll [e], s.held ++ []⟩ : Session) =
      s.publish e := by
    rw [List.append_nil]
    rfl
  cases c with
  | load document =>
    simp only [step, publication?, keeping]
    cases Settings.compileText document with
    | error e => exact ⟨hnone.symm, rfl⟩
    | ok compiled => exact ⟨(hsome _).symm, rfl⟩
  | publish e => exact ⟨(hsome e).symm, rfl⟩
  | republish index =>
    simp only [step, publication?, keeping]
    cases s.held[index]? with
    | none => exact ⟨hnone.symm, rfl⟩
    | some e => exact ⟨(hsome e).symm, rfl⟩
  | hold => exact ⟨rfl, rfl⟩
  | askHeld index q =>
    simp only [step, publication?, keeping]
    cases s.held[index]? with
    | none => exact ⟨hnone.symm, rfl⟩
    | some e => exact ⟨hnone.symm, rfl⟩
  | ask q => exact ⟨hnone.symm, rfl⟩
  | generation => exact ⟨hnone.symm, rfl⟩
  | describe => exact ⟨hnone.symm, rfl⟩

theorem step_load_of_refused (s : Session) {document : Text} {e : Settings.Error}
    (h : Settings.Refused document e) : s.step (.load document) = (.refused e, s) := by
  rw [step, Settings.compileText_eq_error_iff.2 h]

/-! Runs. -/

def after (s : Session) (cs : List Command) : Session := (s.run cs).2

def publications (s : Session) : List Command → List Edition
  | [] => []
  | c :: cs => (s.publication? c).toList ++ (s.step c).2.publications cs

theorem run_cons (s : Session) (c : Command) (cs : List Command) :
    s.run (c :: cs) = ((s.step c).1 :: ((s.step c).2.run cs).1, (s.step c).2.after cs) := rfl

theorem after_cons (s : Session) (c : Command) (cs : List Command) :
    s.after (c :: cs) = (s.step c).2.after cs := rfl

theorem length_run (s : Session) (cs : List Command) : (s.run cs).1.length = cs.length := by
  induction cs generalizing s with
  | nil => rfl
  | cons c cs ih => rw [run_cons, List.length_cons, List.length_cons, ih]

theorem run_append (s : Session) (cs ds : List Command) :
    s.run (cs ++ ds) = ((s.run cs).1 ++ ((s.after cs).run ds).1, (s.after cs).after ds) := by
  induction cs generalizing s with
  | nil => rfl
  | cons c cs ih =>
    rw [List.cons_append, run_cons, after, ih, run_cons, after_cons, List.cons_append]

theorem after_append (s : Session) (cs ds : List Command) :
    s.after (cs ++ ds) = (s.after cs).after ds := by
  rw [after, run_append]

theorem publications_append (s : Session) (cs ds : List Command) :
    s.publications (cs ++ ds) = s.publications cs ++ (s.after cs).publications ds := by
  induction cs generalizing s with
  | nil => rfl
  | cons c cs ih =>
    rw [List.cons_append, publications, ih, publications, List.append_assoc, after_cons]

theorem length_publications_le (s : Session) {before cs : List Command} (h : before <+: cs) :
    (s.publications before).length ≤ (s.publications cs).length := by
  obtain ⟨later, rfl⟩ := h
  rw [publications_append, List.length_append]
  exact Nat.le_add_right ..

theorem publisher_after (s : Session) (cs : List Command) :
    (s.after cs).publisher = s.publisher.publishAll (s.publications cs) := by
  induction cs generalizing s with
  | nil => rfl
  | cons c cs ih =>
    rw [after_cons, ih, publications, Publisher.publishAll_append, (s.step_eq c).1]

theorem held_prefix_after (s : Session) (cs : List Command) : s.held <+: (s.after cs).held := by
  induction cs generalizing s with
  | nil => exact List.prefix_rfl
  | cons c cs ih =>
    have hstep : s.held <+: (s.step c).2.held := by
      rw [(s.step_eq c).1]
      exact List.prefix_append ..
    exact hstep.trans (ih (s.step c).2)

theorem getElem?_held_after_hold (s : Session) (more : List Command) :
    (s.after (.hold :: more)).held[s.held.length]? = some s.publisher.current := by
  obtain ⟨rest, hheld⟩ := (s.step .hold).2.held_prefix_after more
  have hstep : (s.step .hold).2.held = s.held ++ [s.publisher.current] := rfl
  rw [after_cons, ← hheld, hstep, List.append_assoc, List.getElem?_append_right (Nat.le_refl _),
    Nat.sub_self]
  rfl

/-- A load that is refused adds its answer to a run, and changes nothing else. -/
theorem run_load_of_refused (s : Session) (before later : List Command) {document : Text}
    {e : Settings.Error} (h : Settings.Refused document e) :
    s.run (before ++ .load document :: later) =
        ((s.run before).1 ++ .refused e :: ((s.after before).run later).1,
          (s.after before).after later) := by
  rw [run_append, after_cons, run_cons, step_load_of_refused _ h]

def lastPublished (first : Edition) (cs : List Command) : Edition :=
  ((start first).publications cs).getLast?.getD first

/-- What one can rely on in a run that starts with a first edition. -/
structure Reliable (first : Edition) (cs : List Command) : Prop where
  /-- At every point the number is one more than the number of publications up to there, and the
  policy is the one that was published last. -/
  current : ∀ before, before <+: cs → ((start first).after before).publisher.current =
    ⟨1 + ((start first).publications before).length, (lastPublished first before).policy⟩
  /-- What publishes is answered with the next number. -/
  numbered : ∀ before c, before ++ [c] <+: cs →
    let s := (start first).after before
    (s.step c).1.publishedAs? = (s.publication? c).map fun _ => s.generation + 1
  decided : ∀ before q, before <+: cs → (((start first).after before).step (.ask q)).1 =
    .decided ((lastPublished first before).policy.reply q)
  /-- Without a load that is refused, all other answers and the last session are the same. -/
  refused : ∀ before document later e, cs = before ++ .load document :: later →
    Settings.Refused document e → ∃ answers more s, answers.length = before.length ∧
      (start first).run cs = (answers ++ .refused e :: more, s) ∧
      (start first).run (before ++ later) = (answers ++ more, s)
  /-- An edition that is kept keeps its number, and answers as it would have at once. -/
  held : ∀ before more, before ++ .hold :: more <+: cs →
    let s := (start first).after before
    let t := (start first).after (before ++ .hold :: more)
    (s.step .hold).1 = .kept s.held.length s.generation ∧
      t.held[s.held.length]? = some s.publisher.current ∧
      ∀ q, (t.step (.askHeld s.held.length q)).1 = (s.step (.ask q)).1

section

variable {first : Edition} {cs : List Command}

theorem policy_after_start (first : Edition) (cs : List Command) :
    ((start first).after cs).publisher.current.policy = (lastPublished first cs).policy := by
  rw [publisher_after, Publisher.policy_publishAll, lastPublished]
  cases ((start first).publications cs).getLast? <;> rfl

theorem generation_after_start (h : ((start first).publications cs).length < UInt64.size - 1) :
    ((start first).after cs).generation = 1 + ((start first).publications cs).length := by
  have hone : (start first).publisher.current.generation = 1 := rfl
  have hroom : (start first).publisher.current.generation +
      ((start first).publications cs).length < UInt64.size := by omega
  rw [generation, publisher_after, Publisher.generation_publishAll hroom, hone]

theorem publishedAs?_step_after_start {before : List Command} {c : Command}
    (h : ((start first).publications (before ++ [c])).length < UInt64.size - 1) :
    (((start first).after before).step c).1.publishedAs? =
      (((start first).after before).publication? c).map fun _ =>
        ((start first).after before).generation + 1 := by
  rw [(step_eq _ c).2]
  cases hpublication : ((start first).after before).publication? c with
  | none => rfl
  | some e =>
    have hlength : ((start first).publications (before ++ [c])).length =
        ((start first).publications before).length + 1 := by
      rw [publications_append, publications, hpublication, List.length_append]
      rfl
    have hbefore : ((start first).publications before).length < UInt64.size - 1 := by omega
    have hgeneration := generation_after_start hbefore
    have hroom : ((start first).after before).publisher.current.generation + 1 < UInt64.size := by
      rw [generation] at hgeneration
      omega
    rw [Option.map_some, Option.map_some, Publisher.generation_publish e hroom]
    rfl

/-- A run is reliable as long as the numbers of 64 bits last for its publications. -/
theorem reliable_of_length_publications_lt
    (h : ((start first).publications cs).length < UInt64.size - 1) : Reliable first cs where
  current before hbefore := by
    have hlength := (start first).length_publications_le hbefore
    have hgeneration := generation_after_start (Nat.lt_of_le_of_lt hlength h)
    exact congr (congrArg Edition.mk hgeneration) (policy_after_start first before)
  numbered before c hbefore :=
    publishedAs?_step_after_start
      (Nat.lt_of_le_of_lt ((start first).length_publications_le hbefore) h)
  decided before q _ := by
    rw [step, policy_after_start]
  refused before document later e hcs hrefused := by
    refine ⟨_, _, _, (start first).length_run before, ?_, (start first).run_append before later⟩
    rw [hcs, run_load_of_refused _ before later hrefused]
  held before more _ := by
    intro s t
    have ht : t = s.after (.hold :: more) := (start first).after_append before _
    have hheld : t.held[s.held.length]? = some s.publisher.current := by
      rw [ht, getElem?_held_after_hold]
    refine ⟨rfl, hheld, fun q => ?_⟩
    simp only [step, hheld]

end

theorem reliable_republished :
    let first : Edition := ⟨7, ⟨.ofEntries [] ["a.com".toList], [], [], .blacklist⟩⟩
    let refused := "[\"strict\"]".toList
    let cs := [.hold, .publish ⟨40, .empty⟩, .load refused, .republish 0]
    let q : Question := ⟨"https://a.com/".toList, [], true⟩
    ((start first).publications cs).length < UInt64.size - 1 ∧
      ((start first).after cs).publisher.current = ⟨3, first.policy⟩ ∧
      (((start first).after cs).step (.askHeld 0 q)).1 = ((start first).step (.ask q)).1 ∧
      Settings.Refused refused (.unknownMode "strict".toList) ∧
      ((start first).run cs).1 =
        [.kept 0 1, .published 2, .refused (.unknownMode "strict".toList), .republished 3 1] := by
  intro first refused cs q
  have hlength : ((start first).publications cs).length = 2 := by decide +kernel
  have hroom : ((start first).publications cs).length < UInt64.size - 1 := by
    rw [hlength]
    decide
  have hreliable := reliable_of_length_publications_lt hroom
  have hcurrent := hreliable.current cs List.prefix_rfl
  have hlast : lastPublished first cs = ⟨1, first.policy⟩ := by decide +kernel
  obtain ⟨_, _, hheld⟩ := hreliable.held [] _ List.prefix_rfl
  rw [hlength, hlast] at hcurrent
  refine ⟨hroom, hcurrent, hheld q, ?_, by decide +kernel⟩
  exact Settings.compileText_eq_error_iff.1 (by rfl)

end Session

end UrlPolicy
