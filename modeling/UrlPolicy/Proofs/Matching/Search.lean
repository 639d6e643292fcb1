import UrlPolicy.Matching.Path

/-!
What it means for patterns to fit segments, and that the search decides it. The search keeps only
the last `**` it has passed. It misses nothing: whatever an earlier `**` could still reach, the
last one reaches too, because it lets any segments pass in front of the patterns behind it. And it
ends, because each time it goes back fewer segments are left behind the last `**`.
-/

set_option autoImplicit false

namespace UrlPolicy

def SegmentPattern.isSingle : SegmentPattern → Bool
  | .anyMany | .rest => false
  | _ => true

/-- The segments as a whole fit the patterns in order. -/
inductive Fits : List SegmentPattern → List Text → Prop where
  | nil : Fits [] []
  | rest (ps : List SegmentPattern) (ts : List Text) : Fits (.rest :: ps) ts
  | last {ps : List SegmentPattern} {ts : List Text} (t : Text) (h : Fits ps ts) :
      Fits (.anyMany :: ps) (t :: ts)
  | more {ps : List SegmentPattern} {ts : List Text} (t : Text) (h : Fits (.anyMany :: ps) ts) :
      Fits (.anyMany :: ps) (t :: ts)
  | single {p : SegmentPattern} {ps : List SegmentPattern} {t : Text} {ts : List Text}
      (hp : p.isSingle = true) (ht : p.accepts t = true) (h : Fits ps ts) :
      Fits (p :: ps) (t :: ts)

namespace Fits

theorem nil_iff {ts : List Text} : Fits [] ts ↔ ts = [] := by
  constructor
  · intro h
    cases h
    rfl
  · rintro rfl
    exact .nil

theorem anyMany_cons_iff {ps : List SegmentPattern} {t : Text} {ts : List Text} :
    Fits (.anyMany :: ps) (t :: ts) ↔ Fits ps ts ∨ Fits (.anyMany :: ps) ts := by
  constructor
  · intro h
    cases h with
    | last _ h => exact .inl h
    | more _ h => exact .inr h
    | single hp _ _ => cases hp
  · rintro (h | h)
    · exact .last t h
    · exact .more t h

theorem single_cons_iff {p : SegmentPattern} {ps : List SegmentPattern} {t : Text}
    {ts : List Text} (hp : p.isSingle = true) :
    Fits (p :: ps) (t :: ts) ↔ p.accepts t = true ∧ Fits ps ts := by
  constructor
  · intro h
    cases h with
    | rest => cases hp
    | last _ _ => cases hp
    | more _ _ => cases hp
    | single _ ht h => exact ⟨ht, h⟩
  · rintro ⟨ht, h⟩
    exact .single hp ht h

theorem not_nil_of_ne_rest {p : SegmentPattern} {ps : List SegmentPattern} (hp : p ≠ .rest) :
    ¬ Fits (p :: ps) [] := by
  intro h
  cases h
  exact hp rfl

theorem anyMany_append {ps : List SegmentPattern} {ts : List Text} (before : List Text)
    (h : Fits (.anyMany :: ps) ts) : Fits (.anyMany :: ps) (before ++ ts) := by
  induction before with
  | nil => exact h
  | cons t before ih => exact .more t ih

theorem drop_of_append {fixed ps : List SegmentPattern} {ts : List Text}
    (hfixed : ∀ p ∈ fixed, p.isSingle = true) (h : Fits (fixed ++ ps) ts) :
    Fits ps (ts.drop fixed.length) := by
  induction fixed generalizing ts with
  | nil => exact h
  | cons p fixed ih =>
    cases ts with
    | nil =>
      have hp := hfixed p (by simp)
      refine absurd h (not_nil_of_ne_rest ?_)
      rintro rfl
      cases hp
    | cons t ts =>
      have hp := hfixed p (by simp)
      exact ih (fun q hq => hfixed q (by simp [hq])) ((single_cons_iff hp).1 h).2

theorem of_anyMany {ps : List SegmentPattern} {ts : List Text} (h : Fits (.anyMany :: ps) ts) :
    ∃ n, Fits ps (ts.drop n) := by
  induction ts with
  | nil => exact absurd h (not_nil_of_ne_rest (by simp))
  | cons t ts ih =>
    rcases anyMany_cons_iff.1 h with h | h
    · exact ⟨1, h⟩
    · obtain ⟨n, hn⟩ := ih h
      exact ⟨n + 1, hn⟩

/-- What a `**` reaches, a later one behind patterns for one segment each reaches too, from the
place it was first passed at. -/
theorem anyMany_exchange {fixed ps : List SegmentPattern} {taken ts : List Text}
    (hfixed : ∀ p ∈ fixed, p.isSingle = true) (hlength : fixed.length = taken.length)
    (h : Fits (.anyMany :: (fixed ++ .anyMany :: ps)) (taken ++ ts)) :
    Fits (.anyMany :: ps) ts := by
  obtain ⟨n, hn⟩ := of_anyMany h
  have hdrop := drop_of_append hfixed hn
  rw [List.drop_drop, Nat.add_comm, ← List.drop_drop, hlength, List.drop_left] at hdrop
  have happend := anyMany_append (ts.take n) hdrop
  rwa [List.take_append_drop] at happend

end Fits

namespace Search

/-- What the last `**` can still reach by taking more segments. -/
def StarReaches (s : Search) : Prop :=
  ∃ ps ts, s.star = some (ps, ts) ∧ Fits (.anyMany :: ps) ts

def Open (s : Search) : Prop := Fits s.patterns s.segments ∨ s.StarReaches

/-- Since the last `**` only patterns for one segment each have been passed, each with its
segment; and no more than `width` patterns are ever left. -/
structure Linked (width : Nat) (s : Search) : Prop where
  patterns_le : s.patterns.length ≤ width
  star : ∀ ps ts, s.star = some (ps, ts) → ps.length ≤ width ∧
    ∃ fixed taken, ps = fixed ++ s.patterns ∧ ts = taken ++ s.segments ∧
      fixed.length = taken.length ∧ ∀ p ∈ fixed, p.isSingle = true

theorem retry_cases (s : Search) :
    (s.retry = .failed ∧ ¬ s.StarReaches) ∨
      ∃ ps t ts, s.star = some (ps, t :: ts) ∧ s.retry = .more ⟨ps, ts, some (ps, ts)⟩ := by
  cases hs : s.star with
  | none => exact .inl ⟨by simp [retry, hs], by simp [StarReaches, hs]⟩
  | some star =>
    obtain ⟨ps, ts⟩ := star
    cases ts with
    | nil =>
      refine .inl ⟨by simp [retry, hs], ?_⟩
      rintro ⟨qs, us, hq, h⟩
      rw [hs] at hq
      cases hq
      exact Fits.not_nil_of_ne_rest (by simp) h
    | cons t ts => exact .inr ⟨ps, t, ts, rfl, by simp [retry, hs]⟩

theorem step_nil {p : SegmentPattern} (ps : List SegmentPattern)
    (star : Option (List SegmentPattern × List Text)) (hp : p ≠ .rest) :
    step ⟨p :: ps, [], star⟩ = retry ⟨p :: ps, [], star⟩ := by
  cases p with
  | rest => exact absurd rfl hp
  | _ => rfl

theorem step_single {p : SegmentPattern} (ps : List SegmentPattern) (t : Text) (ts : List Text)
    (star : Option (List SegmentPattern × List Text)) (hp : p.isSingle = true) :
    step ⟨p :: ps, t :: ts, star⟩ =
      if p.accepts t then .more ⟨ps, ts, star⟩ else retry ⟨p :: ps, t :: ts, star⟩ := by
  cases p with
  | rest => cases hp
  | anyMany => cases hp
  | _ => rfl

theorem step_cases (s : Search) :
    (s.step = .found ∧ Fits s.patterns s.segments) ∨
      (s.step = s.retry ∧ ¬ Fits s.patterns s.segments) ∨
      (∃ ps t ts, s.patterns = .anyMany :: ps ∧ s.segments = t :: ts ∧
        s.step = .more ⟨ps, ts, some (ps, ts)⟩) ∨
      ∃ p ps t ts, s.patterns = p :: ps ∧ s.segments = t :: ts ∧ p.isSingle = true ∧
        p.accepts t = true ∧ s.step = .more ⟨ps, ts, s.star⟩ := by
  obtain ⟨patterns, segments, star⟩ := s
  cases patterns with
  | nil =>
    cases segments with
    | nil => exact .inl ⟨rfl, .nil⟩
    | cons t ts => exact .inr (.inl ⟨rfl, by simp [Fits.nil_iff]⟩)
  | cons p ps =>
    by_cases hrest : p = .rest
    · subst hrest
      exact .inl ⟨rfl, .rest ps segments⟩
    · cases segments with
      | nil => exact .inr (.inl ⟨step_nil ps star hrest, Fits.not_nil_of_ne_rest hrest⟩)
      | cons t ts =>
        by_cases hmany : p = .anyMany
        · subst hmany
          exact .inr (.inr (.inl ⟨ps, t, ts, rfl, rfl, rfl⟩))
        · have hp : p.isSingle = true := by cases p <;> simp_all [SegmentPattern.isSingle]
          have hstep := step_single ps t ts star hp
          by_cases ht : p.accepts t = true
          · rw [if_pos ht] at hstep
            exact .inr (.inr (.inr ⟨p, ps, t, ts, rfl, rfl, hp, ht, hstep⟩))
          · rw [if_neg ht] at hstep
            exact .inr (.inl ⟨hstep, fun h => ht ((Fits.single_cons_iff hp).1 h).1⟩)

def behind (s : Search) : Nat :=
  match s.star with
  | none => s.segments.length
  | some (_, ts) => ts.length

/-- An upper bound for the steps that are left but one. A retry or a new `**` leaves fewer segments
behind the last one, and every other step leaves fewer patterns. -/
def potential (width : Nat) (s : Search) : Nat := s.behind * (width + 1) + s.patterns.length

section

variable {width : Nat} {s : Search} {p : SegmentPattern} {ps : List SegmentPattern} {t : Text}
  {ts : List Text}

theorem linked_restart (hps : ps.length ≤ width) : Linked width ⟨ps, ts, some (ps, ts)⟩ := by
  refine ⟨hps, fun qs us h => ?_⟩
  cases h
  exact ⟨hps, [], [], rfl, rfl, rfl, by simp⟩

theorem open_restart : Open ⟨ps, ts, some (ps, ts)⟩ ↔ Fits (.anyMany :: ps) (t :: ts) := by
  rw [Fits.anyMany_cons_iff]
  refine or_congr Iff.rfl ⟨?_, fun h => ⟨ps, ts, rfl, h⟩⟩
  rintro ⟨qs, us, h, hfits⟩
  cases h
  exact hfits

theorem potential_restart (hps : ps.length ≤ width) (hts : ts.length < s.behind) :
    potential width ⟨ps, ts, some (ps, ts)⟩ < s.potential width := by
  have hmul := Nat.mul_le_mul_right (width + 1) (Nat.succ_le_of_lt hts)
  rw [Nat.succ_mul] at hmul
  simp only [potential, behind] at hmul ⊢
  omega

theorem starReaches_iff (h : s.star = some (ps, ts)) :
    s.StarReaches ↔ Fits (.anyMany :: ps) ts := by
  constructor
  · rintro ⟨qs, us, hq, hfits⟩
    rw [h] at hq
    cases hq
    exact hfits
  · exact fun hfits => ⟨ps, ts, h, hfits⟩

/-- At a new `**` the one before it is no longer needed. -/
theorem open_anyMany (hs : s.Linked width) (hps : s.patterns = .anyMany :: ps)
    (hts : s.segments = t :: ts) : s.Open ↔ Fits (.anyMany :: ps) (t :: ts) := by
  rw [Open, hps, hts]
  refine or_iff_left_of_imp ?_
  rintro ⟨qs, us, hstar, hfits⟩
  obtain ⟨_, fixed, taken, rfl, rfl, hlength, hfixed⟩ := hs.star qs us hstar
  rw [hps, hts] at hfits
  exact Fits.anyMany_exchange hfixed hlength hfits

theorem behind_anyMany (hs : s.Linked width) (hts : s.segments = t :: ts) :
    ts.length < s.behind := by
  cases hstar : s.star with
  | none => simp [behind, hstar, hts]
  | some star =>
    obtain ⟨_, fixed, taken, _, hus, _⟩ := hs.star star.1 star.2 hstar
    simp only [behind, hstar, hus, hts, List.length_append, List.length_cons]
    omega

theorem linked_single (hs : s.Linked width) (hps : s.patterns = p :: ps)
    (hts : s.segments = t :: ts) (hp : p.isSingle = true) : Linked width ⟨ps, ts, s.star⟩ := by
  refine ⟨?_, fun qs us h => ?_⟩
  · have hle := hs.patterns_le
    rw [hps, List.length_cons] at hle
    exact Nat.le_of_succ_le hle
  · obtain ⟨hqs, fixed, taken, hq, hu, hlength, hfixed⟩ := hs.star qs us h
    refine ⟨hqs, fixed ++ [p], taken ++ [t], by simp [hq, hps], by simp [hu, hts],
      by simp [hlength], ?_⟩
    intro q hq
    rcases List.mem_append.1 hq with hq | hq
    · exact hfixed q hq
    · rwa [List.mem_singleton.1 hq]

theorem open_single (hps : s.patterns = p :: ps) (hts : s.segments = t :: ts)
    (hp : p.isSingle = true) (ht : p.accepts t = true) : Open ⟨ps, ts, s.star⟩ ↔ s.Open := by
  rw [Open, Open, hps, hts, Fits.single_cons_iff hp]
  exact or_congr (by simp [ht]) Iff.rfl

theorem potential_single (hps : s.patterns = p :: ps) (hts : s.segments = t :: ts) :
    potential width ⟨ps, ts, s.star⟩ < s.potential width := by
  have hbehind : behind ⟨ps, ts, s.star⟩ ≤ s.behind := by
    cases hstar : s.star <;> simp [behind, hstar, hts]
  have hmul := Nat.mul_le_mul_right (width + 1) hbehind
  simp only [potential, hps, List.length_cons]
  omega

end

theorem step_more {width : Nat} {s s' : Search} (hs : s.Linked width) (h : s.step = .more s') :
    s'.Linked width ∧ (s'.Open ↔ s.Open) ∧ s'.potential width < s.potential width := by
  rcases s.step_cases with ⟨hstep, _⟩ | ⟨hstep, hfits⟩ | ⟨ps, t, ts, hps, hts, hstep⟩ |
    ⟨p, ps, t, ts, hps, hts, hp, ht, hstep⟩
  · rw [hstep] at h
    cases h
  · rcases s.retry_cases with ⟨hretry, _⟩ | ⟨ps, t, ts, hstar, hretry⟩
    · rw [hstep, hretry] at h
      cases h
    · -- nothing else can fit any more, so going back to the last `**` loses nothing
      rw [hstep, hretry] at h
      cases h
      have hle := (hs.star _ _ hstar).1
      refine ⟨linked_restart hle, ?_, potential_restart hle ?_⟩
      · rw [open_restart, Open, starReaches_iff hstar, or_iff_right hfits]
      · simp [behind, hstar]
  · rw [hstep] at h
    cases h
    have hle := hs.patterns_le
    rw [hps, List.length_cons] at hle
    refine ⟨linked_restart (by omega), ?_, potential_restart (by omega) (behind_anyMany hs hts)⟩
    rw [open_restart, open_anyMany hs hps hts]
  · rw [hstep] at h
    cases h
    exact ⟨linked_single hs hps hts hp, open_single hps hts hp ht, potential_single hps hts⟩

theorem open_of_found {s : Search} (h : s.step = .found) : s.Open := by
  rcases s.step_cases with ⟨_, hfits⟩ | ⟨hstep, _⟩ | ⟨_, _, _, _, _, hstep⟩ |
    ⟨_, _, _, _, _, _, _, _, hstep⟩
  · exact .inl hfits
  · rcases s.retry_cases with ⟨hretry, _⟩ | ⟨_, _, _, _, hretry⟩
    all_goals
      rw [hstep, hretry] at h
      cases h
  all_goals
    rw [hstep] at h
    cases h

theorem not_open_of_failed {s : Search} (h : s.step = .failed) : ¬ s.Open := by
  rcases s.step_cases with ⟨hstep, _⟩ | ⟨hstep, hfits⟩ | ⟨_, _, _, _, _, hstep⟩ |
    ⟨_, _, _, _, _, _, _, _, hstep⟩
  · rw [hstep] at h
    cases h
  · rcases s.retry_cases with ⟨_, hreach⟩ | ⟨_, _, _, _, hretry⟩
    · exact fun ho => ho.elim hfits hreach
    · rw [hstep, hretry] at h
      cases h
  all_goals
    rw [hstep] at h
    cases h

theorem run_decides {width : Nat} (fuel : Nat) (s : Search) (hs : s.Linked width)
    (hfuel : s.potential width < fuel) : ∃ b, run fuel s = some b ∧ (b = true ↔ s.Open) := by
  induction fuel generalizing s with
  | zero => omega
  | succ fuel ih =>
    cases hstep : s.step with
    | found => exact ⟨true, by rw [run, hstep], by simpa using open_of_found hstep⟩
    | failed => exact ⟨false, by rw [run, hstep], by simpa using not_open_of_failed hstep⟩
    | more s' =>
      obtain ⟨hlinked, hopen, hless⟩ := step_more hs hstep
      obtain ⟨b, hb, hiff⟩ := ih s' hlinked (by omega)
      exact ⟨b, by rw [run, hstep]; exact hb, hiff.trans hopen⟩

theorem run_bound (ps : List SegmentPattern) (ts : List Text) :
    ∃ b, run (bound ps ts) ⟨ps, ts, none⟩ = some b ∧ (b = true ↔ Fits ps ts) := by
  have hlinked : Linked ps.length ⟨ps, ts, none⟩ := ⟨Nat.le_refl _, by simp⟩
  have hfuel : potential ps.length ⟨ps, ts, none⟩ < bound ps ts := by
    rw [bound, Nat.mul_comm, Nat.succ_mul]
    simp only [potential, behind]
    omega
  obtain ⟨b, hb, hiff⟩ := run_decides _ _ hlinked hfuel
  refine ⟨b, hb, hiff.trans (or_iff_left ?_)⟩
  rintro ⟨_, _, h, _⟩
  cases h

/-- A run that returns does so after a number of steps of its own, whatever the fuel. -/
theorem exists_steps_of_run {fuel : Nat} {s : Search} {b : Bool} (h : run fuel s = some b) :
    ∃ steps ≤ fuel, ∀ n, run n s = if steps ≤ n then some b else none := by
  induction fuel generalizing s with
  | zero => cases h
  | succ fuel ih =>
    cases hstep : s.step with
    | more s' =>
      rw [run, hstep] at h
      obtain ⟨steps, hle, hsteps⟩ := ih h
      refine ⟨steps + 1, Nat.succ_le_succ hle, fun n => ?_⟩
      cases n with
      | zero => rfl
      | succ n => simp only [run, hstep, hsteps, Nat.succ_le_succ_iff]
    | _ =>
      rw [run, hstep] at h
      refine ⟨1, Nat.succ_le_succ (Nat.zero_le fuel), fun n => ?_⟩
      cases n with
      | zero => rfl
      | succ n => rw [run, hstep, h, if_pos (Nat.succ_le_succ (Nat.zero_le n))]

end Search

theorem segmentsMatch_iff (ps : List SegmentPattern) (ts : List Text) :
    segmentsMatch ps ts = true ↔ Fits ps ts := by
  obtain ⟨b, hb, hiff⟩ := Search.run_bound ps ts
  rw [segmentsMatch, hb]
  exact hiff

/-- A path is accepted exactly when its segments fit the patterns: going back to the last `**`
alone misses no way of dividing the segments, and makes none up. -/
theorem PathPattern.segmented_accepts_iff_fits (ps : List SegmentPattern) (path : Text) :
    (PathPattern.segmented ps).accepts path = true ↔ Fits ps (pathSegments path) :=
  segmentsMatch_iff ps (pathSegments path)

/-- The search through a path returns after a fixed number of steps, at most the product of the
numbers of patterns and of segments, each plus one. With less fuel it runs out, and with more it
gives the same answer. -/
theorem PathPattern.segmented_steps_le (ps : List SegmentPattern) (path : Text) :
    ∃ steps ≤ (ps.length + 1) * ((pathSegments path).length + 1), ∀ fuel,
      Search.run fuel ⟨ps, pathSegments path, none⟩ =
        if steps ≤ fuel then some ((PathPattern.segmented ps).accepts path) else none := by
  obtain ⟨b, hb, _⟩ := Search.run_bound ps (pathSegments path)
  obtain ⟨steps, hle, hsteps⟩ := Search.exists_steps_of_run hb
  have haccepts : (PathPattern.segmented ps).accepts path = b := by
    rw [accepts, segmentsMatch, hb]
    rfl
  rw [haccepts]
  exact ⟨steps, hle, hsteps⟩

end UrlPolicy
