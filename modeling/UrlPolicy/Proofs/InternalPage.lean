import UrlPolicy.Address
import UrlPolicy.Proofs.Scheme
import UrlPolicy.Proofs.Text.Ascii

/-!
Pages of the browser, told from the start of a text or from the address it is read as. The scheme
is cut off in two lower cases, so it is shown that both leave a port a port, and that a scheme of
the browser is found in either or in neither.
-/

set_option autoImplicit false

namespace UrlPolicy

/-- A character that tells a port from the rest of an address. -/
def MarksPort (c : Char) : Prop := c.isDigit = true ∨ endsAuthority c = true

/-- The texts agree up to the first character that no port has. -/
inductive AgreeOnPort : Text → Text → Prop where
  | nil : AgreeOnPort [] []
  | keep {c : Char} {t u : Text} (h : AgreeOnPort t u) : AgreeOnPort (c :: t) (c :: u)
  | stop {c d : Char} {t u : Text} (hc : ¬ MarksPort c) (hd : ¬ MarksPort d) :
      AgreeOnPort (c :: t) (d :: u)

theorem AgreeOnPort.startsWithPort_eq {t u : Text} (h : AgreeOnPort t u) :
    startsWithPort t = startsWithPort u := by
  have hdigits : (t.takeWhile fun c => !endsAuthority c).all Char.isDigit =
      (u.takeWhile fun c => !endsAuthority c).all Char.isDigit := by
    induction h with
    | nil => rfl
    | @keep c t u _ ih =>
      by_cases hc : endsAuthority c = true
      · simp [hc]
      · simp [hc, ih]
    | stop hc hd =>
      simp only [MarksPort, not_or, Bool.not_eq_true] at hc hd
      simp [hc, hd]
  have hempty : (t.takeWhile fun c => !endsAuthority c) = [] ↔
      (u.takeWhile fun c => !endsAuthority c) = [] := by
    cases h with
    | nil => rfl
    | @keep c t u _ => by_cases hc : endsAuthority c = true <;> simp [hc]
    | stop hc hd =>
      simp only [MarksPort, not_or, Bool.not_eq_true] at hc hd
      simp [hc.2, hd.2]
  have hne : ((t.takeWhile fun c => !endsAuthority c) != []) =
      ((u.takeWhile fun c => !endsAuthority c) != []) := by
    rw [Bool.eq_iff_iff, bne_iff_ne, bne_iff_ne]
    exact not_congr hempty
  simp only [startsWithPort, hne, hdigits]

theorem MarksPort.toNat_lt {c : Char} (h : MarksPort c) : c.toNat < 64 := by
  rcases h with h | h
  · have hle : c.toNat ≤ 57 :=
      UInt32.le_iff_toNat_le.1 (of_decide_eq_true (Bool.and_eq_true_iff.1 h).2)
    omega
  · rcases endsAuthority_iff.1 h with rfl | rfl | rfl <;> decide

theorem MarksPort.isMark {c : Char} (h : MarksPort c) : Text.IsMark c := by
  have := h.toNat_lt
  exact .inl (by omega)

theorem MarksPort.toLower {c : Char} (h : MarksPort c) : c.toLower = c := by
  have := h.toNat_lt
  exact Text.toLower_eq_self (by omega)

theorem agreeOnPort_lowerAfter (before t : Text) : AgreeOnPort t (Text.lowerAfter before t) := by
  induction t generalizing before with
  | nil => exact .nil
  | cons c t ih =>
    by_cases hc : MarksPort c
    · have := hc.toNat_lt
      rw [Text.lowerAfter_cons_of_ascii _ _ (by omega), hc.toLower]
      exact .keep (ih _)
    · rw [Text.lowerAfter]
      split
      · refine .stop hc fun hd => ?_
        have := hd.toNat_lt
        split at this <;> exact absurd this (by decide)
      · cases hlower : Text.lowerChar c with
        | nil => exact absurd hlower (Text.lowerChar_ne_nil c)
        | cons d w =>
          refine .stop hc fun hd => hc ?_
          rwa [← Text.eq_of_mem_lowerChar (d := c) hd.isMark (by simp [hlower])]

theorem agreeOnPort_lowerAscii (t : Text) : AgreeOnPort t (Text.lowerAscii t) := by
  induction t with
  | nil => exact .nil
  | cons c t ih =>
    by_cases hlow : c.toLower = c
    · rw [Text.lowerAscii, List.map_cons, hlow]
      exact .keep ih
    · exact .stop (fun hc => hlow hc.toLower) fun hd => hlow (Text.eq_of_toLower hd.isMark rfl)

namespace SchemeSplit

theorem of_eq_bare {t s u : Text} (h : SchemeSplit.of t = .bare s u) :
    isScheme s = true ∧ t = s ++ ':' :: u ∧ startsWithPort u = false := by
  have ht := List.takeWhile_append_dropWhile (p := fun c => !stopsScheme c) (l := t)
  simp only [stopsScheme] at ht
  rw [SchemeSplit.of] at h
  split at h
  · split at h <;> cases h
  · next hdrop =>
    split at h
    · next hbare =>
      cases h
      rw [Bool.and_eq_true, Bool.not_eq_true'] at hbare
      exact ⟨hbare.2, by rw [← hdrop]; exact ht.symm, hbare.1⟩
    · cases h
  · cases h

def scheme? : SchemeSplit → Option Text
  | .hierarchical scheme _ | .bare scheme _ => some scheme
  | .absent _ | .malformed => none

/-- Slashes behind the colon are no port, so that one condition covers both forms. -/
theorem scheme?_of_eq_some_iff {t s : Text} : (SchemeSplit.of t).scheme? = some s ↔
    isScheme s = true ∧ ∃ u, t = s ++ ':' :: u ∧ startsWithPort u = false := by
  constructor
  · intro h
    cases hsplit : SchemeSplit.of t with
    | hierarchical scheme rest =>
      rw [hsplit] at h
      cases h
      obtain ⟨hscheme, rfl⟩ := of_eq_hierarchical hsplit
      exact ⟨hscheme, _, rfl, rfl⟩
    | bare scheme rest =>
      rw [hsplit] at h
      cases h
      obtain ⟨hscheme, rfl, hport⟩ := of_eq_bare hsplit
      exact ⟨hscheme, rest, rfl, hport⟩
    | absent u => rw [hsplit] at h; cases h
    | malformed => rw [hsplit] at h; cases h
  · rintro ⟨hscheme, u, rfl, hport⟩
    rw [of_colon u (stopsScheme_of_isScheme hscheme)]
    split
    · rw [if_pos hscheme]
      rfl
    · rw [hport, hscheme]
      rfl

/-- A text begins with the same scheme in either lower case, if the scheme is in ASCII and has
no `k`. -/
theorem scheme?_lower_iff {t s : Text} (hs : ∀ c ∈ s, c.toNat < 128 ∧ c ≠ 'k') :
    (SchemeSplit.of (Text.lower t)).scheme? = some s ↔
      (SchemeSplit.of (Text.lowerAscii t)).scheme? = some s := by
  rw [scheme?_of_eq_some_iff, scheme?_of_eq_some_iff]
  refine and_congr_right fun _ => ⟨?_, ?_⟩
  · rintro ⟨u, hlower, hport⟩
    obtain ⟨a, b, hab, ha, rfl, hrest⟩ :=
      Text.exists_of_lowerAfter_eq_append hs (by simp) (show Text.lowerAfter [] t = _ from hlower)
    obtain ⟨v, rfl, rfl⟩ := Text.eq_cons_of_lowerAfter (by decide) hrest.symm
    rw [← (agreeOnPort_lowerAfter _ v).startsWithPort_eq] at hport
    refine ⟨Text.lowerAscii v, ?_, ?_⟩
    · rw [hab, Text.lowerAscii, List.map_append]
      rfl
    · rwa [← (agreeOnPort_lowerAscii v).startsWithPort_eq]
  · rintro ⟨u, hlower, hport⟩
    obtain ⟨a, b, rfl, rfl, hrest⟩ := List.map_eq_append_iff.1 hlower
    obtain ⟨c, v, rfl, hc, rfl⟩ := List.map_eq_cons_iff.1 hrest
    have ha : ∀ c ∈ a, c.toNat < 128 := fun c hc =>
      Text.toNat_toLower_lt_iff.1 (hs _ (List.mem_map_of_mem hc)).1
    obtain rfl : ':' = c := Text.eq_of_toLower (by decide) hc
    rw [← Text.lowerAscii, ← (agreeOnPort_lowerAscii v).startsWithPort_eq] at hport
    refine ⟨Text.lowerAfter (':' :: (a.reverse ++ [])) v, ?_, ?_⟩
    · rw [Text.lower, Text.lowerAfter_append_of_ascii [] _ ha,
        Text.lowerAfter_cons_of_ascii _ _ (by decide)]
      rfl
    · rwa [← (agreeOnPort_lowerAfter _ v).startsWithPort_eq]

end SchemeSplit

theorem SchemeKind.of_eq_internal_iff {s : Text} :
    SchemeKind.of s = .internal ↔ s ∈ internalSchemes := by
  constructor
  · intro h
    rw [SchemeKind.of] at h
    iterate 6
      split at h
      · cases h
    split at h
    · next hmem => exact List.contains_iff_mem.1 hmem
    · cases h
  · intro h
    have hall : internalSchemes.all (fun s => SchemeKind.of s == .internal) = true := by decide
    simpa using List.all_eq_true.1 hall s h

theorem Address.read_scheme (raw : Text) :
    (Address.read raw).scheme = (SchemeSplit.of (Text.lower (Text.trim raw))).scheme? := by
  rw [read]
  split <;> next h => rw [h]; rfl

theorem internalSchemes_ascii : ∀ s ∈ internalSchemes, ∀ c ∈ s, c.toNat < 128 ∧ c ≠ 'k' := by
  have hall : internalSchemes.all (·.all fun c => decide (c.toNat < 128 ∧ c ≠ 'k')) = true := by
    decide
  exact fun s hs => Text.forall_mem_of_all (List.all_eq_true.1 hall s hs)

theorem isInternalPage_iff {raw : Text} : isInternalPage raw = true ↔
    ∃ s ∈ internalSchemes, (SchemeSplit.of (Text.lowerAscii (Text.trim raw))).scheme? = some s := by
  rw [isInternalPage]
  cases SchemeSplit.of (Text.lowerAscii (Text.trim raw)) <;>
    simp [SchemeSplit.scheme?, SchemeKind.of_eq_internal_iff]

theorem Address.isInternal_iff {a : Address} :
    a.isInternal = true ↔ ∃ s ∈ internalSchemes, a.scheme = some s := by
  rw [isInternal, kind]
  cases a.scheme <;> simp [SchemeKind.of_eq_internal_iff]

/-- The quick check reads the scheme in the lower case of ASCII and looks at nothing else. It
agrees with the address that is read in the lower case of all characters, whether a host is found
there or not. -/
theorem isInternalPage_eq_isInternal (raw : Text) :
    isInternalPage raw = (Address.read raw).isInternal := by
  rw [Bool.eq_iff_iff, isInternalPage_iff, Address.isInternal_iff, Address.read_scheme]
  refine exists_congr fun s => and_congr_right fun hs => ?_
  exact (SchemeSplit.scheme?_lower_iff (internalSchemes_ascii s hs)).symm

end UrlPolicy
