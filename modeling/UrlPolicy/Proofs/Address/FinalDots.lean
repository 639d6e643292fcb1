import UrlPolicy.Proofs.Address.Parts

set_option autoImplicit false

namespace UrlPolicy.Address

/-- A text names a host, with a number of final dots behind it. -/
def WritesHost (text name : Text) (dots : Nat) : Prop :=
  name.getLast? ≠ some '.' ∧
    ∃ protocol remainder, NamesHost text protocol (name ++ List.replicate dots '.') remainder

/-- A host with a colon in it is in brackets, with no dot behind them. -/
theorem chop_of_isDelimited {host : Text} (h : IsDelimited host)
    (hcolon : ':' ∈ Text.chop '.' host) :
    ∃ inner, ']' ∉ inner ∧ Text.chop '.' host = '[' :: (inner ++ [']']) := by
  rcases h with ⟨inner, hinner, rfl⟩ | ⟨_, hno⟩
  · refine ⟨inner, hinner, Text.chop_eq_self_of_getLast? ?_⟩
    simp [List.getLast?_cons]
  · exact absurd (Text.mem_of_mem_chop hcolon) hno

/-- The host of an address ends with a dot exactly if it is written with more than one. With one
dot or none, all spellings of a host are compared in the same form. -/
theorem read_host_finalDots {raw : Text} {l : Location} (h : (read raw).location = some l) :
    '@' ∉ l.host ∧ (':' ∈ l.host → ∃ inner, ']' ∉ inner ∧ l.host = '[' :: (inner ++ [']'])) ∧
      (∃ name dots, WritesHost (read raw).text name dots) ∧
      ∀ name dots, WritesHost (read raw).text name dots →
        l.host = name ++ List.replicate (dots - 1) '.' ∧
          (l.host.getLast? ≠ some '.' ↔ dots ≤ 1) ∧ (l.host = name ↔ dots ≤ 1) := by
  obtain ⟨host, remainder, hnames, _, rfl⟩ := exists_namesHost h
  obtain ⟨_, _, _, _, _, _, hdelimited, _⟩ := id hnames
  refine ⟨hnames.not_mem_chop (.inr rfl), chop_of_isDelimited hdelimited, ?_, ?_⟩
  · obtain ⟨name, dots, rfl, hname⟩ := Text.exists_append_replicate '.' host
    exact ⟨name, dots, hname, _, _, hnames⟩
  · intro name dots ⟨hname, protocol, remainder', hwritten⟩
    have hhost : Text.chop '.' host = name ++ List.replicate (dots - 1) '.' := by
      rw [hnames.eq hwritten, Text.chop_append_replicate dots hname]
    have hlast := Text.getLast?_append_replicate_iff (dots - 1) hname
    refine ⟨hhost, ?_, ?_⟩
    · rw [hhost, Ne, hlast]
      omega
    · rw [hhost, List.append_right_eq_self, List.replicate_eq_nil_iff]
      omega

theorem read_host_finalDots_user :
    (read " HTTPS://u@v@A.com.:80/b".toList).location = some ⟨"a.com".toList, "/b".toList⟩ ∧
      WritesHost (read " HTTPS://u@v@A.com.:80/b".toList).text "a.com".toList 1 ∧
      "a.com".toList.getLast? ≠ some '.' := by
  have hlocation : (read " HTTPS://u@v@A.com.:80/b".toList).location =
      some ⟨"a.com".toList, "/b".toList⟩ := by decide +kernel
  have hwritten : WritesHost (read " HTTPS://u@v@A.com.:80/b".toList).text "a.com".toList 1 := by
    refine ⟨by decide, some "https".toList, "/b".toList, some "u@v".toList, ":80".toList, ?_⟩
    exact ⟨by decide +kernel, Text.forall_mem_of_all (by decide), by rintro _ ⟨⟩; rfl, by decide,
      .inr ⟨by decide, by decide⟩, .inr rfl⟩
  obtain ⟨_, _, _, hhost⟩ := read_host_finalDots hlocation
  exact ⟨hlocation, hwritten, (hhost _ _ hwritten).2.1.2 (by decide)⟩

theorem read_host_finalDots_twice : ¬ ∀ raw l, (read raw).location = some l →
    (read raw).isInternal = false → l.host.getLast? ≠ some '.' := by
  intro h
  exact h "https://a.com../x".toList ⟨"a.com.".toList, "/x".toList⟩ (by decide +kernel)
    (by decide +kernel) rfl

end UrlPolicy.Address
