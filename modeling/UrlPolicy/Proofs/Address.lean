import UrlPolicy.Address
import UrlPolicy.Proofs.Pattern.Parser

set_option autoImplicit false

namespace UrlPolicy.Address

theorem read_eq {raw rest host : Text} {protocol : Option Text}
    (hsplit : SchemeSplit.of (Text.lower (Text.trim raw)) = Pattern.schemeSplit protocol rest)
    (hhost : (hostOf? (splitAuthority rest).1).map (Text.chop '.') = some host)
    (hvalid : isHost host = true) :
    read raw = ⟨Text.lower (Text.trim raw), protocol,
      some ⟨host, rooted (splitAuthority rest).2⟩⟩ := by
  have hlocate (kind : Option SchemeKind) :
      locate? kind rest = some ⟨host, rooted (splitAuthority rest).2⟩ := by
    simp [locate?, hhost, hvalid]
  cases protocol with
  | none => simp only [read, hsplit, Pattern.schemeSplit, hlocate]
  | some scheme => simp only [read, hsplit, Pattern.schemeSplit, hlocate]

theorem read_append {protocol : Option Text} {host t : Text}
    (hscheme : ∀ s ∈ protocol, isScheme s = true)
    (hhost : isHost host = true) (hbracket : '[' ∉ host) (hdot : Text.chop '.' host = host)
    (ht : ∀ c ∈ t.head?, endsAuthority c = true)
    (hplain : ∀ c ∈ protocol.elim [] (· ++ "://".toList) ++ (host ++ t), Pattern.IsPlain c) :
    read (protocol.elim [] (· ++ "://".toList) ++ (host ++ t)) =
      ⟨protocol.elim [] (· ++ "://".toList) ++ (host ++ t), protocol,
        some ⟨host, rooted t⟩⟩ := by
  have hmarks := not_mem_hostMarks_of_isHost hhost hbracket
  have hno (c : Char) (hc : c ∈ hostMarks) : c ∉ host := fun hmem => hmarks c hmem hc
  have hread : hostOf? host = some host :=
    (hostOf?_eq_some_iff (hno '@' (by decide)) hbracket).2
      ⟨hno ':' (by decide), [], by simp, .inl rfl⟩
  have hsplit := Pattern.schemeSplit_append hscheme hmarks ht
  have hauthority := splitAuthority_append (fun c hc => endsAuthority_of_not_mem (hmarks c hc)) ht
  have hlower := Pattern.lower_trim_of_isPlain hplain
  rw [← hlower] at hsplit
  rw [read_eq hsplit (by rw [hauthority, hread, Option.map_some, hdot]) hhost, hlower, hauthority]

end UrlPolicy.Address
