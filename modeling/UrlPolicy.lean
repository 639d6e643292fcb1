import UrlPolicy.Files.Folder
import UrlPolicy.Main
import UrlPolicy.Policy.Session
import UrlPolicy.Proofs.Decision.Stages
import UrlPolicy.Proofs.Decision.Thinning
import UrlPolicy.Proofs.Matching.Search
import UrlPolicy.Proofs.Pattern.Canonical
import UrlPolicy.Proofs.Decision.Monotone
import UrlPolicy.Proofs.Decision.Trace
import UrlPolicy.Proofs.Pattern.Spelling
import UrlPolicy.Proofs.Decision.Evidence
import UrlPolicy.Proofs.Decision.Reordering
import UrlPolicy.Proofs.Path.Cursor
import UrlPolicy.Proofs.Matching.Glob
import UrlPolicy.Proofs.Matching.Path
import UrlPolicy.Proofs.Pattern.Filling
import UrlPolicy.Proofs.Matching.Filling
import UrlPolicy.Proofs.Address
import UrlPolicy.Proofs.Matching.Instance
import UrlPolicy.Proofs.Matching.Outcome
import UrlPolicy.Proofs.Matching.Literal
import UrlPolicy.Proofs.Matching.Domain
import UrlPolicy.Proofs.Decoration
import UrlPolicy.Proofs.Matching.Decoration
import UrlPolicy.Proofs.Settings
import UrlPolicy.Proofs.Policy.Session
import UrlPolicy.Proofs.InternalPage
import UrlPolicy.Proofs.Decision.Export
import UrlPolicy.Proofs.Pattern.WellFormed
import UrlPolicy.Proofs.Settings.RoundTrip
import UrlPolicy.Proofs.Matching.Expansion
import UrlPolicy.Proofs.Address.Spelling
import UrlPolicy.Proofs.Matching.Specificity
import UrlPolicy.Proofs.Keyword
import UrlPolicy.Proofs.Rule.Deduplication
import UrlPolicy.Proofs.Address.FinalDots
import UrlPolicy.Proofs.Pattern.Shape
import UrlPolicy.Proofs.Matching.Query
import UrlPolicy.Proofs.Pattern.Score
import UrlPolicy.Proofs.CommandLine.Check
import UrlPolicy.Proofs.Settings.Rearranged
import UrlPolicy.Proofs.Path.CursorStates
