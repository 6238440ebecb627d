import SemverRange.Cache.Session
import SemverRange.Proofs.Dnf.Release
import SemverRange.Proofs.Formula.RoundTrip
import SemverRange.Settings.Load
import SemverRange.Proofs.Dnf.Tidy
import SemverRange.Proofs.Formula.WellFormed
import SemverRange.Proofs.Dnf.RoundTrip
import SemverRange.Proofs.Cache.Interleaving
import SemverRange.Proofs.Cache.Adequacy
import SemverRange.Proofs.Cache.AtMostOnce
import SemverRange.Proofs.Cache.Transparency
import SemverRange.Proofs.Cache.Recency
import SemverRange.Proofs.Cache.FirstAccess
import SemverRange.Proofs.Cache.Bookkeeping
import SemverRange.Proofs.Version.Comparison
import SemverRange.Proofs.Version.RoundTrip
import SemverRange.Proofs.Version.Notation
import SemverRange.Proofs.Formula.Refusal
import SemverRange.Proofs.Formula.Cursor
import SemverRange.Proofs.Formula.Agreement
import SemverRange.Proofs.Dnf.Build
import SemverRange.Proofs.Dnf.Layout
import SemverRange.Proofs.Dnf.Combination
import SemverRange.Proofs.Dnf.Operators
import SemverRange.Proofs.Dnf.Convexity
import SemverRange.Proofs.Dnf.Reflexivity
import SemverRange.Proofs.Formula.Composition
import SemverRange.Proofs.Formula.Misfit
import SemverRange.Proofs.Formula.Position
import SemverRange.Proofs.Formula.Spacing
import SemverRange.Proofs.Text.Utf8
import SemverRange.Proofs.Text.Quoted
import SemverRange.Proofs.Settings.Steps
import SemverRange.Proofs.Settings.Display
import SemverRange.Proofs.Settings.JsonValue
import SemverRange.Proofs.Settings.Json
import SemverRange.Proofs.Settings.Yaml.Scanning
import SemverRange.Proofs.Settings.Yaml.Reading
import SemverRange.Proofs.Settings.Yaml.Scalars
import SemverRange.Proofs.Settings.Yaml.Graphs
import SemverRange.Proofs.Settings.Loading
import SemverRange.Proofs.Numeric.Binary64
import SemverRange.Proofs.Settings.OneLine
import SemverRange.Proofs.Settings.Constraints
import SemverRange.Proofs.Settings.Places
import SemverRange.Proofs.Settings.Validity
import SemverRange.Proofs.Dnf.Ceilings
import SemverRange.Proofs.Formula.Tiling
import SemverRange.Proofs.Formula.Stray
import SemverRange.Proofs.Settings.Values
