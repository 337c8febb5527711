import Facet.Main
import Facet.Graph.Summary
import Facet.Selector.Printer
import Facet.Proofs.Arrangement
import Facet.Proofs.Arrangement.Sorted
import Facet.Proofs.Document
import Facet.Proofs.Except
import Facet.Proofs.Lists
import Facet.Proofs.Permission.Format
import Facet.Proofs.Permission.RoundTrip
import Facet.Proofs.Projection
import Facet.Proofs.Rendering
import Facet.Proofs.Scalar
import Facet.Proofs.Scalar.ExactValue
import Facet.Proofs.Projector.Pruning
import Facet.Proofs.Projector.Confinement
import Facet.Proofs.Projector.Failure
import Facet.Proofs.Selector.Braces
import Facet.Proofs.Selector.Grammar
import Facet.Proofs.Selector.Parts
import Facet.Proofs.Selector.Reading
import Facet.Proofs.Selector.RoundTrip
import Facet.Proofs.Selector.Language
import Facet.Proofs.Projector.Noninterference
import Facet.Proofs.Projector.Narrowing
import Facet.Proofs.Projector.Provenance
import Facet.Proofs.Projector.Reordering
import Facet.Proofs.Rendering.Unattached
import Facet.Proofs.Selector.Positions
import Facet.Proofs.Selector.Unclosed
import Facet.Proofs.Projector.Withheld
import Facet.Proofs.Metadata
import Facet.Proofs.Document.Shown
import Facet.Proofs.Selector.Offsets
import Facet.Proofs.Rendering.Selectors
import Facet.Proofs.Arrangement.Absorption
import Facet.Proofs.Projector.Fields
import Facet.Proofs.Projector.Siblings
import Facet.Proofs.Projector.Idempotence
import Facet.Proofs.Projector.Settings
import Facet.Proofs.Projector.Series
import Facet.Proofs.Selector.Concatenation
import Facet.Proofs.Permission.Descent
import Facet.Proofs.Permission.Agreement
import Facet.Proofs.CommandLine
import Facet.Proofs.Selector.Calls
