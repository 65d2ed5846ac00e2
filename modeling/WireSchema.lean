import WireSchema.Main
import WireSchema.Instance.Store
import WireSchema.Proofs.Lexeme
import WireSchema.Proofs.Extent
import WireSchema.Proofs.Selection
import WireSchema.Proofs.Reading
import WireSchema.Proofs.Relocation
import WireSchema.Proofs.Section
import WireSchema.Proofs.Layout
import WireSchema.Proofs.Concatenation
import WireSchema.Proofs.Growth
import WireSchema.Proofs.Comment
import WireSchema.Proofs.Written
import WireSchema.Proofs.Sentence
import WireSchema.Proofs.Pieces
import WireSchema.Proofs.Munch
import WireSchema.Proofs.Restated
import WireSchema.Proofs.Spelled
import WireSchema.Proofs.Name
import WireSchema.Proofs.Tag
import WireSchema.Proofs.Record
import WireSchema.Proofs.Outcome
import WireSchema.Proofs.Shape
import WireSchema.Proofs.Check
import WireSchema.Proofs.Group
import WireSchema.Proofs.Printer
import WireSchema.Proofs.Compiled
import WireSchema.Proofs.Reference
import WireSchema.Proofs.Acceptance
import WireSchema.Proofs.Closure
import WireSchema.Proofs.Failure
import WireSchema.Proofs.Table
import WireSchema.Proofs.Scope
import WireSchema.Proofs.Token
import WireSchema.Proofs.Load
import WireSchema.Proofs.Tables
import WireSchema.Proofs.Utf8
import WireSchema.Proofs.Constant
import WireSchema.Proofs.Place
import WireSchema.Proofs.Replacement
import WireSchema.Proofs.Writing
import WireSchema.Proofs.Course
import WireSchema.Proofs.FailedRun
import WireSchema.Proofs.Agreement
import WireSchema.Proofs.Rerun
import WireSchema.Proofs.SchemaLine
import WireSchema.Proofs.Bitmask
import WireSchema.Proofs.Identifier
import WireSchema.Proofs.Canonical
import WireSchema.Proofs.Order
import WireSchema.Proofs.Assignment
import WireSchema.Proofs.Unfolding
import WireSchema.Proofs.Face
import WireSchema.Proofs.Equality
import WireSchema.Proofs.Line
import WireSchema.Proofs.ModuleText
import WireSchema.Proofs.Derivation
import WireSchema.Proofs.Resolution
import WireSchema.Proofs.Entry
import WireSchema.Proofs.PlainForm
import WireSchema.Proofs.Partition
import WireSchema.Proofs.ReturnType
import WireSchema.Proofs.Registration
import WireSchema.Proofs.Grammatical
import WireSchema.Proofs.Viable
import WireSchema.Proofs.Location
import WireSchema.Proofs.LayerMarker
import WireSchema.Proofs.CommentedMarker
import WireSchema.Proofs.Patch
import WireSchema.Proofs.AllOrNothing
import WireSchema.Proofs.Numeral
import WireSchema.Proofs.InferredTag
import WireSchema.Proofs.CanonicalText
