import HandlerWeave.Main
import HandlerWeave.Proofs.Analysis.Run
import HandlerWeave.Proofs.Types.Rendering
import HandlerWeave.Proofs.Analysis.Modules
import HandlerWeave.Proofs.Types.Search
import HandlerWeave.Proofs.Analysis.Followed
import HandlerWeave.Proofs.Analysis.Locality
import HandlerWeave.Proofs.Analysis.Sessions
import HandlerWeave.Proofs.Descriptor.Survival
import HandlerWeave.Proofs.Descriptor.Repetition
import HandlerWeave.Proofs.Source.Lexemes
import HandlerWeave.Proofs.Source.Marks
import HandlerWeave.Proofs.Source.Keeps
import HandlerWeave.Proofs.Source.Regular
import HandlerWeave.Proofs.Source.Items
import HandlerWeave.Proofs.Source.Takes
import HandlerWeave.Proofs.Source.TypeMarks
import HandlerWeave.Proofs.Source.TypeReading
import HandlerWeave.Proofs.Declarations.Marks
import HandlerWeave.Proofs.Declarations.Reading
import HandlerWeave.Proofs.Declarations.Printed
import HandlerWeave.Proofs.Declarations.Written
import HandlerWeave.Proofs.Declarations.ReadBack
import HandlerWeave.Proofs.FileTree.Writes
import HandlerWeave.Proofs.Project.Outputs
import HandlerWeave.Proofs.Artifact.Files
import HandlerWeave.Proofs.Artifact.Imports
import HandlerWeave.Proofs.Artifact.Methods
import HandlerWeave.Proofs.Project.Runs
import HandlerWeave.Proofs.Project.Sources
import HandlerWeave.Proofs.Analysis.Descriptions
import HandlerWeave.Proofs.Analysis.Termination
import HandlerWeave.Proofs.Analysis.Order
import HandlerWeave.Proofs.Project.Regeneration
import HandlerWeave.Proofs.Source.MemberBodies
import HandlerWeave.Proofs.Source.Progress
import HandlerWeave.Proofs.Source.Sequel
import HandlerWeave.Proofs.Seam.Casts
import HandlerWeave.Proofs.Seam.Interfaces
import HandlerWeave.Proofs.Descriptor.Failures
import HandlerWeave.Proofs.Descriptor.Stamping
import HandlerWeave.Proofs.Source.Quoting
import HandlerWeave.Proofs.Analysis.Bindings
import HandlerWeave.Proofs.Artifact.Placeholders
import HandlerWeave.Proofs.Types.ReadBack
import HandlerWeave.Proofs.Artifact.Described
import HandlerWeave.Proofs.Types.ImportChains
import HandlerWeave.Proofs.Types.WrittenText
import HandlerWeave.Proofs.Literal.Represented
import HandlerWeave.Proofs.Literal.JsonReading
import HandlerWeave.Proofs.Analysis.Unresolved
import HandlerWeave.Proofs.Literal.Tags
import HandlerWeave.Proofs.Text.Escapes
import HandlerWeave.Proofs.Source.Delimited
import HandlerWeave.Proofs.Source.Brackets
import HandlerWeave.Proofs.Source.Tiling
import HandlerWeave.Proofs.Analysis.SyntaxErrors
import HandlerWeave.Proofs.Artifact.Hyphens
