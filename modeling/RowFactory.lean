import RowFactory.Text.Blank
import RowFactory.Text.IdentifierChars
import RowFactory.Text.Quoted
import RowFactory.Source.Lexer
import RowFactory.Source.Literal
import RowFactory.Source.Keyword
import RowFactory.Source.Parser
import RowFactory.Source.Ty
import RowFactory.Source.Grammar
import RowFactory.Source.TypeGrammar
import RowFactory.Source.ExprGrammar
import RowFactory.Source.File
import RowFactory.Config
import RowFactory.Generation.Cancellation
import RowFactory.Name.QualifiedName
import RowFactory.Mapping.Binding
import RowFactory.Scan.Derive
import RowFactory.Scan.Scope
import RowFactory.Scan.Search
import RowFactory.Factory.Artifact
import RowFactory.Factory.Basic
import RowFactory.Generation.Pass
import RowFactory.Scan.Discovery
import RowFactory.Factory.Pretty
import RowFactory.Derive.Expansion
import RowFactory.Generation.Generate
import RowFactory.Row.Conversion
import RowFactory.Row.Record
import RowFactory.Factory.Run
import RowFactory.Row.ValueJson
import RowFactory.Output.FileTree
import RowFactory.Output.Writer
import RowFactory.Proofs.Scan.Moves
import RowFactory.Proofs.Scan.Remembering
import RowFactory.Proofs.Scan.Discovery
import RowFactory.Proofs.Mapping.Binding
import RowFactory.Proofs.Name.QualifiedName
import RowFactory.Proofs.Derive.Expansion
import RowFactory.Proofs.Text.Quoted
import RowFactory.Proofs.Factory.FromRow
import RowFactory.Proofs.Generation.Replay
import RowFactory.Proofs.Generation.Interruption
import RowFactory.Proofs.Source.Glyphs
import RowFactory.Proofs.Source.TokenText
import RowFactory.Proofs.Factory.Compact
import RowFactory.Proofs.Source.Spacing
import RowFactory.Proofs.Layout.Writing
import RowFactory.Proofs.Factory.Pretty
import RowFactory.Proofs.Layout.Groups
import RowFactory.Proofs.Layout.Marks
import RowFactory.Proofs.Source.Ensures
import RowFactory.Proofs.Source.ItemNames
import RowFactory.Proofs.Generation.Outcome
import RowFactory.Proofs.Name.HintName
import RowFactory.Proofs.Scan.DeclaredNames
import RowFactory.Proofs.Generation.HintNames
import RowFactory.Proofs.Name.ModuleText
import RowFactory.Proofs.Source.Reads
import RowFactory.Proofs.Source.ReadsPath
import RowFactory.Proofs.Factory.ReadBack
import RowFactory.Proofs.Factory.Printable
import RowFactory.Proofs.Generation.Completeness
import RowFactory.Proofs.Scan.TableEntries
import RowFactory.Proofs.Scan.Offers
import RowFactory.Proofs.Scan.SameTables
import RowFactory.Proofs.Scan.SameSightings
import RowFactory.Proofs.Scan.Rearrangement
import RowFactory.Proofs.Scan.Provenance
import RowFactory.Proofs.Scan.AddedGlob
import RowFactory.Proofs.Scan.ImportChain
import RowFactory.Proofs.Scan.Shadowing
import RowFactory.Proofs.Generation.Detachment
import RowFactory.Proofs.Generation.Repetition
import RowFactory.Proofs.Mapping.ColumnAttribute
import RowFactory.Proofs.Output.Literals
import RowFactory.Proofs.Output.FileTree
import RowFactory.Proofs.Output.Writer
import RowFactory.Proofs.Row.Lookup
import RowFactory.Proofs.Stable.Basic
import RowFactory.Proofs.Stable.Types
import RowFactory.Proofs.Stable.Patterns
import RowFactory.Proofs.Stable.Expressions
import RowFactory.Proofs.Mapping.Keys
import RowFactory.Proofs.Mapping.ColumnItems
import RowFactory.Proofs.Mapping.ColumnOverride
import RowFactory.Proofs.Scan.PlaceWords
import RowFactory.Proofs.Scan.Alias
import RowFactory.Proofs.Scan.MarkerText
import RowFactory.Proofs.Scan.AttributeLists
import RowFactory.Proofs.Scan.DerivedPaths
import RowFactory.Proofs.Scan.RewrittenAttributes
import RowFactory.Proofs.Row.Insertion
import RowFactory.Proofs.Generation.MappedFields
import RowFactory.Proofs.Name.PathText
import RowFactory.Proofs.Factory.Header
import RowFactory.Proofs.Row.Conversion
import RowFactory.Proofs.Text.Json
import RowFactory.Proofs.Row.ValueJson
import RowFactory.Proofs.Scan.Entries
import RowFactory.Proofs.Scan.StateCount
import RowFactory.Proofs.Generation.TokenFamilies
import RowFactory.Proofs.Name.Spellings
import RowFactory.Proofs.Scan.PlainUses
