import Blockflow.Block.Basic
import Blockflow.Block.Catalog
import Blockflow.Code.Braced
import Blockflow.Code.Fault
import Blockflow.Code.Indented
import Blockflow.Code.Line
import Blockflow.Code.Render
import Blockflow.Decimal.Binary
import Blockflow.Decimal.Shortest
import Blockflow.Diagram.Basic
import Blockflow.Diagram.Schema
import Blockflow.Dict
import Blockflow.Expression.Header
import Blockflow.Expression.Param
import Blockflow.Expression.Pieces
import Blockflow.Expression.Spelling
import Blockflow.Expression.Token
import Blockflow.Expression.Typing
import Blockflow.FieldValue
import Blockflow.Graph.Basic
import Blockflow.Graph.Fragment
import Blockflow.Graph.Outline
import Blockflow.Graph.Reach
import Blockflow.Graph.Validity
import Blockflow.Issue
import Blockflow.Json.Basic
import Blockflow.Json.Reader
import Blockflow.Json.Writer
import Blockflow.Numeral
import Blockflow.Program.Assembly
import Blockflow.Program.Basic
import Blockflow.Program.Linking
import Blockflow.Program.Naming
import Blockflow.Proofs.Code.Balance
import Blockflow.Proofs.Code.Braces
import Blockflow.Proofs.Code.Interleaving
import Blockflow.Proofs.Code.RangeLoop
import Blockflow.Proofs.Code.Strokes
import Blockflow.Proofs.Code.Suites
import Blockflow.Proofs.Code.Writing
import Blockflow.Proofs.Decimal.Rounding
import Blockflow.Proofs.Decimal.Shortest
import Blockflow.Proofs.Expression.Characters
import Blockflow.Proofs.Expression.Counting
import Blockflow.Proofs.Expression.Cutting
import Blockflow.Proofs.Expression.Literal
import Blockflow.Proofs.Expression.Numeric
import Blockflow.Proofs.Expression.Stripping
import Blockflow.Proofs.Graph.Closing
import Blockflow.Proofs.Graph.Route
import Blockflow.Proofs.Graph.Valid
import Blockflow.Proofs.Json.Distinct
import Blockflow.Proofs.Json.Number
import Blockflow.Proofs.Json.Reading
import Blockflow.Proofs.Json.RoundTrip
import Blockflow.Proofs.Outline.Extent
import Blockflow.Proofs.Outline.Followed
import Blockflow.Proofs.Outline.Nested
import Blockflow.Proofs.Outline.Passable
import Blockflow.Proofs.Outline.Visit
import Blockflow.Proofs.Outline.Walk
import Blockflow.Proofs.Program.Acceptance
import Blockflow.Proofs.Program.Agreement
import Blockflow.Proofs.Program.Assembly
import Blockflow.Proofs.Program.Build
import Blockflow.Proofs.Program.Caller
import Blockflow.Proofs.Program.Calls
import Blockflow.Proofs.Program.Continuation
import Blockflow.Proofs.Program.Definitions
import Blockflow.Proofs.Program.EdgeOrder
import Blockflow.Proofs.Program.Failure
import Blockflow.Proofs.Program.Fragment
import Blockflow.Proofs.Program.Heading
import Blockflow.Proofs.Program.Linked
import Blockflow.Proofs.Program.Origin
import Blockflow.Proofs.Program.Rebuild
import Blockflow.Proofs.Program.Redrawn
import Blockflow.Proofs.Program.Resolution
import Blockflow.Proofs.Program.Scope
import Blockflow.Proofs.Program.Shape
import Blockflow.Proofs.Service.Isolation
import Blockflow.Proofs.Service.Library
import Blockflow.Proofs.Service.Saving
import Blockflow.Proofs.Store.Files
import Blockflow.Proofs.Store.History
import Blockflow.Proofs.Store.Reread
import Blockflow.Record
import Blockflow.Role
import Blockflow.Runner
import Blockflow.Service.Address
import Blockflow.Service.Basic
import Blockflow.Service.Request
import Blockflow.Store.Basic
import Blockflow.Store.Error
import Blockflow.Store.Name
import Blockflow.Text.Blank
import Blockflow.Text.Digit
import Blockflow.Text.Percent
import Blockflow.Text.Printable
import Blockflow.Text.Quoted
import Blockflow.Text.Word
import Blockflow.ValueType
import Blockflow.Proofs.Expression.Respelling
import Blockflow.Proofs.Expression.Requoting
import Blockflow.Proofs.Expression.Qualifying
import Blockflow.Proofs.Code.Drafts
import Blockflow.Proofs.Code.FieldNames
import Blockflow.Proofs.Outline.Emptied
import Blockflow.Proofs.Program.Bodies
import Blockflow.Proofs.Graph.WellFormed
import Blockflow.Proofs.Program.Blame
import Blockflow.Proofs.Program.FirstCall
import Blockflow.Proofs.Expression.Stretches
import Blockflow.Proofs.Expression.Portable
import Blockflow.Proofs.Expression.Sums
import Blockflow.Proofs.Code.Printing
import Blockflow.Proofs.Graph.Attribution
import Blockflow.Proofs.Graph.Extraction
import Blockflow.Proofs.Program.Constructors
import Blockflow.Proofs.Expression.CountedValues
import Blockflow.Proofs.Expression.Cuts
import Blockflow.Proofs.Expression.Lists
import Blockflow.Proofs.Expression.Concatenation
import Blockflow.Proofs.Code.CppDrafts
import Blockflow.Proofs.Code.Includes
import Blockflow.Proofs.Code.Prototypes
import Blockflow.Proofs.Expression.Lossless
import Blockflow.Proofs.Graph.Handles
import Blockflow.Proofs.Program.Identifiers
import Blockflow.Proofs.Store.Lookup
import Blockflow.Proofs.Expression.Inference
import Blockflow.Proofs.Graph.BackEdges
import Blockflow.Proofs.Expression.StepStatements
