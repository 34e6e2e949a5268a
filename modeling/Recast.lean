import Recast.Construct.Basic
import Recast.Construct.Call
import Recast.Construct.Reading
import Recast.Delivery.Event
import Recast.Delivery.Frame
import Recast.Diff
import Recast.Emission.All
import Recast.Emission.Assignment
import Recast.Emission.Basic
import Recast.Emission.Definition
import Recast.Emission.Exception
import Recast.Emission.Import
import Recast.Emission.Loop
import Recast.Emission.Output
import Recast.Grammar.All
import Recast.Grammar.Basic
import Recast.Grammar.CSharp
import Recast.Grammar.Cpp
import Recast.Grammar.Curly
import Recast.Grammar.Go
import Recast.Grammar.Java
import Recast.Grammar.Php
import Recast.Grammar.Python
import Recast.Grammar.Ruby
import Recast.Grammar.Rust
import Recast.Grammar.Script
import Recast.Language.Basic
import Recast.Language.Detection
import Recast.Language.Evidence
import Recast.Language.Logic
import Recast.Language.Profile
import Recast.Layout.Balance
import Recast.Layout.Basic
import Recast.Layout.Cleanup
import Recast.Layout.Closing
import Recast.Layout.Finish
import Recast.Layout.Keyword
import Recast.Layout.Level
import Recast.Main
import Recast.Normalization.Basic
import Recast.Normalization.Correction
import Recast.Normalization.Header
import Recast.Normalization.Spacing
import Recast.Number.Binary
import Recast.Outline
import Recast.Pattern.Basic
import Recast.Proofs.Construct.Bound
import Recast.Proofs.Construct.Parts
import Recast.Proofs.Delivery.Lossless
import Recast.Proofs.Diff.Faithful
import Recast.Proofs.Emission.ModuleName
import Recast.Proofs.Emission.Parameters
import Recast.Proofs.Emission.Rethrow
import Recast.Proofs.Emission.Wording
import Recast.Proofs.Grammar.ClassHeader
import Recast.Proofs.Grammar.ConditionHeader
import Recast.Proofs.Grammar.Counted
import Recast.Proofs.Grammar.Definition
import Recast.Proofs.Grammar.FunctionHeader
import Recast.Proofs.Grammar.ImportStatement
import Recast.Proofs.Grammar.LoopHeader
import Recast.Proofs.Language.Evidence
import Recast.Proofs.Language.Profile
import Recast.Proofs.Layout.Balance
import Recast.Proofs.Layout.Braced
import Recast.Proofs.Layout.Conservation
import Recast.Proofs.Layout.Depth
import Recast.Proofs.Layout.FilledBlock
import Recast.Proofs.Layout.Finish
import Recast.Proofs.Layout.Forest
import Recast.Proofs.Layout.Indent
import Recast.Proofs.Layout.Ledger
import Recast.Proofs.Layout.Nesting
import Recast.Proofs.Layout.Reclosing
import Recast.Proofs.Layout.Refinish
import Recast.Proofs.Layout.Remarks
import Recast.Proofs.Layout.Surplus
import Recast.Proofs.Layout.Terminator
import Recast.Proofs.Loop.Course
import Recast.Proofs.Loop.Header
import Recast.Proofs.Loop.Range
import Recast.Proofs.Normalization.Branch
import Recast.Proofs.Normalization.Lines
import Recast.Proofs.Normalization.Marks
import Recast.Proofs.Normalization.Opener
import Recast.Proofs.Normalization.Quotes
import Recast.Proofs.Normalization.Repeated
import Recast.Proofs.Normalization.Settled
import Recast.Proofs.Normalization.Spacing
import Recast.Proofs.Normalization.Stable
import Recast.Proofs.Normalization.Swaps
import Recast.Proofs.Normalization.Tidy
import Recast.Proofs.Normalization.Tight
import Recast.Proofs.Outline.Forest
import Recast.Proofs.Outline.Growth
import Recast.Proofs.Outline.Open
import Recast.Proofs.Pattern.Lazy
import Recast.Proofs.Pattern.Outcomes
import Recast.Proofs.Pattern.Piecewise
import Recast.Proofs.Pattern.Replace
import Recast.Proofs.Pattern.Search
import Recast.Proofs.Pattern.Simulation
import Recast.Proofs.Pattern.Surroundings
import Recast.Proofs.Recasting.Comments
import Recast.Proofs.Recasting.Literals
import Recast.Proofs.Recasting.Names
import Recast.Proofs.Recasting.Progress
import Recast.Proofs.Recasting.Strings
import Recast.Proofs.Recasting.Tokens
import Recast.Proofs.Session.Contract
import Recast.Proofs.Text.Characters
import Recast.Proofs.Text.Code
import Recast.Proofs.Text.Comment
import Recast.Proofs.Text.Edit
import Recast.Proofs.Text.Json
import Recast.Proofs.Text.Lines
import Recast.Proofs.Text.Name
import Recast.Proofs.Text.Repeat
import Recast.Proofs.Text.Rescan
import Recast.Proofs.Text.Segmentation
import Recast.Proofs.Text.TopLevel
import Recast.Proofs.Text.Trait
import Recast.Proofs.Text.Trim
import Recast.Proofs.Transformation.Completion
import Recast.Recasting.Line
import Recast.Recasting.Rule
import Recast.Recasting.Token
import Recast.Session.Basic
import Recast.Session.Request
import Recast.Settings.Basic
import Recast.Settings.Conversion
import Recast.Settings.File
import Recast.Settings.Numeral
import Recast.Settings.Value
import Recast.Startup.Arguments
import Recast.Startup.Basic
import Recast.Startup.Log
import Recast.Text.Basic
import Recast.Text.Brackets
import Recast.Text.Digit
import Recast.Text.Json
import Recast.Text.LineEnds
import Recast.Text.LowerCase
import Recast.Text.Printable
import Recast.Text.Quoted
import Recast.Text.Segment
import Recast.Text.Word
import Recast.Transformation
import Recast.Workspace
import Recast.Yaml.Block
import Recast.Yaml.Document
import Recast.Yaml.Flow
import Recast.Yaml.Moment
import Recast.Yaml.Quotes
import Recast.Yaml.Scalar
