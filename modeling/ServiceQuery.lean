import ServiceQuery.Binding.Basic
import ServiceQuery.Binding.Expand
import ServiceQuery.Binding.Guard
import ServiceQuery.Binding.Key
import ServiceQuery.Binding.Navigation
import ServiceQuery.Binding.Operator
import ServiceQuery.Builder
import ServiceQuery.CommandLine.Arguments
import ServiceQuery.CommandLine.Run
import ServiceQuery.Config.Basic
import ServiceQuery.Config.File
import ServiceQuery.Decimal.Arithmetic
import ServiceQuery.Decimal.Basic
import ServiceQuery.Decimal.Convert
import ServiceQuery.Decimal.Text
import ServiceQuery.Error
import ServiceQuery.Eval.Arithmetic
import ServiceQuery.Eval.Basic
import ServiceQuery.Eval.Call
import ServiceQuery.Eval.Convert
import ServiceQuery.Eval.Error
import ServiceQuery.Eval.Number
import ServiceQuery.Expr.Basic
import ServiceQuery.Expr.Text
import ServiceQuery.Expr.Traverse
import ServiceQuery.Fold
import ServiceQuery.Grouping
import ServiceQuery.Json.Basic
import ServiceQuery.Json.Parser
import ServiceQuery.Json.Printer
import ServiceQuery.Main
import ServiceQuery.Model.Basic
import ServiceQuery.Model.File
import ServiceQuery.Model.TypeText
import ServiceQuery.Normal
import ServiceQuery.Number.Binary
import ServiceQuery.Number.Shortest
import ServiceQuery.Number.Text
import ServiceQuery.Path.Basic
import ServiceQuery.Path.Parser
import ServiceQuery.Projection
import ServiceQuery.Proofs.Binding.Predicates
import ServiceQuery.Proofs.Binding.Rows
import ServiceQuery.Proofs.Binding.Step
import ServiceQuery.Proofs.Fold
import ServiceQuery.Proofs.Monad
import ServiceQuery.Proofs.Resource
import ServiceQuery.Proofs.Rows
import ServiceQuery.Proofs.Target
import ServiceQuery.Proofs.Traverse
import ServiceQuery.Proofs.Uri.Literal
import ServiceQuery.Proofs.Uri.Machine
import ServiceQuery.Proofs.Uri.Reader
import ServiceQuery.Proofs.Uri.RoundTrip
import ServiceQuery.Proofs.Uri.Skeleton
import ServiceQuery.Request
import ServiceQuery.Resource.Apply
import ServiceQuery.Resource.Basic
import ServiceQuery.Resource.Custom
import ServiceQuery.Resource.Input
import ServiceQuery.Resource.Option
import ServiceQuery.Text.Blank
import ServiceQuery.Text.Case
import ServiceQuery.Text.CaseTable
import ServiceQuery.Text.Percent
import ServiceQuery.Text.Search
import ServiceQuery.Toml.Basic
import ServiceQuery.Toml.Parser
import ServiceQuery.Toml.Printer
import ServiceQuery.Toml.Scalar
import ServiceQuery.Toml.Table
import ServiceQuery.Ty
import ServiceQuery.Uri.Expression
import ServiceQuery.Uri.Literal
import ServiceQuery.Uri.Request
import ServiceQuery.Value
import ServiceQuery.Version
import ServiceQuery.Wire.Expr
import ServiceQuery.Wire.Model
import ServiceQuery.Wire.Path
import ServiceQuery.Wire.Request
import ServiceQuery.Wire.Resource
import ServiceQuery.Wire.Value
import ServiceQuery.Proofs.Binding.Moves
import ServiceQuery.Proofs.Input
import ServiceQuery.Proofs.Binding.References
import ServiceQuery.Proofs.Binding.Single
import ServiceQuery.Proofs.Uri.Targets
import ServiceQuery.Proofs.Uri.Request
import ServiceQuery.Proofs.Binding.Where
import ServiceQuery.Proofs.Binding.Terminal
import ServiceQuery.Proofs.Request
import ServiceQuery.Proofs.Folded
import ServiceQuery.Proofs.Normal
import ServiceQuery.Proofs.Uri.Parts
import ServiceQuery.Proofs.Decimal
import ServiceQuery.Proofs.Json
import ServiceQuery.Proofs.Wire.Expr
import ServiceQuery.Proofs.NormalForm
import ServiceQuery.Proofs.Equality
import ServiceQuery.Proofs.Binding.Keys
import ServiceQuery.Proofs.Projection
import ServiceQuery.Proofs.Alpha
import ServiceQuery.Proofs.Capture
import ServiceQuery.Proofs.Element
import ServiceQuery.Proofs.Denotation
import ServiceQuery.Proofs.Paths
import ServiceQuery.Proofs.Aggregation
import ServiceQuery.Proofs.Path.Text
import ServiceQuery.Proofs.Path.Expand
import ServiceQuery.Proofs.Binding.Selectors
import ServiceQuery.Proofs.Uri.Scope
import ServiceQuery.Proofs.Version
import ServiceQuery.Proofs.Arithmetic
import ServiceQuery.Proofs.Uri.Pieces
import ServiceQuery.Proofs.Uri.Resolution
import ServiceQuery.Proofs.Uri.Spelling
import ServiceQuery.Proofs.Uri.Selection
import ServiceQuery.Proofs.Binding.Expands
import ServiceQuery.Proofs.Comparison
import ServiceQuery.Proofs.Promotion
import ServiceQuery.Proofs.Search
import ServiceQuery.Proofs.Conversion
import ServiceQuery.Proofs.GroupKeys
import ServiceQuery.Proofs.Inlining
import ServiceQuery.Proofs.Actions
import ServiceQuery.Proofs.CustomOption
import ServiceQuery.Proofs.Uri.CustomOrder
import ServiceQuery.Proofs.Model.Closed
import ServiceQuery.Proofs.Sequence
import ServiceQuery.Proofs.Builder
import ServiceQuery.Proofs.Path.Parser
import ServiceQuery.Proofs.Path.Reserved
import ServiceQuery.Proofs.FreeParameter
