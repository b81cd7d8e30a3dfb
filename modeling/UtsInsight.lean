import UtsInsight.Proofs.Document.Boundary
import UtsInsight.Proofs.Finding.Reexport
import UtsInsight.Proofs.Scope.Distinct
import UtsInsight.Proofs.Scope.Structure
import UtsInsight.Proofs.Service.Positions
import UtsInsight.Proofs.Session.Consistency
import UtsInsight.Proofs.Typing.Recursion
import UtsInsight.Proofs.Typing.ReturnType
import UtsInsight.Syntax.Rows
import UtsInsight.Wire.Read
import UtsInsight.Wire.Write
import UtsInsight.Proofs.Finding.Ranges
import UtsInsight.Proofs.Text.Canonical
import UtsInsight.Proofs.Model.Symbols
import UtsInsight.Proofs.Finding.Comments
import UtsInsight.Proofs.Finding.Unused
import UtsInsight.Proofs.Document.Order
import UtsInsight.Proofs.Text.Lines
import UtsInsight.Proofs.Text.Runs
import UtsInsight.Proofs.Insight.References
import UtsInsight.Proofs.Insight.Arguments
import UtsInsight.Proofs.Outline.Edges
import UtsInsight.Proofs.Outline.FunctionHeader
import UtsInsight.Proofs.Text.Parentheses
import UtsInsight.Proofs.Insight.Signatures
import UtsInsight.Proofs.Text.Checked
import UtsInsight.Proofs.Text.LineStarts
import UtsInsight.Proofs.Text.CheckedWords
import UtsInsight.Proofs.Outline.Pieces
import UtsInsight.Proofs.Outline.Keywords
import UtsInsight.Proofs.Outline.Declaring
import UtsInsight.Proofs.Insight.Definitions
import UtsInsight.Proofs.Outline.ClassBody
import UtsInsight.Proofs.Outline.CheckedEntries
import UtsInsight.Proofs.Insight.CheckedBrackets
import UtsInsight.Proofs.Service.Faultless
import UtsInsight.Proofs.Document.Splices
import UtsInsight.Proofs.Text.Isomorphism
import UtsInsight.Proofs.Cache.Coherence
import UtsInsight.Proofs.Syntax.Order
import UtsInsight.Proofs.Syntax.Rows
import UtsInsight.Proofs.Finding.Outermost
import UtsInsight.Proofs.Syntax.Resolution
import UtsInsight.Proofs.Typing.FirstReturn
import UtsInsight.Proofs.Scope.Introduced
import UtsInsight.Proofs.Model.Members
import UtsInsight.Proofs.Text.Cutting
import UtsInsight.Proofs.Typing.Brackets
import UtsInsight.Proofs.Typing.ArrayElements
import UtsInsight.Proofs.Typing.Balance
import UtsInsight.Proofs.Typing.DeclaredBalance
import UtsInsight.Proofs.Text.Words
import UtsInsight.Proofs.Outline.Placement
import UtsInsight.Proofs.Insight.Callees
import UtsInsight.Proofs.Insight.Receivers
import UtsInsight.Proofs.Insight.CompletionList
import UtsInsight.Proofs.Finding.Messages
import UtsInsight.Proofs.Finding.Nesting
import UtsInsight.Proofs.Finding.Repeated
import UtsInsight.Proofs.Finding.Unreachable
import UtsInsight.Proofs.Insight.LineByLine
import UtsInsight.Proofs.Scope.Parameters
