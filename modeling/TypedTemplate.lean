import TypedTemplate.Arguments
import TypedTemplate.Check
import TypedTemplate.Main
import TypedTemplate.Mapping.Builder
import TypedTemplate.Proofs.Emission
import TypedTemplate.Proofs.Cursor
import TypedTemplate.Proofs.Span
import TypedTemplate.Proofs.Template.Placement
import TypedTemplate.Proofs.Template.Reader.Expr
import TypedTemplate.Proofs.Template.Reader.Statement
import TypedTemplate.Proofs.Emit.Call
import TypedTemplate.Proofs.Emit.Statement
import TypedTemplate.Proofs.Draft.Spaced
import TypedTemplate.Proofs.Draft.Trees
import TypedTemplate.Proofs.Draft.Formed
import TypedTemplate.Proofs.Emit.Literal
import TypedTemplate.Proofs.Emit.Formed
import TypedTemplate.Proofs.Compiled
import TypedTemplate.Proofs.Module.Splice
import TypedTemplate.Proofs.Mapping.Narrowest
import TypedTemplate.Proofs.Module.Position
import TypedTemplate.Proofs.Script.Native
import TypedTemplate.Proofs.Mapping.Spans
import TypedTemplate.Proofs.Module.Weave
import TypedTemplate.Proofs.Module.Names
import TypedTemplate.Proofs.Module.Range
import TypedTemplate.Proofs.Module.Lookup
import TypedTemplate.Proofs.Draft.Standing
import TypedTemplate.Proofs.Template.Occurrence
import TypedTemplate.Proofs.Emit.Written
import TypedTemplate.Proofs.Emit.Scoped
import TypedTemplate.Proofs.Compiled.Occurrences
import TypedTemplate.Proofs.Mapping.Inside
import TypedTemplate.Proofs.Draft.Descent
import TypedTemplate.Proofs.Compiled.Directives
import TypedTemplate.Proofs.Diagnostic.Counting
import TypedTemplate.Proofs.Diagnostic.Crossing
import TypedTemplate.Proofs.Diagnostic.Suppression
import TypedTemplate.Proofs.Diagnostic.Conservation
import TypedTemplate.Proofs.Diagnostic.Order
import TypedTemplate.Proofs.Draft.Notes
import TypedTemplate.Proofs.Emit.Reports
import TypedTemplate.Proofs.Emit.Notes
import TypedTemplate.Proofs.Emit.Directives
import TypedTemplate.Proofs.Compiled.Mentions
import TypedTemplate.Proofs.Diagnostic.Targets
import TypedTemplate.Proofs.Template.Walk.Basic
import TypedTemplate.Proofs.Template.Walk.Expr
import TypedTemplate.Proofs.Template.Walk.Tag
import TypedTemplate.Proofs.Template.Walk.Statement
import TypedTemplate.Proofs.Template.Parsing
import TypedTemplate.Proofs.Template.Stream
import TypedTemplate.Proofs.Template.Pattern
import TypedTemplate.Proofs.Template.LongestMatch
import TypedTemplate.Proofs.Template.Reader.Else
import TypedTemplate.Proofs.Compiled.Balanced
import TypedTemplate.Proofs.Path
import TypedTemplate.Proofs.Companion
import TypedTemplate.Proofs.Module.Prefilter
import TypedTemplate.Proofs.Module.Located
import TypedTemplate.Proofs.Mapping.Linear
import TypedTemplate.Proofs.Mapping.Builder
import TypedTemplate.Proofs.Text.Bytes
import TypedTemplate.Proofs.Script.Lexeme
import TypedTemplate.Proofs.Script.ClassHead
import TypedTemplate.Proofs.Script.Comment
import TypedTemplate.Proofs.Script.ClassBody
import TypedTemplate.Proofs.Script.Walk.Basic
import TypedTemplate.Proofs.Script.Walk.Skip
import TypedTemplate.Proofs.Script.Walk.Look
import TypedTemplate.Proofs.Script.Walk.Element
import TypedTemplate.Proofs.Script.Walk.Run
import TypedTemplate.Proofs.Script.Walk.Mask
import TypedTemplate.Proofs.Emitter.Basic
import TypedTemplate.Proofs.Emitter.Statement
import TypedTemplate.Proofs.Emitter.Template
import TypedTemplate.Proofs.Emitter.Composition
import TypedTemplate.Proofs.Json.Reading
import TypedTemplate.Proofs.Environment
import TypedTemplate.Proofs.LineIndex
import TypedTemplate.Proofs.Report
import TypedTemplate.Proofs.Compiled.FormIssues
import TypedTemplate.Proofs.Compiled.Hygiene
import TypedTemplate.Proofs.Comment
import TypedTemplate.Proofs.Emit.TemplateLiteral
