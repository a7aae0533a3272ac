import InitializerLint.Config.Basic
import InitializerLint.Config.Load
import InitializerLint.Config.Read
import InitializerLint.Config.Suppressions
import InitializerLint.Config.Write
import InitializerLint.Data.Decode
import InitializerLint.Data.Schema
import InitializerLint.Data.Value
import InitializerLint.Engine.Basic
import InitializerLint.Engine.Report
import InitializerLint.Files.Path
import InitializerLint.Files.Tree
import InitializerLint.Finding
import InitializerLint.Glob.Basic
import InitializerLint.Glob.Expression
import InitializerLint.Glob.Lexeme
import InitializerLint.Glob.Pattern
import InitializerLint.Glob.Plan
import InitializerLint.Glob.Token
import InitializerLint.Json.Document
import InitializerLint.Json.Number
import InitializerLint.Json.Reader
import InitializerLint.Json.Scan
import InitializerLint.Json.Text
import InitializerLint.Json.Value
import InitializerLint.Log
import InitializerLint.Number.Binary64
import InitializerLint.Number.Shortest
import InitializerLint.Number.Written
import InitializerLint.Rule
import InitializerLint.Symbol.Basic
import InitializerLint.Symbol.Build
import InitializerLint.Symbol.Location
import InitializerLint.Symbol.Read
import InitializerLint.Symbol.Table
import InitializerLint.Symbol.Write
import InitializerLint.Text.Quoted
import InitializerLint.Text.Unprintable
import InitializerLint.Text.Utf8
import InitializerLint.TypeView
import InitializerLint.Yaml.Block
import InitializerLint.Yaml.Cursor
import InitializerLint.Yaml.Document
import InitializerLint.Yaml.Event
import InitializerLint.Yaml.Flow
import InitializerLint.Yaml.Reader
import InitializerLint.Yaml.Scalar
import InitializerLint.Yaml.Tag
import InitializerLint.Yaml.Token
import InitializerLint.Engine.Parallel
import InitializerLint.Proofs.Engine.Merge
import InitializerLint.Proofs.Engine.Sharding
import InitializerLint.Proofs.Template
import InitializerLint.Proofs.Engine.Findings
import InitializerLint.Proofs.Json.Grammar
import InitializerLint.Proofs.Json.Scan
import InitializerLint.Proofs.Json.Number
import InitializerLint.Proofs.Json.Text
import InitializerLint.Proofs.Json.Value
import InitializerLint.Proofs.Json.TreeReader
import InitializerLint.Proofs.Json.RecordReader
import InitializerLint.Proofs.Json.Content
import InitializerLint.Proofs.Json.Buffered
import InitializerLint.Proofs.Symbol.Format
import InitializerLint.Proofs.Json.Render
import InitializerLint.Proofs.Symbol.Presentation
import InitializerLint.Proofs.Symbol.Shape
import InitializerLint.Proofs.Engine.Judgement
import InitializerLint.Proofs.Engine.Session
import InitializerLint.Proofs.Config.Suppressions
import InitializerLint.Proofs.Config.PerType
import InitializerLint.Proofs.Config.Format
import InitializerLint.Proofs.Config.Presentation
import InitializerLint.Proofs.Config.Overlay
import InitializerLint.Proofs.Yaml.Scan
import InitializerLint.Proofs.Yaml.Token
import InitializerLint.Proofs.Yaml.Common
import InitializerLint.Proofs.Yaml.Line
import InitializerLint.Proofs.Yaml.Node
import InitializerLint.Proofs.Yaml.Scalar
import InitializerLint.Proofs.Yaml.Read
import InitializerLint.Proofs.Yaml.Record
import InitializerLint.Proofs.Symbol.Agreement
import InitializerLint.Proofs.Config.Agreement
import InitializerLint.Proofs.Agreement
import InitializerLint.Proofs.Files.Path
import InitializerLint.Proofs.Files.Tree
import InitializerLint.Proofs.Config.Lookup
import InitializerLint.Proofs.Engine.Counters
import InitializerLint.Proofs.Engine.Log
import InitializerLint.Proofs.Engine.Streaming
import InitializerLint.Proofs.Engine.Tightening
import InitializerLint.Proofs.Engine.Edits
import InitializerLint.Proofs.Text.Utf8
import InitializerLint.Proofs.Glob.Acceptance
import InitializerLint.Proofs.Glob.Name
import InitializerLint.Proofs.Glob.Plain
import InitializerLint.Proofs.Text.LastPart
import InitializerLint.Proofs.Files.Extension
import InitializerLint.Proofs.Config.PlainPatterns
import InitializerLint.Proofs.Config.Outcome
import InitializerLint.Proofs.Json.Depth
import InitializerLint.Proofs.Symbol.Depth
import InitializerLint.Proofs.Json.Spot
import InitializerLint.Proofs.Json.Words
import InitializerLint.Proofs.Config.Words
import InitializerLint.Proofs.Symbol.Words
import InitializerLint.Proofs.Words
import InitializerLint.Proofs.Symbol.Build
import InitializerLint.Proofs.Engine.Messages
