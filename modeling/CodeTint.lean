import CodeTint.CommandLine
import CodeTint.Proofs.Markup.OpenTags
import CodeTint.Proofs.Markup.Tree
import CodeTint.Proofs.Document.Blocks
import CodeTint.Proofs.Document.Passes
import CodeTint.Proofs.Markup.Reading
import CodeTint.Proofs.Document.Filling
import CodeTint.Proofs.Batch.SingleFile
import CodeTint.Proofs.Highlight.Sweep
import CodeTint.Proofs.Highlight.Lexemes
import CodeTint.Proofs.Markup.Entity
import CodeTint.Proofs.Highlight.SourceText
import CodeTint.Proofs.Document.Frame
import CodeTint.Proofs.Batch.Directory
import CodeTint.Proofs.Document.Unchanged
import CodeTint.Batch.Pool
import CodeTint.Proofs.Batch.Pool
import CodeTint.Proofs.Registry.History
import CodeTint.Proofs.Session
import CodeTint.Proofs.Batch.Schedule
import CodeTint.Proofs.Batch.Output
import CodeTint.Proofs.Tool.Located
import CodeTint.Proofs.Tool.Script
import CodeTint.Proofs.Document.Convention
import CodeTint.Proofs.Document.Failure
import CodeTint.Proofs.Highlight.Selection
import CodeTint.Proofs.Language.Marker
import CodeTint.Proofs.Language.ClassValue
import CodeTint.Proofs.Document.Decision
import CodeTint.Proofs.Document.Normal
import CodeTint.Proofs.CommandLine
import CodeTint.Proofs.Tool.Arguments
import CodeTint.Proofs.Tool.Fragment
import CodeTint.Proofs.Options.Schema
import CodeTint.Proofs.CommandLine.Layers
import CodeTint.Proofs.CommandLine.Routes
import CodeTint.Proofs.Highlight.Steps
import CodeTint.Proofs.Language.Trimming
