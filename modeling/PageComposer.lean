import PageComposer.CommandLine.Commands
import PageComposer.CommandLine.Fault
import PageComposer.CommandLine.Grammar
import PageComposer.CommandLine.Output
import PageComposer.CommandLine.Program
import PageComposer.CommandLine.Usage
import PageComposer.Config.Bundled
import PageComposer.Config.Cache
import PageComposer.Config.Environment
import PageComposer.Config.Merge
import PageComposer.Config.Project
import PageComposer.Config.Schema
import PageComposer.Config.Settings
import PageComposer.Decimal.Binary64
import PageComposer.Decimal.Numeral
import PageComposer.Decimal.Shortest
import PageComposer.Document.AttributeSlots
import PageComposer.Document.Content
import PageComposer.Document.Flatten
import PageComposer.Document.Slots
import PageComposer.Document.Walk
import PageComposer.Expansion.Directive
import PageComposer.Expansion.Expand
import PageComposer.Expansion.Fragment
import PageComposer.Expansion.Report
import PageComposer.Expansion.Run
import PageComposer.Expansion.Session
import PageComposer.Files.Home
import PageComposer.Files.Path
import PageComposer.Files.Tree
import PageComposer.Json.Reader
import PageComposer.Json.Writer
import PageComposer.Logging.Logger
import PageComposer.Logging.Record
import PageComposer.Main
import PageComposer.Markup.Entity
import PageComposer.Markup.EntityTable
import PageComposer.Markup.Render
import PageComposer.Markup.Token
import PageComposer.Markup.Tree
import PageComposer.Pages.Build
import PageComposer.Text.Case
import PageComposer.Text.CaseTable
import PageComposer.Text.Class
import PageComposer.Text.ClassTable
import PageComposer.Text.Encoding
import PageComposer.Text.Quoted
import PageComposer.Text.Windows
import PageComposer.Value.Basic
import PageComposer.Value.Calendar
import PageComposer.Value.Display
import PageComposer.Yaml.Build
import PageComposer.Yaml.Cursor
import PageComposer.Yaml.Fault
import PageComposer.Yaml.File
import PageComposer.Yaml.Kind
import PageComposer.Yaml.Node
import PageComposer.Yaml.Scalar
import PageComposer.Yaml.Style
import PageComposer.Yaml.Token
import PageComposer.Yaml.Writer
import PageComposer.Proofs.Document.Closed
import PageComposer.Proofs.CommandLine.Reported
import PageComposer.Proofs.CommandLine.StrictBuild
import PageComposer.Proofs.Config.Lens
import PageComposer.Proofs.Config.Precedence
import PageComposer.Proofs.Config.Transparency
import PageComposer.Proofs.Expansion.Accounting
import PageComposer.Proofs.Expansion.Depth
import PageComposer.Proofs.Expansion.Faults
import PageComposer.Proofs.Expansion.Idempotence
import PageComposer.Proofs.Expansion.Ignored
import PageComposer.Proofs.Expansion.Recursion
import PageComposer.Proofs.Expansion.Scope
import PageComposer.Proofs.Expansion.Tally
import PageComposer.Proofs.Expansion.Termination
import PageComposer.Proofs.Markup.NormalForm
import PageComposer.Proofs.Markup.Numerals
import PageComposer.Proofs.Markup.Lexing
import PageComposer.Proofs.Markup.RoundTrip
import PageComposer.Proofs.Json.Keys
import PageComposer.Proofs.Pages.Emptied
import PageComposer.Proofs.Pages.Ends
import PageComposer.Proofs.Pages.Pointwise
import PageComposer.Proofs.Pages.Sources
import PageComposer.Proofs.Text.Codecs
import PageComposer.Proofs.Markup.Passes
import PageComposer.Proofs.Markup.References
import PageComposer.Proofs.Pages.Encoded
import PageComposer.Proofs.Document.Placeholders
import PageComposer.Proofs.Document.Grammar
import PageComposer.Proofs.Document.BoundText
import PageComposer.Proofs.Expansion.Halted
import PageComposer.Proofs.Expansion.Resumed
import PageComposer.Proofs.Expansion.Mended
import PageComposer.Proofs.Markup.Sealed
import PageComposer.Proofs.Markup.Tagless
import PageComposer.Proofs.Document.Inert
import PageComposer.Proofs.Document.Places
import PageComposer.Proofs.Expansion.Places
import PageComposer.Proofs.Session.Shared
import PageComposer.Proofs.Session.Store
import PageComposer.Proofs.Session.Deeds
import PageComposer.Proofs.Session.Built
import PageComposer.Proofs.Session.Steps
import PageComposer.Proofs.Session.Copies
import PageComposer.Proofs.Session.Independence
import PageComposer.Proofs.Config.Merging
import PageComposer.Proofs.Decimal.Conversion
import PageComposer.Proofs.Config.Readings
import PageComposer.Proofs.Json.Literals
import PageComposer.Proofs.Json.ReadBack
import PageComposer.Proofs.Config.Validation
import PageComposer.Proofs.Config.KeyPaths
import PageComposer.Proofs.Document.Visits
import PageComposer.Proofs.Document.Writers
import PageComposer.Proofs.Files.Identities
import PageComposer.Proofs.Logging.Handlers
import PageComposer.Proofs.Logging.LogFiles
import PageComposer.Proofs.Yaml.Scanning
import PageComposer.Proofs.Yaml.Tokens
import PageComposer.Proofs.Yaml.Nodes
import PageComposer.Proofs.Yaml.Building
import PageComposer.Proofs.Yaml.Notations
import PageComposer.Proofs.Yaml.Scalars
import PageComposer.Proofs.Yaml.Lenient
