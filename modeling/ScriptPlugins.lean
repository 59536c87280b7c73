import ScriptPlugins.Adapter.Apply
import ScriptPlugins.Adapter.Basic
import ScriptPlugins.Adapter.Registry
import ScriptPlugins.Batch.Output
import ScriptPlugins.Batch.Owners
import ScriptPlugins.Batch.Package
import ScriptPlugins.Batch.Run
import ScriptPlugins.Build.Error
import ScriptPlugins.Build.Layout
import ScriptPlugins.Cache.Basic
import ScriptPlugins.Cache.Compile
import ScriptPlugins.Cache.Listing
import ScriptPlugins.CommandLine.Grammar
import ScriptPlugins.CommandLine.Request
import ScriptPlugins.CommandLine.Settings
import ScriptPlugins.Compile.Error
import ScriptPlugins.Compile.Lowering
import ScriptPlugins.Compile.Unit
import ScriptPlugins.Compiled.Class
import ScriptPlugins.Compiled.ClassFile
import ScriptPlugins.Compiled.ClassText
import ScriptPlugins.Compiled.Metadata
import ScriptPlugins.Config.Basic
import ScriptPlugins.Config.Discovery
import ScriptPlugins.Config.Text
import ScriptPlugins.Digest.Sha256
import ScriptPlugins.Discovery.Pattern
import ScriptPlugins.Discovery.Scripts
import ScriptPlugins.Files.Error
import ScriptPlugins.Files.Path
import ScriptPlugins.Files.Tree
import ScriptPlugins.Job.Basic
import ScriptPlugins.Job.Scopes
import ScriptPlugins.Json.Printer
import ScriptPlugins.Json.Reader
import ScriptPlugins.Json.Record
import ScriptPlugins.Json.Value
import ScriptPlugins.Language.Lexer
import ScriptPlugins.Language.Split
import ScriptPlugins.Language.Statement
import ScriptPlugins.Language.Token
import ScriptPlugins.Log.Criterion
import ScriptPlugins.Log.Event
import ScriptPlugins.Log.Expression.Basic
import ScriptPlugins.Log.Expression.Reader
import ScriptPlugins.Log.Filter
import ScriptPlugins.Log.Render
import ScriptPlugins.Main
import ScriptPlugins.Outcome
import ScriptPlugins.Program.Apply
import ScriptPlugins.Program.Compile
import ScriptPlugins.Program.Failure
import ScriptPlugins.Program.Maintain
import ScriptPlugins.Program.Output
import ScriptPlugins.Program.Run
import ScriptPlugins.Run.Execution
import ScriptPlugins.Run.Runner
import ScriptPlugins.Scope.Tree
import ScriptPlugins.Script.Basic
import ScriptPlugins.Target.Basic
import ScriptPlugins.Target.Plugins
import ScriptPlugins.Text.Affix
import ScriptPlugins.Text.Alphabetic
import ScriptPlugins.Text.Alphanumeric
import ScriptPlugins.Text.Blank
import ScriptPlugins.Text.Bytes
import ScriptPlugins.Text.Decimal
import ScriptPlugins.Text.Double
import ScriptPlugins.Text.Quoted
import ScriptPlugins.Time.Instant
import ScriptPlugins.Toml.Quoted
import ScriptPlugins.Toml.Reader
import ScriptPlugins.Toml.Scalar
import ScriptPlugins.Toml.Value
import ScriptPlugins.Proofs.Language.Pieces
import ScriptPlugins.Proofs.Language.Blocks
import ScriptPlugins.Batch.Schedule
import ScriptPlugins.Proofs.Batch.Alike
import ScriptPlugins.Proofs.Batch.Independence
import ScriptPlugins.Proofs.Batch.Applying
import ScriptPlugins.Proofs.Cache.Incremental
import ScriptPlugins.Proofs.Cache.Interrupted
import ScriptPlugins.Proofs.Scope.Histories
import ScriptPlugins.Proofs.Scope.Visibility
import ScriptPlugins.Proofs.Scope.Freezing
import ScriptPlugins.Proofs.Run.Records
import ScriptPlugins.Proofs.Run.Once
import ScriptPlugins.Proofs.Run.Courses
import ScriptPlugins.Proofs.Adapter.Text
import ScriptPlugins.Proofs.Adapter.Absence
import ScriptPlugins.Proofs.Adapter.Footprint
import ScriptPlugins.Proofs.Cache.Removal
import ScriptPlugins.Proofs.Job.Using
import ScriptPlugins.Proofs.Batch.Failing
import ScriptPlugins.Proofs.Batch.Mirroring
import ScriptPlugins.Proofs.Compiled.Files
import ScriptPlugins.Proofs.Language.Halves
import ScriptPlugins.Proofs.Language.Grammar
import ScriptPlugins.Proofs.Language.Derivation
import ScriptPlugins.Proofs.Language.Faults
import ScriptPlugins.Proofs.Language.Positions
import ScriptPlugins.Proofs.Compile.Loading
import ScriptPlugins.Proofs.Batch.Ownership
import ScriptPlugins.Proofs.Compile.Bodies
import ScriptPlugins.Proofs.Batch.Stranding
import ScriptPlugins.Proofs.Cache.Ledger
import ScriptPlugins.Proofs.Run.Replay
import ScriptPlugins.Proofs.Batch.Serving
import ScriptPlugins.Proofs.Batch.Union
import ScriptPlugins.Proofs.Discovery.Patterns
import ScriptPlugins.Proofs.Discovery.Finding
import ScriptPlugins.Proofs.Discovery.Scripts
