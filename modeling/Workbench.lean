import Workbench.Text.Lines
import Workbench.Text.Clip
import Workbench.Text.Chunk
import Workbench.Text.Octets
import Workbench.Text.Letters
import Workbench.Digest.Sha256
import Workbench.Digest.Sha1
import Workbench.Vector.Single
import Workbench.Vector.Embedding
import Workbench.Vector.Hashed
import Workbench.Decimal.Shortest
import Workbench.Json.Value
import Workbench.Json.Writer
import Workbench.Json.Reader
import Workbench.Text.Quoted
import Workbench.Json.Decode
import Workbench.Code.Outline
import Workbench.Code.Python
import Workbench.Code.Rust
import Workbench.Code.Java
import Workbench.Code.Language
import Workbench.Code.Unit
import Workbench.Toml.Scalar
import Workbench.Toml.Document
import Workbench.Config.Settings
import Workbench.Config.Basic
import Workbench.Collection.Table
import Workbench.Editor.Basic
import Workbench.Editor.History
import Workbench.Editor.Refusal
import Workbench.Editor.Splice
import Workbench.Files.Access
import Workbench.Files.Listing
import Workbench.Files.Path
import Workbench.Files.Tree
import Workbench.Project.Basic
import Workbench.Index.Explanation
import Workbench.Index.Fault
import Workbench.Service.Embedder
import Workbench.Service.Generator
import Workbench.Service.Http
import Workbench.Tool.Registry
import Workbench.Json.Typed
import Workbench.Calendar.Moment
import Workbench.Collection.Store
import Workbench.Index.Codebase
import Workbench.Index.Location
import Workbench.Index.Ranking
import Workbench.Index.Source
import Workbench.Tool.Call
import Workbench.Tool.Commands
import Workbench.Tool.Editing
import Workbench.Tool.Searching
import Workbench.Tool.Session
import Workbench.Tool.Basic
import Workbench.Text.Difference
import Workbench.Text.Unified
import Workbench.Chain
import Workbench.Config.Loading
import Workbench.Project.Opening
import Workbench.Project.Patch
import Workbench.Repository.Basic
import Workbench.Repository.Change
import Workbench.Repository.Ignore
import Workbench.Repository.Object
import Workbench.Repository.Patch
import Workbench.Text.Wildcard
import Workbench.Config.Written
import Workbench.Command.Help
import Workbench.Command.Invocation
import Workbench.Command.Option
import Workbench.Command.Run
import Workbench.Shell.Arithmetic
import Workbench.Shell.Condition
import Workbench.Shell.Expansion
import Workbench.Shell.FileUtility
import Workbench.Shell.LineUtility
import Workbench.Shell.Machine
import Workbench.Shell.PatternUtility
import Workbench.Shell.Printing
import Workbench.Shell.Reader
import Workbench.Shell.Syntax
import Workbench.Shell.Utility
import Workbench.Shell.Word
import Workbench.Text.Regex
import Workbench.Shell.Builtin
import Workbench.Shell.Program
import Workbench.Shell.Question
import Workbench.Shell.Run
import Workbench.Shell.Stream
import Workbench.Shell.Search
import Workbench.Command.Scene
import Workbench.Main
import Workbench.Proofs.Text.Chunking
import Workbench.Proofs.Editor.Confinement
import Workbench.Proofs.Index.Abandoned
import Workbench.Proofs.Index.Sharing
import Workbench.Proofs.Index.Content
import Workbench.Proofs.Index.Explaining
import Workbench.Proofs.Index.Loading
import Workbench.Proofs.Index.Reusing
import Workbench.Proofs.Editor.Failing
import Workbench.Proofs.Editor.Linked
import Workbench.Proofs.Index.Replies
import Workbench.Proofs.Editor.Limits
import Workbench.Proofs.Index.Prompting
import Workbench.Proofs.Tool.Transcript
import Workbench.Proofs.Project.Listed
import Workbench.Proofs.Editor.Inserting
import Workbench.Proofs.Editor.Replacing
import Workbench.Proofs.Editor.Viewing
import Workbench.Proofs.Index.Sizes
import Workbench.Proofs.Text.Nesting
import Workbench.Proofs.Editor.Respelling
import Workbench.Proofs.Editor.Snippets
import Workbench.Proofs.Files.Visiting
import Workbench.Proofs.Index.Parting
import Workbench.Proofs.Code.Units
import Workbench.Proofs.Index.Selecting
import Workbench.Proofs.Service.Assigning
import Workbench.Proofs.Service.Reordering
import Workbench.Proofs.Text.Restarting
import Workbench.Proofs.Editor.Editable
import Workbench.Proofs.Collection.Faithful
import Workbench.Proofs.Collection.Coding
import Workbench.Proofs.Code.Mapping
import Workbench.Proofs.Checked.Running
