import ModuleDeps.Block.Comment
import ModuleDeps.Block.Descriptor
import ModuleDeps.Block.Edits
import ModuleDeps.Block.Entries
import ModuleDeps.Block.Grammar
import ModuleDeps.Block.ImportLine
import ModuleDeps.Block.InsertPoint
import ModuleDeps.Block.Json
import ModuleDeps.Block.Locate
import ModuleDeps.Buffer.Basic
import ModuleDeps.Buffer.Batch
import ModuleDeps.Buffer.Position
import ModuleDeps.Buffer.Search
import ModuleDeps.Buffer.Word
import ModuleDeps.BuildInfo
import ModuleDeps.Catalog
import ModuleDeps.Check
import ModuleDeps.Command.Flags
import ModuleDeps.Command.Help
import ModuleDeps.Command.Run
import ModuleDeps.Command.Verb
import ModuleDeps.Diff.Script
import ModuleDeps.Diff.Unified
import ModuleDeps.Disk.Basic
import ModuleDeps.Disk.Listing
import ModuleDeps.Disk.Path
import ModuleDeps.EnvFile
import ModuleDeps.Failure
import ModuleDeps.Finder
import ModuleDeps.Glob.Match
import ModuleDeps.Glob.Pattern
import ModuleDeps.Importer
import ModuleDeps.Layout
import ModuleDeps.Main
import ModuleDeps.Proofs.Block.Addition
import ModuleDeps.Proofs.Block.Comment
import ModuleDeps.Proofs.Block.CommentCut
import ModuleDeps.Proofs.Block.CommentFree
import ModuleDeps.Proofs.Block.Continue
import ModuleDeps.Proofs.Block.Entries
import ModuleDeps.Proofs.Block.FlatReading
import ModuleDeps.Proofs.Block.Frame
import ModuleDeps.Proofs.Block.Gap
import ModuleDeps.Proofs.Block.Grammar
import ModuleDeps.Proofs.Block.ImportForm
import ModuleDeps.Proofs.Block.ImportLine
import ModuleDeps.Proofs.Block.ImportReread
import ModuleDeps.Proofs.Block.ImportRun
import ModuleDeps.Proofs.Block.InsertPoint
import ModuleDeps.Proofs.Block.Multiline
import ModuleDeps.Proofs.Block.Phantom
import ModuleDeps.Proofs.Block.Pieces
import ModuleDeps.Proofs.Block.Placement
import ModuleDeps.Proofs.Block.Reading
import ModuleDeps.Proofs.Block.Reread
import ModuleDeps.Proofs.Block.SameLine
import ModuleDeps.Proofs.Block.Spelling
import ModuleDeps.Proofs.Block.Tidy
import ModuleDeps.Proofs.Block.TrailingComma
import ModuleDeps.Proofs.Buffer.Batch
import ModuleDeps.Proofs.Buffer.LeastOccurrence
import ModuleDeps.Proofs.Buffer.LineEnding
import ModuleDeps.Proofs.Buffer.Place
import ModuleDeps.Proofs.Buffer.Range
import ModuleDeps.Proofs.Buffer.Reopened
import ModuleDeps.Proofs.Buffer.Simultaneous
import ModuleDeps.Proofs.Buffer.Slice
import ModuleDeps.Proofs.Buffer.Survival
import ModuleDeps.Proofs.Buffer.Untouched
import ModuleDeps.Proofs.Buffer.Word
import ModuleDeps.Proofs.Calls
import ModuleDeps.Proofs.Catalog
import ModuleDeps.Proofs.Check
import ModuleDeps.Proofs.Command.Cursor
import ModuleDeps.Proofs.Command.Modes
import ModuleDeps.Proofs.Command.Parsing
import ModuleDeps.Proofs.Command.Prediction
import ModuleDeps.Proofs.Command.Rewriting
import ModuleDeps.Proofs.Command.Writing
import ModuleDeps.Proofs.Disk.Clean
import ModuleDeps.Proofs.Disk.Follow
import ModuleDeps.Proofs.Disk.Names
import ModuleDeps.Proofs.Disk.Rewrite
import ModuleDeps.Proofs.Disk.Rooted
import ModuleDeps.Proofs.Disk.Walk
import ModuleDeps.Proofs.Exits
import ModuleDeps.Proofs.Finder.ByName
import ModuleDeps.Proofs.Finder.FirstFound
import ModuleDeps.Proofs.Finder.Pruning
import ModuleDeps.Proofs.Finder.Tour
import ModuleDeps.Proofs.Glob.AnyDepth
import ModuleDeps.Proofs.Glob.Codes
import ModuleDeps.Proofs.Glob.LastName
import ModuleDeps.Proofs.Idempotence
import ModuleDeps.Proofs.Importer
import ModuleDeps.Proofs.Layout
import ModuleDeps.Proofs.LineEnding
import ModuleDeps.Proofs.Priority
import ModuleDeps.Proofs.Staleness
import ModuleDeps.Proofs.Text.Alike
import ModuleDeps.Proofs.Text.Blank
import ModuleDeps.Proofs.Text.Characters
import ModuleDeps.Proofs.Text.Lines
import ModuleDeps.Proofs.Text.Occurrence
import ModuleDeps.Proofs.Workspace.Files
import ModuleDeps.Proofs.Workspace.Root
import ModuleDeps.Settings
import ModuleDeps.SettingsFile
import ModuleDeps.Text.Basic
import ModuleDeps.Text.Blank
import ModuleDeps.Text.Case
import ModuleDeps.Text.CaseTable
import ModuleDeps.Text.GraphicTable
import ModuleDeps.Text.Number
import ModuleDeps.Text.Quoted
import ModuleDeps.Text.Utf8
import ModuleDeps.Workspace.Files
import ModuleDeps.Workspace.Root
import ModuleDeps.Workspace.Search
import ModuleDeps.Yaml.Comment
import ModuleDeps.Yaml.Cursor
import ModuleDeps.Yaml.Decode
import ModuleDeps.Yaml.Node
import ModuleDeps.Yaml.Property
import ModuleDeps.Yaml.Queue
import ModuleDeps.Yaml.Resolve
import ModuleDeps.Yaml.Scalar
import ModuleDeps.Yaml.Source
import ModuleDeps.Yaml.Timestamp
import ModuleDeps.Yaml.Token
