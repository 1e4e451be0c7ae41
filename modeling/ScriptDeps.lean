import ScriptDeps.Annotation
import ScriptDeps.CommandLine.Basic
import ScriptDeps.CommandLine.Normal
import ScriptDeps.CommandLine.Reader
import ScriptDeps.CommandLine.Syntax
import ScriptDeps.Dependency
import ScriptDeps.Dependency.OriginText
import ScriptDeps.Digest
import ScriptDeps.Failure
import ScriptDeps.FileSystem.Basic
import ScriptDeps.FileSystem.Change
import ScriptDeps.FileSystem.Listing
import ScriptDeps.FileSystem.Lookup
import ScriptDeps.FileSystem.Tree
import ScriptDeps.ImportLine
import ScriptDeps.IoError
import ScriptDeps.Json.Basic
import ScriptDeps.Json.Parser
import ScriptDeps.Json.Printer
import ScriptDeps.Log
import ScriptDeps.Log.Display
import ScriptDeps.Log.Filter
import ScriptDeps.Machine
import ScriptDeps.Main
import ScriptDeps.Manifest
import ScriptDeps.Path
import ScriptDeps.Places
import ScriptDeps.Platform
import ScriptDeps.Prepare
import ScriptDeps.Process
import ScriptDeps.Program
import ScriptDeps.Proofs.Capture.Lines
import ScriptDeps.Proofs.Capture.Order
import ScriptDeps.Proofs.Capture.Shown
import ScriptDeps.Proofs.Choices
import ScriptDeps.Proofs.Clean.Cache
import ScriptDeps.Proofs.Clean.Confined
import ScriptDeps.Proofs.Clean.DryRun
import ScriptDeps.Proofs.Clean.Ephemeral
import ScriptDeps.Proofs.Clean.Foreseen
import ScriptDeps.Proofs.Clean.Listing
import ScriptDeps.Proofs.Clean.Outcome
import ScriptDeps.Proofs.Clean.Pass
import ScriptDeps.Proofs.Clean.Plan
import ScriptDeps.Proofs.Clean.Small
import ScriptDeps.Proofs.Clean.UsedItems
import ScriptDeps.Proofs.CommandLine.GivenOptions
import ScriptDeps.Proofs.CommandLine.NamedCommand
import ScriptDeps.Proofs.CommandLine.Options
import ScriptDeps.Proofs.CommandLine.Reading
import ScriptDeps.Proofs.CommandLine.Recording
import ScriptDeps.Proofs.CommandLine.ScriptArguments
import ScriptDeps.Proofs.Concurrent.CacheDiscipline
import ScriptDeps.Proofs.Concurrent.Prepare
import ScriptDeps.Proofs.Courses
import ScriptDeps.Proofs.Execution.Feeding
import ScriptDeps.Proofs.Execution.Run
import ScriptDeps.Proofs.Execution.Temporary
import ScriptDeps.Proofs.FileSystem.Directories
import ScriptDeps.Proofs.FileSystem.Entry
import ScriptDeps.Proofs.FileSystem.Landing
import ScriptDeps.Proofs.FileSystem.Losing
import ScriptDeps.Proofs.FileSystem.Removal
import ScriptDeps.Proofs.FileSystem.Route
import ScriptDeps.Proofs.FileSystem.Size
import ScriptDeps.Proofs.FileSystem.Trees
import ScriptDeps.Proofs.FileSystem.Writing
import ScriptDeps.Proofs.Import.Grammar
import ScriptDeps.Proofs.Import.Layout
import ScriptDeps.Proofs.Import.OriginRules
import ScriptDeps.Proofs.Import.Requirement
import ScriptDeps.Proofs.Import.WrittenBack
import ScriptDeps.Proofs.Invocation.Headers
import ScriptDeps.Proofs.Invocation.IncludePaths
import ScriptDeps.Proofs.Invocation.Slices
import ScriptDeps.Proofs.Invocation.SystemPaths
import ScriptDeps.Proofs.Json.Layout
import ScriptDeps.Proofs.Json.Quote
import ScriptDeps.Proofs.Manifest.Literal
import ScriptDeps.Proofs.Manifest.Reading
import ScriptDeps.Proofs.Manifest.Spellings
import ScriptDeps.Proofs.Manifest.Stated
import ScriptDeps.Proofs.Path
import ScriptDeps.Proofs.Prepare.Builder
import ScriptDeps.Proofs.Prepare.Links
import ScriptDeps.Proofs.Prepare.Reachable
import ScriptDeps.Proofs.Prepare.Refresh
import ScriptDeps.Proofs.Prepare.Requests
import ScriptDeps.Proofs.Prepare.Resolve
import ScriptDeps.Proofs.Prepare.Retry
import ScriptDeps.Proofs.Prepare.Reuse
import ScriptDeps.Proofs.Prepare.Run
import ScriptDeps.Proofs.Prepare.Settled
import ScriptDeps.Proofs.Prepare.Sound
import ScriptDeps.Proofs.Prepare.Stages
import ScriptDeps.Proofs.Run
import ScriptDeps.Proofs.Script.PrivateFile
import ScriptDeps.Proofs.Script.Ways
import ScriptDeps.Proofs.Session
import ScriptDeps.Proofs.Settings.File
import ScriptDeps.Proofs.Settings.Init
import ScriptDeps.Proofs.Settings.Written
import ScriptDeps.Proofs.Store.Elsewhere
import ScriptDeps.Proofs.Store.MarkerMap
import ScriptDeps.Proofs.Store.Markers
import ScriptDeps.Proofs.Store.Names
import ScriptDeps.Proofs.Store.Place
import ScriptDeps.Proofs.Store.Record
import ScriptDeps.Proofs.Store.Steps
import ScriptDeps.Proofs.Text.Cut
import ScriptDeps.Proofs.Text.Number
import ScriptDeps.Proofs.Text.Trim
import ScriptDeps.Proofs.Text.Utf8
import ScriptDeps.Proofs.Time.Calendar
import ScriptDeps.Proofs.Time.Text
import ScriptDeps.Proofs.Toml.Document
import ScriptDeps.Proofs.Toml.Quoted
import ScriptDeps.Proofs.Version.Loose
import ScriptDeps.Proofs.Version.Text
import ScriptDeps.Script.Scan
import ScriptDeps.Script.Source
import ScriptDeps.Settings.Basic
import ScriptDeps.Settings.File
import ScriptDeps.Settings.Written
import ScriptDeps.SizeText
import ScriptDeps.Store.Basic
import ScriptDeps.Store.Identity
import ScriptDeps.Store.Marker
import ScriptDeps.Store.Record
import ScriptDeps.TerminalError
import ScriptDeps.Text.Blank
import ScriptDeps.Text.Cut
import ScriptDeps.Text.Hex
import ScriptDeps.Text.Literal
import ScriptDeps.Text.Utf8
import ScriptDeps.Time
import ScriptDeps.Toml.Basic
import ScriptDeps.Toml.Document
import ScriptDeps.Toml.Line
import ScriptDeps.Toml.Number
import ScriptDeps.Toml.Quoted
import ScriptDeps.Toml.Table
import ScriptDeps.Tool.Build
import ScriptDeps.Tool.Choices
import ScriptDeps.Tool.Clean
import ScriptDeps.Tool.Run
import ScriptDeps.Tool.Session
import ScriptDeps.Tool.ShowSettings
import ScriptDeps.Toolchain.Capture
import ScriptDeps.Toolchain.Feeding
import ScriptDeps.Toolchain.Invocation
import ScriptDeps.Toolchain.Resolve
import ScriptDeps.Toolchain.Scripted
import ScriptDeps.Version
