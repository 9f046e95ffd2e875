import EndpointAudit.Analysis.Endpoint
import EndpointAudit.Analysis.Pool
import EndpointAudit.Analysis.Task
import EndpointAudit.CallLog
import EndpointAudit.Clock
import EndpointAudit.CodeSpan
import EndpointAudit.CommandLine
import EndpointAudit.Completion
import EndpointAudit.Context
import EndpointAudit.Decimal.Binary
import EndpointAudit.Decimal.Layout
import EndpointAudit.Decimal.Shortest
import EndpointAudit.Definition
import EndpointAudit.Detection
import EndpointAudit.Endpoint
import EndpointAudit.Environment
import EndpointAudit.Error
import EndpointAudit.FileTree
import EndpointAudit.Finding
import EndpointAudit.Glob
import EndpointAudit.Graph
import EndpointAudit.Http
import EndpointAudit.JavaTool
import EndpointAudit.Json.Basic
import EndpointAudit.Json.Decode
import EndpointAudit.Json.Fault
import EndpointAudit.Json.Numeral
import EndpointAudit.Json.Printer
import EndpointAudit.Json.Record
import EndpointAudit.Json.Surface
import EndpointAudit.Json.Text
import EndpointAudit.Launch
import EndpointAudit.Main
import EndpointAudit.Model.Chat
import EndpointAudit.Model.Generation
import EndpointAudit.Model.Table
import EndpointAudit.Path
import EndpointAudit.Pipeline
import EndpointAudit.Program
import EndpointAudit.Project
import EndpointAudit.Prompt.Builtin
import EndpointAudit.Prompt.Params
import EndpointAudit.Prompt.Substitution
import EndpointAudit.Prompt.Template
import EndpointAudit.RecordFile
import EndpointAudit.Session
import EndpointAudit.Settings.Build
import EndpointAudit.Settings.File
import EndpointAudit.Stages.Analysis
import EndpointAudit.Stages.Detection
import EndpointAudit.Stages.Extraction
import EndpointAudit.Stages.Summary
import EndpointAudit.Text.Blank
import EndpointAudit.Text.Case
import EndpointAudit.Text.Case.Table
import EndpointAudit.Text.Invisible
import EndpointAudit.Text.Padded
import EndpointAudit.Text.Quoted
import EndpointAudit.Text.Search
import EndpointAudit.Text.Utf8
import EndpointAudit.Toolchain
import EndpointAudit.Url
import EndpointAudit.World
import EndpointAudit.Proofs.Acts
import EndpointAudit.Proofs.Course
import EndpointAudit.Proofs.Transitions
import EndpointAudit.Proofs.Walk
import EndpointAudit.Proofs.FindingOrder
import EndpointAudit.Proofs.Writes
import EndpointAudit.Proofs.Paths
import EndpointAudit.Proofs.LogEntries
import EndpointAudit.Proofs.TaskSteps
import EndpointAudit.Proofs.Moves
import EndpointAudit.Proofs.Undisturbed
import EndpointAudit.Proofs.Discipline
import EndpointAudit.Proofs.Calls
import EndpointAudit.Proofs.Stages
import EndpointAudit.Proofs.PipelineSteps
import EndpointAudit.Proofs.Consistency
import EndpointAudit.Proofs.Charges
import EndpointAudit.Proofs.Isolation
import EndpointAudit.Proofs.OrderFree
import EndpointAudit.Proofs.Passes
import EndpointAudit.Proofs.Merges
import EndpointAudit.Proofs.Closing
import EndpointAudit.Proofs.Rounds
import EndpointAudit.Proofs.Reads
import EndpointAudit.Proofs.FinalReport
import EndpointAudit.Proofs.Cancellation
import EndpointAudit.Proofs.Interruption
import EndpointAudit.Proofs.Submissions
import EndpointAudit.Proofs.NumeralLiterals
import EndpointAudit.Proofs.Readback
import EndpointAudit.Proofs.Selection
import EndpointAudit.Proofs.Trimming
import EndpointAudit.Proofs.Replies
import EndpointAudit.Proofs.Spelling
import EndpointAudit.Proofs.SoundTrees
import EndpointAudit.Proofs.PathOrder
import EndpointAudit.Proofs.Patterns
import EndpointAudit.Proofs.SessionRecords
import EndpointAudit.Proofs.SpanTexts
import EndpointAudit.Proofs.Placeholders
import EndpointAudit.Proofs.Restoration
import EndpointAudit.Proofs.StoredRecords
import EndpointAudit.Proofs.Confinement
import EndpointAudit.Proofs.Positions
import EndpointAudit.Proofs.Languages
import EndpointAudit.Proofs.Unsupported
import EndpointAudit.Proofs.MadeDirs
import EndpointAudit.Proofs.FreshSessions
import EndpointAudit.Proofs.OwnPlaces
import EndpointAudit.Proofs.Effects
import EndpointAudit.Proofs.Footprints
import EndpointAudit.Proofs.Logbooks
import EndpointAudit.Proofs.LoggedCalls
import EndpointAudit.Proofs.LoggedRuns
import EndpointAudit.Proofs.Prolongation
import EndpointAudit.Proofs.Registration
import EndpointAudit.Proofs.PlainValues
import EndpointAudit.Proofs.Lines
import EndpointAudit.Proofs.Expressions
import EndpointAudit.Proofs.FencedBlocks
import EndpointAudit.Proofs.Analyses
import EndpointAudit.Proofs.SeparateRecords
import EndpointAudit.Proofs.RecordForms
import EndpointAudit.Proofs.Upserts
import EndpointAudit.Proofs.Surveys
import EndpointAudit.Proofs.PairedWalks
import EndpointAudit.Proofs.MovedProjects
import EndpointAudit.Proofs.Flags
import EndpointAudit.Proofs.Layers
import EndpointAudit.Proofs.SourceFiles
import EndpointAudit.Proofs.MethodCounts
import EndpointAudit.Proofs.Advice
import EndpointAudit.Proofs.SessionNames
import EndpointAudit.Proofs.FirstPlaces
import EndpointAudit.Proofs.Assignments
import EndpointAudit.Proofs.Symbols
import EndpointAudit.Proofs.Tallies
import EndpointAudit.Proofs.Addresses
import EndpointAudit.Proofs.Doubles
import EndpointAudit.Proofs.ShortestDigits
import EndpointAudit.Proofs.LaidOutNumbers
import EndpointAudit.Proofs.ChatBodies
