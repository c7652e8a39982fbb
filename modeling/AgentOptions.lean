import AgentOptions.Binary64
import AgentOptions.Bindings
import AgentOptions.Command.Arguments
import AgentOptions.Command.Listing
import AgentOptions.Command.LogFilter
import AgentOptions.Command.Program
import AgentOptions.Command.Report
import AgentOptions.Command.Show
import AgentOptions.ConfigFile
import AgentOptions.Decimal.Basic
import AgentOptions.Decimal.Layout
import AgentOptions.Decimal.Shortest
import AgentOptions.Duration
import AgentOptions.Event
import AgentOptions.FileSystem
import AgentOptions.Integer
import AgentOptions.Json
import AgentOptions.Labels
import AgentOptions.LogLevel
import AgentOptions.Main
import AgentOptions.OptionName
import AgentOptions.OptionSpec
import AgentOptions.OptionValue
import AgentOptions.Pattern.Basic
import AgentOptions.Pattern.Matching
import AgentOptions.Pattern.PatternList
import AgentOptions.Proofs.Assignments
import AgentOptions.Proofs.CaseFolding
import AgentOptions.Proofs.DocumentGrammar
import AgentOptions.Proofs.DocumentNumbers
import AgentOptions.Proofs.DurationGrammar
import AgentOptions.Proofs.Export
import AgentOptions.Proofs.FileFormat
import AgentOptions.Proofs.HiddenFields
import AgentOptions.Proofs.Independence
import AgentOptions.Proofs.IntegerOptions
import AgentOptions.Proofs.Interchange
import AgentOptions.Proofs.JsonText
import AgentOptions.Proofs.LabelEntries
import AgentOptions.Proofs.Layering
import AgentOptions.Proofs.ListText
import AgentOptions.Proofs.Loading
import AgentOptions.Proofs.NumberBounds
import AgentOptions.Proofs.NumberText
import AgentOptions.Proofs.NumeralGrammar
import AgentOptions.Proofs.PatternLanguage
import AgentOptions.Proofs.PatternSeparation
import AgentOptions.Proofs.PatternText
import AgentOptions.Proofs.PositionScan
import AgentOptions.Proofs.Precedence
import AgentOptions.Proofs.Readings
import AgentOptions.Proofs.RegistryEntries
import AgentOptions.Proofs.RequestedOptions
import AgentOptions.Proofs.Rounding
import AgentOptions.Proofs.SessionHistory
import AgentOptions.Proofs.ShortestDecimal
import AgentOptions.Proofs.ShowCommand
import AgentOptions.Proofs.ShowOutput
import AgentOptions.Proofs.SnapshotDocument
import AgentOptions.Proofs.StoredKinds
import AgentOptions.Proofs.Utf8Text
import AgentOptions.Proofs.Warnings
import AgentOptions.ReadError
import AgentOptions.Registry
import AgentOptions.Resolution
import AgentOptions.Session
import AgentOptions.Snapshot
import AgentOptions.Source
import AgentOptions.SystemText
import AgentOptions.Text.Blank
import AgentOptions.Text.Case
import AgentOptions.Text.LowerCase
import AgentOptions.Text.Pieces
import AgentOptions.Text.Utf8
