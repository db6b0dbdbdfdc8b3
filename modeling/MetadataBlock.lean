import MetadataBlock.Command.Arguments
import MetadataBlock.Command.Flag
import MetadataBlock.Command.Help
import MetadataBlock.Command.Line
import MetadataBlock.Command.Run
import MetadataBlock.Command.Spelling
import MetadataBlock.Command.Value
import MetadataBlock.Data.Basic
import MetadataBlock.Data.Date
import MetadataBlock.Data.Json
import MetadataBlock.Document.Basic
import MetadataBlock.Document.Plain
import MetadataBlock.Document.Reading
import MetadataBlock.Document.Source
import MetadataBlock.Host.Basic
import MetadataBlock.Host.Path
import MetadataBlock.Host.World
import MetadataBlock.Lint.BlockRules
import MetadataBlock.Lint.Catalog
import MetadataBlock.Lint.Grammar
import MetadataBlock.Lint.KeywordRules
import MetadataBlock.Lint.Override
import MetadataBlock.Lint.RecordRules
import MetadataBlock.Lint.Rule
import MetadataBlock.Lint.Run
import MetadataBlock.Lint.Source
import MetadataBlock.Lint.Suggestion
import MetadataBlock.Lint.Validation
import MetadataBlock.Lint.Violation
import MetadataBlock.Main
import MetadataBlock.Names.EditDistance
import MetadataBlock.Names.PrefixGroup
import MetadataBlock.Names.Similarity
import MetadataBlock.Names.Typo
import MetadataBlock.Number.Basic
import MetadataBlock.Number.Decimal
import MetadataBlock.Number.Rounding
import MetadataBlock.Number.Total
import MetadataBlock.Proofs.BareNode
import MetadataBlock.Proofs.CellDecoding
import MetadataBlock.Proofs.CheckOutcome
import MetadataBlock.Proofs.CleanTable
import MetadataBlock.Proofs.ConvertOutcome
import MetadataBlock.Proofs.DecodedRecords
import MetadataBlock.Proofs.ErrorFreeDocument
import MetadataBlock.Proofs.ErrorRules
import MetadataBlock.Proofs.FilePlaces
import MetadataBlock.Proofs.FirstOccurrence
import MetadataBlock.Proofs.LintedSource
import MetadataBlock.Proofs.Numeral
import MetadataBlock.Proofs.OverrideEffect
import MetadataBlock.Proofs.Provenance
import MetadataBlock.Proofs.ReadBack
import MetadataBlock.Proofs.Relint
import MetadataBlock.Proofs.RowData
import MetadataBlock.Proofs.RowQuoting
import MetadataBlock.Proofs.RunSummary
import MetadataBlock.Proofs.SectionLines
import MetadataBlock.Proofs.SectionOrder
import MetadataBlock.Proofs.SectionReordering
import MetadataBlock.Proofs.TabularRoundTrip
import MetadataBlock.Proofs.WellFormedTable
import MetadataBlock.Proofs.WorldRuns
import MetadataBlock.Proofs.WrittenTable
import MetadataBlock.Report.Json
import MetadataBlock.Report.Lines
import MetadataBlock.Report.Style
import MetadataBlock.Report.Summary
import MetadataBlock.Settings.Config
import MetadataBlock.Settings.FatalError
import MetadataBlock.Table.Cell
import MetadataBlock.Table.Reader
import MetadataBlock.Table.Row
import MetadataBlock.Table.Sections
import MetadataBlock.Table.Writer
import MetadataBlock.Text.Basic
import MetadataBlock.Text.Utf8
import MetadataBlock.Yaml.Compose
import MetadataBlock.Yaml.Conversion
import MetadataBlock.Yaml.Fault
import MetadataBlock.Yaml.Layout
import MetadataBlock.Yaml.Lexeme
import MetadataBlock.Yaml.Reader
import MetadataBlock.Yaml.ScalarText
import MetadataBlock.Yaml.Scan
import MetadataBlock.Yaml.Stream
import MetadataBlock.Yaml.Tag
import MetadataBlock.Yaml.Tree
import MetadataBlock.Yaml.Value
import MetadataBlock.Proofs.Alignment
import MetadataBlock.Proofs.EditTable
import MetadataBlock.Proofs.GreedyGroups
import MetadataBlock.Proofs.PrefixPartition
import MetadataBlock.Proofs.TypoSuspicion
import MetadataBlock.Proofs.CommonBlock
import MetadataBlock.Proofs.BlockTotal
import MetadataBlock.Proofs.SimilarityRatio
import MetadataBlock.Proofs.EmittedTable
import MetadataBlock.Proofs.TableWidth
import MetadataBlock.Proofs.IntegerRounding
import MetadataBlock.Proofs.CellText
import MetadataBlock.Proofs.JsonText
import MetadataBlock.Proofs.JsonDocument
import MetadataBlock.Proofs.StyledText
import MetadataBlock.Proofs.RunReports
import MetadataBlock.Proofs.NameClashes
import MetadataBlock.Proofs.OverrideRequests
import MetadataBlock.Proofs.SettingsCheck
import MetadataBlock.Proofs.EffectiveSettings
import MetadataBlock.Proofs.ViolationPlaces
import MetadataBlock.Proofs.IntegerDigits
import MetadataBlock.Proofs.SectionPartition
import MetadataBlock.Proofs.RowExtension
import MetadataBlock.Proofs.MalformedLines
import MetadataBlock.Proofs.MarkerHeaders
import MetadataBlock.Proofs.KeywordAdvice
import MetadataBlock.Proofs.AliasExpansion
import MetadataBlock.Proofs.PlainView
