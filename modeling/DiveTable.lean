import DiveTable.Main
import DiveTable.Files.Tree
import DiveTable.Proofs.RowSegments
import DiveTable.Proofs.Delivery
import DiveTable.Proofs.Streaming
import DiveTable.Proofs.SampleEvents
import DiveTable.Proofs.DumpTable
import DiveTable.Proofs.TreeGrowth
import DiveTable.Proofs.ExportSteps
import DiveTable.Proofs.AbsolutePaths
import DiveTable.Proofs.InputFile
import DiveTable.Proofs.NearestUnits
import DiveTable.Proofs.DecimalUnits
import DiveTable.Proofs.FiniteNumbers
import DiveTable.Proofs.FiniteReadings
import DiveTable.Proofs.DecimalCells
import DiveTable.Proofs.NumberLiteral
import DiveTable.Proofs.NumberReading
import DiveTable.Proofs.SkippedNumber
import DiveTable.Proofs.Utf8Text
import DiveTable.Proofs.StringToken
import DiveTable.Proofs.Grammar
import DiveTable.Proofs.PlainSpelling
import DiveTable.Proofs.Reading
import DiveTable.Proofs.SpelledValues
import DiveTable.Proofs.SkippedValues
import DiveTable.Proofs.MemberOrder
import DiveTable.Proofs.TypedReading
import DiveTable.Proofs.RecordLayout
import DiveTable.Proofs.DocumentLayout
import DiveTable.Proofs.Respelling
import DiveTable.Proofs.DocumentRewriting
import DiveTable.Proofs.DecimalLiterals
import DiveTable.Proofs.FieldValues
import DiveTable.Proofs.LiteralCells
import DiveTable.Proofs.TruncatedTable
import DiveTable.Proofs.ExportFrame
import DiveTable.Proofs.AlikeTrees
import DiveTable.Proofs.ProgramOutcome
import DiveTable.Proofs.SoundValues
import DiveTable.Proofs.SoundDocuments
import DiveTable.Proofs.SampleMeaning
import DiveTable.Proofs.StreamFaults
import DiveTable.Proofs.QuotedText
import DiveTable.Proofs.RefusedTable
import DiveTable.Proofs.DebugOutput
import DiveTable.Proofs.DebugOption
import DiveTable.Proofs.QuietRuns
import DiveTable.Proofs.FormatAgreement
import DiveTable.Proofs.VersionGrammar
import DiveTable.Proofs.DumpJudgement
import DiveTable.Proofs.RecordValues
import DiveTable.Proofs.WholeLiterals
import DiveTable.Proofs.HugeLiterals
import DiveTable.Proofs.WholeFields
import DiveTable.Proofs.RecordForms
import DiveTable.Proofs.SampleForms
import DiveTable.Proofs.FormsAgree
import DiveTable.Proofs.OpenRow
import DiveTable.Proofs.PlainDecimals
import DiveTable.Proofs.ExactRounding
import DiveTable.Proofs.ShownRows
import DiveTable.Proofs.PathComponents
import DiveTable.Proofs.TablePaths
