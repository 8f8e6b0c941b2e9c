import HashedTree.ByteBlocks
import HashedTree.AsciiCharacters
import HashedTree.Digest
import HashedTree.KeccakPermutation
import HashedTree.KeccakDigest
import HashedTree.Utf8Text
import HashedTree.DigestCombinators
import HashedTree.ContentDigest
import HashedTree.ContentReading
import HashedTree.InvisibleCharacters
import HashedTree.QuotedText
import HashedTree.SystemError
import HashedTree.BuildError
import HashedTree.Node
import HashedTree.NodeLookup
import HashedTree.NodeStatistics
import HashedTree.TreeDrawing
import HashedTree.ShortestDecimal
import HashedTree.JsonDocument
import HashedTree.JsonNumeral
import HashedTree.JsonReading
import HashedTree.DocumentMismatch
import HashedTree.NodeDocument
import HashedTree.ConfigurationSettings
import HashedTree.DocumentSchema
import HashedTree.ConfigurationDocument
import HashedTree.PathText
import HashedTree.FileSystem
import HashedTree.TreeBuilding
import HashedTree.FileSystemChanges
import HashedTree.TreeCommands
import HashedTree.CommandLine
import HashedTree.NamedTable
import HashedTree.DecimalReading
import HashedTree.TomlScalars
import HashedTree.TomlDocument
import HashedTree.LetterCase
import HashedTree.KeyPath
import HashedTree.SettingTree
import HashedTree.SettingDecoding
import HashedTree.Environment
import HashedTree.ConfigurationFiles
import HashedTree.ConfigurationLayers
import HashedTree.CharacterClasses
import HashedTree.LogFilter
import HashedTree.LogRecord
import HashedTree.LogSetup
import HashedTree.Session
import HashedTree.FileListing
import HashedTree.Main
import HashedTree.Proofs.NameOrder
import HashedTree.Proofs.EntrySearch
import HashedTree.Proofs.SortedDirectories
import HashedTree.Proofs.FoundEntries
import HashedTree.Proofs.Outcomes
import HashedTree.Proofs.DirectoryPortrait
import HashedTree.Proofs.BuiltTrees
import HashedTree.Proofs.ContentPadding
import HashedTree.Proofs.HashTerms
import HashedTree.Proofs.TermsOfContents
import HashedTree.Proofs.Outlines
import HashedTree.Proofs.RootDigests
import HashedTree.Proofs.DigestText
import HashedTree.Proofs.ReadingSteps
import HashedTree.Proofs.NumeralReading
import HashedTree.Proofs.StringReading
import HashedTree.Proofs.DocumentReading
import HashedTree.Proofs.ClaimedNodes
import HashedTree.Proofs.TreeDocuments
import HashedTree.Proofs.ObtainableTrees
import HashedTree.Proofs.BuildSteps
import HashedTree.Proofs.BuildDefects
import HashedTree.Proofs.BuildLocality
import HashedTree.Proofs.DocumentGrammar
import HashedTree.Proofs.ReadingCompleteness
import HashedTree.Proofs.ReadingMoves
import HashedTree.Proofs.ReadingSoundness
import HashedTree.Proofs.NodeSchema
import HashedTree.Proofs.AcceptedDocuments
import HashedTree.Proofs.DigestSpelling
import HashedTree.Proofs.PresentedTrees
import HashedTree.Proofs.BuiltSubtrees
import HashedTree.Proofs.RootSpellings
import HashedTree.Proofs.DrawnTrees
import HashedTree.Proofs.CommandAgreement
import HashedTree.Proofs.LinkDigests
import HashedTree.Proofs.LaidTables
import HashedTree.Proofs.SettingKeys
import HashedTree.Proofs.DocumentedSettings
import HashedTree.Proofs.LayeredSettings
import HashedTree.Proofs.LevelRoots
import HashedTree.Proofs.ContentHalves
import HashedTree.Proofs.PiecewiseReading
import HashedTree.Proofs.BoundContents
import HashedTree.Proofs.BoundDirectories
import HashedTree.Proofs.LogDirectives
import HashedTree.Proofs.LogPreparation
import HashedTree.Proofs.LogValidity
import HashedTree.Proofs.UnaskedLogs
import HashedTree.Proofs.PathNames
import HashedTree.Proofs.CutDocuments
import HashedTree.Proofs.DigestFormat
import HashedTree.Proofs.NumberTexts
import HashedTree.Proofs.PlacedValues
import HashedTree.Proofs.VariableTexts
import HashedTree.Proofs.RebuiltTrees
import HashedTree.Proofs.RequestDiscipline
import HashedTree.Proofs.TreeCensus
import HashedTree.Proofs.WrittenCommandLines
import HashedTree.ChunkBuffer
import HashedTree.Proofs.BufferedReading
import HashedTree.Proofs.DecisiveDirectives
import HashedTree.Proofs.ReliedBehaviour
import HashedTree.Proofs.AppendedFiles
import HashedTree.Proofs.LogFiles
