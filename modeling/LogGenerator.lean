import LogGenerator.Foundation.Bytes
import LogGenerator.Foundation.PrefixCode
import LogGenerator.Foundation.Machine
import LogGenerator.Foundation.FreshName
import LogGenerator.Foundation.Calendar
import LogGenerator.Foundation.Regex
import LogGenerator.Foundation.MemoTable
import LogGenerator.Domain.GeneratorConfig
import LogGenerator.Application.PrivacyAnonymizer
import LogGenerator.Application.TimestampToken
import LogGenerator.Application.TimestampFormat
import LogGenerator.Application.LogRenderer
import LogGenerator.Application.Framing
import LogGenerator.Application.PackedLoop
import LogGenerator.Application.Transport
import LogGenerator.Infrastructure.FileTransport
import LogGenerator.Application.SendLoops
import LogGenerator.Application.StressTestService
import LogGenerator.Application.Lifecycle
import LogGenerator.Application.Totals
import LogGenerator.Application.PreparedLog
import LogGenerator.Application.LogPreparationCache
import LogGenerator.Application.RoundRobin
import LogGenerator.Application.FileRun
import LogGenerator.Application.Rotation
import LogGenerator.Infrastructure.UdpTransport
import LogGenerator.Foundation.Json
import LogGenerator.Infrastructure.JsonLogCatalog
import LogGenerator.Infrastructure.AsyncFileLogger
import LogGenerator.Infrastructure.LosslessLogger
import LogGenerator.Foundation.Runs
import LogGenerator.Application.SensitiveFields
import LogGenerator.Application.AddressPatterns
import LogGenerator.Application.KeyValuePairs
import LogGenerator.Application.TestCase
import LogGenerator.Foundation.RegexLanguage
import LogGenerator.Foundation.RegexRewriting
import LogGenerator.Foundation.RegexGroups
import LogGenerator.Foundation.Overflow
import LogGenerator.Application.TimestampCursor
import LogGenerator.Application.RatePacer
import LogGenerator.Application.CacheWarming
import LogGenerator.Foundation.FilePath
import LogGenerator.Foundation.CsvText
import LogGenerator.Infrastructure.CsvSampleLogSource
import LogGenerator.Foundation.FromChars
import LogGenerator.Application.CompileSegments
import LogGenerator.Application.SampleLogImportService
import LogGenerator.Foundation.Gregorian
import LogGenerator.Presentation.CliApp
import LogGenerator.Presentation.TimeOptions
import LogGenerator.Presentation.RunGenerator
import LogGenerator.Foundation.Numerals
import LogGenerator.Application.RecognisedTimestamps
import LogGenerator.Application.RenderedInstant
import LogGenerator.Application.CacheBound
import LogGenerator.Foundation.XorLinear
import LogGenerator.Application.RandomState
import LogGenerator.Presentation.TextFields
import LogGenerator.Infrastructure.RuntimePaths
import LogGenerator.Foundation.Patches
import LogGenerator.Application.CompanyNames
import LogGenerator.Presentation.EditorTokenization
import LogGenerator.Presentation.CatalogFile
import LogGenerator.Application.Shutdown
import LogGenerator.Application.Sessions
import LogGenerator.Foundation.PartialWrites
import LogGenerator.Infrastructure.StreamTransports
import LogGenerator.Application.StreamRun
import LogGenerator.Application.RunOutcome
import LogGenerator.Presentation.WaitLoop
import LogGenerator.Presentation.StartRequests
import LogGenerator.Foundation.Utf8
import LogGenerator.Application.TokenizedText
import LogGenerator.Application.LogCatalogService
import LogGenerator.Application.ImportedTexts
import LogGenerator.Presentation.CatalogDisk
