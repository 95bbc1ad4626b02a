import Tracey.PerfEvent
import Tracey.ShortenSymbol
import Tracey.TextSearch
import Tracey.PerfScriptParser
import Tracey.Grouping
import Tracey.LineGroups
import Tracey.Slices
import Tracey.TraceFilter
import Tracey.BitLayout
import Tracey.FxtRecord
import Tracey.FxtWriter
import Tracey.StringTable
import Tracey.ThreadTable
import Tracey.WriterRuns
import Tracey.Journal
import Tracey.WriterJournal
import Tracey.StringMirror
import Tracey.ThreadSlots
import Tracey.ArrivalOrder
import Tracey.StackReconstructor
import Tracey.BracketWord
import Tracey.StackDiff
import Tracey.KeyedMachine
import Tracey.EvenSpread
import Tracey.Operations
import Tracey.ThreadHistory
import Tracey.Isolation
import Tracey.WrittenEvents
import Tracey.Nesting
import Tracey.Samples
import Tracey.ThreadReferences
import Tracey.Timing
import Tracey.TimeOrder
import Tracey.FlushTimes
import Tracey.KernelVisits
import Tracey.Unbuffered
import Tracey.Buffering
import Tracey.DecodeErrors
import Tracey.ReferenceMachine
import Tracey.StringReferences
import Tracey.StringAges
import Tracey.SymbolNames
import Tracey.SymbolScan
import Tracey.ShortenedNames
import Tracey.HeaderTimes
import Tracey.HeaderLines
import Tracey.BranchLines
import Tracey.BranchRoundTrip
import Tracey.BranchMetadata
import Tracey.StackLines
import Tracey.ErrorLines
import Tracey.CompressedSink
import Tracey.Separated
import Tracey.Subprocess
import Tracey.PerfCapabilities
import Tracey.PerfDriver
import Tracey.DecodeSession
import Tracey.Decoding
import Tracey.PrintedEvents
import Tracey.TraceFile
import Tracey.ShownExecution
import Tracey.ShownSamples
import Tracey.DisturbedOutput
import Tracey.Renaming
import Tracey.Unaffected
import Tracey.NameSources
import Tracey.OutputBound
import Tracey.MainProgram
import Tracey.TraceServer
import Tracey.SavedTrace
