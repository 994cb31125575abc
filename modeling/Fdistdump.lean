import Fdistdump.Time.TimeRange
import Fdistdump.Time.FlowFileName
import Fdistdump.Time.FillFromTime
import Fdistdump.Time.SetTimeRange
import Fdistdump.Library.Gregorian
import Fdistdump.Library.Slots
import Fdistdump.Time.BrokenDown
import Fdistdump.Exchange.SendTrace
import Fdistdump.Exchange.WaitPoll
import Fdistdump.Exchange.BufferSpace
import Fdistdump.Exchange.Delivery
import Fdistdump.ListMode.SendTrace
import Fdistdump.ListMode.Books
import Fdistdump.ListMode.Progress
import Fdistdump.ListMode.Delivery
import Fdistdump.ListMode.ThreadStep
import Fdistdump.ListMode.Ledger
import Fdistdump.ListMode.ReadAndSend
import Fdistdump.Library.Requests
import Fdistdump.Library.Transition
import Fdistdump.ListMode.Cells
import Fdistdump.ListMode.Record
import Fdistdump.Output.PrintField
import Fdistdump.Output.FieldText
import Fdistdump.Output.FieldToStr
import Fdistdump.FieldSet.WellFormed
import Fdistdump.FieldSet.Calls
import Fdistdump.FieldSet.Roles
import Fdistdump.Args.ArgParse
import Fdistdump.Args.Specs
import Fdistdump.FieldSet.Build
import Fdistdump.Library.CountedArray
import Fdistdump.Bfindex.Verdicts
import Fdistdump.Bfindex.Pruning
import Fdistdump.Bfindex.Build
import Fdistdump.Tput.SlavePhaseTwo
import Fdistdump.Tput.TopN
import Fdistdump.Tput.Run
import Fdistdump.Tput.Totals
import Fdistdump.Tput.Phases
import Fdistdump.Library.Binary64
import Fdistdump.Aggregation
import Fdistdump.Sort
import Fdistdump.SortDir
import Fdistdump.Slave.ProcessFile
import Fdistdump.Summary.Totals
import Fdistdump.Summary.Progress
import Fdistdump.Summary.Balance
import Fdistdump.Summary.Run
import Fdistdump.Summary.Counters
import Fdistdump.Library.Reduction
import Fdistdump.Output.PrintBatch
import Fdistdump.Library.Ranking
import Fdistdump.Library.KeyedFold
import Fdistdump.Library.Strtol
import Fdistdump.Library.BoundedInsert
import Fdistdump.Library.LabelledTree
import Fdistdump.Args.Integers
import Fdistdump.Args.Limit
import Fdistdump.Args.Duplicates
import Fdistdump.Tput.Broadcast
import Fdistdump.Tput.Threshold
import Fdistdump.Time.TmDiff
import Fdistdump.Time.Overflow
import Fdistdump.Paths.PathPreprocessor
import Fdistdump.Paths.RankDirective
import Fdistdump.Paths.PathArray
import Fdistdump.Paths.FillFromPath
import Fdistdump.Paths.ChildPaths
import Fdistdump.Args.TimeString
import Fdistdump.Bfindex.IndexPath
import Fdistdump.Output.SnprintfAppend
import Fdistdump.Output.CellWidth
import Fdistdump.FieldSet.MemInit
import Fdistdump.Output.Header
import Fdistdump.Output.FieldLength
import Fdistdump.Output.AlignedBatch
import Fdistdump.Bfindex.WellFormed
import Fdistdump.Progress.System
import Fdistdump.Progress.Accounting
import Fdistdump.Progress.Completion
import Fdistdump.Library.Binary64Error
import Fdistdump.Progress.Percentage
import Fdistdump.Progress.Bars
import Fdistdump.Args.Arguments
import Fdistdump.Args.FieldCalls
import Fdistdump.Library.Registers
import Fdistdump.Library.Rounds
import Fdistdump.Library.RoundsTeams
import Fdistdump.Library.RoundsFlow
import Fdistdump.Library.RoundsCompletion
import Fdistdump.Exchange.Protocol
import Fdistdump.Tput.Protocol
import Fdistdump.Tput.Concurrent
import Fdistdump.Tput.Agreement
import Fdistdump.Summary.Memories
import Fdistdump.Main.System
import Fdistdump.Main.Listing
import Fdistdump.Main.Completion
import Fdistdump.ListMode.Scheduled
import Fdistdump.Main.Optimised
import Fdistdump.Main.Results
import Fdistdump.Time.SetTimePoint
import Fdistdump.Paths.PathArrayGen
import Fdistdump.Library.Delimited
import Fdistdump.Output.ReadBack
import Fdistdump.Output.Csv
import Fdistdump.Args.Accepted
