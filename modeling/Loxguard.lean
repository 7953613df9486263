import Loxguard.Lib.CString
import Loxguard.Lib.Window
import Loxguard.Lib.Percent
import Loxguard.Lib.Decimal
import Loxguard.Lib.Split
import Loxguard.Lib.Bracket
import Loxguard.Lib.Runs
import Loxguard.Lib.Align
import Loxguard.Lib.SlotTable
import Loxguard.Lib.Traces
import Loxguard.Lib.Lockstep
import Loxguard.Lib.Oracle
import Loxguard.Types
import Loxguard.Span
import Loxguard.Arena
import Loxguard.Blackbox
import Loxguard.OwnStore
import Loxguard.Format.Encode
import Loxguard.Format.Number
import Loxguard.Format.Event
import Loxguard.Format.Schema
import Loxguard.Format.Report
import Loxguard.Format.ReportSchema
import Loxguard.Format.Export
import Loxguard.Format.Buffer
import Loxguard.Slots
import Loxguard.Streak
import Loxguard.Adapters
import Loxguard.BlockTable
import Loxguard.Run
import Loxguard.RunSteps
import Loxguard.Lifecycle
import Loxguard.FlatRun
import Loxguard.Evidence
import Loxguard.Calls
import Loxguard.Quarantine
import Loxguard.Isolation
import Loxguard.Tables
import Loxguard.Aggregate
import Loxguard.LastRun
import Loxguard.Attribution
import Loxguard.Queries
import Loxguard.Persist
import Loxguard.Steps
import Loxguard.Footprint
import Loxguard.Dump
import Loxguard.Tally
import Loxguard.Timing
import Loxguard.Parts
import Loxguard.Unseen
import Loxguard.Watchdog
import Loxguard.Breaker
import Loxguard.Demos
import Loxguard.Backing
import Loxguard.Delivery
import Loxguard.Room
import Loxguard.Probes
import Loxguard.Mount
import Loxguard.Bus
import Loxguard.Shell
