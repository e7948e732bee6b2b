import Anticheat.Ring.Basic
import Anticheat.Lib.Run
import Anticheat.Ring.GetEvents
import Anticheat.Registry.Basic
import Anticheat.Registry.Rules
import Anticheat.Registry.Invariant
import Anticheat.Registry.Progress
import Anticheat.Registry.Properties
import Anticheat.Probe.Basic
import Anticheat.Probe.Properties
import Anticheat.Registry.Unload
import Anticheat.Handoff.Basic
import Anticheat.Handoff.Rules
import Anticheat.Lib.Ledger
import Anticheat.Handoff.Invariant
import Anticheat.Handoff.Refs
import Anticheat.Handoff.Delivery
import Anticheat.Inherit.Basic
import Anticheat.Inherit.Rules
import Anticheat.Registry.Cover
import Anticheat.Inherit.Invariant
import Anticheat.Inherit.Sharing
import Anticheat.Inherit.Effects
import Anticheat.Inherit.Tasks
import Anticheat.Inherit.Owners
import Anticheat.Inherit.Workers
import Anticheat.Inherit.Coverage
import Anticheat.Inherit.Tree
import Anticheat.Lib.Json
import Anticheat.Lib.Retention
import Anticheat.Server.Store
import Anticheat.Server.Retention
import Anticheat.Lib.SlidingWindow
import Anticheat.Server.RateLimiter
import Anticheat.Lib.CText
import Anticheat.Modules.Crosscheck
import Anticheat.Baseline.Records
import Anticheat.Baseline.Save
import Anticheat.Hash.Sha256
import Anticheat.Syscalls.Basic
import Anticheat.Syscalls.Check
import Anticheat.Syscalls.Monitor
import Anticheat.Syscalls.Level
import Anticheat.Baseline.Runs
import Anticheat.Lib.Sweep
import Anticheat.Baseline.Check
import Anticheat.Baseline.Periodic
import Anticheat.Baseline.Scan
import Anticheat.Lib.Utf8
import Anticheat.Lib.JsonReader
import Anticheat.Lib.QueryString
import Anticheat.Server.Handlers
import Anticheat.Server.Storable
import Anticheat.Report.Body
import Anticheat.Report.Accepted
import Anticheat.Baseline.Split
import Anticheat.Syscalls.Edges
import Anticheat.Registry.JitFlag
import Anticheat.Ring.Drops
import Anticheat.Lib.Url
import Anticheat.Server.Routes
import Anticheat.Server.Isolation
import Anticheat.Lib.GapFree
import Anticheat.Render.Load
import Anticheat.Lib.Grouped
import Anticheat.Render.Check
import Anticheat.Render.Status
import Anticheat.Inherit.ExitEvent
import Anticheat.Lib.SlotTable
import Anticheat.Periodic.AnonExec
import Anticheat.Probe.DenyLimit
import Anticheat.Server.Framing
import Anticheat.Lib.OncePerStay
import Anticheat.Periodic.Environ
import Anticheat.Periodic.Warned
import Anticheat.Syscalls.Ranges
import Anticheat.Syscalls.Bounds
import Anticheat.Lib.Buffer
import Anticheat.Render.Elf
import Anticheat.Report.Url
import Anticheat.Lib.JsonSearch
import Anticheat.Periodic.Layers
import Anticheat.Lib.Fips180
import Anticheat.Hash.Compress
import Anticheat.Hash.Digest
import Anticheat.Baseline.Chunks
import Anticheat.Hash.Agreement
import Anticheat.Device.Pin
import Anticheat.Lib.Heap
import Anticheat.Device.FdState
import Anticheat.Device.Session
import Anticheat.Report.Resolver
import Anticheat.Syscalls.Locate
import Anticheat.Lib.HttpMessage
import Anticheat.Report.Request
import Anticheat.Report.Send
import Anticheat.Device.Lifecycle
import Anticheat.Server.Connections
import Anticheat.Server.Notifier
import Anticheat.Server.ClientIp
import Anticheat.Lib.Paging
import Anticheat.Server.Paging
import Anticheat.Report.Resolve
