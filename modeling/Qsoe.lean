import Qsoe.Lib.Run
import Qsoe.Lib.Slab
import Qsoe.Lib.Untyped
import Qsoe.Lib.Linked
import Qsoe.Lib.Memory
import Qsoe.Lib.RingBuffer
import Qsoe.Lib.Pairing
import Qsoe.Lib.Align
import Qsoe.Sync.Table
import Qsoe.Sync.Machine
import Qsoe.Sync.Frame
import Qsoe.Sync.Width
import Qsoe.Sync.Mutex
import Qsoe.Sync.Parking
import Qsoe.Sync.Handoff
import Qsoe.Sync.MutexWake
import Qsoe.Sync.Semaphore
import Qsoe.Sync.Condvar
import Qsoe.Sync.CondvarReturn
import Qsoe.Thread.Machine
import Qsoe.Thread.Join
import Qsoe.Msg.Machine
import Qsoe.Msg.Slots
import Qsoe.Msg.Reply
import Qsoe.Msg.Budget
import Qsoe.Taskman.Registry
import Qsoe.Taskman.Machine
import Qsoe.Taskman.Frame
import Qsoe.Taskman.Roster
import Qsoe.Taskman.Pids
import Qsoe.Taskman.Issue
import Qsoe.Taskman.Spaces
import Qsoe.Taskman.Descriptors
import Qsoe.Taskman.Caller
import Qsoe.Taskman.Fault
import Qsoe.Taskman.Lifecycle
import Qsoe.Taskman.Status
import Qsoe.Taskman.Zombie
import Qsoe.Taskman.Replies
import Qsoe.Taskman.Deferred
import Qsoe.Taskman.Moves
import Qsoe.Taskman.Handlers
import Qsoe.Taskman.Board
import Qsoe.Taskman.Namespace
import Qsoe.Taskman.Pulse
import Qsoe.Taskman.Binding
import Qsoe.Taskman.Badge
import Qsoe.Taskman.Incarnation
import Qsoe.Taskman.Estate
import Qsoe.Taskman.SpawnFailure
import Qsoe.Taskman.Release
import Qsoe.Taskman.Blocks
import Qsoe.Taskman.Owners
import Qsoe.Msg.Space
import Qsoe.Msg.Transfer
import Qsoe.Msg.Whole
import Qsoe.Msg.Deferral
import Qsoe.Msg.Exchange
import Qsoe.Msg.Landing
import Qsoe.Msg.Authority
import Qsoe.Path.Confined
import Qsoe.Rsrc.Requests
import Qsoe.Mem.Machine
import Qsoe.Mem.Atomic
import Qsoe.Lib.Delimited
import Qsoe.Msg.Vector
import Qsoe.Spawn.Create
import Qsoe.Spawn.Args
import Qsoe.Path.Access
import Qsoe.Lib.Segments
import Qsoe.Rsrc.Edits
import Qsoe.Rsrc.Grants
import Qsoe.Rsrc.Batches
import Qsoe.Rsrc.Release
import Qsoe.Path.Reading
import Qsoe.Path.Links
import Qsoe.Lib.Reader
import Qsoe.Path.Layout
import Qsoe.Lib.Mapping
import Qsoe.Mem.Holdings
import Qsoe.Mem.History
import Qsoe.Mem.Delivery
import Qsoe.Mem.Unmapping
import Qsoe.Mem.Protection
import Qsoe.Lib.Traced
import Qsoe.Path.Scan
import Qsoe.Lib.Cursor
import Qsoe.Path.Listing
import Qsoe.Spawn.Decoders
import Qsoe.Spawn.Stack
import Qsoe.Spawn.Confinement
import Qsoe.Spawn.Segments
import Qsoe.Sys.Syscfg
import Qsoe.Libc.Write
import Qsoe.Libc.Nanosleep
import Qsoe.Libc.Canon
import Qsoe.Libc.State
import Qsoe.Sync.Invariant
import Qsoe.Sync.SemPost
import Qsoe.Sync.Drain
import Qsoe.Taskman.Timers
import Qsoe.Taskman.Crew
import Qsoe.Taskman.Connections
import Qsoe.Mem.Staging
import Qsoe.Libc.Cleanup
import Qsoe.Libc.Time
import Qsoe.Lib.Copying
import Qsoe.Mem.Skipping
import Qsoe.Spawn.Reloc
import Qsoe.Spawn.BulkCopy
import Qsoe.Spawn.Shebang
import Qsoe.Rsrc.Ownership
import Qsoe.Mem.Watermark
import Qsoe.Mem.Regions
import Qsoe.Mem.Bookkeeping
import Qsoe.Sys.SyscfgWindows
import Qsoe.Path.Lookup
import Qsoe.Lib.Heirs
import Qsoe.Taskman.Household
import Qsoe.Taskman.Privilege
