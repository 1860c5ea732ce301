import TsukumoCore.Kernel.Types
import TsukumoCore.Kernel.Links
import TsukumoCore.Kernel.Task
import TsukumoCore.Kernel.Timer
import TsukumoCore.Kernel.EventFlag
import TsukumoCore.Kernel.Mailbox
import TsukumoCore.Kernel.System
import TsukumoCore.Lib.Path
import TsukumoCore.Tasks.Moves
import TsukumoCore.Tasks.Invariant
import TsukumoCore.Tasks.Keeps
import TsukumoCore.Tasks.Equations
import TsukumoCore.Objects.Invariant
import TsukumoCore.Objects.Ledger
import TsukumoCore.Objects.Serve
import TsukumoCore.Calls.Sched
import TsukumoCore.Calls.Outcome
import TsukumoCore.Calls.Tasks
import TsukumoCore.Calls.Waits
import TsukumoCore.Objects.Tables
import TsukumoCore.Calls.Semaphores
import TsukumoCore.Calls.EventFlags
import TsukumoCore.Calls.Mailboxes
import TsukumoCore.Calls.Handler
import TsukumoCore.Calls.Step
import TsukumoCore.System.Boot
import TsukumoCore.System.Dispatch
import TsukumoCore.System.EventFlags
import TsukumoCore.System.Semaphores
import TsukumoCore.System.Mailboxes
import TsukumoCore.System.Queues
import TsukumoCore.System.Start
import TsukumoCore.Calls.Late
import TsukumoCore.System.Waits
import TsukumoCore.System.Timer
import TsukumoCore.System.Clock
import TsukumoCore.System.Tables
import TsukumoCore.System.Release
import TsukumoCore.Lib.Grant
import TsukumoCore.Objects.Share
import TsukumoCore.Calls.Requests
import TsukumoCore.Lib.Offer
import TsukumoCore.System.Immediate
import TsukumoCore.Calls.Produce
import TsukumoCore.Either.Order
import TsukumoCore.Either.Semaphores
import TsukumoCore.Either.EventFlags
import TsukumoCore.Either.Mailboxes
import TsukumoCore.System.Either
import TsukumoCore.Kernel.Intctl
import TsukumoCore.Calls.Refused
import TsukumoCore.System.Refused
import TsukumoCore.System.Wakeups
import TsukumoCore.Lib.Turn
import TsukumoCore.Calls.Turns
import TsukumoCore.Calls.Attributes
import TsukumoCore.System.Rank
import TsukumoCore.System.Turns
import TsukumoCore.Lib.Memory
import TsukumoCore.Lib.Rv32
import TsukumoCore.Kernel.Trap
import TsukumoCore.Trap.Frames
import TsukumoCore.System.Created
import TsukumoCore.Trap.Contexts
import TsukumoCore.System.Stacks
import TsukumoCore.Kernel.Bytes
import TsukumoCore.Support.Bytes
import TsukumoCore.Support.Mtime
import TsukumoCore.Kernel.List
import TsukumoCore.Support.Lists
import TsukumoCore.Calls.Mail
import TsukumoCore.Kernel.Insertion
import TsukumoCore.Support.Insertion
import TsukumoCore.System.Arrival
import TsukumoCore.Lib.StableSort
import TsukumoCore.System.MailOrder
import TsukumoCore.Kernel.MailLinks
import TsukumoCore.System.MailLinks
import TsukumoCore.System.Signals
import TsukumoCore.Trap.Controller
import TsukumoCore.Trap.Entries
import TsukumoCore.Trap.Nesting
import TsukumoCore.Trap.Board
import TsukumoCore.Trap.Switches
import TsukumoCore.Trap.Stack
import TsukumoCore.Lib.Front
import TsukumoCore.System.Bypass
import TsukumoCore.Kernel.Idle
import TsukumoCore.System.Idle
