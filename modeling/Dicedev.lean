import Dicedev.Lib.Machine
import Dicedev.Lib.Pipeline
import Dicedev.Lib.Blocks
import Dicedev.Lib.Bits
import Dicedev.Lib.Packed
import Dicedev.Lib.SlotTable
import Dicedev.Lib.Tally
import Dicedev.Lib.LockPaths
import Dicedev.Lib.Ledger
import Dicedev.Types
import Dicedev.PageTable
import Dicedev.Utils
import Dicedev.RunTask
import Dicedev.Worker
import Dicedev.Base
import Dicedev.BufferFile
import Dicedev.System
import Dicedev.Step
import Dicedev.Control
import Dicedev.Views
import Dicedev.Buffers
import Dicedev.Queue
import Dicedev.Stream
import Dicedev.Scope
import Dicedev.Commands
import Dicedev.Slots
import Dicedev.Isolation
import Dicedev.Ownership
import Dicedev.RunOwner
import Dicedev.Account
import Dicedev.Failed
import Dicedev.Wakeup
import Dicedev.Sessions
import Dicedev.Device
import Dicedev.Wait
import Dicedev.Blame
import Dicedev.Restart
import Dicedev.Seeds
import Dicedev.Readers
import Dicedev.Shutdown
import Dicedev.Fences
import Dicedev.Iterator
import Dicedev.RunPages
import Dicedev.Parsing
import Dicedev.Translate
import Dicedev.Locking
import Dicedev.Feed
import Dicedev.Waiters
import Dicedev.Results
import Dicedev.ReaderBounds
import Dicedev.Reads
import Dicedev.RunRequest
import Dicedev.FileRefs
import Dicedev.CreateSet
import Dicedev.PageLayout
import Dicedev.BindSlot
import Dicedev.Probe
import Dicedev.PciCore
import Dicedev.Writes
import Dicedev.Arrays
import Dicedev.Memory
import Dicedev.SlotPointers
import Dicedev.RunLoop
import Dicedev.Lib.Fair
import Dicedev.NoBug
import Dicedev.Liveness
import Dicedev.Quiet
import Dicedev.Closing
import Dicedev.Lib.WaitQueue
import Dicedev.Waiting
import Dicedev.DeviceView
import Dicedev.Lib.LockOrder
import Dicedev.Deadlock
import Dicedev.Parking
import Dicedev.Submissions
import Dicedev.Frames
import Dicedev.Mappings
import Dicedev.ModuleLife
import Dicedev.IntrEnable
import Dicedev.Power
