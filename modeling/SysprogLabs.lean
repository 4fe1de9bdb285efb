import SysprogLabs.Lib.Prog
import SysprogLabs.Lib.Store
import SysprogLabs.Lib.Links
import SysprogLabs.Lib.Blocks
import SysprogLabs.Lib.Slots
import SysprogLabs.Lib.Machine
import SysprogLabs.Userfs.Model
import SysprogLabs.Userfs.Disk
import SysprogLabs.Userfs.Files
import SysprogLabs.Userfs.Contents
import SysprogLabs.Userfs.Table
import SysprogLabs.Userfs.Handles
import SysprogLabs.Userfs.Views
import SysprogLabs.Userfs.Api
import SysprogLabs.Userfs.Ledger
import SysprogLabs.Userfs.Invariants
import SysprogLabs.Userfs.Sharing
import SysprogLabs.Userfs.Reference
import SysprogLabs.Tpool.Model
import SysprogLabs.Tpool.Records
import SysprogLabs.Tpool.Sections
import SysprogLabs.Tpool.Changes
import SysprogLabs.Tpool.Staff
import SysprogLabs.Tpool.Duties
import SysprogLabs.Tpool.History
import SysprogLabs.Tpool.Owners
import SysprogLabs.Tpool.Clients
import SysprogLabs.Tpool.Runs
import SysprogLabs.Tpool.Execution
import SysprogLabs.Tpool.Joining
import SysprogLabs.Tpool.Wakeups
import SysprogLabs.Tpool.Links
import SysprogLabs.Tpool.Relinking
import SysprogLabs.Tpool.Lines
import SysprogLabs.Tpool.Queues
import SysprogLabs.Tpool.Lifetimes
import SysprogLabs.Tpool.Lists
import SysprogLabs.Tpool.Consistency
import SysprogLabs.Tpool.Pending
import SysprogLabs.Tpool.Progress
import SysprogLabs.Tpool.Deleting
import SysprogLabs.Tpool.Releasing
import SysprogLabs.Tpool.Undeletable
import SysprogLabs.Tpool.Detaching
import SysprogLabs.Userfs.Transfers
import SysprogLabs.Userfs.Capacity
import SysprogLabs.Userfs.Resizing
import SysprogLabs.Userfs.Shrinking
import SysprogLabs.HeapHelp.Model
import SysprogLabs.HeapHelp.Records
import SysprogLabs.HeapHelp.Tracking
import SysprogLabs.HeapHelp.Calls
import SysprogLabs.HeapHelp.Exactness
import SysprogLabs.Libcoro.Model
import SysprogLabs.Libcoro.Lists
import SysprogLabs.Libcoro.Rounds
import SysprogLabs.Libcoro.Refinement
import SysprogLabs.Libcoro.Scheduling
import SysprogLabs.Libcoro.Results
import SysprogLabs.Lib.Coroutine
import SysprogLabs.FileSort.Model
import SysprogLabs.FileSort.Merge
import SysprogLabs.FileSort.Sort
import SysprogLabs.FileSort.Sharing
import SysprogLabs.FileSort.Concatenation
import SysprogLabs.FileSort.Schedules
import SysprogLabs.Userfs.Modes
import SysprogLabs.FileSort.Checker
import SysprogLabs.FileSort.Reading
import SysprogLabs.FileSort.ReadingEnds
import SysprogLabs.Userfs.Destroying
import SysprogLabs.FileSort.Recursion
import SysprogLabs.FileSort.WorkTime
import SysprogLabs.Userfs.Pointers
import SysprogLabs.Tpool.TimedJoining
import SysprogLabs.Userfs.Uninitialised
import SysprogLabs.Userfs.StalePositions
import SysprogLabs.Tpool.Sleepers
import SysprogLabs.Tpool.Closing
import SysprogLabs.Tpool.Shutdown
import SysprogLabs.Lib.Threads
import SysprogLabs.HeapHelp.Hooks
import SysprogLabs.HeapHelp.Threads
import SysprogLabs.HeapHelp.Interleaving
import SysprogLabs.HeapHelp.Nesting
import SysprogLabs.HeapHelp.Report
import SysprogLabs.Userfs.Flat
import SysprogLabs.Userfs.Streams
import SysprogLabs.Tpool.Serving
import SysprogLabs.FileSort.Program
import SysprogLabs.HeapHelp.Initialisation
import SysprogLabs.HeapHelp.Starting
import SysprogLabs.HeapHelp.Racing
