import Asg1.Lib.Loop
import Asg1.Lib.CInt
import Asg1.Lib.Lts
import Asg1.Lib.Cursor
import Asg1.Lib.Keyed
import Asg1.Lib.Lock
import Asg1.Lib.Radix
import Asg1.Lib.Flat
import Asg1.Lib.Proc
import Asg1.Lib.Bytes
import Asg1.Lib.Word
import Asg1.Lib.Owns
import Asg1.Lib.Field
import Asg1.Lib.Checked
import Asg1.Lib.Placed
import Asg1.Lib.Rewrite
import Asg1.Lib.Decimal
import Asg1.Lexer.Scan
import Asg1.Lexer.Token
import Asg1.Lexer.Lexanc
import Asg1.Lexer.Closed
import Asg1.Lexer.Progress
import Asg1.Lexer.Agree
import Asg1.Lexer.RoundTrip
import Asg1.Lexer.Blanks
import Asg1.Lexer.Literal
import Asg1.Lexer.Number
import Asg1.Lexer.Exact
import Asg1.Lexer.Reads
import Asg1.Lexer.Tables
import Asg1.Process.Model
import Asg1.Process.ExecInv
import Asg1.Process.Exec
import Asg1.Process.NodeInv
import Asg1.Process.Ownership
import Asg1.Process.WaitInv
import Asg1.Process.Wait
import Asg1.Filesys.Inode
import Asg1.Filesys.File
import Asg1.Kernel.Bitmap
import Asg1.Kernel.Memmove
import Asg1.Kernel.Stdio
import Asg1.Kernel.List
import Asg1.Filesys.Volume
import Asg1.Filesys.Transfer
import Asg1.Filesys.FlatIo
import Asg1.Filesys.FreeMap
import Asg1.Filesys.Layout
import Asg1.Filesys.Inv
import Asg1.Filesys.Entries
import Asg1.Filesys.Directory
import Asg1.Filesys.Files
import Asg1.Filesys.Calls
import Asg1.Filesys.Format
import Asg1.Filesys.Ownership
import Asg1.Filesys.CreateFails
import Asg1.Filesys.Refine
import Asg1.Archive.Ustar
import Asg1.Archive.Fsutil
import Asg1.Archive.RoundTrip
import Asg1.Userprog.Fd
import Asg1.Userprog.FileLock
import Asg1.Userprog.IntArgs
import Asg1.Threads.Sched
import Asg1.Threads.Places
import Asg1.Threads.Queues
import Asg1.Threads.Sema
import Asg1.Threads.Effects
import Asg1.Threads.Synch
import Asg1.Threads.Monitor
import Asg1.Threads.Waiters
import Asg1.Threads.SynchRuns
import Asg1.Threads.Conditions
import Asg1.Devices.Intq
import Asg1.Devices.IntqWait
import Asg1.Devices.IntqFifo
import Asg1.Devices.Rtc
import Asg1.Threads.Malloc
import Asg1.Threads.Arenas
import Asg1.Threads.Heap
import Asg1.Threads.Calls
import Asg1.Threads.HeapRuns
import Asg1.Threads.Sizes
import Asg1.Threads.Pte
import Asg1.Userprog.Pagedir
import Asg1.Lib.Logged
import Asg1.Userprog.UserMem
import Asg1.Userprog.Entry
import Asg1.Userprog.Buffers
import Asg1.Userprog.Console
import Asg1.Vm.Frame
import Asg1.Vm.Palloc
import Asg1.Vm.Pools
import Asg1.Userprog.Segment
import Asg1.Lib.Downward
import Asg1.Lib.Runs
import Asg1.Userprog.Args
import Asg1.Userprog.Strtok
import Asg1.Userprog.Exec
import Asg1.Userprog.Executable
