import Nachos.Base.System
import Nachos.Base.Program
import Nachos.Base.Objects
import Nachos.Base.Logs
import Nachos.Base.Chain
import Nachos.Base.StableSort
import Nachos.Base.Handshake
import Nachos.Base.Owned
import Nachos.Base.Bytes
import Nachos.Base.FileStore
import Nachos.Base.Cursor
import Nachos.Base.Slots
import Nachos.Base.Ranges
import Nachos.Base.Rotation
import Nachos.Lib.Utility
import Nachos.Lib.Bitmap
import Nachos.Lib.BitmapCalls
import Nachos.Proof.BitmapSet
import Nachos.Lib.SortedList
import Nachos.Lib.LinkedList
import Nachos.Lib.HashTable
import Nachos.Proof.HashBuckets
import Nachos.Proof.HashTable
import Nachos.Proof.LinkedList
import Nachos.Proof.SortedInsert
import Nachos.Machine.Interrupt
import Nachos.Proof.Interrupts
import Nachos.Machine.Disk
import Nachos.Proof.Latency
import Nachos.Threads.Semaphore
import Nachos.Proof.Semaphore
import Nachos.Machine.Translate
import Nachos.Proof.Translation
import Nachos.Machine.MipsSim
import Nachos.Machine.Mips1
import Nachos.Proof.Interpreter
import Nachos.Threads.Scheduler
import Nachos.Proof.Threads
import Nachos.Proof.ContextSwitch
import Nachos.Threads.STable
import Nachos.Proof.Names
import Nachos.Proof.SemBound
import Nachos.Threads.SynchList
import Nachos.Proof.SynchLists
import Nachos.Network.Packet
import Nachos.Proof.Packets
import Nachos.Network.Post
import Nachos.Proof.Mailboxes
import Nachos.Proof.Mail
import Nachos.Proof.Delivery
import Nachos.Filesys.OpenFile
import Nachos.Filesys.Disk
import Nachos.Filesys.Requests
import Nachos.Filesys.Traffic
import Nachos.Filesys.FileSystem
import Nachos.Proof.Disk
import Nachos.Proof.FileBytes
import Nachos.Proof.Directory
import Nachos.Proof.DirectoryMap
import Nachos.Proof.Allocation
import Nachos.Proof.HeaderAllocation
import Nachos.Filesys.Volume
import Nachos.Proof.Files
import Nachos.Proof.Volume
import Nachos.Threads.Main
import Nachos.Proof.Main
import Nachos.Userprog.Multiprogram
import Nachos.Proof.Likeness
import Nachos.Proof.Isolation
import Nachos.Threads.Monitor
import Nachos.Threads.Alarm
import Nachos.Proof.Alarm
import Nachos.Proof.MonitorRuns
import Nachos.Proof.Toolchain
import Nachos.Proof.Clamping
import Nachos.Filesys.SynchDisk
import Nachos.Proof.SynchDisk
import Nachos.Userprog.AddrSpace
import Nachos.Userprog.AddrLock
import Nachos.Proof.AddrLock
import Nachos.Proof.Landing
import Nachos.Proof.Loader
import Nachos.Coff2noff.Convert
import Nachos.Proof.Convert
import Nachos.Proof.Segments
import Nachos.Proof.Bss
import Nachos.Proof.Residue
import Nachos.Proof.PageCounts
import Nachos.Threads.PTable
import Nachos.Proof.Effects
import Nachos.Proof.Table
import Nachos.Proof.Frames
import Nachos.Proof.Rendezvous
import Nachos.Proof.Joins
import Nachos.Proof.Stranded
import Nachos.Proof.Parents
import Nachos.Userprog.Descriptors
import Nachos.Proof.Descriptors
import Nachos.Userprog.SynchConsole
import Nachos.Userprog.Exception
import Nachos.Proof.Console
import Nachos.Userprog.ConsoleInput
import Nachos.Userprog.LineInput
import Nachos.Proof.ConsoleInput
import Nachos.Proof.LineInput
import Nachos.Proof.Dispatch
import Nachos.Proof.DelayedLoads
import Nachos.Proof.Instructions
import Nachos.Proof.Registers
import Nachos.Proof.FlatMemory
import Nachos.Proof.Unaligned
import Nachos.Proof.Multiplication
import Nachos.Proof.Writes
import Nachos.Proof.Fidelity
import Nachos.Proof.Output
import Nachos.Proof.ReadNum
import Nachos.Proof.ReadString
import Nachos.Proof.Strings
import Nachos.Proof.Opening
import Nachos.Proof.Bounds
import Nachos.Proof.Transfers
import Nachos.Proof.Counts
import Nachos.Proof.StringCalls
import Nachos.Test.WaterSystem
import Nachos.Proof.Turns
import Nachos.Proof.Taps
import Nachos.Proof.TapPhases
import Nachos.Proof.TapRuns
