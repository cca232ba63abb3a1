import ZohoOs.Lib.Transition
import ZohoOs.Lib.Ring
import ZohoOs.Lib.Loop
import ZohoOs.Lib.Memory
import ZohoOs.Pmm.Basic
import ZohoOs.Pmm.Boot
import ZohoOs.Pmm.Ledger
import ZohoOs.Pmm.Multiboot
import ZohoOs.Pmm.Reservation
import ZohoOs.Lib.Extents
import ZohoOs.Kmalloc.Basic
import ZohoOs.Kmalloc.Tiling
import ZohoOs.Kmalloc.Safety
import ZohoOs.Kmalloc.Stats
import ZohoOs.Kmalloc.Coalesce
import ZohoOs.Kmalloc.Program
import ZohoOs.Kmalloc.Reserve
import ZohoOs.Lib.Radix
import ZohoOs.Vmm.Basic
import ZohoOs.Vmm.Tables
import ZohoOs.Vmm.VPage
import ZohoOs.Vmm.Walk
import ZohoOs.Vmm.Map
import ZohoOs.Vmm.Space
import ZohoOs.Vmm.Bootstrap
import ZohoOs.Vmm.PageMap
import ZohoOs.Lib.Sweep
import ZohoOs.Vmm.Destroy
import ZohoOs.Vmm.CloneWalk
import ZohoOs.Vmm.Trees
import ZohoOs.Vmm.Shared
import ZohoOs.Vmm.Clone
import ZohoOs.Vmm.CloneAtomic
import ZohoOs.Vmm.Range
import ZohoOs.Vmm.HugeConflict
import ZohoOs.Vmm.Unmapped
import ZohoOs.Vmm.Spaces
import ZohoOs.Vmm.UnmapRange
import ZohoOs.Libc.Copy
import ZohoOs.Elf.Load
import ZohoOs.Vmm.Isolation
import ZohoOs.Lib.Holders
import ZohoOs.Pmm.Counts
import ZohoOs.Vmm.Accounts
import ZohoOs.Lib.Chain
import ZohoOs.Task.Basic
import ZohoOs.Task.Queues
import ZohoOs.Task.Invariant
import ZohoOs.Task.Schedule
import ZohoOs.Task.Calls
import ZohoOs.Task.Fifo
import ZohoOs.Task.Runs
import ZohoOs.Task.Fork
import ZohoOs.Task.Handoff
import ZohoOs.Lib.Locks
import ZohoOs.Task.Locks
import ZohoOs.Window.Basic
import ZohoOs.Window.Address
import ZohoOs.Window.Share
import ZohoOs.Vfs.Basic
import ZohoOs.Syscall.Basic
import ZohoOs.Syscall.Confine
import ZohoOs.Lib.Logged
import ZohoOs.Lib.Bytes
import ZohoOs.Lib.OnesComplement
import ZohoOs.Net.Basic
import ZohoOs.Net.Send
import ZohoOs.Net.Handle
import ZohoOs.Net.Confine
import ZohoOs.Net.Codec
import ZohoOs.Net.Checksum
import ZohoOs.Net.Receive
import ZohoOs.Elf.Segment
import ZohoOs.Elf.Reads
import ZohoOs.Elf.Frames
import ZohoOs.Elf.Content
import ZohoOs.Vmm.Needed
import ZohoOs.Vmm.Reserved
import ZohoOs.Vmm.HugeCow
import ZohoOs.Elf.Exhaust
import ZohoOs.Elf.Overlap
import ZohoOs.Net.Tcp
import ZohoOs.Mouse.Packet
import ZohoOs.Net.ArpCache
import ZohoOs.Net.Connect
import ZohoOs.Net.TcpAck
import ZohoOs.Lib.Slots
import ZohoOs.Lib.FirstKeys
import ZohoOs.Lib.Stream
import ZohoOs.Net.Bindings
import ZohoOs.Net.Dhcp
import ZohoOs.Net.Options
import ZohoOs.Net.Sizes
import ZohoOs.Net.Echo
import ZohoOs.Tar.Basic
import ZohoOs.Tar.Decode
import ZohoOs.Tar.Walk
import ZohoOs.Tar.Listing
import ZohoOs.Ext2.Basic
import ZohoOs.Ext2.Read
import ZohoOs.Ext2.Lookup
import ZohoOs.Tar.Coherence
import ZohoOs.Vfs.Files
import ZohoOs.Vfs.Copy
import ZohoOs.Vfs.Refine
import ZohoOs.Vfs.Contain
import ZohoOs.Lib.Signed
import ZohoOs.Graphics.Rect
import ZohoOs.Lib.Paint
import ZohoOs.Graphics.Basic
import ZohoOs.Graphics.Blit
import ZohoOs.Graphics.Swap
import ZohoOs.Window.Draw
import ZohoOs.Window.Desktop
import ZohoOs.Window.Lifetime
import ZohoOs.Window.Runs
import ZohoOs.Window.Damage
import ZohoOs.Window.DirtyQueue
import ZohoOs.Window.Events
import ZohoOs.Window.Buffer
import ZohoOs.Window.Visible
import ZohoOs.Window.Records
import ZohoOs.Window.Coordinates
import ZohoOs.Kernel.Exhaustion
import ZohoOs.Shell.Address
import ZohoOs.Acpi.Tables
import ZohoOs.Libc.Printf
import ZohoOs.Shell.Terminal
import ZohoOs.Shell.Editing
import ZohoOs.Lib.Stores
import ZohoOs.Graphics.Font
import ZohoOs.Shell.Render
import ZohoOs.Vmm.FrameBalance
import ZohoOs.Vmm.CowRefine
import ZohoOs.Zpm.Install
import ZohoOs.Zpm.Paths
import ZohoOs.Zpm.Blocks
import ZohoOs.Zpm.Extract
import ZohoOs.Libc.Move
import ZohoOs.Lib.Stack
import ZohoOs.Lib.Asm
import ZohoOs.Interrupt.Stub
import ZohoOs.Task.Fields
import ZohoOs.Interrupt.Handler
import ZohoOs.Interrupt.Tasking
import ZohoOs.Interrupt.Virtual
import ZohoOs.Interrupt.SyscallEntry
import ZohoOs.Lib.Exclusion
import ZohoOs.Lock.Spinlock
import ZohoOs.Lock.Statistics
import ZohoOs.Lock.Discipline
import ZohoOs.Disk.Ata
import ZohoOs.Lib.Ranking
import ZohoOs.Task.Waiting
import ZohoOs.Smp.Startup
import ZohoOs.Vmm.BootTables
