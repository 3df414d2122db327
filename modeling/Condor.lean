import Condor.Vmm.Space
import Condor.Pmm.Bitmap
import Condor.Lib.Bitmap
import Condor.Lib.Scan
import Condor.Pmm.Search
import Condor.Pmm.Alloc
import Condor.Pmm.Summary
import Condor.Pmm.FrameStack
import Condor.Pmm.StackRuns
import Condor.Pmm.Contiguous
import Condor.Pmm.Ownership
import Condor.Pmm.BootMap
import Condor.Pmm.Unmap
import Condor.Heap.AllocHooks
import Condor.Lib.Chain
import Condor.Sched.Scheduler
import Condor.Sched.Queue
import Condor.Sched.Context
import Condor.Vmm.Vaddm
import Condor.Vmm.VaddmSearch
import Condor.Vmm.VaddmRuns
import Condor.Vmm.PageTable
import Condor.Vmm.Mapping
import Condor.Vmm.MapUnmap
import Condor.Vmm.Refine
import Condor.Isr.Cpu
import Condor.Isr.Stubs
import Condor.Isr.Interrupt
import Condor.Kbd.Buffer
import Condor.Pmm.Modules
import Condor.Kbd.Isr
import Condor.Kbd.Codes
import Condor.Kbd.KeyStates
import Condor.Ata.Machine
import Condor.Ata.Transfer
import Condor.Ata.Reject
import Condor.Ata.Calm
import Condor.Ata.Rules
import Condor.Ata.Fuel
import Condor.Ata.TaskFile
import Condor.Ata.InUse
import Condor.Ata.Checks
import Condor.Ata.Words
import Condor.Ata.Bounds
import Condor.Ata.Packet
import Condor.Ata.Success
import Condor.Ata.Interrupts
import Condor.Lib.Runs
import Condor.Ata.Quiet
import Condor.Hal.Interrupts
import Condor.Libc.Numbers
import Condor.Libc.Format
import Condor.Libc.Vprintf
import Condor.Libc.Vsprintf
import Condor.Tty.Terminal
import Condor.Tty.Writes
import Condor.Vmm.PageFault
import Condor.Pmm.Exhaustion
import Condor.Pmm.Release
import Condor.Pmm.LowMem
import Condor.Pmm.Aligned
import Condor.Pmm.Reserved
import Condor.Vmm.VaddmRegions
import Condor.Vmm.VaddmReach
import Condor.Vmm.VaddmSummary
import Condor.Ata.Source
import Condor.Heap.Break
import Condor.Vmm.Managed
import Condor.Vmm.UserBit
import Condor.Tasks.Stacks
import Condor.Tasks.Create
import Condor.Ata.PacketWords
import Condor.Ata.Identify
import Condor.Ata.Records
import Condor.Lib.Walk
import Condor.Idt.Irqs
import Condor.Idt.Dispatch
import Condor.Idt.Eoi
import Condor.Kbd.Bounds
import Condor.Kbd.Resync
import Condor.Kbd.Status
import Condor.Libc.Around
import Condor.Libc.Overread
import Condor.Tty.Screen
import Condor.Lib.Moved
import Condor.Tty.ScrollAsm
import Condor.Tty.Scroll
import Condor.Libc.Output
import Condor.Tty.StatusLine
import Condor.Vmm.ModuleLoop
import Condor.Pmm.SetBit
import Condor.Pit.Reload
import Condor.Libc.Bases
import Condor.Libc.Memory
import Condor.Libc.Memcmp
import Condor.Libc.Strcopy
import Condor.Heap.Liballoc
import Condor.Lib.Dlist
import Condor.Lib.Spans
import Condor.Heap.Layout
import Condor.Heap.Placing
import Condor.Heap.Removing
import Condor.Heap.Growing
import Condor.Heap.Kmalloc
import Condor.Heap.Kfree
import Condor.Heap.Copying
import Condor.Heap.Lock
import Condor.Heap.Krealloc
import Condor.Lib.Leases
import Condor.Heap.Users
import Condor.Heap.Accounts
import Condor.Heap.Kernel
import Condor.Heap.Guarantees
