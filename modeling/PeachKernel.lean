import PeachKernel.Lib.CInt
import PeachKernel.Lib.Extents
import PeachKernel.Status
import PeachKernel.Heap.Table
import PeachKernel.Heap.Spec
import PeachKernel.Heap.Live
import PeachKernel.Heap.Runs
import PeachKernel.Lib.ByteMem
import PeachKernel.Paging.Paging
import PeachKernel.Heap.Kheap
import PeachKernel.Process.Alloc
import PeachKernel.Process.Isolation
import PeachKernel.Process.Memory
import PeachKernel.Loader.Elf
import PeachKernel.Process.MapElf
import PeachKernel.Heap.Grow
import PeachKernel.Paging.Directory
import PeachKernel.Task.List
import PeachKernel.Task.Runs
import PeachKernel.Disk.Streamer
import PeachKernel.Fs.Fat32
import PeachKernel.Fs.Fat32Cursor
import PeachKernel.Lib.Follow
import PeachKernel.Fs.Fat32Chain
import PeachKernel.Fs.Fat32Read
import PeachKernel.Fs.Fat32Seek
import PeachKernel.Fs.Fat16
import PeachKernel.Fs.Fat16Read
import PeachKernel.Lib.Ring
import PeachKernel.Keyboard.Keyboard
import PeachKernel.Paging.Calls
import PeachKernel.Fs.Fat16Chain
import PeachKernel.Fs.PathParser
import PeachKernel.Fs.File
import PeachKernel.Fs.Fat32File
import PeachKernel.Fs.OpenClose
import PeachKernel.Process.Load
import PeachKernel.Process.Terminate
import PeachKernel.Process.Table
import PeachKernel.Process.MapPages
import PeachKernel.Task.Blocks
import PeachKernel.Task.Schedule
import PeachKernel.Process.Exit
import PeachKernel.Terminal.Terminal
import PeachKernel.Heap.Edges
import PeachKernel.Heap.Since
import PeachKernel.Process.LoadFrame
import PeachKernel.Fs.Names
import PeachKernel.Lib.CString
import PeachKernel.Stdlib.Command
import PeachKernel.Paging.NewDirectory
import PeachKernel.Paging.Spaces
import PeachKernel.Loader.Ranges
import PeachKernel.Process.MapSegments
import PeachKernel.Loader.Bounds
import PeachKernel.Process.Bss
import PeachKernel.Process.ReadWhole
import PeachKernel.Process.Arguments
import PeachKernel.Process.LoadUndo
import PeachKernel.Process.Invoke
import PeachKernel.Disk.Requests
import PeachKernel.Fs.Fat32Position
import PeachKernel.Fs.ShortName
import PeachKernel.Fs.Fat32Turns
import PeachKernel.Lib.Pages
import PeachKernel.Fs.Fat32Lookup
import PeachKernel.Process.PathBuffer
import PeachKernel.Process.ProgramFile
import PeachKernel.Process.AddressSpace
import PeachKernel.Task.CopyString
import PeachKernel.Fs.Fat16Links
import PeachKernel.Fs.Fat16Dir
import PeachKernel.Lib.CountPrefix
import PeachKernel.Fs.Resolve
import PeachKernel.Fs.Fat16Layout
import PeachKernel.Fs.Fat16Find
import PeachKernel.Fs.Fat16Load
import PeachKernel.Fs.Fat16Entry
import PeachKernel.Fs.Fat16Seek
import PeachKernel.Fs.Fat16File
import PeachKernel.Fs.PathPieces
import PeachKernel.Heap.Borrowed
import PeachKernel.Fs.Probe
import PeachKernel.Gdt.Gdt
import PeachKernel.Lib.Decimal
import PeachKernel.Stdlib.Itoa
import PeachKernel.Stdlib.Printf
import PeachKernel.Heap.FirstFit
import PeachKernel.Stdlib.Readline
import PeachKernel.Stdlib.Tokens
import PeachKernel.Terminal.Backspace
import PeachKernel.Fs.PathMemory
import PeachKernel.Fs.PathFree
import PeachKernel.Lib.Simulation
import PeachKernel.Fs.ByteFiles
import PeachKernel.Fs.Volume
import PeachKernel.Lib.X86
import PeachKernel.Task.Switch
import PeachKernel.Task.Registers
import PeachKernel.Task.VirtualCpus
