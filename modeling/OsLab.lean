import OsLab.Boot.Bootmain
import OsLab.Disk.Abort
import OsLab.Disk.AllocRun
import OsLab.Disk.BlockUse
import OsLab.Disk.DirIntegrity
import OsLab.Disk.ReadMyfs
import OsLab.Disk.Runs
import OsLab.Process.Pcb
import OsLab.FileSystem.Seg
import OsLab.FileSystem.ElfFile
import OsLab.FileSystem.StringCopy
import OsLab.FileSystem.ReadWrite
import OsLab.FileSystem.InFile
import OsLab.FileSystem.Splice
import OsLab.FileSystem.RoundTrip
import OsLab.Lib.Run
import OsLab.Lib.Refs
import OsLab.FileSystem.OpenClose
import OsLab.FileSystem.RefCount
import OsLab.Process.Lifecycle
import OsLab.FileSystem.Descriptors
import OsLab.Lib.Token
import OsLab.Process.Semaphore
import OsLab.Process.MutualExclusion
import OsLab.Process.Scheduler
import OsLab.Process.Calls
import OsLab.Process.Boot
import OsLab.Process.ForkResult
import OsLab.Process.Sleep
import OsLab.Process.WaitTable
import OsLab.Process.SemCount
import OsLab.Lib.Results
import OsLab.Process.Trywait
import OsLab.Process.WakeExact
import OsLab.Game.ComputerMove
import OsLab.Game.BoundedBuffer
import OsLab.Game.ProducerConsumer
import OsLab.Lib.ListSplice
import OsLab.FileSystem.WriteSplice
import OsLab.FileSystem.ReadBack
import OsLab.Lib.Linked
import OsLab.Lib.CountUp
import OsLab.Lib.StringInstr
import OsLab.Lib.Stack
import OsLab.Memory.Memmove
import OsLab.Memory.Page
import OsLab.Memory.AddressSpace
import OsLab.Memory.Attach
import OsLab.Memory.Copy
import OsLab.Memory.UserWrites
import OsLab.Memory.Fork
import OsLab.Memory.Release
import OsLab.Memory.ForkExit
import OsLab.Memory.PageRemove
import OsLab.Memory.PageWalk
import OsLab.Memory.Loader
import OsLab.Memory.LoadSegment
import OsLab.Memory.LoaderImage
import OsLab.Memory.MallocRun
import OsLab.Memory.ThreadCopy
import OsLab.Device.Keyboard
import OsLab.Process.RoundRobin
import OsLab.Process.Reuse
import OsLab.FileSystem.OpenContract
import OsLab.FileSystem.BadFd
import OsLab.FileSystem.ReadFrame
import OsLab.FileSystem.SeekEnd
import OsLab.Memory.Creation
import OsLab.Process.Traps
import OsLab.Process.TrapFrame
import OsLab.Process.KernelStacks
import OsLab.FileSystem.SegPointers
import OsLab.Lib.Sink
import OsLab.Game.Printfmt
import OsLab.Game.Printf
import OsLab.Game.NumberText
import OsLab.Lib.Paint
import OsLab.Game.Font
import OsLab.Game.Screen
import OsLab.Game.Redraw
import OsLab.Game.Play
import OsLab.Game.OneMove
import OsLab.Lib.Before
import OsLab.Game.Winner
import OsLab.Game.SaveFile
import OsLab.Game.SavedGame
import OsLab.Memory.GameSpace
import OsLab.Memory.InitPage
import OsLab.Process.SystemInv
import OsLab.Process.Isolation
import OsLab.Process.SystemRun
import OsLab.Process.Display
import OsLab.Process.Fairness
import OsLab.Process.Processor
import OsLab.Process.Contexts
import OsLab.Process.Vectors
import OsLab.Boot.ImageBoots
import OsLab.FileSystem.FileRefine
