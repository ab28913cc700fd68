import Xv6.Abstract.Runs
import Xv6.Bio.Ring
import Xv6.Boot.Loader
import Xv6.Console.Numeral
import Xv6.Console.Preempted
import Xv6.Console.Printf
import Xv6.File.Departures
import Xv6.File.Leaks
import Xv6.File.Ops
import Xv6.Ide.Queue
import Xv6.Ide.Status
import Xv6.Kernel.String
import Xv6.Log.Overlap
import Xv6.Log.View
import Xv6.Mkfs.Read
import Xv6.Mounted.Contents
import Xv6.Mounted.Offset
import Xv6.Mounted.Path
import Xv6.Mp.Scan
import Xv6.Sched.Simulation
import Xv6.Syscall.Args
import Xv6.Threads.Pipe
import Xv6.Threads.RwLock
import Xv6.Threads.Transfer
import Xv6.Threads.Zem
import Xv6.Trap.Frame
import Xv6.Trap.Nesting
import Xv6.Trap.RoundRobin
import Xv6.Vm.Pages
import Xv6.Vm.Segments
