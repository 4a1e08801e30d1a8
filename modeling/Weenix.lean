import Weenix.Basic
import Weenix.Vm.Mobj
import Weenix.Vm.Vmmap
import Weenix.Fs.File
import Weenix.Vm.Mmap
import Weenix.Vm.Refcount
import Weenix.Vm.Shadow
import Weenix.Vm.Cow
import Weenix.Vm.Locks
import Weenix.Vm.VmmapSpec
import Weenix.Vm.Clone
import Weenix.Vm.MmapSpec
import Weenix.Vm.Collapse
import Weenix.Api.Access
import Weenix.Proc.Sched
import Weenix.Proc.SchedInv
import Weenix.Proc.Fifo
import Weenix.Proc.Intr
import Weenix.Proc.Proc
import Weenix.Proc.System
import Weenix.Proc.FileSteps
import Weenix.Proc.Pids
import Weenix.Proc.SysSched
import Weenix.Proc.Threads
import Weenix.Proc.Tree
import Weenix.Proc.Fork
import Weenix.Proc.ListWalks
import Weenix.Drivers.Ldisc
import Weenix.Drivers.Blockdev
import Weenix.Fs.Vfs
import Weenix.Fs.VfsRefs
