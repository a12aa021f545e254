import Xv6Threads.Strings.Memmove
import Xv6Threads.Missionaries.Deadlock
import Xv6Threads.Ksync.Create
import Xv6Threads.Ksync.Mutex
import Xv6Threads.Ksync.Semaphore
import Xv6Threads.Ksync.Wakeup
import Xv6Threads.Ptable.Kill
import Xv6Threads.Ptable.Pthread
import Xv6Threads.Sched.Exclusive
import Xv6Threads.Sched.Interrupts
import Xv6Threads.Log.Admission
import Xv6Threads.Vm.LoaderSafe
import Xv6Threads.Vm.Sizes
import Xv6Threads.Files.Offsets
import Xv6Threads.Files.Pipes
import Xv6Threads.Pipe.Wakeup
import Xv6Threads.Bio.Transparent
import Xv6Threads.Fs.Directory
import Xv6Threads.Fs.Failure
import Xv6Threads.Fs.Resolve
import Xv6Threads.Fs.Transactions
import Xv6Threads.Mkfs.Readback
import Xv6Threads.Sleep.Interruptible
import Xv6Threads.Sleep.Sleeplock
import Xv6Threads.Ide.Driver
import Xv6Threads.Console.Discipline
import Xv6Threads.Shell.Nulterminate
import Xv6Threads.Shell.Redirect
import Xv6Threads.Umalloc.Stacks
import Xv6Threads.Uaccess.Validated
import Xv6Threads.Uaccess.Words
import Xv6Threads.Grep.Chunks
import Xv6Threads.Random.Seeds
import Xv6Threads.Icache.WriteThrough
import Xv6Threads.Mem.Dealloc
import Xv6Threads.Mem.ExecSpec
