import Xv6Threads.Foundations.Lock
import Xv6Threads.Foundations.Transition

/-! One pipe of `pipe.c` and any number of processes that read, write and close it. A step is one
access to the shared data, or the stretch between two accesses of the locks. `sleep` and `wakeup` are
written out, since they hand over between the pipe's lock and `ptable.lock`. What writes have stored
and reads have taken so far is recorded beside the state. -/
namespace Xv6Threads.Pipe
open Function

abbrev pipeSize : ℕ := 512

/-- `&p->nread` and `&p->nwrite` -/
inductive Chan
  | nread
  | nwrite
  deriving DecidableEq

/-- A call `pipewrite(p, addr, n)`; `id` tells the calls apart. -/
structure Write where
  id : ℕ
  addr : ℕ → UInt8
  n : Int32

inductive Job
  | write (c : Write)
  | read (n : Int32)
  | close (writable : Bool)

/-- What a process goes back to when it wakes up. -/
inductive Wait
  | write (c : Write) (i : ℕ)
  | read (n : Int32)

/-- What a call returns with. -/
inductive Result
  | wrote (c : Write) (r : Int32)
  | got (n : Int32) (bytes : List UInt8)
  | killed
  | closed

/-- Where a process is. A write has stored `i` bytes, the first `b` of them before it last took the
lock; a read has taken `bytes`. -/
inductive Pc
  | idle
  | acquire (j : Job)
  | writeTest (c : Write) (i b : ℕ)
  | fullTest (c : Write) (i b : ℕ)
  | fullWake (c : Write) (i : ℕ)
  | writeWake (c : Write)
  | readTest (n : Int32)
  | readCopy (n : Int32) (bytes : List UInt8)
  | readWake (n : Int32) (bytes : List UInt8)
  | closeSet (w : Bool)
  | closeWake (w : Bool)
  | sleepLock (k : Wait)
  | sleepRelease (k : Wait)
  | sleepSet (k : Wait)
  | asleep (k : Wait)
  | tidy (k : Wait)
  | reacquire (k : Wait)
  | leave (r : Result)

/-- `struct pipe`, `ptable.lock`, the fields of `struct proc` that `sleep`, `wakeup` and `kill`
touch, and the record: the bytes stored, with the writes they are from, the bytes taken, and the
calls that have returned. -/
structure Vars (T : Type) where
  lock : Option T
  data : ℕ → UInt8
  nread : UInt32
  nwrite : UInt32
  readopen : Bool
  writeopen : Bool
  freed : Bool
  ptableLock : Option T
  killed : T → Bool
  sleeping : T → Bool
  chan : T → Option Chan
  stored : List (ℕ × UInt8)
  taken : List UInt8
  reads : List (List UInt8)
  writes : List (Write × Int32)

structure State (T : Type) where
  vars : Vars T
  pc : T → Pc
  calls : ℕ

variable {T : Type}

/-- The channel that a process sleeps on. -/
def Wait.chan : Wait → Chan
  | .write _ _ => .nwrite
  | .read _ => .nread

def Job.enter : Job → Pc
  | .write c => .writeTest c 0 0
  | .read n => .readTest n
  | .close w => .closeSet w

def Wait.enter : Wait → Pc
  | .write c i => .writeTest c i i
  | .read n => .readTest n

/-- `p->data[p->nwrite++ % PIPESIZE] = addr[i]` -/
def Vars.store (v : Vars T) (c : Write) (i : ℕ) : Vars T :=
  {v with
    data := update v.data (v.nwrite%512).toNat (c.addr i)
    nwrite := v.nwrite+1
    stored := v.stored++[(c.id,c.addr i)]}

/-- The byte that a read takes next. -/
def Vars.next (v : Vars T) : UInt8 := v.data (v.nread%512).toNat

/-- `addr[i] = p->data[p->nread++ % PIPESIZE]` -/
def Vars.take (v : Vars T) : Vars T := {v with nread := v.nread+1, taken := v.taken++[v.next]}

def Vars.wakeup1 (v : Vars T) (ch : Chan) : Vars T :=
  {v with sleeping := fun u => v.sleeping u && !(v.chan u == some ch)}

def Vars.shut (v : Vars T) : Bool → Vars T
  | true => {v with writeopen := false}
  | false => {v with readopen := false}

/-- The channel that `pipeclose` wakes up. -/
def closeChan : Bool → Chan
  | true => .nread
  | false => .nwrite

/-- The release of the lock at the end of a call. `pipeclose` frees a pipe with both ends closed. -/
def Vars.finish (v : Vars T) : Result → Vars T
  | .wrote c r => {v with lock := none, writes := (c,r) :: v.writes}
  | .got _ bytes => {v with lock := none, reads := v.reads++[bytes]}
  | .killed => {v with lock := none}
  | .closed => {v with lock := none, freed := !v.readopen && !v.writeopen}

variable [DecidableEq T]

/-- The next access of process `t`; `none` while it spins or sleeps. -/
def act (v : Vars T) (t : T) : Pc → Option (Vars T × Pc)
  | .idle => none
  | .acquire j => if v.lock = none then some ({v with lock := some t},j.enter) else none
  | .writeTest c i b =>
    if (i : ℤ) < c.n.toInt then
      if v.nwrite = v.nread+512 then some (v,.fullTest c i b) else some (v.store c i,.writeTest c (i+1) b)
    else some (v,.writeWake c)
  | .fullTest c i _ =>
    some (v,if v.readopen = false ∨ v.killed t = true then .leave (.wrote c (-1)) else .fullWake c i)
  | .fullWake c i => if v.ptableLock = none then some (v.wakeup1 .nread,.sleepLock (.write c i)) else none
  | .writeWake c => if v.ptableLock = none then some (v.wakeup1 .nread,.leave (.wrote c c.n)) else none
  | .readTest n =>
    if v.nread = v.nwrite ∧ v.writeopen = true then
      some (v,if v.killed t then .leave .killed else .sleepLock (.read n))
    else some (v,.readCopy n [])
  | .readCopy n bytes =>
    if (bytes.length : ℤ) < n.toInt ∧ v.nread ≠ v.nwrite then some (v.take,.readCopy n (bytes++[v.next]))
    else some (v,.readWake n bytes)
  | .readWake n bytes => if v.ptableLock = none then some (v.wakeup1 .nwrite,.leave (.got n bytes)) else none
  | .closeSet w => some (v.shut w,.closeWake w)
  | .closeWake w => if v.ptableLock = none then some (v.wakeup1 (closeChan w),.leave .closed) else none
  | .sleepLock k => if v.ptableLock = none then some ({v with ptableLock := some t},.sleepRelease k) else none
  | .sleepRelease k => some ({v with lock := none},.sleepSet k)
  | .sleepSet k =>
    -- `sched` gives `ptable.lock` to the scheduler, which releases it or hands it on.
    some ({v with
      chan := update v.chan t (some k.chan)
      sleeping := update v.sleeping t true
      ptableLock := none},.asleep k)
  | .asleep k =>
    if v.sleeping t = false ∧ v.ptableLock = none then some ({v with ptableLock := some t},.tidy k) else none
  | .tidy k => some ({v with chan := update v.chan t none, ptableLock := none},.reacquire k)
  | .reacquire k => if v.lock = none then some ({v with lock := some t},k.enter) else none
  | .leave r => some (v.finish r,.idle)

/-- Who acts: a process calls a function of the pipe, takes its next step, or is killed. -/
inductive Label (T : Type)
  | write (t : T) (addr : ℕ → UInt8) (n : Int32)
  | read (t : T) (n : Int32)
  | close (t : T) (writable : Bool)
  | run (t : T)
  | kill (t : T)

def State.start (s : State T) (t : T) (j : Job) : Option (State T) :=
  match s.pc t with
  | .idle => some {s with pc := update s.pc t (.acquire j), calls := s.calls+1}
  | _ => none

/-- Nothing happens to a pipe after its page is freed. `kill` holds `ptable.lock` throughout. -/
def State.step (s : State T) (l : Label T) : Option (State T) :=
  if s.vars.freed then none else
  match l with
  | .write t addr n => s.start t (.write ⟨s.calls,addr,n⟩)
  | .read t n => s.start t (.read n)
  | .close t w => s.start t (.close w)
  | .run t => (act s.vars t (s.pc t)).map (fun r => {s with vars := r.1, pc := update s.pc t r.2})
  | .kill t =>
    if s.vars.ptableLock = none then
      some {s with vars := {s.vars with
        killed := update s.vars.killed t true
        sleeping := update s.vars.sleeping t false}}
    else none

/-- What `pipealloc` leaves; the data is whatever was in the page. -/
structure Fresh (s : State T) : Prop where
  lock : s.vars.lock = none
  nread : s.vars.nread = 0
  nwrite : s.vars.nwrite = 0
  readopen : s.vars.readopen = true
  writeopen : s.vars.writeopen = true
  ptableLock : s.vars.ptableLock = none
  awake : ∀ t, s.vars.sleeping t = false
  stored : s.vars.stored = []
  taken : s.vars.taken = []
  reads : s.vars.reads = []
  writes : s.vars.writes = []
  idle : ∀ t, s.pc t = .idle

variable (T) in
def pipe : System (State T) (Label T) where
  init := Fresh
  step := State.step

end Xv6Threads.Pipe
