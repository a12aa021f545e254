import Xv6Threads.Foundations.Transition
import Xv6Threads.Ptable.Table

/-! Runs of the process table. One step is what a process does while it holds `ptable.lock`, or
its stores to entries that nobody else looks at. `fork`, `clone` and `exec` are several steps
each, since they release the lock in between; the memory allocator may fail at each of them. -/
namespace Xv6Threads.Ptable
open Function Ptable

/-- Where a process is in the system calls that take several steps. -/
inductive Ctl
  | user
  | forking (c : Slot)
  | copying (c : Slot) (d : PgDir)
  | cloning (c : Slot)
  | starting (c : Slot)
  | building (d : PgDir)
  | freeing (d : PgDir)
  | waiting
  | joining (w : Int32)
  deriving DecidableEq

/-- What has happened; `freevm` comes with the entries in use that still had the directory. -/
inductive Event
  | zombie (p : Slot) (pid : Int32)
  | reaped (z : Slot) (pid : Int32)
  | freevm (d : PgDir) (still : List Slot)
  deriving DecidableEq

/-- The entry that dies or is reaped. -/
def Event.entry : Event → Option Slot
  | .zombie p _ => some p
  | .reaped z _ => some z
  | .freevm _ _ => none

structure State where
  table : Table
  ctl : Slot → Ctl
  nextpid : Int32
  births : ℕ
  /-- The page directories in use. -/
  alloc : PgDir → Bool
  /-- Newest event first. -/
  hist : List Event

/-- What a process can do next. `copy` and `execBuild` name the page directory that the memory
allocator gives them. -/
inductive Act
  | fork
  | forkFail
  | copy (d : PgDir)
  | copyFail
  | forkFill
  | clone
  | cloneFail
  | cloneFill
  | start
  | execBuild (d : PgDir)
  | execBad
  | execCommit
  | execFree
  | exit
  | threadExit
  | wait
  | join (w : Int32)
  | yield
  | fault
  | block (c : ℕ)

/-- A process acts, the scheduler picks one, somebody calls `kill`, or the rest of the kernel
wakes a channel of its own. -/
inductive Label
  | act (p : Slot) (a : Act)
  | sched (p : Slot)
  | kill (pid : Int32)
  | wakeup (c : ℕ)

/-- Calls in which a process may sleep on channels of the rest of the kernel. -/
def Ctl.mayBlock : Ctl → Bool
  | .user | .building _ => true
  | _ => false

namespace State
variable (s : State)

def put (q : Slot) (e : Proc) : State := {s with table := update s.table q e}

def goto (p : Slot) (c : Ctl) : State := {s with ctl := update s.ctl p c}

/-- `freevm(d)`; `z` is the entry that is being reaped, if one is. -/
def freevm (d : PgDir) (z : Option Slot) : State :=
  {s with alloc := update s.alloc d false, hist := .freevm d (sharers s.table z d) :: s.hist}

/-- `allocproc` found slot `c`. -/
def allocproc (c : Slot) : State :=
  {s.put c (allocEntry (s.table c) s.nextpid (s.births+1)) with
    nextpid := s.nextpid+1
    births := s.births+1}

def freeSlot : Option Slot := firstSlot (fun q => (s.table q).state = .unused)

/-- `allocproc` got no kernel stack. -/
def giveUp (c : Slot) : State := s.put c {s.table c with state := .unused}

/-- `fork` after `copyuvm` has returned 0. -/
def giveUpCopy (c : Slot) : State := s.put c {s.table c with pgdir := none, state := .unused}

def sleepOn (p : Slot) (c : Chan) : State :=
  s.put p {s.table p with state := .sleeping, chan := some c}

/-- `exit` and the end of `thread_exit`. -/
def die (p : Slot) (t : Table) : State :=
  {s with table := t, hist := .zombie p (s.table p).pid :: s.hist}

/-- The entry that `wait` of `p` reaps. -/
def zombieChild (p : Slot) : Option Slot :=
  firstSlot (fun z => (s.table z).parent = some p ∧ (s.table z).state = .zombie)

/-- `wait` of `p`: one scan of the table. -/
def waitScan (p : Slot) : Option State :=
  match s.zombieChild p with
  | some z =>
    match (s.table z).pgdir with
    | none => none
    | some d =>
      let s' := (s.freevm d (some z)).put z (waitClear (s.table z))
      some ({s' with hist := .reaped z (s.table z).pid :: s'.hist}.goto p .user)
  | none =>
    if (∀ q, (s.table q).parent ≠ some p) ∨ (s.table p).killed then some (s.goto p .user)
    else some ((s.sleepOn p (.proc p)).goto p .waiting)

/-- `join(w)` of `p`: one scan of the table. -/
def joinScan (p : Slot) (w : Int32) : Option State :=
  match firstSlot (fun z => joinable s.table p w z ∧ (s.table z).state = .zombie) with
  | some z =>
    let s' := s.put z (joinClear (s.table z))
    some ({s' with hist := .reaped z (s.table z).pid :: s'.hist}.goto p .user)
  | none =>
    if (∀ q, joinable s.table p w q = false) ∨ (s.table p).killed then some (s.goto p .user)
    else some ((s.sleepOn p (.proc p)).goto p (.joining w))

/-- What process `p` does next in a system call. -/
def act (p : Slot) : Act → Option State
  | .fork =>
    if s.ctl p = .user then
      match s.freeSlot with
      | none => some s
      | some c => some ((s.allocproc c).goto p (.forking c))
    else none
  | .clone =>
    if s.ctl p = .user then
      match s.freeSlot with
      | none => some s
      | some c => some ((s.allocproc c).goto p (.cloning c))
    else none
  | .forkFail =>
    match s.ctl p with
    | .forking c => some ((s.giveUp c).goto p .user)
    | _ => none
  | .cloneFail =>
    match s.ctl p with
    | .cloning c => some ((s.giveUp c).goto p .user)
    | _ => none
  | .copy d =>
    match s.ctl p with
    | .forking c =>
      if s.alloc d = false then
        some ({s with alloc := update s.alloc d true}.goto p (.copying c d))
      else none
    | _ => none
  | .copyFail =>
    match s.ctl p with
    | .forking c => some ((s.giveUpCopy c).goto p .user)
    | .copying c d => some (((s.freevm d none).giveUpCopy c).goto p .user)
    | _ => none
  | .forkFill =>
    match s.ctl p with
    | .copying c d => some ((s.put c (forkEntry s.table p d (s.table c))).goto p (.starting c))
    | _ => none
  | .cloneFill =>
    match s.ctl p with
    | .cloning c => some ((s.put c (cloneEntry s.table p (s.table c))).goto p (.starting c))
    | _ => none
  | .start =>
    match s.ctl p with
    | .starting c => some ((s.put c {s.table c with state := .runnable}).goto p .user)
    | _ => none
  | .execBuild d =>
    if s.ctl p = .user ∧ s.alloc d = false then
      some ({s with alloc := update s.alloc d true}.goto p (.building d))
    else none
  | .execBad =>
    match s.ctl p with
    | .building d => some ((s.freevm d none).goto p .user)
    | _ => none
  | .execCommit =>
    match s.ctl p,(s.table p).pgdir with
    | .building d,some old =>
      some ((s.put p {s.table p with pgdir := some d}).goto p (.freeing old))
    | _,_ => none
  | .execFree =>
    match s.ctl p with
    | .freeing d => some ((s.freevm d none).goto p .user)
    | _ => none
  | .exit =>
    -- `panic("init exiting")`
    if s.ctl p = .user ∧ p ≠ initproc then some (s.die p (Ptable.exit p s.table)) else none
  | .threadExit =>
    if s.ctl p = .user then
      if (s.table p).isthread then some (s.die p (Ptable.threadExit p s.table))
      else if p ≠ initproc then some (s.die p (Ptable.exit p s.table)) else none
    else none
  | .wait => if s.ctl p = .user ∨ s.ctl p = .waiting then s.waitScan p else none
  | .join w => if s.ctl p = .user ∨ s.ctl p = .joining w then s.joinScan p w else none
  | .yield => some (s.put p {s.table p with state := .runnable})
  | .fault => if s.ctl p = .user then some (s.put p {s.table p with killed := true}) else none
  | .block c => if (s.ctl p).mayBlock then some (s.sleepOn p (.other c)) else none

/-- One step. A process acts while it is running. -/
def step : Label → Option State
  | .act p a => if (s.table p).state = .running then s.act p a else none
  | .sched p =>
    -- A sleeper clears its channel when it runs again.
    if (s.table p).state = .runnable then
      some (s.put p {s.table p with state := .running, chan := none})
    else none
  | .kill pid =>
    match firstSlot (fun q => (s.table q).pid = pid) with
    | none => some s
    | some q => some (s.put q (killEntry (s.table q)))
  | .wakeup c => some {s with table := wakeup1 s.table (some (.other c))}

end State

/-- After `userinit`: the first process has slot 0, pid 1 and page directory 0. -/
def initial : State where
  table q :=
    if q = initproc then ⟨.runnable,1,none,some 0,false,none,false,1,true,1,0⟩
    else ⟨.unused,0,none,none,false,none,false,0,false,0,0⟩
  ctl _ := .user
  nextpid := 2
  births := 1
  alloc d := d == 0
  hist := []

def machine : System State Label where
  init s := s = initial
  step := State.step

end Xv6Threads.Ptable
