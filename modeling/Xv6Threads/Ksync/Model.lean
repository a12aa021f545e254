import Xv6Threads.Foundations.Transition

/-! The kernel synchronisation objects of `ksync.c`, with the bodies that `kernel.asm` carries.
Any number of threads call them; a step is one access to shared state, and the stores that a
body makes between two accesses of the locks are one step. `sleep` and `wakeup` are written
out, since they hand over between `ksync_lock` and `ptable.lock`. A spinlock names the thread
that holds it, which is the one running on the recorded cpu with interrupts off. -/
namespace Xv6Threads.Ksync
open Function

abbrev nksync : ℕ := 64

abbrev Id := Fin nksync

inductive Kind
  | mutex
  | sem
  deriving DecidableEq

/-- The ints that `kind` is set to. -/
def Kind.code : Kind → Int32
  | .mutex => 1
  | .sem => 2

structure Kobj where
  used : Bool
  kind : Int32
  value : Int32
  owner : ℕ
  deriving DecidableEq

/-- The system calls, with the ints they are given. -/
inductive Call
  | klockCreate
  | klockAcquire (id : ℤ)
  | klockRelease (id : ℤ)
  | ksemCreate (value : Int32)
  | ksemWait (id : ℤ)
  | ksemPost (id : ℤ)

/-- What a call does once its arguments have been checked. The two kinds share `create`, the
loop that waits for `value`, and the code that raises it again. -/
inductive Job
  | create (k : Kind) (value : Int32)
  | down (k : Kind) (id : Id)
  | up (k : Kind) (id : Id)
  deriving DecidableEq

/-- What a call has done when it returns; a call that returns -1 has done nothing. -/
inductive Done
  | created (k : Kind) (id : Id) (value : Int32)
  | downed (k : Kind) (id : Id)
  | upped (k : Kind) (id : Id)
  deriving DecidableEq

/-- A call that has returned, with its thread. -/
abbrev Event (n : ℕ) := Fin n × Done

/-- Where a thread is. The job is `none` for a call whose id is out of range. -/
inductive Pc
  | idle
  | initTest (j : Option Job)
  | initLock (j : Option Job)
  | initSet (j : Option Job)
  | acquire (j : Job)
  | check (j : Job)
  | loop (k : Kind) (id : Id)
  | killedTest (k : Kind) (id : Id)
  | sleepLock (k : Kind) (id : Id)
  | sleepRelease (k : Kind) (id : Id)
  | sleepSet (k : Kind) (id : Id)
  | asleep (k : Kind) (id : Id)
  | tidy (k : Kind) (id : Id)
  | reacquire (k : Kind) (id : Id)
  | take (k : Kind) (id : Id)
  | store (k : Kind) (id : Id)
  | wake (k : Kind) (id : Id)
  | leave (r : Option Done)
  deriving DecidableEq

/-- The shared state: the static variables of `ksync.c`, `ptable.lock`, and the fields of the
threads' `struct proc` that `sleep`, `wakeup` and `kill` touch. -/
structure Vars (n : ℕ) where
  initialized : Bool
  ksyncLock : Option (Fin n)
  ptableLock : Option (Fin n)
  objs : Id → Kobj
  killed : Fin n → Bool
  sleeping : Fin n → Bool
  chan : Fin n → Option Id

structure State (n : ℕ) where
  vars : Vars n
  pc : Fin n → Pc
  /-- Newest event first. -/
  hist : List (Event n)

variable {n : ℕ}

/-- `allocproc` numbers the processes from 1. -/
def pid (t : Fin n) : ℕ := t.val+1

/-- The range check `id<0||id>=NKSYNC`. -/
def slot (id : ℤ) : Option Id :=
  if h : 0 ≤ id ∧ id < nksync then some ⟨id.toNat,by omega⟩ else none

def klockCreate : Option Job := some (.create .mutex 1)
def klockAcquire (id : ℤ) : Option Job := (slot id).map (.down .mutex)
def klockRelease (id : ℤ) : Option Job := (slot id).map (.up .mutex)
def ksemWait (id : ℤ) : Option Job := (slot id).map (.down .sem)
def ksemPost (id : ℤ) : Option Job := (slot id).map (.up .sem)

/-- `ksem_create` rejects a negative value before anything else. -/
def ksemCreate (value : Int32) : Pc :=
  if value < 0 then .idle else .initTest (some (.create .sem value))

def Call.start : Call → Pc
  | .klockCreate => .initTest Ksync.klockCreate
  | .klockAcquire id => .initTest (Ksync.klockAcquire id)
  | .klockRelease id => .initTest (Ksync.klockRelease id)
  | .ksemCreate value => Ksync.ksemCreate value
  | .ksemWait id => .initTest (Ksync.ksemWait id)
  | .ksemPost id => .initTest (Ksync.ksemPost id)

/-- After `ensureinit`: an id out of range makes the call return -1. -/
def enter : Option Job → Pc
  | none => .idle
  | some j => .acquire j

/-- The first slot that is not used. -/
def freeSlot (objs : Id → Kobj) : Option Id :=
  (List.finRange nksync).find? (fun i => !(objs i).used)

/-- The stores of `klock_acquire` and `ksem_wait` after their loops. -/
def downStore (k : Kind) (t : Fin n) (o : Kobj) : Kobj :=
  match k with
  | .mutex => {o with value := 0, owner := pid t}
  | .sem => {o with value := o.value-1}

/-- The stores of `klock_release` and `ksem_post`. -/
def upStore (k : Kind) (o : Kobj) : Kobj :=
  match k with
  | .mutex => {o with value := 1, owner := 0}
  | .sem => {o with value := o.value+1}

/-- `klock_release` also fails when the mutex is free. It does not look at `owner`. -/
def upReady (k : Kind) (o : Kobj) : Bool :=
  match k with
  | .mutex => o.value == 0
  | .sem => true

def wakeup1 (v : Vars n) (id : Id) : Vars n :=
  {v with sleeping := fun u => v.sleeping u && !(v.chan u == some id)}

/-- `sleep` between its two locks: the channel, the state, and the switch to the scheduler. -/
def goSleep (v : Vars n) (t : Fin n) (id : Id) : Vars n :=
  {v with
    chan := update v.chan t (some id)
    sleeping := update v.sleeping t true
    ptableLock := none}

/-- The next access of thread `t`; `none` while it spins or sleeps, and for ever when a
`release` finds the lock held by somebody else, which panics. -/
def act (v : Vars n) (t : Fin n) : Pc → Option (Vars n × Pc × List Done)
  | .idle => none
  | .initTest j => some (v,if v.initialized then enter j else .initLock j,[])
  | .initLock j => some ({v with ksyncLock := none},.initSet j,[])
  | .initSet j => some ({v with initialized := true},enter j,[])
  | .acquire j => if v.ksyncLock = none then some ({v with ksyncLock := some t},.check j,[]) else none
  | .check (.create k value) =>
    match freeSlot v.objs with
    | none => some (v,.leave none,[])
    | some i =>
      some ({v with objs := update v.objs i ⟨true,k.code,value,0⟩},
        .leave (some (.created k i value)),[])
  | .check (.down k id) =>
    some (v,if (v.objs id).used ∧ (v.objs id).kind = k.code then .loop k id else .leave none,[])
  | .check (.up k id) =>
    some (v,if (v.objs id).used ∧ (v.objs id).kind = k.code ∧ upReady k (v.objs id) then .store k id
      else .leave none,[])
  | .loop k id => some (v,if (v.objs id).value = 0 then .killedTest k id else .take k id,[])
  | .killedTest k id => some (v,if v.killed t then .leave none else .sleepLock k id,[])
  | .sleepLock k id =>
    if v.ptableLock = none then some ({v with ptableLock := some t},.sleepRelease k id,[]) else none
  | .sleepRelease k id =>
    if v.ksyncLock = some t then some ({v with ksyncLock := none},.sleepSet k id,[]) else none
  | .sleepSet k id =>
    -- `sched` gives `ptable.lock` to the scheduler, which releases it or hands it on.
    some (goSleep v t id,.asleep k id,[])
  | .asleep k id =>
    if v.sleeping t = false ∧ v.ptableLock = none then
      some ({v with ptableLock := some t},.tidy k id,[])
    else none
  | .tidy k id =>
    some ({v with chan := update v.chan t none, ptableLock := none},.reacquire k id,[])
  | .reacquire k id =>
    if v.ksyncLock = none then some ({v with ksyncLock := some t},.loop k id,[]) else none
  | .take k id =>
    some ({v with objs := update v.objs id (downStore k t (v.objs id))},
      .leave (some (.downed k id)),[])
  | .store k id =>
    some ({v with objs := update v.objs id (upStore k (v.objs id))},.wake k id,[])
  | .wake k id =>
    if v.ptableLock = none then some (wakeup1 v id,.leave (some (.upped k id)),[]) else none
  | .leave r =>
    if v.ksyncLock = some t then some ({v with ksyncLock := none},.idle,r.toList) else none

/-- Who acts: a thread enters the kernel, a thread takes its next step, or somebody kills one. -/
inductive Label (n : ℕ)
  | call (t : Fin n) (c : Call)
  | run (t : Fin n)
  | kill (t : Fin n)

def State.run (s : State n) (t : Fin n) : Option (State n) :=
  (act s.vars t (s.pc t)).map (fun r =>
    {s with vars := r.1, pc := update s.pc t r.2.1, hist := r.2.2.map (Prod.mk t)++s.hist})

def State.call (s : State n) (t : Fin n) (c : Call) : Option (State n) :=
  if s.pc t = .idle then some {s with pc := update s.pc t c.start} else none

/-- The stores of `kill`. -/
def killStore (v : Vars n) (t : Fin n) : Vars n :=
  {v with
    killed := update v.killed t true
    sleeping := update v.sleeping t false}

/-- `kill` holds `ptable.lock` throughout. -/
def State.kill (s : State n) (t : Fin n) : Option (State n) :=
  if s.vars.ptableLock = none then some {s with vars := killStore s.vars t} else none

def State.step (s : State n) : Label n → Option (State n)
  | .call t c => s.call t c
  | .run t => s.run t
  | .kill t => s.kill t

def initial (n : ℕ) : State n where
  vars := {
    initialized := false
    ksyncLock := none
    ptableLock := none
    objs := fun _ => ⟨false,0,0,0⟩
    killed := fun _ => false
    sleeping := fun _ => false
    chan := fun _ => none }
  pc _ := .idle
  hist := []

/-- The kernel with `n` threads. -/
def kernel (n : ℕ) : System (State n) (Label n) where
  init s := s = initial n
  step := State.step

end Xv6Threads.Ksync
