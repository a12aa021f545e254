import Xv6Threads.Foundations.Transition
import Xv6Threads.Ptable.Table

/-! The scheduler on any number of CPUs. `ptable.lock` is taken in one context and released in
another: a step is an `acquire`, a `release`, a `swtch`, or what is done between two of them. -/
namespace Xv6Threads.Sched
open Function
open Ptable (Slot Table Chan)

/-- What a process calls that takes `ptable.lock`. `alloc` is `allocproc`, `start` the end of
`fork` and `clone`. -/
inductive Op
  | yield
  | sleep (c : ℕ)
  | exit
  | threadExit
  | wait
  | join (w : Int32)
  | kill (pid : Int32)
  | wakeup (c : ℕ)
  | alloc
  | start
  deriving DecidableEq

/-- Where a process goes on when it is switched to: it only releases the lock, as in `forkret` and
`yield`, or it is in `sleep`, called with another lock, by `wait` or by `join`. -/
inductive Ctx
  | release
  | sleep
  | wait
  | join (w : Int32)
  deriving DecidableEq

/-- Where a process is that a CPU executes. -/
inductive Kpc
  | free
  | held (o : Op)
  | switch
  | resumed
  | leave
  deriving DecidableEq

/-- What a CPU executes: the scheduler without the lock, an interrupt there that calls `wakeup`, the
scheduler in its loop at slot `i`, with `c->proc` stored, with the state stored, and after `swtch`
has come back from `p`; or process `p`, on its kernel stack or above it. -/
inductive At
  | idle
  | intr (c : ℕ)
  | scan (i : ℕ)
  | picked (p : Slot)
  | marked (p : Slot)
  | back (p : Slot)
  | run (p : Slot) (k : Kpc)
  deriving DecidableEq

/-- `C` is the type of CPUs. -/
structure State (C : Type) where
  table : Table
  /-- `ptable.lock` and the CPU that has it. -/
  lock : Option C
  /-- `c->proc` -/
  proc : C → Option Slot
  pc : C → At
  /-- `p->context` -/
  context : Slot → Ctx
  /-- The entry that a process in `fork` or `clone` is setting up. -/
  child : Slot → Option Slot
  nextpid : Int32
  births : ℕ

/-- A CPU goes on, its process calls a function that takes the lock, an interrupt calls `wakeup`
under the scheduler, or the process gives up or fills in the entry it is setting up. -/
inductive Label (C : Type)
  | next (c : C)
  | call (c : C) (o : Op)
  | intr (c : C) (ch : ℕ)
  | giveUp (c : C)
  | fork (c : C) (d : Ptable.PgDir)
  | clone (c : C)

/-- The process whose kernel stack the CPU executes on. -/
def At.stack : At → Option Slot
  | .run p _ => some p
  | _ => none

/-- What a process may call while it is setting up an entry. -/
def Op.inFork : Op → Bool
  | .yield | .wakeup _ | .start => true
  | _ => false

namespace State
variable {C : Type} [DecidableEq C] (s : State C)

def setPc (c : C) (a : At) : State C := {s with pc := update s.pc c a}

def put (q : Slot) (e : Ptable.Proc) : State C := {s with table := update s.table q e}

/-- `p` is about to call `sched`; it goes on at `k`. -/
def give (c : C) (p : Slot) (k : Ctx) (t : Table) : State C :=
  {s.setPc c (.run p .switch) with table := t, context := update s.context p k}

/-- `p` is about to release the lock. -/
def leave (c : C) (p : Slot) (t : Table) : State C := {s.setPc c (.run p .leave) with table := t}

def asleep (p : Slot) (ch : Chan) : Table :=
  update s.table p {s.table p with chan := some ch, state := .sleeping}

/-- The entry that `wait` of `p` reaps. -/
def zombieChild (p : Slot) : Option Slot :=
  Ptable.firstSlot (fun z => (s.table z).parent = some p ∧ (s.table z).state = .zombie)

/-- The entry that `join(w)` of `p` reaps. -/
def zombieThread (p : Slot) (w : Int32) : Option Slot :=
  Ptable.firstSlot (fun z => Ptable.joinable s.table p w z ∧ (s.table z).state = .zombie)

/-- What process `p` on CPU `c` does under the lock. -/
def body (c : C) (p : Slot) : Op → State C
  | .yield => s.give c p .release (update s.table p {s.table p with state := .runnable})
  | .sleep ch => s.give c p .sleep (s.asleep p (.other ch))
  | .exit => s.give c p .release (Ptable.exit p s.table)
  | .threadExit =>
    s.give c p .release (if (s.table p).isthread then Ptable.threadExit p s.table else Ptable.exit p s.table)
  | .wait =>
    match s.zombieChild p with
    | some z => s.leave c p (update s.table z (Ptable.waitClear (s.table z)))
    | none =>
      if (∀ q, (s.table q).parent ≠ some p) ∨ (s.table p).killed then s.leave c p s.table
      else s.give c p .wait (s.asleep p (.proc p))
  | .join w =>
    match s.zombieThread p w with
    | some z => s.leave c p (update s.table z (Ptable.joinClear (s.table z)))
    | none =>
      if (∀ q, Ptable.joinable s.table p w q = false) ∨ (s.table p).killed then s.leave c p s.table
      else s.give c p (.join w) (s.asleep p (.proc p))
  | .kill pid =>
    match Ptable.firstSlot (fun q => (s.table q).pid = pid) with
    | none => s.leave c p s.table
    | some q => s.leave c p (update s.table q (Ptable.killEntry (s.table q)))
  | .wakeup ch => s.leave c p (Ptable.wakeup1 s.table (some (.other ch)))
  | .alloc =>
    match Ptable.firstSlot (fun q => (s.table q).state = .unused) with
    | none => s.leave c p s.table
    | some q =>
      {s.leave c p (update s.table q (Ptable.allocEntry (s.table q) s.nextpid (s.births+1))) with
        child := update s.child p (some q)
        nextpid := s.nextpid+1
        births := s.births+1}
  | .start =>
    match s.child p with
    | none => s.leave c p s.table
    | some q =>
      {s.leave c p (update s.table q {s.table q with state := .runnable}) with
        context := update s.context q .release
        child := update s.child p none}

/-- The scheduler, at slot `i` of its loop. -/
def scanAt (c : C) (i : ℕ) : State C :=
  if h : i < Ptable.nproc then
    if (s.table ⟨i,h⟩).state = .runnable then
      {s.setPc c (.picked ⟨i,h⟩) with proc := update s.proc c (some ⟨i,h⟩)}
    else s.setPc c (.scan (i+1))
  else {s.setPc c .idle with lock := none}

/-- A process that `swtch` has come back to, with the lock. -/
def resume (c : C) (p : Slot) : State C :=
  let t := update s.table p {s.table p with chan := none}
  match s.context p with
  | .release => s.leave c p s.table
  | .sleep => s.leave c p t
  | .wait => {s.setPc c (.run p (.held .wait)) with table := t}
  | .join w => {s.setPc c (.run p (.held (.join w))) with table := t}

def next (c : C) : Option (State C) :=
  match s.pc c with
  | .idle => if s.lock = none then some {s.setPc c (.scan 0) with lock := some c} else none
  | .intr ch => some {s.setPc c .idle with table := Ptable.wakeup1 s.table (some (.other ch)), lock := none}
  | .scan i => some (s.scanAt c i)
  | .picked p => some ((s.put p {s.table p with state := .running}).setPc c (.marked p))
  | .marked p => some (s.setPc c (.run p .resumed))
  | .back p => some {s.setPc c (.scan (p+1)) with proc := update s.proc c none}
  | .run _ .free => none
  | .run p (.held o) => some (s.body c p o)
  | .run p .switch => some (s.setPc c (.back p))
  | .run p .resumed => some (s.resume c p)
  | .run p .leave => some {s.setPc c (.run p .free) with lock := none}

/-- `p` may call `o`; `init` does not exit. -/
def mayCall (p : Slot) (o : Op) : Bool :=
  (s.child p = none ∨ o.inFork) ∧ (o = .start → s.child p ≠ none) ∧
    (p = Ptable.initproc → o ≠ .exit ∧ (o = .threadExit → (s.table p).isthread))

def step : Label C → Option (State C)
  | .next c => s.next c
  | .call c o =>
    match s.pc c with
    | .run p .free =>
      if s.lock = none ∧ s.mayCall p o then some {s.setPc c (.run p (.held o)) with lock := some c} else none
    | _ => none
  | .intr c ch =>
    match s.pc c with
    | .idle => if s.lock = none then some {s.setPc c (.intr ch) with lock := some c} else none
    | _ => none
  | .giveUp c =>
    match s.pc c with
    | .run p .free =>
      match s.child p with
      | some q => some {s.put q {s.table q with state := .unused} with child := update s.child p none}
      | none => none
    | _ => none
  | .fork c d =>
    match s.pc c with
    | .run p .free =>
      match s.child p with
      | some q => some (s.put q (Ptable.forkEntry s.table p d (s.table q)))
      | none => none
    | _ => none
  | .clone c =>
    match s.pc c with
    | .run p .free =>
      match s.child p with
      | some q => some (s.put q (Ptable.cloneEntry s.table p (s.table q)))
      | none => none
    | _ => none

/-- The entry whose kernel stack a step frees. -/
def frees : Label C → Option Slot
  | .next c =>
    match s.pc c with
    | .run p (.held .wait) => s.zombieChild p
    | .run p (.held (.join w)) => s.zombieThread p w
    | _ => none
  | _ => none

end State

/-- After `userinit`, with every CPU in the scheduler. -/
def initial (C : Type) : State C where
  table q :=
    if q = Ptable.initproc then ⟨.runnable,1,none,some 0,false,none,false,1,true,1,0⟩
    else ⟨.unused,0,none,none,false,none,false,0,false,0,0⟩
  lock := none
  proc _ := none
  pc _ := .idle
  context _ := .release
  child _ := none
  nextpid := 2
  births := 1

def machine (C : Type) [DecidableEq C] : System (State C) (Label C) where
  init s := s = initial C
  step := State.step

end Xv6Threads.Sched
