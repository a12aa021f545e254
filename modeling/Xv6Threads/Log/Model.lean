import Xv6Threads.Foundations.Redo
import Xv6Threads.Foundations.Transition
import Xv6Threads.Param

/-! The redo log of `log.c` over the buffer cache and a disk that writes one block at a time. The cache
has `NBUF` buffers; one that is clean and not locked can be recycled for another block at any time.
Any number of operations modify blocks between `begin_op` and `end_op`; the last one to end
commits for all of them. A crash can come between any two steps, also during recovery. -/
namespace Xv6Threads.Log
open Function

abbrev Block := ℕ

/-- `sb.logstart` and `sb.nlog`: the header block and the log blocks behind it. -/
structure Layout where
  start : ℕ
  size : ℕ

/-- The layout that `mkfs` writes; the inode blocks begin at 32. -/
def mkfsLayout : Layout := ⟨2,logSize⟩

namespace Layout
variable (L : Layout)

/-- Outside the log. -/
def Home (b : ℕ) : Prop := b < L.start ∨ L.start+L.size ≤ b

instance (b : ℕ) : Decidable (L.Home b) := inferInstanceAs (Decidable (_ ∨ _))

/-- The block for entry `tail` of the log. -/
def logBlock (tail : ℕ) : ℕ := L.start+tail+1

end Layout

/-- The header block is kept apart from the others: its contents are those of a
`struct logheader`. -/
structure Disk (α : Type) where
  head : List Block
  blocks : Block → α

/-- A valid `struct buf`; `dirty` is `B_DIRTY`. -/
structure Buf (α : Type) where
  data : α
  dirty : Bool

/-- One operation. It has not begun, is between two modifications, has modified a block that it
has locked, has passed the tests at the head of `log_write` for it, or is over, by `end_op` or
by a crash. -/
inductive OpPc
  | fresh
  | running
  | modified (b : Block)
  | checked (b : Block)
  | ended
  | dead
  deriving DecidableEq

/-- Where `commit` or `recover_from_log` is. -/
inductive Phase
  | boot
  | normal
  | writeLog (tail : ℕ)
  | writeHead
  | install (recovering : Bool) (tail : ℕ)
  | clear (recovering : Bool)
  | finish
  deriving DecidableEq

def Phase.recovering : Phase → Bool
  | .boot | .install true _ | .clear true => true
  | _ => false

/-- Operation `op` gives block `block` the contents `data`. -/
structure Update (n : ℕ) (α : Type) where
  op : Fin n
  block : Block
  data : α
  deriving DecidableEq

def Update.write {n : ℕ} {α : Type} (u : Update n α) : Block × α := (u.block,u.data)

/-- The last four fields are read by no step: the updates of the groups whose header has been
written, those of the current group, those of the group that `commit` has been called for, and
the groups whose `commit` has returned; `made` has all updates. -/
structure State (n : ℕ) (α : Type) where
  disk : Disk α
  cache : Block → Option (Buf α)
  /-- The blocks that have a buffer. -/
  bufs : List Block
  lh : List Block
  outstanding : ℕ
  committing : Bool
  op : Fin n → OpPc
  /-- The operation that has locked a buffer. -/
  lock : Block → Option (Fin n)
  phase : Phase
  groups : List (List (Update n α))
  cur : List (Update n α)
  flight : List (Update n α)
  returned : List (List (Update n α))
  made : List (Update n α)

inductive Label (n : ℕ) (α : Type)
  | beginOp (o : Fin n)
  | modify (o : Fin n) (b : Block) (x : α)
  | check (o : Fin n)
  | append (o : Fin n)
  | endOp (o : Fin n)
  | load (b : Block)
  | evict (b : Block)
  | sys
  | crash

namespace State
variable {n : ℕ} {α : Type} (s : State n α)

/-- The buffer that `bread` returns. -/
def bread (b : Block) : Buf α := (s.cache b).getD ⟨s.disk.blocks b,false⟩

/-- After `bread` of block `b`. -/
def fetch (b : Block) : State n α :=
  {s with cache := update s.cache b (some (s.bread b)), bufs := s.bufs.insert b}

/-- In `bget` a block that has no buffer gets one that is neither dirty nor locked: `panic("bget: no buffers")` if
there is none. -/
def bounded : Option (State n α) := if s.bufs.length ≤ nbuf then some s else none

/-- Block `b` is read, gets contents `x`, and is written by `bwrite`. -/
def bwrite (b : Block) (x : α) : State n α :=
  {s with
    cache := update s.cache b (some ⟨x,false⟩)
    bufs := s.bufs.insert b
    disk := {s.disk with blocks := update s.disk.blocks b x}}

def setOp (o : Fin n) (c : OpPc) : State n α := {s with op := update s.op o c}

def beginOp (o : Fin n) : State n α := {s.setOp o .running with outstanding := s.outstanding+1}

/-- `bread` of block `b` and a store to its data. -/
def modify (o : Fin n) (b : Block) (x : α) : State n α :=
  {s.setOp o (.modified b) with
    cache := update s.cache b (some ⟨x,(s.bread b).dirty⟩)
    bufs := s.bufs.insert b
    lock := update s.lock b (some o)
    cur := s.cur++[⟨o,b,x⟩]
    made := s.made++[⟨o,b,x⟩]}

/-- The part of `log_write` that holds `log.lock`, and `brelse`. -/
def append (o : Fin n) (b : Block) : State n α :=
  {s.setOp o .running with
    lh := if b ∈ s.lh then s.lh else s.lh++[b]
    cache := update s.cache b (some ⟨(s.bread b).data,true⟩)
    lock := update s.lock b none}

/-- `end_op` up to the call of `commit`, and the test in `commit`. -/
def endOp (o : Fin n) : State n α :=
  if s.outstanding-1 = 0 then
    {s.setOp o .ended with
      outstanding := s.outstanding-1
      committing := true
      phase := if 0 < s.lh.length then .writeLog 0 else .finish
      flight := s.cur}
  else {s.setOp o .ended with outstanding := s.outstanding-1}

def evict (b : Block) : State n α := {s with cache := update s.cache b none, bufs := s.bufs.erase b}

def readHead : State n α := {s with lh := s.disk.head, phase := .install true 0}

/-- One round of `write_log`, for the block `b` of entry `tail`. -/
def writeLog (L : Layout) (tail : ℕ) (b : Block) : State n α :=
  {(s.fetch b).bwrite (L.logBlock tail) (s.bread b).data with phase := .writeLog (tail+1)}

/-- `write_head`, the real commit. -/
def writeHead : State n α :=
  {s with
    disk := {s.disk with head := s.lh}
    phase := .install false 0
    groups := s.groups++[s.cur]
    cur := []}

/-- One round of `install_trans`. -/
def install (L : Layout) (r : Bool) (tail : ℕ) (b : Block) : State n α :=
  {(s.fetch (L.logBlock tail)).bwrite b (s.bread (L.logBlock tail)).data with phase := .install r (tail+1)}

/-- `write_head` with an empty log. -/
def clearHead (r : Bool) : State n α :=
  {s with disk := {s.disk with head := []}, phase := if r then .normal else .finish}

/-- The end of `end_op` after `commit`. -/
def finish : State n α :=
  {s with committing := false, phase := .normal, returned := s.flight :: s.returned}

/-- The disk is all that is left. -/
def crash : State n α :=
  {s with
    cache := fun _ => none
    bufs := []
    lh := []
    outstanding := 0
    committing := false
    op := fun o => if s.op o = .fresh ∨ s.op o = .ended then s.op o else .dead
    lock := fun _ => none
    phase := .boot
    cur := []
    flight := []}

/-- What `commit` or `recover_from_log` does next. -/
def sys (L : Layout) : Option (State n α) :=
  match s.phase with
  | .boot => some s.readHead
  | .normal => none
  | .writeLog tail =>
    match s.lh[tail]? with
    | some b => (s.writeLog L tail b).bounded
    | none => some {s with phase := .writeHead}
  | .writeHead => some s.writeHead
  | .install r tail =>
    match s.lh[tail]? with
    | some b => (s.install L r tail b).bounded
    | none => some {s with lh := [], phase := .clear r}
  | .clear r => some (s.clearHead r)
  | .finish => some s.finish

def step (L : Layout) : Label n α → Option (State n α)
  | .beginOp o =>
    -- No system call runs before recovery is over.
    if s.op o = .fresh ∧ s.phase.recovering = false ∧ s.committing = false ∧
        s.lh.length+(s.outstanding+1)*maxOpBlocks ≤ logSize then some (s.beginOp o)
    else none
  | .modify o b x =>
    if s.op o = .running ∧ s.lock b = none ∧ L.Home b then (s.modify o b x).bounded else none
  | .check o =>
    match s.op o with
    | .modified b =>
      -- `panic("too big a transaction")`, `panic("log_write outside of trans")`
      if s.lh.length < logSize ∧ s.lh.length < L.size-1 ∧ 1 ≤ s.outstanding then
        some (s.setOp o (.checked b))
      else none
    | _ => none
  | .append o =>
    match s.op o with
    | .checked b => some (s.append o b)
    | _ => none
  | .endOp o => if s.op o = .running ∧ s.committing = false then some (s.endOp o) else none
  | .load b =>
    match s.cache b with
    | none => if s.phase.recovering then none else (s.fetch b).bounded
    | some _ => none
  | .evict b =>
    match s.cache b,s.lock b with
    | some ⟨_,false⟩,none => some (s.evict b)
    | _,_ => none
  | .sys => s.sys L
  | .crash => some s.crash

end State

/-- The machine is switched on with contents `d` on a disk whose log is empty. -/
def initial {n : ℕ} {α : Type} (d : Block → α) : State n α where
  disk := ⟨[],d⟩
  cache _ := none
  bufs := []
  lh := []
  outstanding := 0
  committing := false
  op _ := .fresh
  lock _ := none
  phase := .boot
  groups := []
  cur := []
  flight := []
  returned := []
  made := []

def system (L : Layout) (n : ℕ) {α : Type} (d : Block → α) : System (State n α) (Label n α) where
  init s := s = initial d
  step s l := s.step L l

end Xv6Threads.Log
