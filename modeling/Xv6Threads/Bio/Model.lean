import Xv6Threads.Foundations.Ring
import Xv6Threads.Foundations.Transition
import Xv6Threads.Param

/-! The buffer cache of `bio.c` over the disk driver of `ide.c`. A use of a buffer goes from `bget` to
`brelse`; a process that has two buffers at a time is two uses. A step is what is done under
`bcache.lock` or `idelock`, or by the use that holds a buffer's sleep-lock. A panic has no next
state. -/
namespace Xv6Threads.Bio
open Function Links

/-- A `struct buf` pointer. -/
abbrev Slot := Fin nbuf

/-- `valid` and `dirty` are the flags `B_VALID` and `B_DIRTY`, `owner` is the holder of the lock. -/
structure Buf (U V : Type) where
  dev : ℕ
  blockno : ℕ
  refcnt : ℕ
  valid : Bool
  dirty : Bool
  data : V
  owner : Option U

def Buf.key {U V : Type} (x : Buf U V) : ℕ × ℕ := (x.dev,x.blockno)

/-- Where a use is: in `acquiresleep` of `bget`, at the test of `bread`, in the `iderw` of `bread`, with
the buffer (whose data it has changed since it last gave it to `log_write` or `bwrite`), in the
`iderw` of `bwrite`, and in `brelse` after `releasesleep`. -/
inductive Pc
  | idle
  | locking (b : Slot)
  | check (b : Slot)
  | reading (b : Slot)
  | holding (b : Slot) (changed : Bool)
  | writing (b : Slot)
  | releasing (b : Slot)
  deriving DecidableEq

/-- `want` is the block that a use has asked for. `written` records, for every block, the data last given
to `log_write` or `bwrite`. -/
structure State (U V : Type) where
  buf : Slot → Buf U V
  links : Links Slot
  queue : List Slot
  disk : ℕ → ℕ → V
  pc : U → Pc
  want : U → ℕ × ℕ
  written : ℕ × ℕ → Option V

variable {U V : Type}

/-- The contents last installed for a block: the data last given to `log_write` or `bwrite`, or else the
disk's. -/
def State.installed (s : State U V) (k : ℕ × ℕ) : V := (s.written k).getD (s.disk (k.1%2) k.2)

def State.put (s : State U V) (b : Slot) (x : Buf U V) : State U V := {s with buf := update s.buf b x}

/-- The critical section of `bget`. -/
def bget (s : State U V) (dev blockno : ℕ) : Option (Slot × State U V) :=
  match Links.scan s.links.next (fun b => (s.buf b).dev = dev ∧ (s.buf b).blockno = blockno) nbuf (s.links.next none) with
  | some (some b) => some (b,s.put b {s.buf b with refcnt := (s.buf b).refcnt+1})
  | some none =>
    match Links.scan s.links.prev (fun b => (s.buf b).refcnt = 0 ∧ (s.buf b).dirty = false) nbuf (s.links.prev none) with
    | some (some b) =>
      some (b,s.put b {s.buf b with dev := dev, blockno := blockno, valid := false, dirty := false, refcnt := 1})
    | _ => none
  | none => none

/-- The disk after `idestart(b)`: there are two disks, `dev&1` selects one. -/
def sent (s : State U V) (b : Slot) : ℕ → ℕ → V :=
  if (s.buf b).dirty then
    update s.disk ((s.buf b).dev%2) (update (s.disk ((s.buf b).dev%2)) (s.buf b).blockno (s.buf b).data)
  else s.disk

def idestart (s : State U V) (b : Slot) : Option (State U V) :=
  if fssize ≤ (s.buf b).blockno then none else some {s with disk := sent s b}

/-- `iderw`, up to the wait. -/
def iderw (s : State U V) (b : Slot) : Option (State U V) :=
  if (s.buf b).valid ∧ (s.buf b).dirty = false then none
  else
    match s.queue with
    | [] => idestart {s with queue := [b]} b
    | _ :: _ => some {s with queue := s.queue++[b]}

def ideintr (s : State U V) : Option (State U V) :=
  match s.queue with
  | [] => some s
  | b :: q =>
    let x := s.buf b
    let s' := {s with queue := q}.put b
      {x with data := if x.dirty then x.data else s.disk (x.dev%2) x.blockno, valid := true, dirty := false}
    match q with
    | [] => some s'
    | c :: _ => idestart s' c

/-- `brelse` under `bcache.lock`. -/
def release (s : State U V) (b : Slot) : State U V :=
  let s' := s.put b {s.buf b with refcnt := (s.buf b).refcnt-1}
  if (s.buf b).refcnt-1 = 0 then {s' with links := (s'.links.remove b).insert b} else s'

/-- What a use does next. -/
inductive Act (V : Type)
  | bread (dev blockno : ℕ)
  | go
  | change (v : V)
  | logWrite
  | bwrite
  | brelse

inductive Label (U V : Type)
  | use (u : U) (a : Act V)
  | intr

section
variable [DecidableEq U]

def State.goto (s : State U V) (u : U) (pc : Pc) : State U V := {s with pc := update s.pc u pc}

/-- Record what `log_write` or `bwrite` is given. -/
def State.install (s : State U V) (b : Slot) : State U V :=
  {s with written := update s.written (s.buf b).key (some (s.buf b).data)}

def step (s : State U V) : Label U V → Option (State U V)
  | .intr => ideintr s
  | .use u a =>
    match s.pc u,a with
    | .idle,.bread dev blockno =>
      (bget s dev blockno).map (fun r => {r.2.goto u (.locking r.1) with want := update s.want u (dev,blockno)})
    | .locking b,.go =>
      if (s.buf b).owner.isNone then some ((s.put b {s.buf b with owner := some u}).goto u (.check b)) else none
    | .check b,.go =>
      if (s.buf b).valid then some (s.goto u (.holding b false)) else (iderw s b).map (fun t => t.goto u (.reading b))
    | .reading b,.go =>
      if (s.buf b).valid ∧ (s.buf b).dirty = false then some (s.goto u (.holding b false)) else none
    | .holding b _,.change v => some ((s.put b {s.buf b with data := v}).goto u (.holding b true))
    | .holding b _,.logWrite =>
      some (((s.put b {s.buf b with dirty := true}).install b).goto u (.holding b false))
    | .holding b _,.bwrite =>
      (iderw ((s.put b {s.buf b with dirty := true}).install b) b).map (fun t => t.goto u (.writing b))
    | .writing b,.go =>
      if (s.buf b).valid ∧ (s.buf b).dirty = false then some (s.goto u (.holding b false)) else none
    | .holding b false,.brelse => some ((s.put b {s.buf b with owner := none}).goto u (.releasing b))
    | .releasing b,.go => some ((release s b).goto u .idle)
    | _,_ => none

end

/-- The list that `binit` makes. -/
def binit : Links Slot := (List.finRange nbuf).foldl Links.insert Links.empty

structure Boot (s : State U V) : Prop where
  buf : ∀ b, (s.buf b).dev = 0 ∧ (s.buf b).blockno = 0 ∧ (s.buf b).refcnt = 0 ∧ (s.buf b).valid = false ∧
    (s.buf b).dirty = false ∧ (s.buf b).owner = none
  links : s.links = binit
  queue : s.queue = []
  pc : ∀ u, s.pc u = .idle
  written : ∀ k, s.written k = none

def cache (U V : Type) [DecidableEq U] : System (State U V) (Label U V) := ⟨Boot,step⟩

end Xv6Threads.Bio
