import Xv6Threads.Foundations.Program
import Xv6Threads.Foundations.Transition
import Xv6Threads.Param

/-! The table of in-memory inodes of `fs.c`, with its entries, and the dinodes in their blocks as the buffer cache shows
them. Each instruction is what one process does with an entry, a dinode or a count before another may act; an access to
a dinode holds the lock of its buffer. Names and the contents of files are not modelled: what a search finds, which
block `balloc` takes and whether there is a descriptor left is chosen by the environment. -/
namespace Xv6Threads.Icache
open Function

/-- `struct dinode`, and the same fields of `struct inode`. -/
structure Inode where
  type : ℕ
  major : ℕ
  minor : ℕ
  nlink : Int16
  size : ℕ
  addrs : Fin 13 → ℕ
  deriving DecidableEq

def tDev : ℕ := 3

/-- The inode that `ialloc` writes. -/
def Inode.blank (type : ℕ) : Inode := ⟨type,0,0,0,0,fun _ => 0⟩

/-- The inode blocks, `IPB` dinodes each. -/
abbrev Disk := ℕ → Fin 8 → Inode

def iblock (i : ℕ) : ℕ := i/8+32

/-- `inum%IPB` -/
def place (i : ℕ) : Fin 8 := ⟨i%8,Nat.mod_lt i (by decide)⟩

def dinode (D : Disk) (i : ℕ) : Inode := D (iblock i) (place i)

/-- A dinode is written in the buffer of its block. -/
def putDinode (D : Disk) (i : ℕ) (x : Inode) : Disk :=
  update D (iblock i) (update (D (iblock i)) (place i) x)

/-- `&icache.inode[k]`; there are `NINODE`. -/
abbrev Slot := Fin 50

/-- `struct inode` with its sleep-lock; all inodes are on one device. -/
structure Entry (P : Type) where
  inum : ℕ
  ref : ℕ
  valid : Bool
  lock : Option P
  fields : Inode

/-- A change of fields. -/
inductive Edit
  | nlink (n : Int16)
  | size (n : ℕ)
  | addr (a : Fin 13) (b : ℕ)
  | dev (major minor : ℕ)
  | type (t : ℕ)
  deriving DecidableEq

def Edit.apply (x : Inode) : Edit → Inode
  | .nlink n => { x with nlink := n }
  | .size n => { x with size := n }
  | .addr a b => { x with addrs := update x.addrs a b }
  | .dev major minor => { x with major := major, minor := minor }
  | .type t => { x with type := t }

/-- Entries of `ftable`. -/
abbrev FileId := Fin 100

inductive Instr
  | iget (i : ℕ)
  | idup (k : Slot)
  | checkRef (k : Slot)
  | acquiresleep (k : Slot)
  | releasesleep (k : Slot)
  /-- the rest of `ilock` -/
  | load (k : Slot)
  | fields (k : Slot)
  | valid (k : Slot)
  | ref (k : Slot)
  | write (k : Slot) (e : Edit)
  | iupdate (k : Slot)
  | invalidate (k : Slot)
  | drop (k : Slot)
  /-- a round of `ialloc` -/
  | claim (i type : ℕ)
  | balloc
  | choose
  /-- the inode of an open file, for a call on it -/
  | useFile (f : FileId)
  | doneFile
  /-- `f->ip = ip` -/
  | setIp (f : FileId) (k : Slot)
  | fileclose (f : FileId)
  | stop

def Instr.Reply : Instr → Type
  | .iget _ => Slot
  | .fields _ => Inode
  | .valid _ | .claim _ _ => Bool
  | .ref _ | .balloc | .choose => ℕ
  | .useFile _ | .fileclose _ => Option Slot
  | _ => Unit

def sig : Sig := ⟨Instr,Instr.Reply⟩

/-- What the processes share. `held p` are the references of `p`, its current directory among them, and `inuse p` the
file that it is in a call on. -/
structure State (P : Type) where
  slot : Slot → Entry P
  disk : Disk
  file : FileId → Option Slot
  held : P → List Slot
  inuse : P → Option FileId

variable {P : Type} [DecidableEq P] [Fintype P]

omit [DecidableEq P] [Fintype P] in
def State.put (s : State P) (k : Slot) (e : Entry P) : State P := { s with slot := update s.slot k e }

def State.hold (s : State P) (p : P) (l : List Slot) : State P := { s with held := update s.held p l }

/-- `iget`: the entry of the inode, or the first one that is not in use. -/
def State.iget (s : State P) (p : P) (i : ℕ) : Option (Slot × State P) :=
  match (List.finRange 50).find? (fun k => 0 < (s.slot k).ref ∧ (s.slot k).inum = i) with
  | some k => some (k,(s.put k { s.slot k with ref := (s.slot k).ref+1 }).hold p (k :: s.held p))
  | none =>
    match (List.finRange 50).find? (fun k => (s.slot k).ref = 0) with
    | some k => some (k,(s.put k { s.slot k with inum := i, ref := 1, valid := false }).hold p (k :: s.held p))
    | none => none

/-- `ilock` once it has the lock. -/
def State.load (s : State P) (k : Slot) : Option (State P) :=
  if (s.slot k).valid then some s
  else if (dinode s.disk (s.slot k).inum).type = 0 then none
  else some (s.put k { s.slot k with valid := true, fields := dinode s.disk (s.slot k).inum })

def State.iupdate (s : State P) (k : Slot) : State P :=
  { s with disk := putDinode s.disk (s.slot k).inum (s.slot k).fields }

/-- The instruction of `p`, with the choice `c` of the environment. A panic, and a lock that is not free, has no next
state. -/
def handle (p : P) (c : ℕ) : (i : Instr) → State P → Option (i.Reply × State P)
  | .iget i, s => s.iget p i
  | .idup k, s => some ((),(s.put k { s.slot k with ref := (s.slot k).ref+1 }).hold p (k :: s.held p))
  | .checkRef k, s => if (s.slot k).ref < 1 then none else some ((),s)
  | .acquiresleep k, s =>
    if (s.slot k).lock = none then some ((),s.put k { s.slot k with lock := some p }) else none
  | .releasesleep k, s =>
    if (s.slot k).lock = some p then some ((),s.put k { s.slot k with lock := none }) else none
  | .load k, s => (s.load k).map fun t => ((),t)
  | .fields k, s => some ((s.slot k).fields,s)
  | .valid k, s => some ((s.slot k).valid,s)
  | .ref k, s => some ((s.slot k).ref,s)
  | .write k e, s => some ((),s.put k { s.slot k with fields := e.apply (s.slot k).fields })
  | .iupdate k, s => some ((),s.iupdate k)
  | .invalidate k, s => some ((),s.put k { s.slot k with valid := false })
  | .drop k, s => some ((),(s.put k { s.slot k with ref := (s.slot k).ref-1 }).hold p ((s.held p).erase k))
  | .claim i type, s =>
    if (dinode s.disk i).type = 0 then some (true,{ s with disk := putDinode s.disk i (.blank type) }) else some (false,s)
  | .balloc, s => if c = 0 then none else some (c,s)
  | .choose, s => some (c,s)
  | .useFile f, s =>
    match s.file f with
    | none => some (none,s)
    | some k => some (some k,{ s with inuse := update s.inuse p (some f) })
  | .doneFile, s => some ((),{ s with inuse := update s.inuse p none })
  | .setIp f k, s =>
    if s.file f = none then
      some ((),({ s with file := update s.file f (some k) } : State P).hold p ((s.held p).erase k))
    else none
  | .fileclose f, s =>
    -- A descriptor keeps its file open, so the last one is not closed during a call on the file.
    if c = 0 then some (none,s)
    else if ∃ q, s.inuse q = some f then none
    else
      match s.file f with
      | none => some (none,s)
      | some k =>
        some (some k,({ s with file := update s.file f none } : State P).hold p (k :: s.held p))
  | .stop, _ => none

end Xv6Threads.Icache
