import Xv6Threads.Foundations.Program
import Xv6Threads.Fs.Path
import Xv6Threads.Param

/-! The inode layer as the code above it sees it: inodes with a type, a link count and, for a
directory, its slots; the reference counts and sleep-locks of the inode cache; open files and
processes. An instruction is what a process does under one lock or between two of them. -/
namespace Xv6Threads.Fs
open Function List

def rootIno : ℕ := 1

def ninode : ℕ := 50

def nfile : ℕ := 100

/-- `BSIZE / sizeof(struct dirent)` -/
def perBlock : ℕ := 32

/-- The number of slots in `MAXFILE*BSIZE` bytes. -/
def maxSlots : ℕ := 140*perBlock

/-- `nblocks` of `mkfs`: all but the boot block, the superblock, the log, the inodes and the bit map. -/
def nblocks : ℕ := fssize-59

/-- The type of an inode, 0 for a free one. -/
inductive IType
  | free
  | dir
  | file
  | dev
  deriving DecidableEq

/-- Inode numbers are below `ninodes`, so the 16 bits of `inum` hold them. -/
structure Dirent where
  inum : ℕ
  name : List UInt8
  deriving DecidableEq

structure Inode where
  type : IType
  nlink : Int16
  /-- The slots of a directory. -/
  ents : List Dirent
  deriving DecidableEq

/-- A `struct file`; `ip` is `none` unless its type is `FD_INODE`. -/
structure File where
  ref : ℕ
  ip : Option ℕ
  deriving DecidableEq

/-- A process that is not `live` has no current directory. -/
structure Proc where
  live : Bool
  cwd : ℕ
  ofile : ℕ → Option ℕ

/-- `P` is the type of processes. -/
structure State (P : Type) where
  ino : ℕ → Inode
  ref : ℕ → ℕ
  valid : ℕ → Bool
  /-- The sleep-lock of an inode and the process that has it. -/
  lock : ℕ → Option P
  file : ℕ → File
  proc : P → Proc

inductive Panic
  | ilock
  | iunlock
  | noType
  | igetFull
  | noInodes
  | noBlocks
  | notDir
  | writeDirent
  | unlinkNlink
  | createDots
  | createDirlink
  | filedup
  | fileclose
  deriving DecidableEq

/-- Why an instruction is not carried out: the sleep-lock is taken, or the kernel panics. -/
inductive Err
  | blocked
  | panic (e : Panic)
  deriving DecidableEq

/-- `link` and `unlink` are the calls of `writei` in `dirlink` and in `sys_unlink`, for the name `n`.
`fileopen` is what `sys_open` does with the tables of files, `dup` what `sys_dup` does with them. -/
inductive Instr
  | cwd
  | setCwd (i : ℕ)
  | iget (i : ℕ)
  | drop (i : ℕ)
  | checkRef (i : ℕ) (e : Panic)
  | acquiresleep (i : ℕ)
  | releasesleep (i : ℕ)
  | load (i : ℕ)
  | type (i : ℕ)
  | nlink (i : ℕ)
  | setLink (i : ℕ) (n : Int16)
  | lookup (d : ℕ) (n : List UInt8)
  | emptySlot (d : ℕ)
  | link (d k : ℕ) (n : List UInt8) (i : ℕ)
  | unlink (d k : ℕ) (n : List UInt8)
  | isdirempty (d : ℕ)
  | ialloc (t : IType)
  | unused (i : ℕ)
  | free (i : ℕ)
  | fileopen (i : ℕ)
  | dup (fd : ℕ)
  | ofile (fd : ℕ)
  | fileIp (f : ℕ)
  | fileclose (f : ℕ)
  | clearFd (fd : ℕ)
  | exited
  | stop (e : Panic)

/-- What an instruction returns. -/
@[reducible] def Instr.Reply : Instr → Type
  | .cwd | .emptySlot _ | .ialloc _ => ℕ
  | .type _ => IType
  | .nlink _ => Int16
  | .lookup _ _ => Option (ℕ × ℕ)
  | .isdirempty _ | .unused _ => Bool
  | .fileopen _ | .dup _ | .ofile _ | .fileIp _ | .fileclose _ => Option ℕ
  | _ => Unit

@[reducible] def fs : Sig := ⟨Instr,Instr.Reply⟩

/-- The first slot of `l` that is in use and has the name `n`, with its inode number; `k` slots
come before `l`. -/
def lookup (n : List UInt8) : List Dirent → ℕ → Option (ℕ × ℕ)
  | [],_ => none
  | e :: l,k => if e.inum ≠ 0 ∧ namecmp n e.name = 0 then some (e.inum,k) else lookup n l (k+1)

/-- The first slot that is not in use, or the end of the directory. -/
def emptySlot : List Dirent → ℕ
  | [] => 0
  | e :: l => if e.inum = 0 then 0 else emptySlot l+1

/-- The slots after a write of slot `k`. -/
def putSlot (l : List Dirent) (k : ℕ) (e : Dirent) : List Dirent :=
  if k < l.length then l.set k e else l++[e]

/-- The slots behind `.` and `..` are not in use. -/
def dirEmpty (l : List Dirent) : Bool := (l.drop 2).all (fun e => e.inum = 0)

/-- The number of blocks that directories have. -/
def dirBlocks (ino : ℕ → Inode) : ℕ :=
  ((List.range ninodes).map (fun i => if (ino i).type = .dir then ((ino i).ents.length+perBlock-1)/perBlock else 0)).sum

/-- The first free inode that `ialloc` finds. -/
def freeInode (ino : ℕ → Inode) : Option ℕ :=
  (List.range ninodes).find? (fun i => i ≠ 0 ∧ (ino i).type = .free)

/-- `ip->valid && ip->nlink == 0 && ip->ref == 1` -/
def State.unused {P : Type} (s : State P) (i : ℕ) : Bool := s.valid i ∧ (s.ino i).nlink = 0 ∧ s.ref i = 1

namespace State
variable {P : Type} [DecidableEq P] (s : State P)

def setIno (i : ℕ) (x : Inode) : State P := {s with ino := update s.ino i x}

def setRef (i n : ℕ) : State P := {s with ref := update s.ref i n}

def setLock (i : ℕ) (o : Option P) : State P := {s with lock := update s.lock i o}

def setValid (i : ℕ) (b : Bool) : State P := {s with valid := update s.valid i b}

def setFile (f : ℕ) (x : File) : State P := {s with file := update s.file f x}

def setProc (p : P) (x : Proc) : State P := {s with proc := update s.proc p x}

def iget (i : ℕ) : Except Err (State P) :=
  if 0 < s.ref i then .ok (s.setRef i (s.ref i+1))
  else if (List.range ninodes).countP (fun j => 0 < s.ref j) < ninode then .ok ((s.setRef i 1).setValid i false)
  else .error (.panic .igetFull)

/-- What `ilock` does once it has the sleep-lock. -/
def load (i : ℕ) : Except Err (State P) :=
  if s.valid i then .ok s
  else if (s.ino i).type = .free then .error (.panic .noType)
  else .ok (s.setValid i true)

/-- `writei` of a directory entry; a new block may be needed for it. -/
def writeDirent (d k : ℕ) (e : Dirent) : Except Err (State P) :=
  if (s.ino d).ents.length < k ∨ maxSlots ≤ k then .error (.panic .writeDirent)
  else if k = (s.ino d).ents.length ∧ k%perBlock = 0 ∧ nblocks ≤ dirBlocks s.ino then .error (.panic .noBlocks)
  else .ok (s.setIno d {s.ino d with ents := putSlot (s.ino d).ents k e})

/-- The first descriptor of `p` that is not in use. -/
def freeFd (p : P) : Option ℕ := (List.range nofile).find? (fun fd => (s.proc p).ofile fd = none)

def setFd (p : P) (fd : ℕ) (o : Option ℕ) : State P :=
  s.setProc p {s.proc p with ofile := update (s.proc p).ofile fd o}

/-- `filealloc` and `fdalloc` for the inode `i`. A file without a descriptor is closed again. -/
def fileopen (p : P) (i : ℕ) : Option ℕ × State P :=
  match (List.range nfile).find? (fun f => (s.file f).ref = 0),s.freeFd p with
  | some f,some fd => (some fd,(s.setFile f ⟨1,some i⟩).setFd p fd (some f))
  | _,_ => (none,s)

def dup (p : P) (fd : ℕ) : Except Err (Option ℕ × State P) :=
  match (s.proc p).ofile fd,s.freeFd p with
  | some f,some fd' =>
    if (s.file f).ref < 1 then .error (.panic .filedup)
    else .ok (some fd',(s.setFile f {s.file f with ref := (s.file f).ref+1}).setFd p fd' (some f))
  | _,_ => .ok (none,s)

/-- `fileclose` without the `iput` of the inode, which is returned. -/
def fileclose (f : ℕ) : Except Err (Option ℕ × State P) :=
  if (s.file f).ref < 1 then .error (.panic .fileclose)
  else if 1 < (s.file f).ref then .ok (none,s.setFile f {s.file f with ref := (s.file f).ref-1})
  else .ok ((s.file f).ip,s.setFile f ⟨0,none⟩)

end State

section
variable {P : Type} [DecidableEq P]

/-- What an instruction of process `p` does. -/
def handle (p : P) : (i : Instr) → State P → Except Err (i.Reply × State P)
  | .cwd,s => .ok ((s.proc p).cwd,s)
  | .setCwd i,s => .ok ((),s.setProc p {s.proc p with cwd := i})
  | .iget i,s => (s.iget i).map (fun t => ((),t))
  | .drop i,s => .ok ((),s.setRef i (s.ref i-1))
  | .checkRef i e,s => if s.ref i < 1 then .error (.panic e) else .ok ((),s)
  | .acquiresleep i,s => if s.lock i = none then .ok ((),s.setLock i (some p)) else .error .blocked
  | .releasesleep i,s => if s.lock i = some p then .ok ((),s.setLock i none) else .error (.panic .iunlock)
  | .load i,s => (s.load i).map (fun t => ((),t))
  | .type i,s => .ok ((s.ino i).type,s)
  | .nlink i,s => .ok ((s.ino i).nlink,s)
  | .setLink i n,s => .ok ((),s.setIno i {s.ino i with nlink := n})
  | .lookup d n,s =>
    if (s.ino d).type = .dir then .ok (lookup n (s.ino d).ents 0,s) else .error (.panic .notDir)
  | .emptySlot d,s => .ok (emptySlot (s.ino d).ents,s)
  | .link d k n i,s => (s.writeDirent d k ⟨i,strncpy dirSiz n⟩).map (fun t => ((),t))
  | .unlink d k _,s => (s.writeDirent d k ⟨0,List.replicate dirSiz 0⟩).map (fun t => ((),t))
  | .isdirempty d,s => .ok (dirEmpty (s.ino d).ents,s)
  | .ialloc t,s =>
    match freeInode s.ino with
    | some i => .ok (i,s.setIno i ⟨t,0,[]⟩)
    | none => .error (.panic .noInodes)
  | .unused i,s => .ok (s.unused i,s)
  | .free i,s => .ok ((),(s.setIno i ⟨.free,0,[]⟩).setValid i false)
  | .fileopen i,s => .ok (s.fileopen p i)
  | .dup fd,s => s.dup p fd
  | .ofile fd,s => .ok ((s.proc p).ofile fd,s)
  | .fileIp f,s => .ok ((s.file f).ip,s)
  | .fileclose f,s => s.fileclose f
  | .clearFd fd,s => .ok ((),s.setFd p fd none)
  | .exited,s => .ok ((),s.setProc p {s.proc p with live := false})
  | .stop e,_ => .error (.panic e)

end

end Xv6Threads.Fs
