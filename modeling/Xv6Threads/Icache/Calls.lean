import Xv6Threads.Icache.Model

/-! The functions of `fs.c` that use inodes, and the system calls of `sysfile.c`, `file.c` and `exec.c`. A path is given by
whether it starts at the root and by the number of its elements. -/
namespace Xv6Threads.Icache
open Function
open Prog (op)

abbrev Code (α : Type) : Type := Prog sig α

def fields (k : Slot) : Code Inode := op (S := sig) (.fields k)

def write (k : Slot) (e : Edit) : Code Unit := op (S := sig) (.write k e)

def iupdate (k : Slot) : Code Unit := op (S := sig) (.iupdate k)

def choose : Code ℕ := op (S := sig) .choose

def stop : Code Unit := op (S := sig) .stop

/-- Panic unless `b` holds. -/
def require (b : Bool) : Code Unit := if b then pure () else stop

def getRef (k : Slot) : Code ℕ := op (S := sig) (.ref k)

def getValid (k : Slot) : Code Bool := op (S := sig) (.valid k)

def balloc : Code ℕ := op (S := sig) .balloc

def checkRef (k : Slot) : Code Unit := op (S := sig) (.checkRef k)

def acquiresleep (k : Slot) : Code Unit := op (S := sig) (.acquiresleep k)

def releasesleep (k : Slot) : Code Unit := op (S := sig) (.releasesleep k)

def load (k : Slot) : Code Unit := op (S := sig) (.load k)

def invalidate (k : Slot) : Code Unit := op (S := sig) (.invalidate k)

def drop (k : Slot) : Code Unit := op (S := sig) (.drop k)

def idup (k : Slot) : Code Unit := op (S := sig) (.idup k)

def setIp (f : FileId) (k : Slot) : Code Unit := op (S := sig) (.setIp f k)

def doneFile : Code Unit := op (S := sig) .doneFile

def claim (i type : ℕ) : Code Bool := op (S := sig) (.claim i type)

def useFile (f : FileId) : Code (Option Slot) := op (S := sig) (.useFile f)

def fileclose (f : FileId) : Code (Option Slot) := op (S := sig) (.fileclose f)

def iget (i : ℕ) : Code Slot := op (S := sig) (.iget i)

def ilock (k : Slot) : Code Unit := do
  checkRef k
  acquiresleep k
  load k

def iunlock (k : Slot) : Code Unit := do
  checkRef k
  releasesleep k

/-- The loops of `itrunc`: `addrs[a]` for `a` in the list. -/
def truncLoop (k : Slot) : List (Fin 13) → Code Unit
  | [] => pure ()
  | a :: l => do
    let x ← fields k
    if x.addrs a ≠ 0 then write k (.addr a 0)
    truncLoop k l

def itrunc (k : Slot) : Code Unit := do
  truncLoop k (List.finRange 13)
  write k (.size 0)
  iupdate k

/-- `iput` frees an inode that has no links and no other references. -/
def iputFree (k : Slot) : Code Unit := do
  let x ← fields k
  if x.nlink = 0 then do
    let r ← getRef k
    if r = 1 then do
      itrunc k
      write k (.type 0)
      iupdate k
      invalidate k

def iput (k : Slot) : Code Unit := do
  acquiresleep k
  let v ← getValid k
  if v then iputFree k
  releasesleep k
  drop k

def iunlockput (k : Slot) : Code Unit := do
  iunlock k
  iput k

/-- The loop of `ialloc` over the inodes of the list. -/
def iallocLoop (type : ℕ) : List ℕ → Code (Option Slot)
  | [] => do
    stop
    pure none
  | i :: l => do
    let b ← claim i type
    if b then do
      let k ← iget i
      pure (some k)
    else iallocLoop type l

/-- `sb.ninodes` is 200. -/
def ialloc (type : ℕ) : Code (Option Slot) := iallocLoop type (List.range' 1 199)

/-- The entry of `addrs` for block `bn`: its own, or the one of the indirect block. -/
def addrOf (bn : ℕ) : Fin 13 := ⟨min bn 12,by omega⟩

/-- `bmap`; entries of the indirect block are not in the inode. -/
def bmap (k : Slot) (bn : ℕ) : Code Unit :=
  if bn < 140 then do
    let x ← fields k
    if x.addrs (addrOf bn) = 0 then do
      let b ← balloc
      write k (.addr (addrOf bn) b)
  else stop

/-- The loops of `readi` and `writei` over `n` bytes; a round takes at least one. -/
def chunks (k : Slot) : ℕ → ℕ → ℕ → Code Unit
  | 0, _, _ => pure ()
  | j+1, off, n =>
    if n = 0 then pure ()
    else do
      bmap k (off/512)
      chunks k j (off+min n (512-off%512)) (n-min n (512-off%512))

/-- `consoleread` and `consolewrite` give up the lock for a while. -/
def device (k : Slot) : Code Unit := do
  let c ← choose
  if c ≠ 0 then do
    iunlock k
    ilock k

def readi (k : Slot) (off n : ℕ) : Code Unit := do
  let x ← fields k
  if x.type = tDev then device k
  else if x.size < off ∨ (off+n)%2^32 < off then pure ()
  else chunks k (min n (x.size-off)) off (min n (x.size-off))

/-- `writei` returns -1 with `false`. -/
def writei (k : Slot) (off n : ℕ) : Code Bool := do
  let x ← fields k
  if x.type = tDev then do
    device k
    pure true
  else if x.size < off ∨ (off+n)%2^32 < off ∨ 140*512 < off+n then pure false
  else do
    chunks k n off n
    let x ← fields k
    if 0 < n ∧ x.size < off+n then do
      write k (.size (off+n))
      iupdate k
    pure true

/-- The loops over the entries of a directory: the environment says where one ends, and with what. -/
def scan (k : Slot) : ℕ → ℕ → Code (Option (ℕ × ℕ))
  | 0, _ => pure none
  | j+1, off => do
    let x ← fields k
    if off < x.size then do
      readi k off 16
      let c ← choose
      if c = 0 then scan k j (off+16) else pure (some (c,off))
    else pure none

/-- All entries. -/
def scanAll (k : Slot) : Code (Option (ℕ × ℕ)) := do
  let x ← fields k
  if x.type ≠ tDir then do
    stop
    pure none
  else scan k (x.size/16+1) 0

def dirlookup (k : Slot) : Code (Option (Slot × ℕ)) := do
  match ← scanAll k with
  | none => pure none
  | some (i,off) => do
    let j ← iget i
    pure (some (j,off))

/-- `dirlink` returns 0 or, with `false`, -1. -/
def dirlink (k : Slot) : Code Bool := do
  match ← dirlookup k with
  | some (j,_) => do
    iput j
    pure false
  | none => do
    let e ← scanAll k
    let x ← fields k
    let b ← writei k ((e.map Prod.snd).getD x.size) 16
    require b
    pure true

/-- A path. -/
structure Path where
  absolute : Bool
  elems : ℕ
  deriving DecidableEq

def namexLoop (parent : Bool) : ℕ → Slot → Code (Option Slot)
  | 0, k =>
    if parent then do
      iput k
      pure none
    else pure (some k)
  | n+1, k => do
    ilock k
    let x ← fields k
    if x.type ≠ tDir then do
      iunlockput k
      pure none
    else if parent ∧ n = 0 then do
      iunlock k
      pure (some k)
    else
      match ← dirlookup k with
      | none => do
        iunlockput k
        pure none
      | some (next,_) => do
        iunlockput k
        namexLoop parent n next

/-- `namex` of a process with the current directory `cwd`; `ROOTINO` is 1. -/
def namex (parent : Bool) (cwd : Slot) (path : Path) : Code (Option Slot) :=
  if path.absolute then do
    let k ← iget 1
    namexLoop parent path.elems k
  else do
    idup cwd
    namexLoop parent path.elems cwd

/-- `bad:` of `sys_link`. -/
def linkBad (k : Slot) : Code Unit := do
  ilock k
  let x ← fields k
  write k (.nlink (x.nlink-1))
  iupdate k
  iunlockput k

def sysLink (cwd : Slot) (old new : Path) : Code Unit := do
  match ← namex false cwd old with
  | none => pure ()
  | some k => do
    ilock k
    let x ← fields k
    if x.type = tDir then iunlockput k
    else do
      write k (.nlink (x.nlink+1))
      iupdate k
      iunlock k
      match ← namex true cwd new with
      | none => linkBad k
      | some d => do
        ilock d
        let ok ← dirlink d
        iunlockput d
        if ok then iput k else linkBad k

/-- `isdirempty` starts at the third entry. -/
def isdirempty (k : Slot) : Code Bool := do
  let x ← fields k
  let e ← scan k (x.size/16+1) 32
  pure e.isNone

/-- A subdirectory that goes away gives up its `..`. -/
def unlinkDotdot (d : Slot) (isDir : Bool) : Code Unit :=
  if isDir then do
    let x ← fields d
    write d (.nlink (x.nlink-1))
    iupdate d
  else pure ()

/-- `sys_unlink` once it has both inodes locked and may go on. -/
def unlinkEntry (d : Slot) (off : ℕ) (k : Slot) (isDir : Bool) : Code Unit := do
  let b ← writei d off 16
  require b
  unlinkDotdot d isDir
  iunlockput d
  let x ← fields k
  write k (.nlink (x.nlink-1))
  iupdate k
  iunlockput k

/-- The environment says whether the name is `.` or `..`. -/
def sysUnlink (cwd : Slot) (path : Path) : Code Unit := do
  match ← namex true cwd path with
  | none => pure ()
  | some d => do
    ilock d
    let c ← choose
    if c = 0 then iunlockput d
    else
      match ← dirlookup d with
      | none => iunlockput d
      | some (k,off) => do
        ilock k
        let x ← fields k
        require (1 ≤ x.nlink)
        if x.type = tDir then do
          let e ← isdirempty k
          if e then unlinkEntry d off k true
          else do
            iunlockput k
            iunlockput d
        else unlinkEntry d off k false

/-- The entries that `create` puts into a new directory. -/
def createDots (d k : Slot) (type : ℕ) : Code Unit :=
  if type = tDir then do
    let x ← fields d
    write d (.nlink (x.nlink+1))
    iupdate d
    let b ← dirlink k
    require b
    let b ← dirlink k
    require b
  else pure ()

/-- `create` once it has found that the name is not there. -/
def createNew (d : Slot) (type major minor : ℕ) : Code (Option Slot) := do
  match ← ialloc type with
  | none => do
    stop
    pure none
  | some k => do
    ilock k
    write k (.dev major minor)
    write k (.nlink 1)
    iupdate k
    createDots d k type
    let b ← dirlink d
    require b
    iunlockput d
    pure (some k)

/-- The new inode, or the one that is there, locked. -/
def create (cwd : Slot) (path : Path) (type major minor : ℕ) : Code (Option Slot) := do
  match ← namex true cwd path with
  | none => pure none
  | some d => do
    ilock d
    match ← dirlookup d with
    | some (k,_) => do
      iunlockput d
      ilock k
      let x ← fields k
      if type = tFile ∧ x.type = tFile then pure (some k)
      else do
        iunlockput k
        pure none
    | none => createNew d type major minor

/-- `sys_open` once it has the inode, locked; the environment says whether there is a file and a descriptor. -/
def openInode (k : Slot) : Code Unit := do
  let c ← choose
  if c = 0 then iunlockput k
  else do
    iunlock k
    let f ← choose
    setIp ⟨f%100,Nat.mod_lt f (by decide)⟩ k

/-- `sys_open`; `creating` is `O_CREATE`, and `rdonly` says that the mode is `O_RDONLY`. -/
def sysOpen (cwd : Slot) (path : Path) (creating rdonly : Bool) : Code Unit :=
  if creating then do
    match ← create cwd path tFile 0 0 with
    | none => pure ()
    | some k => openInode k
  else do
    match ← namex false cwd path with
    | none => pure ()
    | some k => do
      ilock k
      let x ← fields k
      if x.type = tDir ∧ rdonly = false then iunlockput k else openInode k

/-- `sys_mkdir` and `sys_mknod`. -/
def sysMake (cwd : Slot) (path : Path) (type major minor : ℕ) : Code Unit := do
  match ← create cwd path type major minor with
  | none => pure ()
  | some k => iunlockput k

/-- `sys_chdir` returns the current directory. -/
def sysChdir (cwd : Slot) (path : Path) : Code Slot := do
  match ← namex false cwd path with
  | none => pure cwd
  | some k => do
    ilock k
    let x ← fields k
    if x.type ≠ tDir then do
      iunlockput k
      pure cwd
    else do
      iunlock k
      iput cwd
      pure k

/-- The reads of `exec`: the pieces of its file. -/
def readAll (k : Slot) : List (ℕ × ℕ) → Code Unit
  | [] => pure ()
  | a :: l => do
    readi k a.1 a.2
    readAll k l

def sysExec (cwd : Slot) (path : Path) (reads : List (ℕ × ℕ)) : Code Unit := do
  match ← namex false cwd path with
  | none => pure ()
  | some k => do
    ilock k
    readAll k reads
    iunlockput k

/-- A call on an open file. -/
inductive Transfer
  | read (off n : ℕ)
  | write (off n : ℕ)
  | stat
  deriving DecidableEq

/-- `fileread`, a chunk of `filewrite`, and `filestat`. -/
def Transfer.code (k : Slot) (t : Transfer) : Code Unit := do
  ilock k
  match t with
  | .read off n => readi k off n
  | .write off n => do
    let _ ← writei k off n
    pure ()
  | .stat => do
    let _ ← fields k
    pure ()
  iunlock k

def transfers (k : Slot) : List Transfer → Code Unit
  | [] => pure ()
  | t :: l => do
    t.code k
    transfers k l

/-- `sys_read`, `sys_write` and `sys_fstat`. -/
def sysTransfer (f : FileId) (l : List Transfer) : Code Unit := do
  match ← useFile f with
  | none => pure ()
  | some k => do
    transfers k l
    doneFile

def sysClose (f : FileId) : Code Unit := do
  match ← fileclose f with
  | none => pure ()
  | some k => iput k

/-- The files that `exit` closes. -/
def closeAll : List FileId → Code Unit
  | [] => pure ()
  | f :: l => do
    sysClose f
    closeAll l

inductive Call
  | link (old new : Path)
  | unlink (path : Path)
  | openFile (path : Path) (creating rdonly : Bool)
  | mkdir (path : Path)
  | mknod (path : Path) (major minor : ℕ)
  | chdir (path : Path)
  | exec (path : Path) (reads : List (ℕ × ℕ))
  | transfer (f : FileId) (l : List Transfer)
  | close (f : FileId)
  | exit (files : List FileId)

/-- A call ends with the current directory, or without one after `exit`. -/
def Call.code (cwd : Slot) : Call → Code (Option Slot)
  | .link old new => do sysLink cwd old new; pure (some cwd)
  | .unlink path => do sysUnlink cwd path; pure (some cwd)
  | .openFile path creating rdonly => do sysOpen cwd path creating rdonly; pure (some cwd)
  | .mkdir path => do sysMake cwd path tDir 0 0; pure (some cwd)
  | .mknod path major minor => do sysMake cwd path tDev major minor; pure (some cwd)
  | .chdir path => do let k ← sysChdir cwd path; pure (some k)
  | .exec path reads => do sysExec cwd path reads; pure (some cwd)
  | .transfer f l => do sysTransfer f l; pure (some cwd)
  | .close f => do sysClose f; pure (some cwd)
  | .exit files => do closeAll files; iput cwd; pure none

/-- `cwd p` is the current directory of a process that is in no call, `work p` the rest of its call. -/
structure Sys (P : Type) where
  fs : State P
  cwd : P → Option Slot
  work : P → Option (Code (Option Slot))

inductive Label (P : Type)
  | start (p : P) (c : Call)
  | next (p : P) (choice : ℕ)
  | fork (p q : P)

variable {P : Type} [DecidableEq P] [Fintype P]

def Sys.next (s : Sys P) (p : P) (choice : ℕ) : Option (Sys P) :=
  match s.work p with
  | none => none
  | some (.ret k) => some { s with cwd := update s.cwd p k, work := update s.work p none }
  | some (.call i f) =>
    match handle p choice i s.fs with
    | some (r,t) => some { s with fs := t, work := update s.work p (some (f r)) }
    | none => none

/-- `fork` and `clone` give the child a reference to the current directory. -/
def Sys.step (s : Sys P) : Label P → Option (Sys P)
  | .start p c =>
    match s.cwd p with
    | none => none
    | some k =>
      some { s with cwd := update s.cwd p none, work := update s.work p (some (c.code k)) }
  | .next p choice => s.next p choice
  | .fork p q =>
    match s.cwd p with
    | none => none
    | some k =>
      if s.cwd q = none ∧ s.work q = none then
        some { s with
          fs := (s.fs.put k { s.fs.slot k with ref := (s.fs.slot k).ref+1 }).hold q [k]
          cwd := update s.cwd q (some k) }
      else none

end Xv6Threads.Icache
