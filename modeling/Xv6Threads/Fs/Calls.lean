import Xv6Threads.Fs.Inodes

/-! The functions of `fs.c` and the system calls of `sysfile.c` on names, as programs over the
instructions of the inode layer. -/
namespace Xv6Threads.Fs
open Prog (op)

abbrev Code (α : Type) : Type := Prog fs α

def inodeType (i : ℕ) : Code IType := op (S := fs) (.type i)

def inodeLinks (i : ℕ) : Code Int16 := op (S := fs) (.nlink i)

/-- Panic unless `b` holds. -/
def require (e : Panic) (b : Bool) : Code Unit := if b then pure () else op (S := fs) (.stop e)

def ilock (i : ℕ) : Code Unit := do
  op (S := fs) (.checkRef i .ilock)
  op (S := fs) (.acquiresleep i)
  op (S := fs) (.load i)

def iunlock (i : ℕ) : Code Unit := do
  op (S := fs) (.checkRef i .iunlock)
  op (S := fs) (.releasesleep i)

/-- `iput` once it has the sleep-lock. -/
def iputLocked (i : ℕ) : Bool → Code Unit
  | true => do
    op (S := fs) (.free i)
    op (S := fs) (.releasesleep i)
    op (S := fs) (.drop i)
  | false => do
    op (S := fs) (.releasesleep i)
    op (S := fs) (.drop i)

def iput (i : ℕ) : Code Unit := do
  op (S := fs) (.acquiresleep i)
  let b ← op (S := fs) (.unused i)
  iputLocked i b

def iunlockput (i : ℕ) : Code Unit := do
  iunlock i
  iput i

def ialloc (t : IType) : Code ℕ := do
  let i ← op (S := fs) (.ialloc t)
  op (S := fs) (.iget i)
  pure i

/-- The inode with the name `n` in directory `d`, and its slot. -/
def dirlookup (d : ℕ) (n : List UInt8) : Code (Option (ℕ × ℕ)) := do
  match ← (op (S := fs) (.lookup d n) : Code (Option (ℕ × ℕ))) with
  | none => pure none
  | some (i,k) => do
    op (S := fs) (.iget i)
    pure (some (i,k))

/-- `dirlink` returns 0 or, with `false`, -1. -/
def dirlink (d : ℕ) (n : List UInt8) (i : ℕ) : Code Bool := do
  match ← dirlookup d n with
  | some (j,_) => do
    iput j
    pure false
  | none => do
    let k ← (op (S := fs) (.emptySlot d) : Code ℕ)
    op (S := fs) (.link d k n i)
    pure true

/-- The loop of `namex` at inode `i`; `n` is the last element and `k` bounds the rounds. -/
def namexLoop (parent : Bool) : ℕ → List UInt8 → ℕ → List UInt8 → Code (Option (ℕ × List UInt8))
  | 0,_,_,_ => pure none
  | k+1,path,i,n =>
    match skipelem path with
    | none => if parent then do iput i; pure none else pure (some (i,n))
    | some (name,rest) => do
      ilock i
      let t ← inodeType i
      if t ≠ .dir then do iunlockput i; pure none
      else if parent ∧ rest = [] then do iunlock i; pure (some (i,name))
      else
        match ← dirlookup i name with
        | none => do iunlockput i; pure none
        | some (next,_) => do
          iunlockput i
          namexLoop parent k rest next name

/-- The inode at which `namex` starts. -/
def namexStart (path : List UInt8) : Code ℕ :=
  if path.head? = some slash then do
    op (S := fs) (.iget rootIno)
    pure rootIno
  else do
    let i ← (op (S := fs) .cwd : Code ℕ)
    op (S := fs) (.iget i)
    pure i

def namex (parent : Bool) (path : List UInt8) : Code (Option (ℕ × List UInt8)) := do
  let i ← namexStart path
  namexLoop parent (path.length+1) path i []

def namei (path : List UInt8) : Code (Option (ℕ × List UInt8)) := namex false path

def nameiparent (path : List UInt8) : Code (Option (ℕ × List UInt8)) := namex true path

/-- `bad:` of `sys_link`. -/
def linkBad (i : ℕ) : Code ℤ := do
  ilock i
  let n ← inodeLinks i
  op (S := fs) (.setLink i (n-1))
  iunlockput i
  pure (-1)

def sysLink (old new : List UInt8) : Code ℤ := do
  match ← namei old with
  | none => pure (-1)
  | some (i,_) => do
    ilock i
    let t ← inodeType i
    if t = .dir then do iunlockput i; pure (-1)
    else do
      let n ← inodeLinks i
      op (S := fs) (.setLink i (n+1))
      iunlock i
      match ← nameiparent new with
      | none => linkBad i
      | some (d,name) => do
        ilock d
        let ok ← dirlink d name i
        iunlockput d
        if ok then do iput i; pure 0
        else linkBad i

/-- A subdirectory that goes away gives up its `..`. -/
def unlinkDotdot (d : ℕ) (t : IType) : Code Unit :=
  if t = .dir then do
    let n ← inodeLinks d
    op (S := fs) (.setLink d (n-1))
  else pure ()

/-- `sys_unlink` once it has both inodes locked and may go on. -/
def unlinkEntry (d k : ℕ) (n : List UInt8) (i : ℕ) (t : IType) : Code ℤ := do
  op (S := fs) (.unlink d k n)
  unlinkDotdot d t
  iunlockput d
  let m ← inodeLinks i
  op (S := fs) (.setLink i (m-1))
  iunlockput i
  pure 0

/-- Whether `sys_unlink` may go on: directory `d` is empty, or it is none. -/
def isdirempty (d : ℕ) (t : IType) : Code Bool := if t = .dir then op (S := fs) (.isdirempty d) else pure true

def sysUnlink (path : List UInt8) : Code ℤ := do
  match ← nameiparent path with
  | none => pure (-1)
  | some (d,name) => do
    ilock d
    if namecmp name dot = 0 ∨ namecmp name dotdot = 0 then do iunlockput d; pure (-1)
    else
      match ← dirlookup d name with
      | none => do iunlockput d; pure (-1)
      | some (i,k) => do
        ilock i
        let n ← inodeLinks i
        require .unlinkNlink (1 ≤ n)
        let t ← inodeType i
        let e ← isdirempty i t
        if e then unlinkEntry d k name i t
        else do
          iunlockput i
          iunlockput d
          pure (-1)

/-- The entries that `create` puts into a new directory `i`. -/
def createDots (d i : ℕ) (t : IType) : Code Unit :=
  if t = .dir then do
    let n ← inodeLinks d
    op (S := fs) (.setLink d (n+1))
    let b ← dirlink i dot i
    require .createDots b
    let b ← dirlink i dotdot d
    require .createDots b
  else pure ()

/-- `create` once it has found that the name is not there. -/
def createNew (d : ℕ) (name : List UInt8) (t : IType) : Code ℕ := do
  let i ← ialloc t
  ilock i
  op (S := fs) (.setLink i 1)
  createDots d i t
  let b ← dirlink d name i
  require .createDirlink b
  iunlockput d
  pure i

/-- The new inode, or the one that is there, locked. -/
def create (path : List UInt8) (t : IType) : Code (Option ℕ) := do
  match ← nameiparent path with
  | none => pure none
  | some (d,name) => do
    ilock d
    match ← dirlookup d name with
    | some (i,_) => do
      iunlockput d
      ilock i
      let u ← inodeType i
      if t = .file ∧ u = .file then pure (some i)
      else do iunlockput i; pure none
    | none => do
      let i ← createNew d name t
      pure (some i)

def fileclose (f : ℕ) : Code Unit := do
  match ← (op (S := fs) (.fileclose f) : Code (Option ℕ)) with
  | none => pure ()
  | some i => iput i

/-- `sys_open` once it has the inode, locked. -/
def openInode (i : ℕ) : Code ℤ := do
  match ← (op (S := fs) (.fileopen i) : Code (Option ℕ)) with
  | none => do iunlockput i; pure (-1)
  | some fd => do iunlock i; pure fd

/-- `sys_open` with `O_CREATE`. -/
def sysCreate (path : List UInt8) : Code ℤ := do
  match ← create path .file with
  | none => pure (-1)
  | some i => openInode i

/-- `sys_open` without `O_CREATE`; `rdonly` says that the mode is `O_RDONLY`. -/
def sysOpen (path : List UInt8) (rdonly : Bool) : Code ℤ := do
  match ← namei path with
  | none => pure (-1)
  | some (i,_) => do
    ilock i
    let t ← inodeType i
    if t = .dir ∧ rdonly = false then do iunlockput i; pure (-1)
    else openInode i

/-- `sys_mkdir` and `sys_mknod`. -/
def sysMake (path : List UInt8) (t : IType) : Code ℤ := do
  match ← create path t with
  | none => pure (-1)
  | some i => do
    iunlockput i
    pure 0

def sysMkdir (path : List UInt8) : Code ℤ := sysMake path .dir

def sysMknod (path : List UInt8) : Code ℤ := sysMake path .dev

def sysChdir (path : List UInt8) : Code ℤ := do
  match ← namei path with
  | none => pure (-1)
  | some (i,_) => do
    ilock i
    let t ← inodeType i
    if t ≠ .dir then do iunlockput i; pure (-1)
    else do
      iunlock i
      let c ← (op (S := fs) .cwd : Code ℕ)
      iput c
      op (S := fs) (.setCwd i)
      pure 0

/-- `exec` as far as the inode of its file goes. -/
def sysExec (path : List UInt8) : Code ℤ := do
  match ← namei path with
  | none => pure (-1)
  | some (i,_) => do
    ilock i
    iunlockput i
    pure 0

/-- The chunks of a read or a write, as far as the sleep-lock goes. -/
def transfer (i : ℕ) : ℕ → Code Unit
  | 0 => pure ()
  | k+1 => do
    ilock i
    iunlock i
    transfer i k

/-- `sys_read`, `sys_write` and `sys_fstat` in `k` chunks. -/
def sysTransfer (fd k : ℕ) : Code ℤ := do
  match ← (op (S := fs) (.ofile fd) : Code (Option ℕ)) with
  | none => pure (-1)
  | some f => do
    match ← (op (S := fs) (.fileIp f) : Code (Option ℕ)) with
    | none => pure (-1)
    | some i => do transfer i k; pure 0

def sysClose (fd : ℕ) : Code ℤ := do
  match ← (op (S := fs) (.ofile fd) : Code (Option ℕ)) with
  | none => pure (-1)
  | some f => do
    op (S := fs) (.clearFd fd)
    fileclose f
    pure 0

def sysDup (fd : ℕ) : Code ℤ := do
  match ← (op (S := fs) (.dup fd) : Code (Option ℕ)) with
  | none => pure (-1)
  | some fd' => pure fd'

/-- The files that `exit` closes. -/
def closeAll : ℕ → Code Unit
  | 0 => pure ()
  | fd+1 => do
    closeAll fd
    match ← (op (S := fs) (.ofile fd) : Code (Option ℕ)) with
    | none => pure ()
    | some f => do
      fileclose f
      op (S := fs) (.clearFd fd)

/-- `exit` and `thread_exit`, as far as files and the current directory go. -/
def exit : Code ℤ := do
  closeAll nofile
  let c ← (op (S := fs) .cwd : Code ℕ)
  iput c
  op (S := fs) .exited
  pure 0

end Xv6Threads.Fs
