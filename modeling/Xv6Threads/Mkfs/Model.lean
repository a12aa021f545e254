import Xv6Threads.Disk.Format
import Xv6Threads.Fs.Path

/-! `mkfs.c`: the image that it writes for a list of files, byte by byte. A failed assertion and an
exit with status 1 have no image. The files are given as the pieces in which the host's `read` returns them. -/
namespace Xv6Threads.Mkfs
open Function Disk

/-- A file to copy: the name on the command line, and the results of `read`. -/
structure Input where
  name : List UInt8
  chunks : List (List UInt8)

/-- The image, the two counters, and the blocks that inodes were written to. -/
structure Mk where
  disk : Image
  freeinode : ℕ
  freeblock : ℕ
  iwrites : List ℕ

/-- A sector past the end of the file cannot be read: `mkfs` exits with status 1. -/
def rsect (D : Image) (sec : ℕ) : Option Block := if sec < fssize then some (D sec) else none

def Mk.rinode (m : Mk) (inum : ℕ) : Option Dinode :=
  (rsect m.disk (iblock inum)).map (fun buf => dinodeAt buf (64*(inum%8)))

def Mk.winode (m : Mk) (inum : ℕ) (d : Dinode) : Option Mk :=
  (rsect m.disk (iblock inum)).map (fun _ =>
    {m with disk := Disk.winode m.disk inum d, iwrites := iblock inum :: m.iwrites})

def ialloc (m : Mk) (type : ℕ) : Option (ℕ × Mk) :=
  (({m with freeinode := m.freeinode+1} : Mk).winode m.freeinode ⟨type,1,0,fun _ => 0⟩).map (fun m' => (m.freeinode,m'))

/-- An inode in memory, the disk and `freeblock`, inside `iappend`. -/
structure Cursor where
  din : Dinode
  disk : Image
  freeblock : ℕ

def Cursor.setAddr (c : Cursor) (k : ℕ) : Cursor :=
  {c with din := {c.din with addrs := update c.din.addrs k c.freeblock}, freeblock := c.freeblock+1}

/-- The first part of the indirect case: there is an indirect block. -/
def Cursor.indirect (c : Cursor) : Cursor := if c.din.addrs ndirect = 0 then c.setAddr ndirect else c

/-- The second part: its entry `k` is set. -/
def Cursor.entry (c : Cursor) (k : ℕ) : Option (ℕ × Cursor) :=
  let b := c.din.addrs ndirect
  (rsect c.disk b).map (fun buf =>
    if getInt buf (4*k) = 0 then
      (c.freeblock,{c with disk := update c.disk b (putInt buf (4*k) c.freeblock), freeblock := c.freeblock+1})
    else (getInt buf (4*k),c))

/-- The block for `fbn`, allocated if need be. -/
def Cursor.block (c : Cursor) (fbn : ℕ) : Option (ℕ × Cursor) :=
  if fbn < ndirect then
    some (if c.din.addrs fbn = 0 then (c.freeblock,c.setAddr fbn) else (c.din.addrs fbn,c))
  else c.indirect.entry (fbn-ndirect)

/-- The `bcopy` into a block, at `o`. -/
def splice (b : Block) (o : ℕ) (p : List UInt8) : Block :=
  fun i => if o ≤ i ∧ i < o+p.length then p.getD (i-o) 0 else b i

/-- Block `fbn` is found, read, changed and written. -/
def Cursor.fill (c : Cursor) (fbn o : ℕ) (p : List UInt8) : Option Cursor :=
  (c.block fbn).bind (fun r =>
    (rsect r.2.disk r.1).map (fun buf => {r.2 with disk := update r.2.disk r.1 (splice buf o p)}))

/-- The loop of `iappend` at `off`; a round takes at least one byte. -/
def appendLoop : ℕ → Cursor → ℕ → List UInt8 → Option (Cursor × ℕ)
  | _,c,off,[] => some (c,off)
  | 0,_,_,_ :: _ => none
  | k+1,c,off,x :: xs =>
    let p := x :: xs
    let fbn := off/bsize
    let n1 := min p.length ((fbn+1)*bsize-off)
    if fbn < maxfile then
      (c.fill fbn (off-fbn*bsize) (p.take n1)).bind (fun c => appendLoop k c (off+n1) (p.drop n1))
    else none

def iappend (m : Mk) (inum : ℕ) (p : List UInt8) : Option Mk :=
  (m.rinode inum).bind (fun din =>
    (appendLoop p.length ⟨din,m.disk,m.freeblock⟩ din.size p).bind (fun r =>
      ({m with disk := r.1.disk, freeblock := r.1.freeblock} : Mk).winode inum {r.1.din with size := r.2}))

/-- `struct dirent` -/
def dirent (inum : ℕ) (name : List UInt8) : List UInt8 :=
  byteOf inum 0 :: byteOf inum 1 :: Fs.strncpy Fs.dirSiz name

/-- The name in the file system: a leading `_` is dropped. -/
def Input.target (f : Input) : List UInt8 := if f.name.head? = some 95 then f.name.tail else f.name

def rootino : ℕ := 1

def appendAll (inum : ℕ) : Mk → List (List UInt8) → Option Mk
  | m,[] => some m
  | m,p :: ps => (iappend m inum p).bind (fun m => appendAll inum m ps)

/-- One round of the loop over the files. -/
def addFile (m : Mk) (f : Input) : Option Mk :=
  if Fs.slash ∈ f.name then none
  else
    (ialloc m tFile).bind (fun r =>
      (iappend r.2 rootino (dirent r.1 f.target)).bind (fun m => appendAll r.1 m f.chunks))

def addFiles : Mk → List Input → Option Mk
  | m,[] => some m
  | m,f :: fs => (addFile m f).bind (fun m => addFiles m fs)

/-- The superblock. -/
def superblock : Block :=
  putInt (putInt (putInt (putInt (putInt (putInt (putInt (fun _ => 0) 0 fssize) 4 (fssize-nmeta)) 8 ninodes) 12 30)
    16 2) 20 inodestart) 24 bmapstart

/-- Before the first inode. -/
def blank : Mk := ⟨update (fun _ _ => 0) 1 superblock,1,nmeta,[]⟩

/-- The root directory with its first two entries. -/
def withRoot : Option Mk :=
  (ialloc blank tDir).bind (fun r =>
    if r.1 = rootino then
      (iappend r.2 r.1 (dirent r.1 Fs.dot)).bind (fun m => iappend m r.1 (dirent r.1 Fs.dotdot))
    else none)

/-- The size of the root directory is rounded up, to one block more if it is full. -/
def fixRoot (m : Mk) : Option Mk :=
  (m.rinode rootino).bind (fun din => m.winode rootino {din with size := (din.size/bsize+1)*bsize})

/-- The bitmap with the first `used` blocks. -/
def bitmap : ℕ → Block
  | 0 => fun _ => 0
  | used+1 => update (bitmap used) (used/8) (bitmap used (used/8) ||| (1 <<< UInt8.ofNat (used%8)))

def balloc (m : Mk) : Option Mk :=
  if m.freeblock < bsize*8 then some {m with disk := update m.disk bmapstart (bitmap m.freeblock)} else none

def mkfs (files : List Input) : Option Mk :=
  ((withRoot.bind (fun m => addFiles m files)).bind fixRoot).bind balloc

end Xv6Threads.Mkfs
