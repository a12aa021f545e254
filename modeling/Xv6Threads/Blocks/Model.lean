import Xv6Threads.Disk.Format

/-! The blocks that `log_write` is called on by the functions of `fs.c` that change the disk. An inode
is seen with its block addresses, the entries of its indirect block among them; `none` is a panic. -/
namespace Xv6Threads.Blocks
open Function List
open Disk (bsize ndirect nindirect maxfile bmapstart iblock)

/-- An inode; `ind` is what its indirect block holds. -/
structure Shape where
  size : ℕ
  addrs : ℕ → ℕ
  ind : ℕ → ℕ

/-- The inode without blocks. -/
def Shape.empty : Shape := ⟨0,fun _ => 0,fun _ => 0⟩

/-- The bitmap, the inodes, and the blocks that `log_write` was called on. -/
structure Store where
  used : ℕ → Bool
  ino : ℕ → Shape
  log : List ℕ

def Store.logWrite (s : Store) (b : ℕ) : Store := {s with log := b :: s.log}

def Store.set (s : Store) (i : ℕ) (x : Shape) : Store := {s with ino := update s.ino i x}

/-- `balloc`, with its `bzero`; the bitmap is one block. -/
def balloc (s : Store) : Option (ℕ × Store) :=
  ((List.range fssize).find? (fun b => !s.used b)).map (fun b =>
    (b,(({s with used := update s.used b true} : Store).logWrite bmapstart).logWrite b))

def bfree (s : Store) (b : ℕ) : Option Store :=
  if s.used b then some (({s with used := update s.used b false} : Store).logWrite bmapstart) else none

/-- The address `addrs[k]`, set if need be. An indirect block is zero at first. -/
def slot (s : Store) (i k : ℕ) : Option (ℕ × Store) :=
  if (s.ino i).addrs k = 0 then
    (balloc s).map (fun r => (r.1,r.2.set i ⟨(s.ino i).size,update (s.ino i).addrs k r.1,
      if k = ndirect then fun _ => 0 else (s.ino i).ind⟩))
  else some ((s.ino i).addrs k,s)

def bmap (s : Store) (i bn : ℕ) : Option (ℕ × Store) :=
  if bn < ndirect then slot s i bn
  else if bn-ndirect < nindirect then
    (slot s i ndirect).bind (fun r =>
      if (r.2.ino i).ind (bn-ndirect) = 0 then
        (balloc r.2).map (fun q =>
          (q.1,(q.2.set i {r.2.ino i with ind := update (r.2.ino i).ind (bn-ndirect) q.1}).logWrite r.1))
      else some ((r.2.ino i).ind (bn-ndirect),r.2))
  else none

def iupdate (s : Store) (i : ℕ) : Store := s.logWrite (iblock i)

/-- `ialloc` of the free inode `i`. -/
def ialloc (s : Store) (i : ℕ) : Store := (s.set i .empty).logWrite (iblock i)

/-- The blocks that `itrunc` gives to `bfree`. -/
def Shape.blocks (x : Shape) : List ℕ :=
  ((List.range ndirect).map x.addrs).filter (· ≠ 0)++
    if x.addrs ndirect = 0 then [] else ((List.range nindirect).map x.ind).filter (· ≠ 0)++[x.addrs ndirect]

def itrunc (s : Store) (i : ℕ) : Option Store :=
  ((s.ino i).blocks.foldlM bfree s).map (fun t => iupdate (t.set i .empty) i)

/-- The loop of `writei`: `n` bytes at `off`; a round takes at least one byte. -/
def writeLoop : ℕ → Store → ℕ → ℕ → ℕ → Option Store
  | _,s,_,_,0 => some s
  | 0,_,_,_,_+1 => none
  | k+1,s,i,off,n+1 =>
    let m := min (n+1) (bsize-off%bsize)
    (bmap s i (off/bsize)).bind (fun r => writeLoop k (r.2.logWrite r.1) i (off+m) (n+1-m))

/-- `writei` of an inode that is not a device. -/
def writei (s : Store) (i off n : ℕ) : Option (ℤ × Store) :=
  if (s.ino i).size < off ∨ (off+n)%2^32 < off ∨ maxfile*bsize < off+n then some (-1,s)
  else
    (writeLoop n s i off n).map (fun t =>
      (n,if 0 < n ∧ (t.ino i).size < off+n then iupdate (t.set i {t.ino i with size := off+n}) i else t))

/-- `readi` of at most `n` entries of a directory from entry `k` on; none of them crosses a block. -/
def readSlots : ℕ → Store → ℕ → ℕ → Option Store
  | 0,s,_,_ => some s
  | n+1,s,i,k =>
    if 16*k < (s.ino i).size then (bmap s i (16*k/bsize)).bind (fun r => readSlots n r.2 i (k+1)) else some s

/-- `max` of `filewrite`. -/
def maxWrite : ℕ := (maxOpBlocks-1-1-2)/2*512

/-- What a system call does to the disk: it looks through directory `d`, writes its entry `k`, or has
inode `i` updated, allocated or truncated. -/
inductive Edit
  | scan (d : ℕ)
  | entry (d k : ℕ)
  | update (i : ℕ)
  | alloc (i : ℕ)
  | trunc (i : ℕ)
  deriving DecidableEq

/-- The inode that an edit is written to. -/
def Edit.inode : Edit → Option ℕ
  | .scan _ => none
  | .entry i _ | .update i | .alloc i | .trunc i => some i

def Edit.isEntry : Edit → Bool
  | .entry .. => true
  | _ => false

/-- The edits of a call are to the inodes `I`, and at most `n` of them are entries of directories. -/
structure Within (I : List ℕ) (n : ℕ) (l : List Edit) : Prop where
  inode : ∀ x ∈ l, ∀ i ∈ x.inode, i ∈ I
  entries : l.countP Edit.isEntry ≤ n

/-- A write that is cut short makes `dirlink` or `sys_unlink` panic. A scan may also end earlier. -/
def edit (s : Store) : Edit → Option Store
  | .scan d => readSlots ((s.ino d).size/16+1) s d 0
  | .entry d k => (writei s d (16*k) 16).bind (fun r => if r.1 = 16 then some r.2 else none)
  | .update i => some (iupdate s i)
  | .alloc i => some (ialloc s i)
  | .trunc i => (itrunc s i).map (fun t => iupdate t i)

/-- The edits of a call, the last first. -/
def play : List Edit → Store → Option Store
  | [],s => some s
  | x :: l,s => (play l s).bind (fun t => edit t x)

/-- The loop of `filewrite`, with `left` bytes to go: each chunk is a transaction of its own, whose `log_write`s
are listed. It ends when `writei` returns `-1`. -/
def filewrite : ℕ → Store → ℕ → ℕ → ℕ → Option (List (List ℕ))
  | _,_,_,_,0 => some []
  | 0,_,_,_,_+1 => none
  | k+1,s,i,off,left+1 =>
    let n := min (left+1) maxWrite
    (writei {s with log := []} i off n).bind (fun r =>
      if r.1 = -1 then some [r.2.log]
      else (filewrite k r.2 i (off+n) (left+1-n)).map (fun l => r.2.log :: l))

end Xv6Threads.Blocks
