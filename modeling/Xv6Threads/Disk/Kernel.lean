import Xv6Threads.Disk.Format
import Xv6Threads.Fs.Path

/-! The block layer of `fs.c`, byte by byte: allocation in the bitmap, the blocks of an inode, reading
and directory lookup. The disk is seen through the buffer cache; `none` is a panic. -/
namespace Xv6Threads.Disk
open Function

/-- The disk, and the blocks that `log_write` was called on. -/
structure Store where
  img : Image
  log : List ℕ

/-- `log_write` of a buffer with new contents. -/
def Store.write (s : Store) (b : ℕ) (v : Block) : Store := ⟨update s.img b v,b :: s.log⟩

/-- Is the bit of `b` set in a bitmap block? -/
def bit (bp : Block) (b : ℕ) : Bool := (bp (b/8)).toNat.testBit (b%8)

def setBit (bp : Block) (b : ℕ) : Block :=
  update bp (b/8) (bp (b/8) ||| (1 <<< UInt8.ofNat (b%8)))

/-- `balloc`; the bitmap is one block. -/
def balloc (s : Store) : Option (ℕ × Store) :=
  ((List.range fssize).find? (fun b => !bit (s.img bmapstart) b)).map (fun b =>
    (b,(s.write bmapstart (setBit (s.img bmapstart) b)).write b (fun _ => 0)))

/-- The address `addrs[k]` of an inode, set if need be. -/
def slot (s : Store) (ip : Dinode) (k : ℕ) : Option (ℕ × Store × Dinode) :=
  if ip.addrs k = 0 then
    (balloc s).map (fun r => (r.1,r.2,{ip with addrs := update ip.addrs k r.1}))
  else some (ip.addrs k,s,ip)

def bmap (s : Store) (ip : Dinode) (bn : ℕ) : Option (ℕ × Store × Dinode) :=
  if bn < ndirect then slot s ip bn
  else if bn-ndirect < nindirect then
    (slot s ip ndirect).bind (fun r =>
      let a := getInt (r.2.1.img r.1) (4*(bn-ndirect))
      if a = 0 then
        (balloc r.2.1).map (fun q =>
          (q.1,q.2.write r.1 (putInt (q.2.img r.1) (4*(bn-ndirect)) q.1),r.2.2))
      else some (a,r.2))
  else none

/-- The loop of `readi`: `n` bytes from `off` on; a round takes at least one byte. -/
def readLoop : ℕ → Store → Dinode → ℕ → ℕ → Option (List UInt8 × Store × Dinode)
  | _,s,ip,_,0 => some ([],s,ip)
  | 0,_,_,_,_+1 => none
  | k+1,s,ip,off,n+1 =>
    let m := min (n+1) (bsize-off%bsize)
    (bmap s ip (off/bsize)).bind (fun r =>
      (readLoop k r.2.1 r.2.2 (off+m) (n+1-m)).map (fun q =>
        ((List.range m).map (fun j => r.2.1.img r.1 (off%bsize+j))++q.1,q.2)))

/-- `readi` of an inode that is not a device; the result `none` is `-1`. -/
def readi (s : Store) (ip : Dinode) (off n : ℕ) : Option (Option (List UInt8) × Store × Dinode) :=
  if ip.size < off ∨ (off+n)%2^32 < off then some (none,s,ip)
  else
    let n := if ip.size < off+n then ip.size-off else n
    (readLoop n s ip off n).map (fun q => (some q.1,q.2))

/-- `de.inum` and `de.name` -/
def direntInum (de : List UInt8) : ℕ := (de.getD 0 0).toNat+256*(de.getD 1 0).toNat

/-- The loop of `dirlookup` at `off`: the inode number and the offset of the entry. -/
def lookupLoop (name : List UInt8) : ℕ → Store → Dinode → ℕ → Option (Option (ℕ × ℕ) × Store × Dinode)
  | 0,s,ip,_ => some (none,s,ip)
  | k+1,s,ip,off =>
    if off < ip.size then
      (readi s ip off 16).bind (fun r =>
        match r.1 with
        | none => none
        | some de =>
          if de.length ≠ 16 then none
          else if direntInum de ≠ 0 ∧ Fs.namecmp name (de.drop 2) = 0 then some (some (direntInum de,off),r.2)
          else lookupLoop name k r.2.1 r.2.2 (off+16))
    else some (none,s,ip)

/-- `dirlookup` in a directory, whose inode has been loaded. -/
def dirlookup (s : Store) (dp : Dinode) (name : List UInt8) : Option (Option (ℕ × ℕ) × Store × Dinode) :=
  if dp.type ≠ 1 then none else lookupLoop name (dp.size+1) s dp 0

/-- The inode as `ilock` loads it. -/
def ilock (s : Store) (inum : ℕ) : Option Dinode :=
  if (rinode s.img inum).type = 0 then none else some (rinode s.img inum)

end Xv6Threads.Disk
