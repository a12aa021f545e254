import Mathlib
import Xv6Threads.Param

/-! The disk format of `fs.h`, byte by byte: little-endian words, inodes in their blocks, and the
addresses of the blocks of a file. -/
namespace Xv6Threads.Disk
open Function Nat

abbrev Block := ℕ → UInt8

abbrev Image := ℕ → Block

abbrev bsize : ℕ := 512

abbrev ndirect : ℕ := 12

abbrev nindirect : ℕ := 128

abbrev maxfile : ℕ := 140

/-- `sb.inodestart` and `sb.bmapstart`, and the number of blocks before the data. -/
abbrev inodestart : ℕ := 32

abbrev bmapstart : ℕ := 58

abbrev nmeta : ℕ := 59

/-- Byte `j` of a word, the lowest first. -/
def byteOf (v j : ℕ) : UInt8 := UInt8.ofNat (v/256^j)

/-- The `ushort` at `o`. -/
def getShort (b : Block) (o : ℕ) : ℕ := (b o).toNat+256*(b (o+1)).toNat

/-- The `uint` at `o`. -/
def getInt (b : Block) (o : ℕ) : ℕ :=
  (b o).toNat+256*((b (o+1)).toNat+256*((b (o+2)).toNat+256*(b (o+3)).toNat))

lemma toNat_byteOf (v j : ℕ) : (byteOf v j).toNat = v/256^j%256 := UInt8.toNat_ofNat'

variable {b : Block} {o v : ℕ}

lemma getShort_of (hv : v < 2^16) (h : ∀ j, j < 2 → b (o+j) = byteOf v j) : getShort b o = v := by
  have h0 := h 0 (by omega)
  have h1 := h 1 (by omega)
  rw [add_zero] at h0
  unfold getShort
  rw [h0,h1,toNat_byteOf,toNat_byteOf]
  omega

lemma getInt_of (hv : v < 2^32) (h : ∀ j, j < 4 → b (o+j) = byteOf v j) : getInt b o = v := by
  have h0 := h 0 (by omega)
  have h1 := h 1 (by omega)
  have h2 := h 2 (by omega)
  have h3 := h 3 (by omega)
  rw [add_zero] at h0
  unfold getInt
  rw [h0,h1,h2,h3,toNat_byteOf,toNat_byteOf,toNat_byteOf,toNat_byteOf]
  omega

lemma getInt_congr {b b' : Block} {o o' : ℕ} (h : ∀ j, j < 4 → b' (o'+j) = b (o+j)) : getInt b' o' = getInt b o := by
  have h0 := h 0 (by omega)
  have h1 := h 1 (by omega)
  have h2 := h 2 (by omega)
  have h3 := h 3 (by omega)
  rw [add_zero,add_zero] at h0
  unfold getInt
  rw [h0,h1,h2,h3]

/-- Set the `uint` at `o`. -/
def putInt (b : Block) (o v : ℕ) : Block := fun i => if o ≤ i ∧ i < o+4 then byteOf v (i-o) else b i

lemma getInt_putInt (hv : v < 2^32) : getInt (putInt b o v) o = v := by
  refine getInt_of hv fun j hj => ?_
  unfold putInt
  rw [if_pos (by omega),Nat.add_sub_cancel_left]

lemma getInt_putInt_ne {o o' v : ℕ} (h : o'+4 ≤ o ∨ o+4 ≤ o') : getInt (putInt b o v) o' = getInt b o' := by
  refine getInt_congr fun j hj => ?_
  unfold putInt
  rw [if_neg (by omega)]

/-- `struct dinode`; the device numbers are always 0 here. -/
structure Dinode where
  type : ℕ
  nlink : ℕ
  size : ℕ
  addrs : ℕ → ℕ

open Dinode

/-- The 64 bytes of an inode. -/
def Dinode.bytes (d : Dinode) (o : ℕ) : UInt8 :=
  if o < 2 then byteOf d.type o
  else if o < 6 then 0
  else if o < 8 then byteOf d.nlink (o-6)
  else if o < 12 then byteOf d.size (o-8)
  else byteOf (d.addrs ((o-12)/4)) ((o-12)%4)

/-- The inode in the 64 bytes from `o`. -/
def dinodeAt (b : Block) (o : ℕ) : Dinode :=
  ⟨getShort b o,getShort b (o+6),getInt b (o+8),fun k => getInt b (o+12+4*k)⟩

def iblock (inum : ℕ) : ℕ := inum/8+inodestart

/-- `rinode` of `mkfs`, and what `ilock` loads. -/
def rinode (D : Image) (inum : ℕ) : Dinode := dinodeAt (D (iblock inum)) (64*(inum%8))

def winode (D : Image) (inum : ℕ) (d : Dinode) : Image :=
  update D (iblock inum) (fun o =>
    if 64*(inum%8) ≤ o ∧ o < 64*(inum%8)+64 then d.bytes (o-64*(inum%8)) else D (iblock inum) o)

section
variable {D : Image} {inum : ℕ} {d : Dinode}

lemma winode_other {b : ℕ} (h : b ≠ iblock inum) : winode D inum d b = D b := update_of_ne h ..

lemma winode_byte {j : ℕ} (hj : j < 64) : winode D inum d (iblock inum) (64*(inum%8)+j) = d.bytes j := by
  unfold winode
  rw [update_self,if_pos (by omega),Nat.add_sub_cancel_left]

lemma rinode_size (h : d.size < 2^32) : (rinode (winode D inum d) inum).size = d.size := by
  refine getInt_of h fun j hj => ?_
  rw [add_assoc,winode_byte (by omega)]
  unfold bytes
  rw [if_neg (by omega),if_neg (by omega),if_neg (by omega),if_pos (by omega),Nat.add_sub_cancel_left]

lemma rinode_type (h : d.type < 2^16) : (rinode (winode D inum d) inum).type = d.type := by
  refine getShort_of h fun j hj => ?_
  rw [winode_byte (by omega)]
  unfold bytes
  rw [if_pos hj]

lemma rinode_nlink (h : d.nlink < 2^16) : (rinode (winode D inum d) inum).nlink = d.nlink := by
  refine getShort_of h fun j hj => ?_
  rw [add_assoc,winode_byte (by omega)]
  unfold bytes
  rw [if_neg (by omega),if_neg (by omega),if_pos (by omega),Nat.add_sub_cancel_left]

lemma rinode_addrs {k : ℕ} (hk : k < 13) (h : d.addrs k < 2^32) : (rinode (winode D inum d) inum).addrs k = d.addrs k := by
  refine getInt_of h fun j hj => ?_
  rw [show 64*(inum%8)+12+4*k+j = 64*(inum%8)+(12+4*k+j) by omega,winode_byte (by omega)]
  unfold bytes
  rw [if_neg (by omega),if_neg (by omega),if_neg (by omega),if_neg (by omega),show (12+4*k+j-12)/4 = k by omega,
    show (12+4*k+j-12)%4 = j by omega]

/-- The fields of an inode that mean something. -/
structure SameInode (d d' : Dinode) : Prop where
  type : d'.type = d.type
  nlink : d'.nlink = d.nlink
  size : d'.size = d.size
  addrs : ∀ k, k < 13 → d'.addrs k = d.addrs k

lemma SameInode.of_eq {d d' : Dinode} (h : d' = d) : SameInode d d' := by
  subst h
  exact ⟨rfl,rfl,rfl,fun _ _ => rfl⟩

lemma SameInode.trans {d₁ d₂ d₃ : Dinode} (h : SameInode d₁ d₂) (h' : SameInode d₂ d₃) : SameInode d₁ d₃ :=
  ⟨h'.type.trans h.type,h'.nlink.trans h.nlink,h'.size.trans h.size,fun k hk => (h'.addrs k hk).trans (h.addrs k hk)⟩

lemma rinode_other {j : ℕ} (h : j ≠ inum) : SameInode (rinode D j) (rinode (winode D inum d) j) := by
  have hbyte : ∀ o, o < 64 → winode D inum d (iblock j) (64*(j%8)+o) = D (iblock j) (64*(j%8)+o) := by
    intro o ho
    by_cases hb : iblock j = iblock inum
    · unfold winode
      have hmod : j%8 ≠ inum%8 := by
        unfold iblock at hb
        omega
      rw [hb,update_self,if_neg (by omega)]
    · rw [winode_other hb]
  have hshort : ∀ o, o+1 < 64 → getShort (winode D inum d (iblock j)) (64*(j%8)+o) = getShort (D (iblock j)) (64*(j%8)+o) := by
    intro o ho
    unfold getShort
    rw [hbyte o (by omega),add_assoc,hbyte (o+1) ho]
  have hint : ∀ o, o+3 < 64 → getInt (winode D inum d (iblock j)) (64*(j%8)+o) = getInt (D (iblock j)) (64*(j%8)+o) := by
    intro o ho
    refine getInt_congr fun i hi => ?_
    rw [add_assoc,hbyte (o+i) (by omega)]
  refine ⟨hshort 0 (by omega),hshort 6 (by omega),hint 8 (by omega),fun k hk => ?_⟩
  have := hint (12+4*k) (by omega)
  rw [← add_assoc] at this
  exact this

lemma rinode_congr {E : Image} (h : E (iblock inum) = D (iblock inum)) : rinode E inum = rinode D inum := by
  unfold rinode
  rw [h]

end

/-- The address of block `bn` of a file, 0 if it has none. -/
def blockOf (D : Image) (d : Dinode) (bn : ℕ) : ℕ :=
  if bn < ndirect then d.addrs bn else getInt (D (d.addrs ndirect)) (4*(bn-ndirect))

end Xv6Threads.Disk
