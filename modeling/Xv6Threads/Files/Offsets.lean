import Xv6Threads.Disk.Format
import Xv6Threads.Foundations.Lock
import Xv6Threads.Foundations.Transition

/-! One `struct file` on a regular file, shared by any number of processes. Each chunk of `fileread` and `filewrite` is
transferred and the offset advanced under the lock of the inode, so the chunks lie one behind the other. -/
namespace Xv6Threads.Offsets
open Function List Nat
open Disk (Block bsize maxfile)

/-- A regular file as `bmap` shows it: its size and its blocks by their numbers in the file. -/
structure Content where
  size : ℕ
  block : ℕ → Block

/-- Byte `p` of a file with these blocks. -/
def byteAt (blk : ℕ → Block) (p : ℕ) : UInt8 := blk (p/bsize) (p%bsize)

/-- `memmove(bp->data + o, src, m)` -/
def memmove (bp : Block) (o : ℕ) (src : List UInt8) (m : ℕ) : Block :=
  fun j => if o ≤ j ∧ j < o+m then src.getD (j-o) 0 else bp j

/-- The loop of `writei`, at most `k` rounds; a round writes at least one byte. -/
def writeLoop : ℕ → (ℕ → Block) → ℕ → List UInt8 → ℕ → Block
  | 0, blk, _, _ => blk
  | k+1, blk, off, src =>
    if src = [] then blk
    else
      let m := min src.length (bsize-off%bsize)
      writeLoop k (update blk (off/bsize) (memmove (blk (off/bsize)) (off%bsize) src m)) (off+m) (src.drop m)

/-- The loop of `readi`, likewise. -/
def readLoop (blk : ℕ → Block) : ℕ → ℕ → ℕ → List UInt8
  | 0, _, _ => []
  | k+1, off, n =>
    if n = 0 then []
    else
      let m := min n (bsize-off%bsize)
      (List.range m).map (fun j => blk (off/bsize) (off%bsize+j))++readLoop blk k (off+m) (n-m)

/-- `readi`; `none` is `-1`. -/
def readi (x : Content) (off n : ℕ) : Option (List UInt8) :=
  if x.size < off ∨ (off+n)%2^32 < off then none
  else
    let n := if x.size < off+n then x.size-off else n
    some (readLoop x.block n off n)

/-- `writei`; `none` is `-1`. -/
def writei (x : Content) (off : ℕ) (src : List UInt8) : Option Content :=
  if x.size < off ∨ (off+src.length)%2^32 < off then none
  else if maxfile*bsize < off+src.length then none
  else
    some ⟨if 0 < src.length ∧ x.size < off+src.length then off+src.length else x.size,
      writeLoop src.length x.block off src⟩

/-- `max` in `filewrite` -/
def maxWrite : ℕ := (maxOpBlocks-1-1-2)/2*512

/-- A call in progress: a read of `n` bytes, or a write of `n` bytes of which `i` are written. -/
inductive Call
  | read (n : ℕ)
  | write (n i : ℕ)
  deriving DecidableEq

/-- A transfer: where it starts and the bytes. -/
structure Chunk where
  start : ℕ
  bytes : List UInt8
  deriving DecidableEq

open Chunk

/-- Where a process is: outside, at `ilock`, before the transfer, before `f->off += r`, and at `iunlock`. The last two
have what `readi` or `writei` returned. -/
inductive Pc
  | user
  | ilock (c : Call)
  | transfer (c : Call)
  | advance (c : Call) (r : Option Chunk)
  | iunlock (c : Call) (r : Option Chunk)
  deriving DecidableEq

def Pc.locked : Pc → Bool
  | .transfer _ | .advance _ _ | .iunlock _ _ => true
  | _ => false

structure State (T : Type) where
  readable : Bool
  writable : Bool
  file : Content
  off : ℕ
  lock : Option T
  pc : T → Pc
  /-- the chunks by which the offset has been advanced, in order -/
  chunks : List Chunk

open State

/-- A call starts, or a process takes its next step; `src` is the memory that a write finds at its address. -/
inductive Label (T : Type)
  | call (t : T) (c : Call)
  | run (t : T) (src : ℕ → UInt8)

variable {T : Type} [DecidableEq T]

def State.goto (s : State T) (t : T) (k : Pc) : State T := {s with pc := update s.pc t k}

/-- `n1` in `filewrite` -/
def chunkSize (n i : ℕ) : ℕ := min (n-i) maxWrite

/-- Where a call goes after `iunlock`. -/
def Call.next (r : Option Chunk) : Call → Option Pc
  | .read _ => some .user
  | .write n i =>
    match r with
    | none => some .user
    | some x =>
      if x.bytes.length ≠ chunkSize n i then none -- panic
      else some (if i+x.bytes.length < n then .ilock (.write n (i+x.bytes.length)) else .user)

def State.run (s : State T) (t : T) (src : ℕ → UInt8) : Option (State T) :=
  match s.pc t with
  | .user => none
  | .ilock c => if s.lock = none then some ({s with lock := some t}.goto t (.transfer c)) else none
  | .transfer (.read n) => some (s.goto t (.advance (.read n) ((readi s.file s.off n).map (Chunk.mk s.off))))
  | .transfer (.write n i) =>
    let data := (List.range (chunkSize n i)).map src
    match writei s.file s.off data with
    | none => some (s.goto t (.advance (.write n i) none))
    | some x => some ({s with file := x}.goto t (.advance (.write n i) (some ⟨s.off,data⟩)))
  | .advance c none => some (s.goto t (.iunlock c none))
  | .advance c (some x) =>
    -- an empty chunk leaves the offset
    if x.bytes = [] then some (s.goto t (.iunlock c (some x)))
    else some ({s with off := (s.off+x.bytes.length)%2^32, chunks := s.chunks++[x]}.goto t (.iunlock c (some x)))
  | .iunlock c r => (c.next r).map (fun k => {s with lock := none}.goto t k)

/-- `fileread` and `filewrite` test the access mode; a write of no bytes returns at once. -/
def State.call (s : State T) (t : T) : Call → Option (State T)
  | .read n => some (if s.readable then s.goto t (.ilock (.read n)) else s)
  | .write n 0 => some (if s.writable ∧ 0 < n then s.goto t (.ilock (.write n 0)) else s)
  | .write _ (_+1) => none

def State.step (s : State T) : Label T → Option (State T)
  | .call t c => if s.pc t = .user then s.call t c else none
  | .run t src => s.run t src

/-- The file has just been opened. -/
structure Opened (s : State T) : Prop where
  off : s.off = 0
  size : s.file.size ≤ maxfile*bsize
  lock : s.lock = none
  pc : ∀ t, s.pc t = .user
  chunks : s.chunks = []

variable (T) in
def sharedFile : System (State T) (Label T) where
  init := Opened
  step := State.step

section
variable {blk : ℕ → Block} {k off m n : ℕ} {src : List UInt8}

lemma byteAt_memmove (hm : m ≤ bsize-off%bsize) (p : ℕ) :
    byteAt (update blk (off/bsize) (memmove (blk (off/bsize)) (off%bsize) src m)) p =
      if off ≤ p ∧ p < off+m then src.getD (p-off) 0 else byteAt blk p := by
  unfold byteAt
  by_cases hp : p/bsize = off/bsize
  · have hiff : (off%bsize ≤ p%bsize ∧ p%bsize < off%bsize+m) ↔ off ≤ p ∧ p < off+m := by
      unfold bsize at hp hm ⊢
      omega
    have hsub : p%bsize-off%bsize = p-off := by
      unfold bsize at hp ⊢
      omega
    simp only [hp,update_self,memmove,hiff,hsub]
  · have hout : ¬(off ≤ p ∧ p < off+m) := by
      unfold bsize at hp hm
      omega
    simp only [update_of_ne hp,if_neg hout]

/-- The loop of `writei` puts the bytes at the offset and leaves the others. -/
lemma byteAt_writeLoop (hk : src.length ≤ k) (p : ℕ) : byteAt (writeLoop k blk off src) p =
      if off ≤ p ∧ p < off+src.length then src.getD (p-off) 0 else byteAt blk p := by
  induction k generalizing blk off src with
  | zero =>
    have : src = [] := length_eq_zero_iff.mp (le_zero.mp hk)
    simp only [writeLoop,this,length_nil]
    rw [if_neg (by omega)]
  | succ k ih =>
    unfold writeLoop
    by_cases hs : src = []
    · rw [if_pos hs,hs,length_nil,if_neg (by omega)]
    · have hpos : 0 < src.length := length_pos_iff.mpr hs
      have hroom : 0 < bsize-off%bsize := by
        unfold bsize
        omega
      simp only [if_neg hs]
      generalize hm : min src.length (bsize-off%bsize) = m
      have hget : ∀ q, off+m ≤ q → (src.drop m).getD (q-(off+m)) 0 = src.getD (q-off) 0 := fun q hq => by
        simp only [getD_eq_getElem?_getD,getElem?_drop]
        congr 2
        omega
      rw [ih (by rw [length_drop]; omega),byteAt_memmove (by omega),length_drop]
      by_cases hp : off+m ≤ p
      · rw [hget p hp,if_neg (show ¬(off ≤ p ∧ p < off+m) by omega)]
        congr 1
        rw [eq_iff_iff]
        omega
      · rw [if_neg (show ¬(off+m ≤ p ∧ p < off+m+(src.length-m)) by omega)]
        congr 1
        rw [eq_iff_iff]
        omega

/-- The loop of `readi` gives the bytes from the offset on. -/
lemma readLoop_eq (hk : n ≤ k) : readLoop blk k off n = (range n).map (fun j => byteAt blk (off+j)) := by
  induction k generalizing off n with
  | zero =>
    obtain rfl : n = 0 := le_zero.mp hk
    rfl
  | succ k ih =>
    unfold readLoop
    by_cases hn : n = 0
    · simp [hn]
    · have hroom : 0 < bsize-off%bsize := by
        unfold bsize
        omega
      simp only [if_neg hn]
      generalize hm : min n (bsize-off%bsize) = m
      have hfirst : (range m).map (fun j => blk (off/bsize) (off%bsize+j)) =
          (range m).map (fun j => byteAt blk (off+j)) := by
        refine map_congr_left fun j hj => ?_
        have hj : j < m := mem_range.mp hj
        have h1 : (off+j)/bsize = off/bsize := by
          unfold bsize at hm ⊢
          omega
        have h2 : (off+j)%bsize = off%bsize+j := by
          unfold bsize at hm ⊢
          omega
        rw [byteAt,h1,h2]
      have hsplit : range n = range m++(range (n-m)).map (m+·) := by
        rw [← range_add]
        congr 1
        omega
      rw [hfirst,ih (by omega),hsplit,map_append,map_map]
      congr 1
      refine map_congr_left fun j _ => ?_
      simp only [Function.comp_apply,add_assoc]

end

/-- The chunks lie one behind the other, from `p` to `q`. -/
def Consecutive : ℕ → List Chunk → ℕ → Prop
  | p, [], q => q = p
  | p, x :: l, q => x.start = p ∧ Consecutive (p+x.bytes.length) l q

variable {bs : List UInt8}

lemma Consecutive.concat {p q : ℕ} {l : List Chunk} (h : Consecutive p l q) :
    Consecutive p (l++[⟨q,bs⟩]) (q+bs.length) := by
  induction l generalizing p with
  | nil =>
    cases h
    exact ⟨rfl,rfl⟩
  | cons x l ih => exact ⟨h.1,ih h.2⟩

/-- The bytes of the file from `p` on. -/
def Spells (blk : ℕ → Block) (p : ℕ) (bs : List UInt8) : Prop := ∀ k c, bs[k]? = some c → byteAt blk (p+k) = c

lemma spells_append {blk : ℕ → Block} {p : ℕ} {a b : List UInt8} (ha : Spells blk p a) (hb : Spells blk (p+a.length) b) :
    Spells blk p (a++b) := by
  intro k c hc
  rcases lt_or_ge k a.length with hk | hk
  · rw [getElem?_append_left hk] at hc
    exact ha k c hc
  · rw [getElem?_append_right hk] at hc
    have := hb (k-a.length) c hc
    rwa [Nat.add_assoc,Nat.add_sub_cancel' hk] at this

lemma Spells.congr {blk blk' : ℕ → Block} {p : ℕ} (h : Spells blk p bs)
    (hb : ∀ q, q < p+bs.length → byteAt blk' q = byteAt blk q) : Spells blk' p bs := by
  intro k c hc
  have hk := (List.getElem?_eq_some_iff.mp hc).1
  rw [hb (p+k) (by omega)]
  exact h k c hc

lemma readi_spec {x : Content} {off n : ℕ} (h : readi x off n = some bs) :
    Spells x.block off bs ∧ off+bs.length ≤ x.size := by
  unfold readi at h
  split at h
  · cases h
  cases h
  rw [readLoop_eq le_rfl]
  constructor
  · intro k c hc
    rw [getElem?_map] at hc
    obtain ⟨j,hj,rfl⟩ := Option.map_eq_some_iff.mp hc
    rw [List.getElem?_range (by simpa using (List.getElem?_eq_some_iff.mp hj).1)] at hj
    cases hj
    rfl
  · simp only [length_map,length_range]
    split_ifs <;> omega

lemma writei_spec {x y : Content} {off : ℕ} {src : List UInt8} (h : writei x off src = some y) :
    Spells y.block off src ∧ off+src.length ≤ y.size ∧ (∀ q, q < off → byteAt y.block q = byteAt x.block q) ∧
    x.size ≤ y.size ∧ (x.size ≤ maxfile*bsize → y.size ≤ maxfile*bsize) := by
  unfold writei at h
  split at h
  · cases h
  split at h
  · cases h
  cases h
  refine ⟨fun k c hc => ?_,?_,fun q hq => ?_,?_,?_⟩
  · have hk := (List.getElem?_eq_some_iff.mp hc).1
    rw [byteAt_writeLoop le_rfl,if_pos (by omega),Nat.add_sub_cancel_left,getD_eq_getElem?_getD,hc]
    rfl
  · dsimp only
    split_ifs <;> omega
  · rw [byteAt_writeLoop le_rfl,if_neg (by omega)]
  · dsimp only
    split_ifs <;> omega
  · dsimp only
    split_ifs <;> omega

/-- What a process has transferred and not yet added to the offset. -/
def Pc.pending : Pc → Option Chunk
  | .advance _ r => r
  | _ => none

structure InOrder (s : State T) : Prop where
  locked : Guarded Pc.locked s.lock s.pc
  size : s.file.size ≤ maxfile*bsize
  off : s.off ≤ s.file.size
  chunks : Consecutive 0 s.chunks s.off
  bytes : Spells s.file.block 0 (s.chunks.flatMap Chunk.bytes)
  total : (s.chunks.flatMap Chunk.bytes).length = s.off
  pending : ∀ t x, (s.pc t).pending = some x → x.start = s.off ∧ Spells s.file.block s.off x.bytes ∧
    s.off+x.bytes.length ≤ s.file.size

section
variable {s s' : State T} {t : T}

lemma InOrder.goto {k : Pc} (hI : InOrder s) (hfile : s'.file = s.file) (hoff : s'.off = s.off)
    (hchunks : s'.chunks = s.chunks) (hpc : s'.pc = update s.pc t k)
    (hlock : Handover t s.lock s'.lock (s.pc t).locked k.locked)
    (hpend : ∀ x, k.pending = some x → x.start = s.off ∧ Spells s.file.block s.off x.bytes ∧
      s.off+x.bytes.length ≤ s.file.size) : InOrder s' := by
  refine ⟨?_,by rw [hfile]; exact hI.size,by rw [hfile,hoff]; exact hI.off,by rw [hchunks,hoff]; exact hI.chunks,
    by rw [hfile,hchunks]; exact hI.bytes,by rw [hchunks,hoff]; exact hI.total,fun u x hu => ?_⟩
  · rw [hpc]
    exact hI.locked.step hlock
  · rw [hfile,hoff]
    rw [hpc] at hu
    by_cases hut : u = t
    · rw [hut,update_self] at hu
      exact hpend x hu
    · rw [update_of_ne hut] at hu
      exact hI.pending u x hu

omit [DecidableEq T] in
lemma InOrder.alone (hI : InOrder s) (ht : (s.pc t).locked = true) {u : T} {x : Chunk} (hu : (s.pc u).pending = some x) :
    u = t := by
  refine hI.locked.unique ?_ ht
  cases hpc : s.pc u <;> rw [hpc] at hu <;> first | rfl | cases hu

lemma inOrder_write {n i : ℕ} {data : List UInt8} {x : Content} (hI : InOrder s) (hpc : s.pc t = .transfer (.write n i))
    (hw : writei s.file s.off data = some x) :
    InOrder ({s with file := x}.goto t (.advance (.write n i) (some ⟨s.off,data⟩))) := by
  obtain ⟨h1,h2,h3,h4,h5⟩ := writei_spec hw
  refine ⟨hI.locked.step (.keep rfl (by rw [hpc]; rfl)),h5 hI.size,le_trans hI.off h4,hI.chunks,
    hI.bytes.congr fun q hq => h3 q (by rw [zero_add,hI.total] at hq; exact hq),hI.total,fun u y hu => ?_⟩
  by_cases hut : u = t
  · subst hut
    rw [show _ = _ from congrArg Pc.pending (update_self ..)] at hu
    cases hu
    exact ⟨rfl,h1,h2⟩
  · have hu' : (s.pc u).pending = some y := by rwa [show _ = _ from congrArg Pc.pending (update_of_ne hut ..)] at hu
    exact absurd (hI.alone (by rw [hpc]; rfl) hu') hut

lemma inOrder_advance {c : Call} {x : Chunk} (hI : InOrder s) (hpc : s.pc t = .advance c (some x)) :
    InOrder ({s with off := (s.off+x.bytes.length)%2^32, chunks := s.chunks++[x]}.goto t (.iunlock c (some x))) := by
  obtain ⟨h1,h2,h3⟩ := hI.pending t x (by rw [hpc]; rfl)
  have hsize := hI.size
  have hmod : (s.off+x.bytes.length)%2^32 = s.off+x.bytes.length := by
    unfold maxfile bsize at hsize
    omega
  have hx : x = ⟨s.off,x.bytes⟩ := by rw [← h1]
  have hflat : (s.chunks++[x]).flatMap bytes = s.chunks.flatMap bytes++x.bytes := by simp
  rw [hmod]
  refine ⟨hI.locked.step (.keep rfl (by rw [hpc]; rfl)),hsize,h3,?_,?_,?_,fun u y hu => ?_⟩
  · change Consecutive 0 (s.chunks++[x]) _
    rw [hx]
    exact hI.chunks.concat
  · change Spells _ 0 ((s.chunks++[x]).flatMap bytes)
    rw [hflat]
    refine spells_append hI.bytes ?_
    rw [zero_add,hI.total]
    exact h2
  · change ((s.chunks++[x]).flatMap bytes).length = _
    rw [hflat,length_append,hI.total]
    rfl
  · by_cases hut : u = t
    · subst hut
      rw [show _ = _ from congrArg Pc.pending (update_self ..)] at hu
      cases hu
    · have hu' : (s.pc u).pending = some y := by rwa [show _ = _ from congrArg Pc.pending (update_of_ne hut ..)] at hu
      exact absurd (hI.alone (by rw [hpc]; rfl) hu') hut

lemma inOrder_run {src : ℕ → UInt8} (hI : InOrder s) (h : s.run t src = some s') : InOrder s' := by
  unfold run at h
  split at h
  · cases h
  case h_2 c hpc =>
    split_ifs at h with hf
    cases h
    exact hI.goto rfl rfl rfl rfl (.take hf rfl rfl) nofun
  case h_3 n hpc =>
    cases h
    refine hI.goto rfl rfl rfl rfl (.keep rfl (by rw [hpc]; rfl)) fun x hx => ?_
    obtain ⟨bs,hbs,rfl⟩ := Option.map_eq_some_iff.mp hx
    obtain ⟨h1,h2⟩ := readi_spec hbs
    exact ⟨rfl,h1,h2⟩
  case h_4 n i hpc =>
    dsimp only at h
    split at h
    · cases h
      exact hI.goto rfl rfl rfl rfl (.keep rfl (by rw [hpc]; rfl)) nofun
    case h_2 x hw =>
      cases h
      exact inOrder_write hI hpc hw
  case h_5 c hpc =>
    cases h
    exact hI.goto rfl rfl rfl rfl (.keep rfl (by rw [hpc]; rfl)) nofun
  case h_6 c x hpc =>
    split_ifs at h with hx
    · cases h
      exact hI.goto rfl rfl rfl rfl (.keep rfl (by rw [hpc]; rfl)) nofun
    · cases h
      exact inOrder_advance hI hpc
  case h_7 c r hpc =>
    obtain ⟨k,hk,rfl⟩ := Option.map_eq_some_iff.mp h
    have hout : k.locked = false ∧ k.pending = none := by
      unfold Call.next at hk
      split at hk
      · cases hk
        exact ⟨rfl,rfl⟩
      · split at hk
        · cases hk
          exact ⟨rfl,rfl⟩
        · split_ifs at hk <;> cases hk <;> exact ⟨rfl,rfl⟩
    refine hI.goto rfl rfl rfl rfl (.drop (by rw [hpc]; rfl) rfl hout.1) fun x hx => ?_
    rw [hout.2] at hx
    cases hx

lemma inOrder_step {l : Label T} (hI : InOrder s) (h : s.step l = some s') : InOrder s' := by
  cases l with
  | run t src => exact inOrder_run hI h
  | call t c =>
    simp only [step] at h
    split_ifs at h with hpc
    have hkeep : ∀ c, InOrder (s.goto t (.ilock c)) := fun c =>
      hI.goto rfl rfl rfl rfl (.keep rfl (by rw [hpc]; rfl)) nofun
    unfold call at h
    split at h
    · cases h
      split_ifs
      · exact hkeep _
      · exact hI
    · cases h
      split_ifs
      · exact hkeep _
      · exact hI
    · cases h

end

lemma reach_inOrder {s : State T} (h : (sharedFile T).Reachable s) : InOrder s := by
  refine System.Reachable.invariant (I := InOrder) (fun s h0 => ?_) (fun s l s' hI h => inOrder_step hI h) h
  refine ⟨fun t => ?_,h0.size,?_,?_,?_,?_,fun t x hx => ?_⟩
  · rw [h0.lock,h0.pc t]
    exact ⟨nofun,nofun⟩
  · rw [h0.off]
    exact zero_le _
  · rw [h0.chunks,h0.off]
    rfl
  · rw [h0.chunks]
    exact nofun
  · rw [h0.chunks,h0.off]
    rfl
  · rw [h0.pc t] at hx
    cases hx

/-- A shared offset loses no update: the chunks lie one behind the other from 0 to `f->off`, which is the number of bytes
transferred, and the file has the bytes of the chunks in that order, those read as well as those written. -/
theorem shared_offset_exact {s : State T} (h : (sharedFile T).Reachable s) :
    Consecutive 0 s.chunks s.off ∧ s.off = (s.chunks.map (fun x => x.bytes.length)).sum ∧
    (List.range s.off).map (byteAt s.file.block) = s.chunks.flatMap Chunk.bytes := by
  have hI := reach_inOrder h
  refine ⟨hI.chunks,?_,?_⟩
  · rw [← hI.total,length_flatMap]
  · refine ext_getElem (by simp [hI.total]) fun k h1 h2 => ?_
    have := hI.bytes k _ (List.getElem?_eq_getElem h2)
    simpa using this

def opened : State (Fin 2) := ⟨true,true,⟨0,fun _ _ => 0⟩,0,none,fun _ => .user,[]⟩

/-- Two processes write one byte each, and the second is in between the first's `ilock` and its `iunlock`. -/
theorem two_writers_in_order : ∃ s, (sharedFile (Fin 2)).Reachable s ∧ s.chunks = [⟨0,[7]⟩,⟨1,[9]⟩] ∧
    (List.range s.off).map (byteAt s.file.block) = s.chunks.flatMap Chunk.bytes := by
  have hrun : ∃ s, (sharedFile (Fin 2)).Reachable s ∧ s.chunks = [⟨0,[7]⟩,⟨1,[9]⟩] :=
    System.reachable_of_exec (List.flatten [[.call 0 (.write 1 0),.call 1 (.write 1 0),.run 0 (fun _ => 7)],
      List.replicate 3 (.run 0 (fun _ => 7)),List.replicate 3 (.run 1 (fun _ => 9))]) _
      (⟨rfl,by decide,rfl,fun _ => rfl,rfl⟩ : Opened opened) (by decide +kernel)
  obtain ⟨s,hs,ht⟩ := hrun
  exact ⟨s,hs,ht,(shared_offset_exact hs).2.2⟩

end Xv6Threads.Offsets
