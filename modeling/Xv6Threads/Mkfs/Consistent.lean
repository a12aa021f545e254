import Xv6Threads.Mkfs.Contents

/-! The finished image and the consistency that the kernel relies on. -/
namespace Xv6Threads.Mkfs
open Function List Option Nat Or Disk
open Fs (dot dotdot slash)

/-- The root directory before its size is fixed. -/
def rootBytes (files : List Input) : List UInt8 := dirent 1 Fs.dot++dirent 1 Fs.dotdot++entries 2 files

/-- Everything that goes on the image. -/
def contents (files : List Input) : List (List UInt8) := rootBytes files :: files.map (fun f => f.chunks.flatten)

lemma length_dirent (k : ℕ) (name : List UInt8) : (dirent k name).length = 16 := by
  unfold dirent
  rw [length_cons,length_cons,Fs.length_strncpy]
  rfl

lemma length_entries (k : ℕ) (files : List Input) : (entries k files).length = 16*files.length := by
  induction files generalizing k with
  | nil => rfl
  | cons f fs ih =>
    unfold entries
    rw [length_append,length_dirent,ih,length_cons]
    omega

lemma length_rootBytes (files : List Input) : (rootBytes files).length = 16*(files.length+2) := by
  unfold rootBytes
  rw [length_append,length_append,length_dirent,length_dirent,length_entries]
  omega

lemma withRoot_holding : ∃ m, withRoot = some m ∧ Holding m [dirent 1 dot++dirent 1 dotdot] := by
  obtain ⟨m₁,hm₁,h₁⟩ := ialloc_holding ⟨[],built_blank,rfl⟩ (by decide)
  have hm₁' : ialloc blank tDir = some (1,m₁) := hm₁
  unfold withRoot
  rw [hm₁',bind_some,if_pos (show (1 : ℕ) = rootino from rfl)]
  have hfit : Fits [dirent 1 dot++dirent 1 dotdot] := ⟨by decide,by decide⟩
  have hfit₁ : Fits [dirent 1 dot] := ⟨by decide,by decide⟩
  rcases iappend_holding h₁ (i := 0) rfl (dirent 1 dot) with ⟨hnone,hfull⟩ | ⟨m₂,hm₂,h₂⟩
  · exact absurd hfit₁ hfull
  rcases iappend_holding h₂ (i := 0) rfl (dirent 1 dotdot) with ⟨hnone,hfull⟩ | ⟨m₃,hm₃,h₃⟩
  · exact absurd hfit hfull
  refine ⟨m₃,?_,h₃⟩
  dsimp only
  rw [show iappend m₁ 1 (dirent 1 dot) = some m₂ from hm₂,bind_some]
  exact hm₃

/-- The finished image: the size of the root directory has been rounded, and the bitmap is there. -/
structure Done (m : Mk) (nodes : List Node) : Prop where
  low : 59 ≤ m.freeblock
  high : m.freeblock ≤ 1000
  inum : m.freeinode = nodes.length+1
  few : nodes.length < 200
  rep : ∀ i n, nodes[i]? = some n → Rep m.disk m.freeblock (rinode m.disk (i+1)).addrs n
  snug : ∀ n ∈ nodes, Snug n
  type : ∀ i n, nodes[i]? = some n → (rinode m.disk (i+1)).type = typeOf i
  root : ∀ n, nodes[0]? = some n → (rinode m.disk 1).size = (n.content.length/512+1)*512
  file : ∀ i n, nodes[i]? = some n → 0 < i → (rinode m.disk (i+1)).size = n.content.length
  owned : (nodes.flatMap Node.owned).Perm (List.range' 59 (m.freeblock-59))
  bits : m.disk bmapstart = bitmap m.freeblock
  iwrites : ∀ b ∈ m.iwrites, 32 ≤ b ∧ b < 58

lemma finish_spec {m : Mk} {nodes : List Node} (h : Built m nodes) (h0 : 0 < nodes.length) :
    ∃ m', (fixRoot m).bind balloc = some m' ∧ Done m' nodes := by
  have hhigh := h.high
  unfold fixRoot
  rw [rinode_eq m (by decide),bind_some,winode_eq _ _ (by decide),bind_some]
  unfold balloc
  dsimp only
  rw [if_pos (show m.freeblock < 512*8 by omega)]
  generalize hd : ({rinode m.disk rootino with size := ((rinode m.disk rootino).size/bsize+1)*bsize} : Dinode) = d
  generalize hD : update (winode m.disk rootino d) bmapstart (bitmap m.freeblock) = D
  have hroot : iblock rootino = 32 := rfl
  have hdata : ∀ b, 59 ≤ b → D b = m.disk b := by
    intro b hb
    rw [← hD,update_of_ne (show b ≠ 58 by omega),winode_other (by omega)]
  have hinode : ∀ i, i < nodes.length → rinode D (i+1) = rinode (winode m.disk rootino d) (i+1) := by
    intro i hi
    have hfew := h.few
    have hblock := iblock_range (show i+1 < 200 by omega)
    refine rinode_congr ?_
    rw [← hD,update_of_ne (show iblock (i+1) ≠ 58 by omega)]
  have hother : ∀ i, i < nodes.length → 0 < i → SameInode (rinode m.disk (i+1)) (rinode D (i+1)) := by
    intro i hi hpos
    rw [hinode i hi]
    exact rinode_other (show i+1 ≠ 1 by omega)
  obtain ⟨n₀,hn₀⟩ : ∃ n₀, nodes[0]? = some n₀ := ⟨_,getElem?_eq_getElem h0⟩
  have hH₀ := h.node 0 n₀ hn₀
  have haddrs : ∀ k, k < 13 → (rinode D 1).addrs k = (rinode m.disk 1).addrs k := by
    intro k hk
    have := hH₀.rep.addrs_lt hk
    rw [hinode 0 h0]
    refine (rinode_addrs hk ?_).trans ?_
    · rw [← hd]
      exact lt_of_le_of_lt this (by omega)
    · rw [← hd]
      rfl
  have hsame : ∀ i n, nodes[i]? = some n → ∀ k, k < 13 → (rinode D (i+1)).addrs k = (rinode m.disk (i+1)).addrs k := by
    intro i n hi
    cases i with
    | zero => exact haddrs
    | succ i => exact (hother (i+1) (List.getElem?_eq_some_iff.mp hi).1 (succ_pos _)).addrs
  refine ⟨_,rfl,h.low,hhigh,h.inum,h.few,fun i n hi => ?_,fun n hn => ?_,fun i n hi => ?_,
    fun n hn => ?_,fun i n hi hpos => ?_,h.owned,?_,fun b hb => ?_⟩
  · have hH := h.node i n hi
    exact hH.rep.congr (fun b hb => hdata b (hH.rep.range b hb).1) le_rfl (hsame i n hi)
  · obtain ⟨i,hi⟩ := getElem?_of_mem hn
    exact (h.node i n hi).snug
  · have hH := h.node i n hi
    have hlen := (List.getElem?_eq_some_iff.mp hi).1
    cases i with
    | zero =>
      have ht : d.type = 1 := by
        rw [← hd]
        exact hH.type
      dsimp only
      rw [hinode 0 hlen]
      exact (rinode_type (by omega)).trans ht
    | succ i => exact (hother (i+1) hlen (succ_pos _)).type.trans hH.type
  · rw [hn₀] at hn
    cases hn
    have hfits := hH₀.rep.fits
    have hmax := hH₀.rep.max
    have hs : d.size = (n₀.content.length/512+1)*512 := by
      rw [← hd]
      dsimp only
      rw [show (rinode m.disk rootino).size = n₀.content.length from hH₀.size]
    dsimp only
    rw [hinode 0 h0]
    exact (rinode_size (by omega)).trans hs
  · have hlen := (List.getElem?_eq_some_iff.mp hi).1
    exact (hother i hlen hpos).size.trans (h.node i n hi).size
  · dsimp only
    rw [← hD,update_self]
  · rcases mem_cons.mp hb with rfl | hb
    · decide
    · exact h.iwrites b hb

/-- `mkfs` on few files: it succeeds if they fit, and then the image is as it should be. -/
lemma mkfs_spec (files : List Input) (hfew : files.length+1 < 200) :
    (mkfs files = none ∧ ¬(Fits (contents files) ∧ ∀ f ∈ files, slash ∉ f.name)) ∨
      ∃ m nodes, mkfs files = some m ∧ Done m nodes ∧ nodes.map Node.content = contents files := by
  obtain ⟨m₀,hm₀,h₀⟩ := withRoot_holding
  unfold mkfs
  rw [hm₀,bind_some]
  rcases addFiles_holding files h₀ (by rw [length_nil]; omega) with ⟨hnone,hfull⟩ | ⟨m₁,hm₁,nodes,hB,hc⟩
  · exact inl ⟨by rw [hnone]; rfl,hfull⟩
  · have h0 : 0 < nodes.length := by
      rw [← length_map (f := Node.content),hc]
      exact succ_pos _
    obtain ⟨m,hm,hD⟩ := finish_spec hB h0
    refine inr ⟨m,nodes,?_,hD,hc⟩
    rw [hm₁,bind_some]
    exact hm

/-- The blocks that an inode refers to. -/
def refs (D : Image) (d : Dinode) : List ℕ :=
  ((List.range (ndirect+1)).map d.addrs++
    if d.addrs ndirect = 0 then [] else (List.range nindirect).map (fun k => getInt (D (d.addrs ndirect)) (4*k))).filter
      (· ≠ 0)

/-- The bit of block `b` in the bitmap. -/
def Marked (D : Image) (b : ℕ) : Prop := (D bmapstart (b/8)).toNat.testBit (b%8) = true

/-- `ialloc` has returned `inum`. -/
def Allocated (m : Mk) (inum : ℕ) : Prop := 1 ≤ inum ∧ inum < m.freeinode

/-- What the kernel assumes of an image. -/
structure Consistent (m : Mk) : Prop where
  range : ∀ inum, Allocated m inum → ∀ b ∈ refs m.disk (rinode m.disk inum), nmeta ≤ b ∧ b < fssize
  once : ∀ inum, Allocated m inum → (refs m.disk (rinode m.disk inum)).Nodup
  apart : ∀ i j, Allocated m i → Allocated m j → i ≠ j → ∀ b ∈ refs m.disk (rinode m.disk i),
    b ∉ refs m.disk (rinode m.disk j)
  bits : ∀ b, b < 8*bsize → (Marked m.disk b ↔ b < nmeta ∨ ∃ inum, Allocated m inum ∧ b ∈ refs m.disk (rinode m.disk inum))
  inums : ∀ inum, Allocated m inum → inum < ninodes
  addressed : ∀ inum, Allocated m inum → ∀ bn, bn*bsize < (rinode m.disk inum).size →
    blockOf m.disk (rinode m.disk inum) bn ≠ 0
  iwrites : ∀ b ∈ m.iwrites, inodestart ≤ b ∧ b < bmapstart

lemma filter_getD {l : List ℕ} (h : ∀ b ∈ l, b ≠ 0) (o k : ℕ) :
    ((range k).map (fun i => l.getD (o+i) 0)).filter (· ≠ 0) = (l.drop o).take k := by
  induction k with
  | zero => rfl
  | succ k ih =>
    rw [range_succ,map_append,filter_append,ih,take_add_one,getElem?_drop]
    congr 1
    cases hb : l[o+k]? with
    | none => simp [getD_eq_getElem?_getD,hb]
    | some b =>
      have hne := h b (mem_of_getElem? hb)
      simp [getD_eq_getElem?_getD,hb,hne]

lemma refs_perm {D : Image} {next : ℕ} {d : Dinode} {n : Node} (h : Rep D next d.addrs n) :
    (refs D d).Perm n.owned := by
  have hpos : ∀ b ∈ n.blocks, b ≠ 0 := fun b hb => by
    have := (h.range b (mem_append_left _ hb)).1
    omega
  have hdirect : ((range 12).map d.addrs).filter (· ≠ 0) = n.blocks.take 12 := by
    rw [← drop_zero (l := n.blocks),← filter_getD hpos 0 12]
    congr 1
    refine map_congr_left fun k hk => ?_
    rw [zero_add]
    exact h.direct k (mem_range.mp hk)
  unfold refs
  rw [range_succ,map_append,filter_append,filter_append,hdirect]
  unfold Node.owned
  have hi := h.ind
  cases hind : n.ind with
  | none =>
    rw [hind] at hi
    have hlen : n.blocks.length ≤ 12 := by
      by_contra hl
      have := h.isSome (by omega)
      rw [hind] at this
      cases this
    have hzero : d.addrs 12 = 0 := hi
    rw [take_of_length_le hlen,if_pos hzero]
    simp [hzero]
  | some b =>
    rw [hind] at hi
    have hb : d.addrs 12 = b := hi
    have hb0 : b ≠ 0 := by
      have := (h.range b (Node.ind_mem hind)).1
      omega
    have htable : ((range 128).map (fun k => getInt (D b) (4*k))).filter (· ≠ 0) = n.blocks.drop 12 := by
      have hmax := h.max
      rw [← take_of_length_le (l := n.blocks.drop 12) (i := 128) (by rw [length_drop]; omega),
        ← filter_getD hpos 12 128]
      congr 1
      exact map_congr_left fun k hk => h.table b hind k (mem_range.mp hk)
    rw [hb,if_neg hb0,htable]
    have hsingle : ([12].map d.addrs).filter (· ≠ 0) = [b] := by simp [hb,hb0]
    rw [hsingle,append_assoc]
    calc n.blocks.take 12++([b]++n.blocks.drop 12)
      _ |>.Perm (n.blocks.take 12++(n.blocks.drop 12++[b])) := List.Perm.append_left _ perm_append_comm
      _ |>.Perm (n.blocks++[b]) := by rw [← append_assoc,take_append_drop]

lemma toNat_shift (r : Fin 8) : (1 <<< UInt8.ofNat r.val : UInt8).toNat = 2^r.val := by
  revert r
  decide

lemma testBit_bitmap (used b : ℕ) : (bitmap used (b/8)).toNat.testBit (b%8) = decide (b < used) := by
  induction used with
  | zero => exact zero_testBit _
  | succ used ih =>
    unfold bitmap
    have hshift := toNat_shift ⟨used%8,mod_lt _ (by omega)⟩
    by_cases hb : b/8 = used/8
    · rw [hb] at ih ⊢
      rw [update_self,UInt8.toNat_or,testBit_or,ih,hshift,testBit_two_pow,Bool.eq_iff_iff]
      simp only [Bool.or_eq_true,decide_eq_true_eq]
      omega
    · rw [update_of_ne hb,ih,Bool.eq_iff_iff,decide_eq_true_eq,decide_eq_true_eq]
      omega

section
variable {m : Mk} {nodes : List Node}

variable (h : Done m nodes)
include h

lemma Done.node {inum : ℕ} (ha : Allocated m inum) : ∃ i n, inum = i+1 ∧ nodes[i]? = some n := by
  obtain ⟨h1,h2⟩ := ha
  rw [h.inum] at h2
  exact ⟨inum-1,_,by omega,List.getElem?_eq_getElem (show inum-1 < nodes.length by omega)⟩

lemma Done.allocated {i : ℕ} {n : Node} (hi : nodes[i]? = some n) : Allocated m (i+1) := by
  have := (List.getElem?_eq_some_iff.mp hi).1
  have hinum := h.inum
  exact ⟨by omega,by omega⟩

lemma Done.mem_owned {b : ℕ} : (59 ≤ b ∧ b < m.freeblock) ↔ ∃ n ∈ nodes, b ∈ n.owned := by
  have hmem := h.owned.mem_iff (a := b)
  have hlow := h.low
  rw [mem_flatMap,mem_range'_1,show 59+(m.freeblock-59) = m.freeblock by omega] at hmem
  exact hmem.symm

lemma Done.consistent (hroot : ∀ n, nodes[0]? = some n → n.content.length%512 ≠ 0) : Consistent m := by
  have hlow := h.low
  have hhigh := h.high
  refine ⟨fun inum ha b hb => ?_,fun inum ha => ?_,fun x y hx hy hxy b hb hb' => ?_,fun b hb => ?_,fun inum ha => ?_,
    fun inum ha bn hbn => ?_,h.iwrites⟩
  · obtain ⟨i,n,rfl,hi⟩ := h.node ha
    have := (h.rep i n hi).range b ((refs_perm (h.rep i n hi)).mem_iff.mp hb)
    exact ⟨this.1,this.2.trans_le hhigh⟩
  · obtain ⟨i,n,rfl,hi⟩ := h.node ha
    exact (refs_perm (h.rep i n hi)).nodup_iff.mpr (h.rep i n hi).nodup
  · obtain ⟨i,n,rfl,hi⟩ := h.node hx
    obtain ⟨j,n',rfl,hj⟩ := h.node hy
    have hnodup := h.owned.nodup_iff.mpr nodup_range'
    exact owned_disjoint hnodup hi hj (by omega) ((refs_perm (h.rep i n hi)).mem_iff.mp hb)
      ((refs_perm (h.rep j n' hj)).mem_iff.mp hb')
  · unfold Marked
    rw [h.bits,testBit_bitmap,decide_eq_true_eq]
    constructor
    · intro hused
      by_cases hmeta : b < 59
      · exact inl hmeta
      · obtain ⟨n,hn,hbn⟩ := h.mem_owned.mp ⟨by omega,hused⟩
        obtain ⟨i,hi⟩ := getElem?_of_mem hn
        exact inr ⟨i+1,h.allocated hi,(refs_perm (h.rep i n hi)).mem_iff.mpr hbn⟩
    · rintro (hmeta | ⟨inum,ha,hbn⟩)
      · have hmeta' : b < 59 := hmeta
        omega
      · obtain ⟨i,n,rfl,hi⟩ := h.node ha
        exact ((h.rep i n hi).range b ((refs_perm (h.rep i n hi)).mem_iff.mp hbn)).2
  · obtain ⟨i,n,rfl,hi⟩ := h.node ha
    have hfew := h.few
    have := (List.getElem?_eq_some_iff.mp hi).1
    exact show i+1 < 200 by omega
  · obtain ⟨i,n,rfl,hi⟩ := h.node ha
    have hs := (h.snug n (mem_of_getElem? hi)).length
    have hin : bn < n.blocks.length := by
      have hbn' : bn*512 < (rinode m.disk (i+1)).size := hbn
      cases i with
      | zero =>
        have hr := hroot n hi
        rw [h.root n hi] at hbn'
        omega
      | succ i =>
        rw [h.file (i+1) n hi (succ_pos _)] at hbn'
        omega
    rw [(h.rep i n hi).blockOf_eq rfl hin]
    have := ((h.rep i n hi).block_range hin).1
    omega

/-- A root directory that fills its blocks has got one block more than it owns. -/
lemma Done.unaddressed {n : Node} (hn : nodes[0]? = some n) (hfull : n.content.length%512 = 0)
    (hdirect : n.content.length < 12*512) : ¬Consistent m := by
  intro hc
  have hs := (h.snug n (mem_of_getElem? hn)).length
  have hbn : n.content.length/512 < 12 := by omega
  refine hc.addressed 1 (h.allocated hn) (n.content.length/512) ?_ ?_
  · rw [h.root n hn]
    exact Nat.mul_lt_mul_of_pos_right (lt_succ_self _) (by decide)
  · unfold blockOf
    rw [if_pos hbn,(h.rep 0 n hn).direct _ hbn,getD_eq_default _ _ (by omega)]

end

lemma root_length {nodes : List Node} {files : List Input} (hc : nodes.map Node.content = contents files)
    {n : Node} (hn : nodes[0]? = some n) : n.content.length = 16*(files.length+2) := by
  have h0 : (nodes.map Node.content)[0]? = some n.content := by
    rw [getElem?_map,hn]
    rfl
  rw [hc] at h0
  have h0' : some (rootBytes files) = some n.content := h0
  rw [← some.inj h0',length_rootBytes]

section
variable {m m' : Mk} {inum type : ℕ}

lemma winode_freeinode {din : Dinode} (h : m.winode inum din = some m') : m'.freeinode = m.freeinode := by
  obtain ⟨buf,-,hb⟩ := map_eq_some_iff.mp h
  rw [← hb]

lemma ialloc_freeinode (h : ialloc m type = some (inum,m')) : m'.freeinode = m.freeinode+1 := by
  obtain ⟨m₁,hm₁,he⟩ := map_eq_some_iff.mp h
  cases he
  exact winode_freeinode hm₁

lemma iappend_freeinode {p : List UInt8} (h : iappend m inum p = some m') : m'.freeinode = m.freeinode := by
  obtain ⟨din,-,h⟩ := bind_eq_some_iff.mp h
  obtain ⟨r,-,h⟩ := bind_eq_some_iff.mp h
  have := winode_freeinode h
  exact this

lemma appendAll_freeinode {ps : List (List UInt8)} (h : appendAll inum m ps = some m') :
    m'.freeinode = m.freeinode := by
  induction ps generalizing m with
  | nil =>
    cases h
    rfl
  | cons p ps ih =>
    obtain ⟨m₁,hm₁,h⟩ := bind_eq_some_iff.mp h
    rw [ih h,iappend_freeinode hm₁]

lemma addFile_freeinode {f : Input} (h : addFile m f = some m') : m'.freeinode = m.freeinode+1 := by
  unfold addFile at h
  split_ifs at h
  obtain ⟨r,hr,h⟩ := bind_eq_some_iff.mp h
  obtain ⟨m₁,hm₁,h⟩ := bind_eq_some_iff.mp h
  rw [appendAll_freeinode h,iappend_freeinode hm₁,ialloc_freeinode hr]

lemma addFiles_freeinode {files : List Input} (h : addFiles m files = some m') :
    m'.freeinode = m.freeinode+files.length := by
  induction files generalizing m with
  | nil =>
    cases h
    rfl
  | cons f fs ih =>
    obtain ⟨m₁,hm₁,h⟩ := bind_eq_some_iff.mp h
    rw [ih h,addFile_freeinode hm₁,length_cons]
    omega

lemma finish_freeinode (h : (fixRoot m).bind balloc = some m') : m'.freeinode = m.freeinode := by
  obtain ⟨m₁,hm₁,h⟩ := bind_eq_some_iff.mp h
  obtain ⟨din,-,hm₁⟩ := bind_eq_some_iff.mp hm₁
  unfold balloc at h
  split_ifs at h
  have hm := winode_freeinode hm₁
  rw [← some.inj h]
  exact hm

/-- Every file has got an inode number of its own, after the root's. -/
lemma mkfs_freeinode {files : List Input} (h : mkfs files = some m) : m.freeinode = files.length+2 := by
  unfold mkfs at h
  rw [bind_assoc] at h
  obtain ⟨m₁,hm₁,h⟩ := bind_eq_some_iff.mp h
  obtain ⟨m₀,hm₀,hm₁⟩ := bind_eq_some_iff.mp hm₁
  obtain ⟨m₀',hm₀',nodes,hB,hc⟩ := withRoot_holding
  cases hm₀.symm.trans hm₀'
  have hlen := congrArg List.length hc
  rw [length_map,length_singleton] at hlen
  rw [finish_freeinode h,addFiles_freeinode hm₁,hB.inum,hlen]
  omega

end

/-- The image is consistent just if the inodes are enough for the files, and the root directory does not fill its
blocks. -/
theorem mkfs_consistent {files : List Input} {m : Mk} (h : mkfs files = some m) :
    Consistent m ↔ files.length+1 < ninodes ∧ (files.length+2)%32 ≠ 0 := by
  have hfew : Consistent m → files.length+1 < ninodes := fun hc =>
    hc.inums _ ⟨by omega,by rw [mkfs_freeinode h]; omega⟩
  by_cases hn : files.length+1 < ninodes
  · rcases mkfs_spec files hn with ⟨hnone,-⟩ | ⟨m',nodes,hm',hD,hc⟩
    · rw [hnone] at h
      cases h
    cases hm'.symm.trans h
    obtain ⟨n,h0⟩ : ∃ n, nodes[0]? = some n := by
      refine ⟨_,getElem?_eq_getElem ?_⟩
      rw [← length_map (f := Node.content),hc]
      exact succ_pos _
    have hlen := root_length hc h0
    change files.length+1 < 200 at hn
    constructor
    · refine fun hcon => ⟨hfew hcon,fun hroot => ?_⟩
      exact hD.unaddressed h0 (by omega) (by omega) hcon
    · rintro ⟨-,hroot⟩
      refine hD.consistent fun n' hn' => ?_
      rw [root_length hc hn']
      omega
  · exact ⟨fun hc => absurd (hfew hc) hn,fun hc => absurd hc.1 hn⟩

lemma mkfs_isSome (files : List Input) (hfew : files.length+1 < 200) (hfit : Fits (contents files))
    (hslash : ∀ f ∈ files, slash ∉ f.name) : ∃ m nodes, mkfs files = some m ∧ Done m nodes ∧
      nodes.map Node.content = contents files := by
  rcases mkfs_spec files hfew with ⟨_,hfull⟩ | h
  · exact absurd ⟨hfit,hslash⟩ hfull
  · exact h

/-- One file, in two pieces. -/
theorem mkfs_consistent_one_file : ∃ m, mkfs [⟨[95,97],[[1,2],[3]]⟩] = some m ∧ Consistent m := by
  obtain ⟨m,_,hm,_,_⟩ := mkfs_isSome [⟨[95,97],[[1,2],[3]]⟩] (by decide) ⟨by decide,by decide⟩ (by decide)
  exact ⟨m,hm,(mkfs_consistent hm).mpr (by decide)⟩

/-- Thirty empty files. -/
def thirty : List Input := (List.range 30).map (fun i => ⟨[97,UInt8.ofNat (97+i)],[]⟩)

/-- The root directory is one full block, and its size is that of two. -/
theorem full_root_inconsistent : ∃ m, mkfs thirty = some m ∧ ¬Consistent m := by
  obtain ⟨m,nodes,hm,hD,hc⟩ := mkfs_isSome thirty (by decide) ⟨by decide +kernel,by decide +kernel⟩
    (by decide +kernel)
  refine ⟨m,hm,?_⟩
  cases hn : nodes[0]? with
  | none =>
    have := congrArg List.length hc
    rw [length_map,Nat.le_zero.mp (List.getElem?_eq_none_iff.mp hn)] at this
    cases this
  | some n =>
    have hlen : n.content.length = 512 := root_length hc hn
    exact hD.unaddressed hn (by omega) (by omega)

end Xv6Threads.Mkfs
