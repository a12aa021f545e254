import Xv6Threads.Mem.ExecDone

/-! An `exec` that returns -1 leaves no trace, unless a string is so long that its address wraps around to where there is no page table. -/
namespace Xv6Threads.Mem
open List Option Disk
open Vm (kernBase word kmap)
open Vm.Loader (File below Strays)

section

/-- 40 MB of user pages. -/
def callerUser : Dir := fun i =>
  if i.val < 10 then some ⟨nthPage (1+i.val),fun j => some ⟨nthPage (4000+(1024*i.val+j.val)),.user⟩⟩ else none

/-- The directory of the process. -/
def callerDir : Dir := withKernel (fun i => nthPage (1000+i)) callerUser

/-- 1100 pages are free. The word at address 0 of the process looks like an entry for the page that it is in; the next
36 MB are one string. -/
def callerMem : Memory where
  free := pagesFrom 2100 1100
  deny := fun _ => false
  page := fun f =>
    if f = nthPage 4000 then Disk.putInt (fun _ => 0) 0 (nthPage 4000+7)
    else if f = nthPage 13216 then fun o => if o = 4095 then 0 else 97
    else fun _ => 97

/-- The process, which has just called `exec`. -/
def caller : World := ⟨⟨nthPage 0,callerDir,41943040,⟨0,41943040,[]⟩,[],[],0⟩,callerMem,0,0,false⟩

/-- No page that the allocator has given to the process or keeps has data of the kernel, but for page tables. -/
def callerSys (f : ℕ) : Bool := (List.range 2100).any fun k => f = nthPage k

/-- A file with an ELF header and no program headers. -/
def emptyElf : File := ⟨52,fun o => ([0x7f,0x45,0x4c,0x46] : List UInt8).getD o 0⟩

lemma ent_callerUser (w : ℕ) : ent callerUser w = if w < 10240 then some ⟨nthPage (4000+w),.user⟩ else none := by
  unfold ent callerUser di ti
  by_cases hw : w < 2^20
  · rw [if_pos hw]
    by_cases h1 : w < 10240
    · simp only [if_pos (show w/1024%1024 < 10 by omega),if_pos h1,bind_some]
      rw [show 1024*(w/1024%1024)+w%1024 = w by omega]
    · simp only [if_neg (show ¬w/1024%1024 < 10 by omega),if_neg h1,bind_none]
  · rw [if_neg hw,if_neg (by omega)]

lemma ent_callerDir {w : ℕ} (hw : w < 2^19) :
    ent callerDir w = if w < 10240 then some ⟨nthPage (4000+w),.user⟩ else none :=
  (ent_withKernel _ _ w).trans ((if_pos hw).trans (ent_callerUser w))

lemma caller_own {p : Place} {f : ℕ} (h : own (some (nthPage 0)) callerDir none p = some f) :
    ∃ k, f = nthPage k ∧ ((p = .dir ∧ k = 0) ∨ (∃ i, p = .tab i ∧ i.val < 10 ∧ k = 1+i.val) ∨
      (∃ i, p = .tab i ∧ 512 ≤ i.val ∧ k = 1000+i.val) ∨ ∃ v, p = .user v ∧ v < 10240 ∧ k = 4000+v) := by
  cases p with
  | dir => exact ⟨0,(some.inj h).symm,.inl ⟨rfl,rfl⟩⟩
  | hand => cases h
  | tab i =>
    simp only [own,callerDir,withKernel,callerUser] at h
    split_ifs at h with h2 _ h1
    · cases h
    · exact ⟨1000+i.val,(some.inj h).symm,.inr (.inr (.inl ⟨i,rfl,h2,rfl⟩))⟩
    · exact ⟨1+i.val,(some.inj h).symm,.inr (.inl ⟨i,rfl,h1,rfl⟩)⟩
    · cases h
  | user v =>
    simp only [own] at h
    split_ifs at h with h1
    rw [ent_callerDir h1] at h
    split_ifs at h with h2
    · exact ⟨4000+v,(some.inj h).symm,.inr (.inr (.inr ⟨v,rfl,h2,rfl⟩))⟩
    · cases h

lemma caller_free : caller.mem.free = pagesFrom 2100 1100 := by simp only [caller,callerMem]

lemma mem_callerFree {f : ℕ} : f ∈ caller.mem.free ↔ ∃ k < 1100, f = nthPage (2100+k) := by
  rw [caller_free]
  exact mem_pagesFrom

lemma callerFree_nodup : caller.mem.free.Nodup := by
  rw [caller_free]
  exact pagesFrom_nodup _ _

lemma callerFree_valid {f : ℕ} (hf : f ∈ caller.mem.free) : Valid f := by
  rw [caller_free] at hf
  exact pagesFrom_valid (by decide) hf

lemma callerSys_eq {k : ℕ} (hk : 2100 ≤ k) : callerSys (nthPage k) = false := by
  simp only [callerSys,List.any_eq_false,mem_range,decide_eq_true_eq]
  intro j hj h
  unfold nthPage at h
  omega

lemma caller_sound : Sound callerSys caller
    (fun f => f ∈ caller.mem.free ∨ ∃ p, own (some (nthPage 0)) callerDir none p = some f) := by
  refine ⟨⟨⟨callerFree_nodup,fun hp hf => ?_,fun {p q f} hp hq => ?_,fun _ => Iff.rfl⟩,?_⟩,withKernel_direct (fun i => nthPage (1000+i)) callerUser callerSys,fun f hf => ?_⟩
  · obtain ⟨k,rfl,hk⟩ := caller_own hp
    obtain ⟨j,hj,he⟩ := mem_callerFree.mp hf
    unfold nthPage at he
    rcases hk with ⟨-,h⟩ | ⟨i,-,h1,h⟩ | ⟨i,-,h1,h⟩ | ⟨v,-,h1,h⟩ <;> omega
  · obtain ⟨k,rfl,hk⟩ := caller_own hp
    obtain ⟨j,he,hj⟩ := caller_own hq
    have hkj : k = j := by
      unfold nthPage at he
      omega
    rcases hk with ⟨rfl,h⟩ | ⟨i,rfl,h1,h⟩ | ⟨i,rfl,h1,h⟩ | ⟨v,rfl,h1,h⟩ <;>
      rcases hj with ⟨rfl,h'⟩ | ⟨i',rfl,h1',h'⟩ | ⟨i',rfl,h1',h'⟩ | ⟨v',rfl,h1',h'⟩ <;>
      first | rfl | omega | (congr 1; omega)
  · rintro f (hf | ⟨p,hp⟩)
    · exact callerFree_valid hf
    · obtain ⟨k,rfl,hk⟩ := caller_own hp
      refine nthPage_valid ?_
      rcases hk with ⟨-,h⟩ | ⟨i,-,h1,h⟩ | ⟨i,-,h1,h⟩ | ⟨v,-,h1,h⟩ <;> omega
  · obtain ⟨k,hk,rfl⟩ := mem_callerFree.mp hf
    exact callerSys_eq (by omega)

lemma caller_reaches (path : List UInt8) (argv : List (List UInt8)) :
    ∃ page K D m, Kernel kmap K ∧ Ready page (· ∈ caller.mem.free) emptyElf K caller.mem 0 D m ∧
      stackTop emptyElf caller.mem = some 8192 ∧ exec callerSys path (some emptyElf) argv caller = commit (Running.with ⟨callerDir,callerSys⟩ page D) path
        (emptyElf.uint 24) page 8192 D caller.beginOp.inode.iunlockput.endOp
        (pushArgs (Running.with ⟨callerDir,callerSys⟩ page D) D 8192 [] argv m) := by
  rcases exec_reaches caller_sound path emptyElf argv with ⟨w',-,-,-,hsc⟩ | ⟨page,n,K,D,m,hk,hR,htop,hr⟩
  · have hfew := hsc (by decide) (by decide) (by decide) fun _ => rfl
    rw [caller_free] at hfew
    exact absurd hfew (not_scarce_pagesFrom (by decide))
  · obtain rfl : n = 0 := hR.size
    exact ⟨page,K,D,m,hk,hR,htop,hr⟩

end

section
variable {sys : ℕ → Bool} {argv : List (List UInt8)} {w : World} {all : ℕ → Prop}

end

section

/-- The bytes of `s` and a NUL are at `p`. -/
def HasString (D : Dir) (m : Memory) (p : ℕ) (s : List UInt8) : Prop :=
  ∀ i ≤ s.length, load D m (p+i) = some ((s ++ [0]).getD i 0)

/-- The string in the caller's memory, of 37748735 letters. -/
abbrev longString : List UInt8 := List.replicate 37748735 97

lemma caller_longString : HasString callerDir caller.mem 4096 longString := by
  intro i hi
  rw [length_replicate] at hi
  have hent : ent callerDir ((4096+i)/4096) = some ⟨nthPage (4000+(4096+i)/4096),.user⟩ := by
    rw [ent_callerDir (by omega),if_pos (by omega)]
  have hne : nthPage (4000+(4096+i)/4096) ≠ nthPage 4000 := by
    unfold nthPage
    omega
  rw [load,hent,map_some]
  simp only [caller,callerMem,if_neg hne]
  by_cases hend : i = 37748735
  · subst hend
    rw [getD_eq_getElem?_getD,getElem?_append_right (Nat.le_of_eq length_replicate),length_replicate]
    rfl
  · have hlast : ¬(nthPage (4000+(4096+i)/4096) = nthPage 13216 ∧ (4096+i)%4096 = 4095) := by
      unfold nthPage
      omega
    rw [getD_eq_getElem?_getD,getElem?_append_left (by rw [length_replicate]; omega),
      getElem?_replicate,if_pos (show i < 37748735 by omega)]
    by_cases hp : nthPage (4000+(4096+i)/4096) = nthPage 13216
    · rw [if_pos hp,if_neg fun h => hlast ⟨hp,h⟩]
      rfl
    · rw [if_neg hp]
      rfl

variable {page : ℕ} {f : File} {K D : Dir} {m : Memory}

lemma caller_zero_not_free : nthPage 4000 ∉ caller.mem.free := fun h => by
  obtain ⟨k,hk,he⟩ := mem_callerFree.mp h
  unfold nthPage at he
  omega

lemma caller_zero_apart (hR : Ready page (· ∈ caller.mem.free) f K caller.mem 0 D m) :
    (Running.with ⟨callerDir,callerSys⟩ page D).sys (nthPage 4000) = false := by
  have h2 : nthPage 4000 ≠ page := fun h => caller_zero_not_free (h ▸ hR.kept.own_all (p := .dir) rfl)
  have h3 : ∀ i t, D i = some t → t.page ≠ nthPage 4000 := fun i t ht h =>
    caller_zero_not_free (h ▸ hR.kept.own_all (p := .tab i) (by simp only [own,ht,map_some]))
  refine Running.with_sys ?_ h2 h3
  simp only [callerSys_eq (show 2100 ≤ 4000 by decide)]

lemma caller_long_copy (hk : Kernel kmap K) (hR : Ready page (· ∈ caller.mem.free) f K caller.mem 0 D m) :
    copyout (Running.with ⟨callerDir,callerSys⟩ page D) D 0xfdc02000 (longString ++ [0]) m =
      .ok (false,m.blit (nthPage 4000) 0 (replicate 4096 97)) := by
  have htab : D (di 0xfdc02) = none := by
    rw [hR.tabs _ (by decide)]
    refine hk.tabs _ fun w hw hdi => ?_
    rw [hk.ents] at hw
    have h20 : w < 2^20 := by
      obtain ⟨e,he⟩ := ne_none_iff_exists'.mp hw
      exact (kent_kernel he).2.1
    have := congrArg Fin.val hdi
    unfold di at this
    simp only at this
    exact hw (kent_gap (by omega) (by omega))
  have hzero : ent (Running.with ⟨callerDir,callerSys⟩ page D).dir 0 = some ⟨nthPage 4000,.user⟩ := ent_callerDir (by decide)
  have hpte : getInt (m.page (nthPage 4000)) 0 = nthPage 4000+7 := by
    rw [hR.changed.page _ caller_zero_not_free]
    simp only [caller,callerMem,if_true]
    exact getInt_putInt (by decide)
  have hlen : (longString ++ [(0 : UInt8)]).length = 37748736 := by simp
  have hpre : (longString ++ [(0 : UInt8)]).take 4096 = replicate 4096 97 := by
    rw [take_append_of_le_length (by simp),take_replicate]
    rfl
  -- The first page of the string goes to the caller's page 0.
  have h1 : outBody (Running.with ⟨callerDir,callerSys⟩ page D) D (0xfdc02000,longString ++ [0],m) =
      .ok (.inl (0xfdc03000,(longString ++ [0]).drop 4096,m.blit (nthPage 4000) 0 (replicate 4096 97))) := by
    have hka : uva2ka (Running.with ⟨callerDir,callerSys⟩ page D) D (4096*(0xfdc02000/4096)) m = .ok 0x811a0000 := by
      rw [uva2ka_null _ htab hzero,hpte]
      refine congrArg Except.ok ?_
      decide
    have := outBody_store 0xfdc02000 (show longString ++ [0] ≠ [] by simp) hka (by decide)
      ((ent_withKernel (fun i => nthPage (1000+i)) callerUser 0x811a0).trans (kent_valid (f := nthPage 4000) (nthPage_valid (by decide)))) rfl
      (caller_zero_apart hR)
    rw [this,hlen]
    simp only [show min (4096-0xfdc02000%4096) 37748736 = 4096 by decide,hpre]
    rfl
  -- Now the word at address 0 has no `PTE_U`.
  have h2 : outBody (Running.with ⟨callerDir,callerSys⟩ page D) D
      (0xfdc03000,(longString ++ [0]).drop 4096,m.blit (nthPage 4000) 0 (replicate 4096 97)) =
      .ok (.inr (false,m.blit (nthPage 4000) 0 (replicate 4096 97))) := by
    refine outBody_zero (fun h => ?_) ?_
    · have := congrArg length h
      rw [length_drop,hlen] at this
      cases this
    · have hword : getInt ((m.blit (nthPage 4000) 0 (replicate 4096 97)).page (nthPage 4000)) 0 = 0x61616161 := by
        refine getInt_of (by decide) fun j hj => ?_
        rw [blit_self,if_pos (by rw [length_replicate]; omega),getD_eq_getElem?_getD,
          getElem?_replicate,if_pos (by omega)]
        rcases (show j = 0 ∨ j = 1 ∨ j = 2 ∨ j = 3 by omega) with rfl | rfl | rfl | rfl <;> rfl
      rw [uva2ka_null 0xfdc03000 htab hzero,hword]
      refine congrArg Except.ok ?_
      decide
  unfold copyout
  rw [hlen]
  exact (rounds_next h1 9218).trans (rounds_return h2 9217)

end

end Xv6Threads.Mem
