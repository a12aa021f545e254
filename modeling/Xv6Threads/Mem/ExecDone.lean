import Xv6Threads.Mem.Stack

/-! The end of `exec`: how a call that returns 0 has come to it, and that every call without an argument that goes astray
comes to an end. -/
namespace Xv6Threads.Mem
open Option List
open Vm (kernBase word)
open Vm.Loader (File below maxArg Gap Strays)

section
variable {P page : Option ℕ} {D D0 : Dir} {m m0 : Memory} {all : ℕ → Prop}

lemma Kept.elsewhere (K0 : Kept P D0 none m0 all) (K : Kept page D none m (· ∈ m0.free)) :
    Kept P D0 none m (fun f => f ∈ m.free ∨ ∃ p, own P D0 none p = some f) := by
  have hsub : ∀ f ∈ m.free, f ∈ m0.free := fun _ hf => K.free_all hf
  refine ⟨⟨K.stock.nodup,fun hp hf => K0.stock.apart hp (hsub _ hf),K0.stock.inj,fun _ => Iff.rfl⟩,?_⟩
  rintro f (hf | ⟨p,hp⟩)
  · exact K.valid f (hsub f hf)
  · exact K0.valid_own hp

lemma freevm_old {page oldpage : ℕ} (K0 : Kept (some oldpage) D0 none m0 all)
    (K : Kept (some page) D none m (· ∈ m0.free)) : ∃ m', freevm oldpage D0 m = .ok m' := by
  obtain ⟨m',hr,-⟩ := freevm_spec (S := fun f => ∃ p, own (some oldpage) D0 none p = some f) (K0.elsewhere K)
    fun p f h => ⟨p,h⟩
  exact ⟨m',hr⟩

end

/-- The address of `ustack` in the new memory. -/
def espOf (sp argc : ℕ) : ℕ := sp-4*(argc+4)

lemma ustack_length (sp : ℕ) (ptrs : List ℕ) : (words (ustack sp ptrs)).length = 4*(ptrs.length+4) := by
  rw [words_length]
  simp [ustack]

lemma under_ustack {n sp : ℕ} {ptrs : List ℕ} (h1 : 4096*(n+1) ≤ sp) (h2 : sp < 2^31) (h4 : sp%4 = 0)
    (hmax : ptrs.length ≤ maxArg) : (sp+word-(3+ptrs.length+1)*4)%word = under sp (words (ustack sp ptrs)).length ∧
      under sp (words (ustack sp ptrs)).length = espOf sp ptrs.length := by
  unfold maxArg at hmax
  rw [ustack_length]
  unfold under espOf word
  omega

/-- The arguments have been copied: `sp` is in the stack page. -/
def Placed (n sp : ℕ) (ptrs : List ℕ) : Prop :=
  4096*(n+1) ≤ sp ∧ sp ≤ 4096*(n+2) ∧ sp%4 = 0 ∧ ptrs.length ≤ maxArg

section
variable {page n sp : ℕ} {all : ℕ → Prop} {f : File} {K D : Dir} {m0 m m1 : Memory} {c : Running} {buf : List UInt8}

variable (hR : Ready page all f K m0 n D m) (hc : Direct c) (hD : Proper c D)
include hR hc hD

/-- A copy to below `sp` takes no entry of a page without a page table: it is below the stack, or it wraps around to
addresses of the kernel, and the first of them is not in the gap. -/
lemma Ready.copy_total (h1 : 4096*(n+1) ≤ sp) (h2 : sp ≤ 4096*(n+2)) (hlen : buf.length ≤ 2^31)
    (hg : ¬Gap (under sp buf.length)) (m1 : Memory) :
    ∃ b m2 k, copyout c D (under sp buf.length) buf m1 = .ok (b,m2) ∧ Stored D (under sp buf.length) buf m1 m2 k ∧
      (b = true → k = buf.length) := by
  have hs := hR.small
  unfold kernBase at hs
  have hva : under sp buf.length < word := by
    unfold under word
    omega
  obtain ⟨b,m2,k,hr,hS,hb,-⟩ := copyout_spec (under sp buf.length) buf m1 hc hD
    (by unfold word; omega) hva (fun i hi hbefore => by
      by_cases hwrap : buf.length ≤ sp
      · refine hR.tab ?_
        unfold under word at *
        omega
      · obtain ⟨hp,ht⟩ := hR.kern (a := under sp buf.length) (by unfold under word kernBase; omega) hva hg
        rcases Nat.eq_zero_or_pos i with rfl | hpos
        · rwa [add_zero,Nat.mod_eq_of_lt hva]
        · refine absurd hp ?_
          have := hbefore 0 hpos
          rwa [add_zero,Nat.mod_eq_of_lt hva] at this)
  exact ⟨b,m2,k,hr,hS,hb⟩

/-- Unless an argument goes astray, the loop over them comes to an end. -/
lemma pushArgs_total {argv : List (List UInt8)} (hs : ∀ s ∈ argv, s.length < kernBase) (ptrs : List ℕ)
    (hargs : ¬Strays (4096*(n+1)) ptrs.length sp argv) (hP : Placed n sp ptrs) (hK : Kept (some page) D none m1 all) :
    ∃ r m2, pushArgs c D sp ptrs argv m1 = .ok (r,m2) ∧ Kept (some page) D none m2 all ∧ Changed all m1 m2 ∧
      ∀ p ∈ r, Placed n p.1 p.2 := by
  induction argv generalizing sp ptrs m1 with
  | nil => exact ⟨_,m1,rfl,hK,.refl m1,fun p hp => some.inj hp ▸ hP⟩
  | cons s argv ih =>
    rw [pushArgs]
    by_cases hfull : maxArg ≤ ptrs.length
    · rw [if_pos hfull]
      exact ⟨none,m1,rfl,hK,.refl m1,nofun⟩
    obtain ⟨h1,h2,-⟩ := hP
    have hlen : s.length < 2^31 := hs s mem_cons_self
    have hlen' : (s ++ [(0 : UInt8)]).length = s.length+1 := by simp
    have hg : ¬Gap (below sp s.length) := fun hg => hargs ⟨by omega,.inl hg⟩
    rw [if_neg hfull,below_eq hlen,cstring_eq hlen]
    rw [below_eq hlen] at hg
    obtain ⟨b,m2,k,hr,hS,hb⟩ := hR.copy_total hc hD h1 h2 (by omega) hg m1
    rw [hr]
    cases b with
    | false => exact ⟨none,m2,rfl,hS.kept hK,hS.changed hR,nofun⟩
    | true =>
      obtain ⟨hlow,hhigh⟩ := hR.above h1 h2 (by simp) (by omega) (hb rfl ▸ hS)
      have hrest : ¬Strays (4096*(n+1)) (ptrs ++ [under sp (s ++ [0]).length]).length (under sp (s ++ [0]).length) argv := by
        intro hst
        rw [length_append,length_singleton,← below_eq hlen] at hst
        exact hargs ⟨by omega,.inr ⟨by omega,hst⟩⟩
      obtain ⟨r,m3,hr3,hK3,hC3,hP3⟩ := ih (fun s h => hs s (mem_cons_of_mem _ h)) _ hrest
        ⟨hlow,by omega,by unfold under; omega,by simp only [length_append,length_singleton]; omega⟩ (hS.kept hK)
      exact ⟨r,m3,hr3,hK3,(hS.changed hR).trans hC3,hP3⟩

end

section
variable {sys : ℕ → Bool} {path : List UInt8} {argv : List (List UInt8)} {w : World} {all : ℕ → Prop} {page n sp : ℕ}
  {f : File} {K D : Dir} {m m1 : Memory} {ptrs : List ℕ}

lemma commit_total (hS : Sound sys w all) (hR : Ready page (· ∈ w.mem.free) f K w.mem n D m)
    (hP : Placed n sp ptrs) (hK1 : Kept (some page) D none m1 (· ∈ w.mem.free)) (hC : Changed (· ∈ w.mem.free) w.mem m1)
    (path : List UInt8) (entry : UInt32) :
    ∃ b w', commit (Running.with ⟨w.proc.dir,sys⟩ page D) path entry page (4096*(n+2)) D
        w.beginOp.inode.iunlockput.endOp (.ok (some (sp,ptrs),m1)) = .ok (b,w') ∧ (b = false → Failed w w') := by
  have hc := hS.direct.with page D
  have hD := hR.proper w.proc.dir fun g hg => hS.plain g hg
  have hsmall := hR.small
  obtain ⟨hlow,hhigh,halign,hmax⟩ := hP
  unfold kernBase at hsmall
  have hnd := hS.kept.stock.nodup
  have hv : ∀ f ∈ w.mem.free, Valid f := fun _ hg => hS.kept.valid_free hg
  obtain ⟨hesp,hesp'⟩ := under_ustack hlow (by omega) halign hmax
  have hlen := ustack_length sp ptrs
  obtain ⟨b,m2,k,hr,hSt,-⟩ := hR.copy_total hc hD hlow hhigh
    (show (words (ustack sp ptrs)).length ≤ 2^31 by unfold maxArg at hmax; omega)
    (fun hg => by have := hg.1; unfold kernBase at this; unfold espOf at hesp'; omega) m1
  rw [commit]
  simp only [hesp,hr]
  cases b with
  | false =>
    obtain ⟨w',hw',hF⟩ := bad_late (w := w) hnd hv (hSt.kept hK1) (hC.trans (hSt.changed hR))
    exact ⟨false,w',hw',fun _ => hF⟩
  | true =>
    obtain ⟨m3,hm3⟩ := freevm_old hS.kept (hSt.kept hK1)
    simp only
    rw [show w.beginOp.inode.iunlockput.endOp.proc = w.proc from rfl,hm3]
    exact ⟨true,_,rfl,nofun⟩

/-- Unless an argument goes astray, `exec` comes to an end, and has left nothing if it returns -1. -/
lemma exec_total (hS : Sound sys w all) (path : List UInt8) (file : Option File) (hs : ∀ s ∈ argv, s.length < kernBase)
    (hargs : ∀ f sz, file = some f → stackTop f w.mem = some sz → ¬Strays (sz-4096) 0 sz argv) :
    ∃ b w', exec sys path file argv w = .ok (b,w') ∧ (b = false → Failed w w') := by
  cases file with
  | none => exact ⟨false,_,rfl,fun _ => ⟨rfl,List.Perm.refl _,fun _ _ => rfl,rfl,rfl,id⟩⟩
  | some f =>
    rcases exec_reaches hS path f argv with ⟨w',hr,hF,-⟩ | ⟨page,n,K,D,m,hk,hR,htop,hr⟩
    · exact ⟨false,w',hr,fun _ => hF⟩
    have hc := hS.direct.with page D
    have hD := hR.proper w.proc.dir fun g hg => hS.plain g hg
    have hst := hargs f _ rfl htop
    rw [show 4096*(n+2)-4096 = 4096*(n+1) by omega] at hst
    obtain ⟨r,m1,hpush,hK1,hC1,hP⟩ := pushArgs_total hR hc hD hs [] hst
      ⟨by omega,le_rfl,by omega,Nat.zero_le _⟩ hR.kept
    rw [hr,hpush]
    cases r with
    | none =>
      have hnd := hS.kept.stock.nodup
      obtain ⟨w',hw',hF⟩ := bad_late (w := w) hnd (fun _ hg => hS.kept.valid_free hg)
        hK1 (hR.changed.trans hC1)
      exact ⟨false,w',hw',fun _ => hF⟩
    | some r =>
      obtain ⟨sp,ptrs⟩ := r
      obtain ⟨b,w',hw',hF⟩ := commit_total hS hR (hP _ rfl) hK1 (hR.changed.trans hC1) path (f.uint 24)
      exact ⟨b,w',hw',hF⟩

end

end Xv6Threads.Mem
