import Xv6Threads.Ptable.Clone
import Xv6Threads.Umalloc.Wrapped

/-! The stacks of threads. `pthread_create` takes a block of two pages from `malloc`, whose first whole page is the stack,
and a block for `struct startinfo`. The program never gets the two pointers and so cannot free them. -/
namespace Xv6Threads.Umalloc.Stacks
open List Option State
open Ptable.Cloning (rejects)

/-- The two blocks of a thread: `raw` and `si`. -/
structure Thread where
  raw : ℕ
  si : ℕ
  deriving DecidableEq

/-- `((uint)raw+PTHREAD_STACK-1)&~(PTHREAD_STACK-1)` -/
def stackOf (raw : ℕ) : ℕ := 4096*((raw+4096-1)%2^32/4096)

section
variable (base : ℕ)

/-- `pthread_create`, where the calls of `sbrk` in the two calls of `malloc` are answered by `answer` and `answer'`, and
`allocproc` fails if not `slot`. The thread if it returns 0, nothing if it returns -1. -/
def pthreadCreate (answer answer' : ℕ → Option ℕ) (slot : Bool) (h : Heap) : Option (Option Thread × Heap) :=
  match Wrapped.malloc base bound h 8192 answer with
  | none => none
  | some (raw,h,_) =>
    if raw = 0 then some (none,h)
    else
      match Wrapped.malloc base bound h 8 answer' with
      | none => none
      | some (si,h,_) =>
        if si = 0 then (Wrapped.free bound h raw).map fun h => (none,h)
        else if rejects (UInt32.ofNat h.brk) (UInt32.ofNat (stackOf raw)) ∨ slot = false then
          (Wrapped.free bound h si).bind fun h => (Wrapped.free bound h raw).map fun h => (none,h)
        else some (some ⟨raw,si⟩,h)

/-- The heap with its live blocks, those of the threads among them. -/
structure Process where
  mem : State
  threads : List Thread

inductive Call
  | malloc (nbytes : ℕ) (answer : ℕ → Option ℕ)
  | free (ap : ℕ)
  | create (answer answer' : ℕ → Option ℕ) (slot : Bool)

def Process.step (s : Process) : Call → Option Process
  | .malloc nbytes answer => (Wrapped.step base s.mem (.malloc nbytes answer)).map fun m => { s with mem := m }
  | .free ap =>
    if ∀ t ∈ s.threads, ap ≠ t.raw ∧ ap ≠ t.si then
      (Wrapped.step base s.mem (.free ap)).map fun m => { s with mem := m }
    else none
  | .create answer answer' slot =>
    (pthreadCreate base answer answer' slot s.mem.heap).map fun r =>
      match r with
      | (none,h) => ⟨⟨h,s.mem.live⟩,s.threads⟩
      | (some t,h) => ⟨⟨h,(t.si,8) :: (t.raw,8192) :: s.mem.live⟩,t :: s.threads⟩

/-- A thread that calls nothing but `malloc`, `free` and `pthread_create`. -/
def program : System Process Call where
  init s := (Umalloc.program base).init s.mem ∧ s.threads = []
  step := Process.step base

end

/-- The request of a call of `malloc` is small. -/
def Modest (_ : Process) : Call → Prop
  | .malloc nbytes _ => Small nbytes
  | _ => True

variable {base : ℕ} {σ : State} {s : Process}

lemma malloc_step (hi : Inv base σ) {nbytes : ℕ} (hs : Small nbytes) (answer : ℕ → Option ℕ) :
    ∃ r h calls, Wrapped.malloc base bound σ.heap nbytes answer = some (r,h,calls) ∧
      Inv base ⟨h,if r = 0 then σ.live else (r,nbytes) :: σ.live⟩ := by
  obtain ⟨r,h,k,calls,hm,hw,-⟩ := Wrapped.malloc_eq hi hs answer
  refine ⟨r,h,calls,hw,hi.step (show σ.step base (.malloc nbytes answer) = some _ from ?_)⟩
  simp only [step,if_pos hs,hm]

/-- The block that was allocated last can be freed, and the others are live as before. -/
lemma free_step {ap n : ℕ} {live : List (ℕ × ℕ)} {h : Heap} (hi : Inv base ⟨h,(ap,n) :: live⟩) :
    ∃ h', Wrapped.free bound h ap = some h' ∧ Inv base ⟨h',live⟩ := by
  have hap : ap ∈ ((ap,n) :: live).map Prod.fst := List.mem_map_of_mem mem_cons_self
  obtain ⟨h',l,hf,-,-⟩ := hi.free hap
  refine ⟨h',(Wrapped.free_live hi hap).trans hf,hi.step (show step base ⟨h,_⟩ (.free ap) = some _ from ?_)⟩
  simp only [step,if_pos hap,hf,map_some,eraseP_cons,decide_true,cond_true]

/-- What `pthread_create` leaves: all as it was, or two more blocks. -/
def Created (base : ℕ) (live : List (ℕ × ℕ)) : Option Thread × Heap → Prop
  | (none,h) => Inv base ⟨h,live⟩
  | (some t,h) => Inv base ⟨h,(t.si,8) :: (t.raw,8192) :: live⟩ ∧ t.raw ≠ 0

lemma pthreadCreate_spec (hi : Inv base σ) (answer answer' : ℕ → Option ℕ) (slot : Bool) :
    ∃ r, pthreadCreate base answer answer' slot σ.heap = some r ∧ Created base σ.live r := by
  obtain ⟨raw,h1,c1,hm1,hi1⟩ := malloc_step hi (show Small 8192 by decide) answer
  by_cases hraw : raw = 0
  · rw [if_pos hraw] at hi1
    exact ⟨(none,h1),by simp only [pthreadCreate,hm1,if_pos hraw],hi1⟩
  rw [if_neg hraw] at hi1
  obtain ⟨si,h2,c2,hm2,hi2⟩ := malloc_step hi1 (show Small 8 by decide) answer'
  simp only [pthreadCreate,hm1,if_neg hraw,hm2]
  by_cases hsi : si = 0
  · rw [if_pos hsi] at hi2
    obtain ⟨h3,hf,hi3⟩ := free_step hi2
    exact ⟨(none,h3),by rw [if_pos hsi,hf]; rfl,hi3⟩
  rw [if_neg hsi] at hi2
  rw [if_neg hsi]
  split_ifs with hfail
  · obtain ⟨h3,hf3,hi3⟩ := free_step hi2
    obtain ⟨h4,hf4,hi4⟩ := free_step hi3
    exact ⟨(none,h4),by rw [hf3,bind_some,hf4]; rfl,hi4⟩
  · exact ⟨(some ⟨raw,si⟩,h2),rfl,hi2,hraw⟩

structure Holds (base : ℕ) (s : Process) : Prop where
  inv : Inv base s.mem
  threads : ∀ t ∈ s.threads, (t.raw,8192) ∈ s.mem.live ∧ (t.si,8) ∈ s.mem.live

lemma Holds.step {s s' : Process} {c : Call} (hi : Holds base s) (hok : Modest s c) (h : s.step base c = some s') :
    Holds base s' := by
  cases c with
  | malloc nbytes answer =>
    obtain ⟨m,hm,rfl⟩ := map_eq_some_iff.mp h
    refine ⟨hi.inv.step (Wrapped.step_eq hi.inv (show Wrapped.Modest s.mem (.malloc nbytes answer) from hok) hm),
      fun t ht => ?_⟩
    have hsub : ∀ b ∈ s.mem.live, b ∈ m.live := fun b hb => by
      simp only [Wrapped.step] at hm
      split at hm
      · cases hm
      · cases hm
        simp only
        split_ifs
        · exact hb
        · exact mem_cons_of_mem _ hb
    exact ⟨hsub _ (hi.threads t ht).1,hsub _ (hi.threads t ht).2⟩
  | free ap =>
    simp only [Process.step] at h
    split_ifs at h with hown
    obtain ⟨m,hm,rfl⟩ := map_eq_some_iff.mp h
    refine ⟨hi.inv.step (Wrapped.step_eq hi.inv (show Wrapped.Modest s.mem (.free ap) from trivial) hm),fun t ht => ?_⟩
    simp only [Wrapped.step] at hm
    split_ifs at hm
    obtain ⟨h',-,rfl⟩ := map_eq_some_iff.mp hm
    obtain ⟨h1,h2⟩ := hown t ht
    exact ⟨(mem_eraseP_of_neg (by simpa using Ne.symm h1)).mpr (hi.threads t ht).1,
      (mem_eraseP_of_neg (by simpa using Ne.symm h2)).mpr (hi.threads t ht).2⟩
  | create answer answer' slot =>
    obtain ⟨r,hr,hc⟩ := pthreadCreate_spec hi.inv answer answer' slot
    simp only [Process.step,hr,map_some] at h
    cases h
    obtain ⟨_ | t,h'⟩ := r
    · exact ⟨hc,hi.threads⟩
    · refine ⟨hc.1,fun u hu => ?_⟩
      rcases mem_cons.mp hu with rfl | hu
      · simp
      · exact ⟨mem_cons_of_mem _ (mem_cons_of_mem _ (hi.threads u hu).1),
          mem_cons_of_mem _ (mem_cons_of_mem _ (hi.threads u hu).2)⟩

lemma holds_of_modest (h : (program base).ReachWhile Modest s) : Holds base s := by
  refine System.ReachWhile.invariant (I := Holds base) (fun s hs => ?_) (fun _ _ _ hi hok ht => hi.step hok ht) h
  obtain ⟨hmem,hnil⟩ := hs
  exact ⟨inv_of_init hmem,fun t ht => by simp [hnil] at ht⟩

/-- The bytes from `a` and those from `b` are different ones. -/
def Disjoint (a n b k : ℕ) : Prop := a+n ≤ b ∨ b+k ≤ a

lemma stackOf_spec {raw : ℕ} (h : raw < 2^31) :
    stackOf raw%4096 = 0 ∧ raw ≤ stackOf raw ∧ stackOf raw+4096 ≤ raw+8192 := by
  unfold stackOf
  omega

lemma Inv.below (hi : Inv base σ) {b : ℕ × ℕ} (hb : b ∈ σ.live) : b.1+b.2 ≤ σ.heap.brk ∧ σ.heap.brk < 2^31 := by
  rcases hi.heap with ⟨-,-,hnil,-⟩ | ⟨l,hr⟩
  · rw [hnil] at hb
    cases hb
  · have h1 := hr.bounds (mem_append_right l (List.mem_map_of_mem (f := fun b : ℕ × ℕ => b.1-8) hb))
    have h2 := hi.live b hb
    have h3 := hr.room
    omega

lemma Inv.disjoint (hi : Inv base σ) : σ.live.Pairwise fun b c => Disjoint b.1 b.2 c.1 c.2 := by
  obtain ⟨l,hl⟩ := hi.intact
  have hap : σ.live.Pairwise fun b c => Apart σ.heap.size (b.1-8) (c.1-8) :=
    pairwise_map.mp (pairwise_append.mp hl.disjoint).2.1
  refine hap.imp_of_mem fun {b c} hb hc h => ?_
  have hb := hi.live b hb
  have hc := hi.live c hc
  unfold Apart at h
  unfold Disjoint
  omega

/-- The stack of the new thread `t` is a page of its own, in a heap that ends at `brk`. -/
structure OwnPage (s : Process) (brk : ℕ) (t : Thread) : Prop where
  aligned : stackOf t.raw%4096 = 0
  inside : t.raw ≤ stackOf t.raw ∧ stackOf t.raw+4096 ≤ t.raw+8192
  below : stackOf t.raw+4096 ≤ brk
  blocks : ∀ b ∈ s.mem.live, Disjoint (stackOf t.raw) 4096 b.1 b.2
  others : ∀ u ∈ s.threads, Disjoint (stackOf t.raw) 4096 (stackOf u.raw) 4096
  startinfo : Disjoint (stackOf t.raw) 4096 t.si 8

lemma ownPage (hs : Holds base s) {t : Thread} {h : Heap} (hi : Inv base ⟨h,(t.si,8) :: (t.raw,8192) :: s.mem.live⟩) :
    OwnPage s h.brk t := by
  have hpage : ∀ raw, (raw,8192) ∈ (t.si,8) :: (t.raw,8192) :: s.mem.live →
      stackOf raw%4096 = 0 ∧ raw ≤ stackOf raw ∧ stackOf raw+4096 ≤ raw+8192 := fun raw hraw => by
    have := Inv.below hi hraw
    exact stackOf_spec (by omega)
  obtain ⟨h1,h2,h3⟩ := hpage t.raw (by simp)
  obtain ⟨hsi,hrest⟩ := pairwise_cons.mp (Inv.disjoint hi)
  have hraw := (pairwise_cons.mp hrest).1
  refine ⟨h1,⟨h2,h3⟩,h3.trans (Inv.below hi (b := (t.raw,8192)) (by simp)).1,fun b hb => ?_,fun u hu => ?_,?_⟩
  · have := hraw b hb
    unfold Disjoint at this ⊢
    omega
  · have hu := (hs.threads u hu).1
    have := hraw _ hu
    have := hpage u.raw (mem_cons_of_mem _ (mem_cons_of_mem _ hu))
    unfold Disjoint at *
    omega
  · have := hsi (t.raw,8192) mem_cons_self
    unfold Disjoint at this ⊢
    omega

/-- After any calls with small requests `pthread_create` returns. If it returns 0 the stack of the new thread is a page
of its own, and if it returns -1 the live blocks are those from before. -/
theorem stack_page_own (h : (program base).ReachWhile Modest s) (answer answer' : ℕ → Option ℕ) (slot : Bool) :
    ∃ r h', pthreadCreate base answer answer' slot s.mem.heap = some (r,h') ∧ (∀ t, r = some t → OwnPage s h'.brk t) ∧
      (r = none → (∃ l, Intact base ⟨h',s.mem.live⟩ l) ∧
        ∀ b ∈ s.mem.live, 8 ≤ b.1 ∧ b.1+b.2 ≤ (b.1-8)+8*h'.size (b.1-8)) := by
  have hs := holds_of_modest h
  obtain ⟨⟨r,h'⟩,hr,hc⟩ := pthreadCreate_spec hs.inv answer answer' slot
  refine ⟨r,h',hr,?_,?_⟩
  · rintro t rfl
    exact ownPage hs hc.1
  · rintro rfl
    refine ⟨Inv.intact hc,fun b hb => ?_⟩
    have := Inv.live hc b hb
    simp only at this
    omega

/-- The second thread of a program that has a block. -/
theorem stack_page_own_second : ∃ s, s.threads.length = 1 ∧ s.mem.live.length = 3 ∧
    ∃ t h', pthreadCreate 16 (fun _ => some 0) (fun _ => none) true s.mem.heap = some (some t,h') ∧ OwnPage s h'.brk t := by
  have hrun : ∃ s, (program 16).ReachWhile Modest s ∧ s.threads.length = 1 ∧ s.mem.live.length = 3 ∧
      ((pthreadCreate 16 (fun _ => some 0) (fun _ => none) true s.mem.heap).map fun r => r.1.isSome) = some true :=
    System.reachWhile_of_exec (fun _ c => match c with
        | .malloc nbytes _ => decide (Small nbytes)
        | _ => true) (fun _ c h => by
        cases c with
        | malloc nbytes _ => exact (of_decide_eq_true h : Small nbytes)
        | _ => trivial)
      [.malloc 100 fun _ => some 0,.create (fun _ => some 0) (fun _ => some 0) true] _ (s := ⟨fresh,[]⟩)
      ⟨⟨rfl,rfl,rfl,by decide,by decide,by decide⟩,rfl⟩ (by decide +kernel)
  obtain ⟨s,hs,hthreads,hlive,hsome⟩ := hrun
  obtain ⟨r,h',hr,hown,-⟩ := stack_page_own hs (fun _ => some 0) (fun _ => none) true
  rw [hr] at hsome
  obtain ⟨t,rfl⟩ := isSome_iff_exists.mp (some.inj hsome)
  exact ⟨s,hthreads,hlive,t,h',hr,hown t rfl⟩

/-- A block of `2^32-8` bytes, for which `sbrk(0)` was called, contains the stack of the thread that is created next. The
end of memory is not at the end of a page, so there is room for the header of the block. -/
theorem huge_block_has_stack : ∃ s, (program 16).Reachable s ∧ (36880,2^32-8) ∈ s.mem.live ∧
    ∃ t h', pthreadCreate 16 (fun _ => some 0) (fun _ => none) true s.mem.heap = some (some t,h') ∧
      36880 ≤ stackOf t.raw ∧ stackOf t.raw+4096 ≤ 36880+(2^32-8) ∧ h'.segs = [(36872,32768),(4096,32776)] := by
  have hrun : ∃ s, (program 16).Reachable s ∧ (36880,2^32-8) ∈ s.mem.live ∧
      ((pthreadCreate 16 (fun _ => some 0) (fun _ => none) true s.mem.heap).map fun r => (r.1,r.2.segs)) =
        some (some ⟨61448,61432⟩,[(36872,32768),(4096,32776)]) :=
    System.reachable_of_exec [.malloc 32768 fun _ => some 0,.malloc (2^32-8) fun _ => some 0] _ (s := ⟨fresh,[]⟩)
      ⟨⟨rfl,rfl,rfl,by decide,by decide,by decide⟩,rfl⟩ (by decide +kernel)
  obtain ⟨s,hs,hlive,hcreate⟩ := hrun
  obtain ⟨⟨r,h'⟩,hr,heq⟩ := map_eq_some_iff.mp hcreate
  obtain ⟨rfl,hsegs⟩ := Prod.mk.inj heq
  exact ⟨s,hs,hlive,⟨61448,61432⟩,h',hr,by decide,by decide,hsegs⟩

end Xv6Threads.Umalloc.Stacks
