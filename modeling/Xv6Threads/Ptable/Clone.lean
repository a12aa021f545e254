import Xv6Threads.Disk.Format
import Xv6Threads.Ptable.Table

/-! `clone` with its arguments as 32-bit words, the new trap frame, and the words that the kernel stores through the
stack address. The memory is that of the caller's address space, by virtual addresses; `clone` writes through the page
directory in use, which is the caller's. -/
namespace Xv6Threads.Ptable.Cloning
open Disk (getInt putInt getInt_putInt getInt_putInt_ne)

def pgSize : UInt32 := 4096

/-- `struct trapframe`; `saved` has the registers that `clone` only copies. -/
structure Trapframe where
  eax : UInt32
  eip : UInt32
  esp : UInt32
  saved : List UInt32
  deriving DecidableEq

/-- `struct proc`, with pointers as numbers; `chan`, `context` and `killed` are read and set by none of this. -/
structure Proc where
  sz : UInt32
  pgdir : ℕ
  kstack : Option ℕ
  state : ProcState
  pid : Int32
  parent : Option Slot
  tf : Trapframe
  ofile : Fin 16 → Option ℕ
  cwd : Option ℕ
  name : List UInt8
  isthread : Bool
  tgid : Int32
  ustack : UInt32
  randstate : UInt32
  randpct : Int32

structure State where
  table : Slot → Proc
  nextpid : Int32
  mem : ℕ → UInt8

def State.set (s : State) (q : Slot) (e : Proc) : State := { s with table := Function.update s.table q e }

/-- The stores of `allocproc` under `ptable.lock`. -/
def allocEntry (e : Proc) (pid : Int32) : Proc :=
  { e with
    state := .embryo, pid := pid, isthread := false, tgid := pid, ustack := 0
    randstate := pid.toUInt32, randpct := 0 }

/-- `allocproc`, where `kalloc` returns `k`. -/
def allocproc (k : Option ℕ) (s : State) : Option Slot × State :=
  match firstSlot (fun q => (s.table q).state = .unused) with
  | none => (none,s)
  | some q =>
    let e := { allocEntry (s.table q) s.nextpid with kstack := k }
    match k with
    | none => (none,{ s.set q { e with state := .unused } with nextpid := s.nextpid+1 })
    | some _ => (some q,{ s.set q e with nextpid := s.nextpid+1 })

/-- The argument check of `clone`. -/
def rejects (sz stack : UInt32) : Bool := stack%pgSize ≠ 0 || sz < stack+pgSize

/-- What `clone` stores into the new entry `e`. -/
def cloneEntry (p : Slot) (c e : Proc) (fn stack sp : UInt32) : Proc :=
  { e with
    pgdir := c.pgdir, sz := c.sz, parent := some p, isthread := true, tgid := c.tgid, ustack := stack
    randstate := c.randstate ^^^ e.pid.toUInt32, randpct := c.randpct
    tf := { c.tf with eip := fn, esp := sp, eax := 0 }
    ofile := fun i => (c.ofile i).or (e.ofile i), cwd := c.cwd, name := c.name, state := .runnable }

/-- `clone(fn, arg, stack)` by `p`, where `kalloc` returns `k`. -/
def clone (p : Slot) (fn arg stack : UInt32) (k : Option ℕ) (s : State) : Int32 × State :=
  if rejects (s.table p).sz stack then (-1,s)
  else
    match allocproc k s with
    | (none,s) => (-1,s)
    | (some q,s) =>
      let sp := stack+pgSize-4
      let mem := putInt s.mem sp.toNat arg.toNat
      let sp := sp-4
      let mem := putInt mem sp.toNat 0xffffffff
      let e := cloneEntry p (s.table p) (s.table q) fn stack sp
      (e.pid,{ s.set q e with mem := mem })

variable {p q : Slot} {fn arg stack sz : UInt32} {k : Option ℕ} {s t : State}

lemma accepts_iff (hstack : stack ≠ 0xFFFFF000) :
    rejects sz stack = false ↔ stack.toNat%4096 = 0 ∧ stack.toNat+4096 ≤ sz.toNat := by
  have hlt := stack.toNat_lt
  have hne : stack.toNat ≠ 0xFFFFF000 := fun h => hstack (UInt32.toNat_inj.mp h)
  have hmod : stack%pgSize = 0 ↔ stack.toNat%4096 = 0 := by
    rw [← UInt32.toNat_inj,UInt32.toNat_mod]
    rfl
  have hsum : (stack+pgSize).toNat = (stack.toNat+4096)%2^32 := UInt32.toNat_add ..
  simp only [rejects,Bool.or_eq_false_iff,decide_eq_false_iff_not,ne_eq,not_not,hmod,UInt32.lt_iff_toNat_lt,hsum]
  omega

lemma clone_of_rejects (h : rejects (s.table p).sz stack = true) : clone p fn arg stack k s = (-1,s) := if_pos h

lemma clone_of_full (h : firstSlot (fun q => (s.table q).state = .unused) = none) :
    clone p fn arg stack k s = (-1,s) := by
  unfold clone allocproc
  rw [h]
  split_ifs <;> rfl

lemma clone_stores {n : ℕ} (h : rejects (s.table p).sz stack = false)
    (hq : firstSlot (fun q => (s.table q).state = .unused) = some q) (hstack : stack.toNat+4096 < 2^32)
    (ht : (clone p fn arg stack (some n) s).2 = t) : (stack+pgSize-4-4).toNat = stack.toNat+4096-8 ∧
      t.mem = putInt (putInt s.mem (stack.toNat+4096-4) arg.toNat) (stack.toNat+4096-8) 0xffffffff ∧
      (t.table q).tf = { (s.table p).tf with eip := fn, esp := stack+pgSize-4-4, eax := 0 } := by
  have h1 : (stack+pgSize-4).toNat = stack.toNat+4096-4 := by
    rw [UInt32.toNat_sub,UInt32.toNat_add]
    change (2^32-4+(stack.toNat+4096)%2^32)%2^32 = _
    omega
  have h2 : (stack+pgSize-4-4).toNat = stack.toNat+4096-8 := by
    rw [UInt32.toNat_sub,h1]
    change (2^32-4+(stack.toNat+4096-4))%2^32 = _
    omega
  subst ht
  refine ⟨h2,?_,?_⟩
  · simp only [clone,h,allocproc,hq,h1,h2]
    rfl
  · simp only [clone,h,allocproc,hq,State.set]
    by_cases hpq : p = q
    · subst hpq
      simp [cloneEntry,allocEntry]
    · simp [cloneEntry,hpq]

/-- `clone` touches only the stack page it was given, inside the caller's memory. -/
structure InOwnMemory (p : Slot) (fn arg stack : UInt32) (k : Option ℕ) (s : State) : Prop where
  inside : rejects (s.table p).sz stack = false → stack.toNat%4096 = 0 ∧ stack.toNat+4096 ≤ (s.table p).sz.toNat
  rejected : rejects (s.table p).sz stack = true → clone p fn arg stack k s = (-1,s)
  full : firstSlot (fun q => (s.table q).state = .unused) = none → clone p fn arg stack k s = (-1,s)
  frame : ∀ q n t, rejects (s.table p).sz stack = false →
    firstSlot (fun q => (s.table q).state = .unused) = some q → (clone p fn arg stack (some n) s).2 = t →
      (t.table q).tf.esp.toNat = stack.toNat+4096-8 ∧ (t.table q).tf.eip = fn ∧ (t.table q).tf.eax = 0 ∧
      getInt t.mem (stack.toNat+4096-4) = arg.toNat ∧ getInt t.mem (stack.toNat+4096-8) = 0xffffffff ∧
      ∀ a, ¬(stack.toNat ≤ a ∧ a < stack.toNat+4096) → t.mem a = s.mem a

/-- The check of the stack is right for every page but the last one of the address space, whose end wraps to 0. -/
theorem clone_in_own_memory (p : Slot) (fn arg stack : UInt32) (k : Option ℕ) (s : State) :
    InOwnMemory p fn arg stack k s ↔ stack ≠ 0xFFFFF000 := by
  constructor
  · rintro h rfl
    have hpass : rejects (s.table p).sz 0xFFFFF000 = false := by
      simp [rejects,pgSize]
    have := (h.inside hpass).2
    have := (s.table p).sz.toNat_lt
    have : (0xFFFFF000 : UInt32).toNat = 0xFFFFF000 := rfl
    omega
  intro hstack
  refine ⟨(accepts_iff hstack).mp,clone_of_rejects,clone_of_full,fun q n t h hq ht => ?_⟩
  have := (accepts_iff hstack).mp h
  have := (s.table p).sz.toNat_lt
  obtain ⟨hesp,hmem,htf⟩ := clone_stores h hq (by omega) ht
  refine ⟨by rw [htf,hesp],by rw [htf],by rw [htf],?_,?_,fun a ha => ?_⟩
  · rw [hmem,getInt_putInt_ne (by omega),getInt_putInt arg.toNat_lt]
  · rw [hmem,getInt_putInt (by decide)]
  · rw [hmem,putInt,if_neg (by omega),putInt,if_neg (by omega)]

/-- One process of two pages. -/
def lone : State where
  table q := ⟨if q.val = 0 then 8192 else 0,0,none,if q.val = 0 then .running else .unused,if q.val = 0 then 1 else 0,none,
    ⟨0,0,0,[]⟩,fun _ => none,none,[],false,0,0,0,0⟩
  nextpid := 2
  mem _ := 0

/-- The second page is a stack for a thread. -/
theorem clone_on_second_page : rejects (lone.table 0).sz 4096 = false ∧
    getInt (clone 0 0x100 7 4096 (some 5) lone).2.mem 8188 = 7 := by
  have hpass : rejects (lone.table 0).sz 4096 = false := by decide
  exact ⟨hpass,(((clone_in_own_memory 0 0x100 7 4096 (some 5) lone).mpr (by decide)).frame 1 5 _ hpass
    (by decide +kernel) rfl).2.2.2.1⟩

/-- With the last page of the address space the sum wraps around to 0, which is below every size: the check passes, and
the kernel stores to its own address 0xFFFFFFFC. -/
theorem clone_accepts_last_page : rejects (lone.table 0).sz 0xFFFFF000 = false ∧
    (clone 0 0x100 7 0xFFFFF000 (some 5) lone).1 = 2 ∧
    getInt (clone 0 0x100 7 0xFFFFF000 (some 5) lone).2.mem 0xFFFFFFFC = 7 ∧
    getInt lone.mem 0xFFFFFFFC = 0 := by decide +kernel

end Xv6Threads.Ptable.Cloning
