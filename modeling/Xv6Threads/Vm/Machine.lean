import Xv6Threads.Ptable.Sharing
import Xv6Threads.Vm.Exec

/-! Runs of the process table with address spaces: every entry has the size of its process, and
every page directory its page tables. `copyuvm`, `growproc` and the building of a program by `exec`
are one step each: they work on the caller's own directory or on one that nobody else has. -/
namespace Xv6Threads.Vm
open Function
open Ptable (Slot PgDir)

structure State where
  pt : Ptable.State
  sz : Slot → ℕ
  dir : PgDir → Dir
  /-- The size that `exec` has computed. -/
  img : Slot → ℕ
  panic : Option Panic

/-- `clone` comes with the stack that it is given, `exec` with the program headers, `sbrk` with its
argument. `copy`, `exec` and `sbrk` come with what `kalloc` is going to return; the first two name
the new page directory. -/
inductive Label
  | pt (l : Ptable.Label)
  | clone (p : Slot) (stack : UInt32)
  | copy (p : Slot) (d : PgDir) (h : Heap)
  | exec (p : Slot) (d : PgDir) (phs : List Proghdr) (h : Heap)
  | sbrk (p : Slot) (n : Int32) (h : Heap)

/-- The steps of the process table that have no label of their own here. -/
def plain : Ptable.Label → Bool
  | .act _ .clone | .act _ (.copy _) | .act _ .copyFail | .act _ (.execBuild _) => false
  | _ => true

/-- The size that `growproc` stores, no size for -1, and the directory. -/
def growproc (D : Dir) (sz : ℕ) (n : Int32) (h : Heap) : Except Panic (Option ℕ × Dir) :=
  let newsz := (sz+n.toUInt32.toNat)%word
  if 0 < n then (allocuvm D sz newsz h).map (fun r => (if r.1 = 0 then none else some r.1,r.2.1))
  else if n < 0 then (deallocuvm D sz newsz h).map (fun r => (if r.1 = 0 then none else some r.1,r.2.1))
  else .ok (some sz,D)

namespace State
variable (s : State)

/-- The sizes after a step of the process table: `fork` and `clone` copy the caller's to the new
entry, `exec` commits its own. -/
def newSz : Ptable.Label → Slot → ℕ
  | .act p .forkFill | .act p .cloneFill =>
    match (s.pt.ctl p).child with
    | some c => update s.sz c (s.sz p)
    | none => s.sz
  | .act p .execCommit => update s.sz p (s.img p)
  | _ => s.sz

/-- A step of the process table; nothing is left of a directory that it frees. -/
def ptStep (l : Ptable.Label) : Option State :=
  (s.pt.step l).map (fun t =>
    {s with pt := t, sz := s.newSz l, dir := fun d => if t.alloc d then s.dir d else fun _ => none})

/-- `stack % PGSIZE || stack + PGSIZE > sz` in `clone`. -/
def badStack (p : Slot) (stack : UInt32) : Bool :=
  stack.toNat%pgSize ≠ 0 ∨ s.sz p < (stack.toNat+pgSize)%word

def step (l : Label) : Option State :=
  if s.panic.isSome then none
  else
    match l with
    | .pt l => if plain l then s.ptStep l else none
    | .clone p stack =>
      if (s.pt.table p).state = .running ∧ s.pt.ctl p = .user then
        if s.badStack p stack then some s else s.ptStep (.act p .clone)
      else none
    | .copy p d h =>
      match s.pt.ctl p,(s.pt.table p).pgdir with
      | .forking _,some o =>
        match copyuvm (s.dir o) (s.sz p) h with
        | .error e => if (s.pt.table p).state = .running then some {s with panic := some e} else none
        | .ok (none,_) => s.ptStep (.act p .copyFail)
        | .ok (some x,_) =>
          (s.ptStep (.act p (.copy d))).map (fun t => {t with dir := update t.dir d x.2})
      | _,_ => none
    | .exec p d phs h =>
      if (s.pt.table p).state = .running ∧ s.pt.ctl p = .user then
        match execImage phs h with
        | .error e => some {s with panic := some e}
        | .ok (none,_) => some s
        | .ok (some x,_) =>
          (s.ptStep (.act p (.execBuild d))).map (fun t =>
            {t with dir := update t.dir d x.2, img := update t.img p x.1})
      else none
    | .sbrk p n h =>
      match (s.pt.table p).pgdir with
      | some d =>
        if (s.pt.table p).state = .running ∧ s.pt.ctl p = .user then
          match growproc (s.dir d) (s.sz p) n h with
          | .error e => some {s with panic := some e}
          | .ok (r,D) =>
            some {s with sz := update s.sz p (r.getD (s.sz p)), dir := update s.dir d D}
        else none
      | none => none

end State

/-- After `userinit`, which has built the directory `D` of the first process. -/
def initial (D : Dir) : State where
  pt := Ptable.initial
  sz q := if q = Ptable.initproc then pgSize else 0
  dir d := if d = 0 then D else fun _ => none
  img _ := 0
  panic := none

/-- There is memory when the machine starts. -/
def machine : System State Label where
  init s := ∃ h D, h.Good ∧ userinit h = some D ∧ s = initial D
  step := State.step

end Xv6Threads.Vm
