import Xv6Threads.Mem.Owned
import Xv6Threads.Vm.Loader

/-! `loaduvm`, `copyout` and `exec` with the contents of memory, the process that calls `exec` and what it holds of the
file system. -/
namespace Xv6Threads.Mem
open Disk UInt32
open Vm (pgSize word pgRoundUp pgRoundDown Panic elfProgLoad)
open Vm.Loader (File readi proghdr Segment elfMagic maxArg below p2v)

/-- A call of `panic`, a page fault of the kernel itself, or a store into the kernel's own data. -/
inductive Fault
  | panic (p : Panic)
  | trap
  | wild

/-- The result of a function that can only panic. -/
def calm {α : Type} : Except Panic α → Except Fault α
  | .error e => .error (.panic e)
  | .ok a => .ok a

/-- `readi` into the beginning of a page. -/
def readTo (f : File) (off n : UInt32) (c : Page) : Option UInt32 × Page :=
  match readi f off n with
  | none => (none,c)
  | some r => (some r,fun o => if o < r.toNat then f.byte (off.toNat+o) else c o)

/-- One round of `loaduvm`; `false` stands for -1. -/
def loadBody (D : Dir) (f : File) (addr : ℕ) (offset : UInt32) (sz : ℕ) :
    ℕ × Memory → Except Panic (ℕ × Memory ⊕ Bool × Memory)
  | (i,m) =>
    if i < sz then
      match (walkpgdir D ((addr+i)%word) false m).1 with
      | none => .error .loadAddress
      | some (t,_) =>
        let pa := (t.pte (pt ((addr+i)%word))).elim 0 Pte.addr
        let n := if sz-i < pgSize then sz-i else pgSize
        let r := readTo f (offset+UInt32.ofNat i) (UInt32.ofNat n) (m.page pa)
        if r.1 = some (UInt32.ofNat n) then .ok (.inl ((i+pgSize)%word,m.put pa r.2))
        else .ok (.inr (false,m.put pa r.2))
    else .ok (.inr (true,m))

def loaduvm (D : Dir) (f : File) (addr : ℕ) (offset : UInt32) (sz : ℕ) (m : Memory) : Except Panic (Bool × Memory) :=
  if addr%pgSize ≠ 0 then .error .loadAligned
  else rounds (loadBody D f addr offset sz) (fun s => (false,s.2)) (sz/pgSize+2) (0,m)

/-- The page directory that is in use, and the pages that have data of the kernel: page tables, stacks, pipes. -/
structure Running where
  dir : Dir
  sys : ℕ → Bool

/-- The pages of a new directory have data of the kernel too. -/
def Running.with (c : Running) (page : ℕ) (D : Dir) : Running :=
  { c with sys := fun f => c.sys f || f = page || (List.finRange 1024).any fun i => (D i).any fun t => t.page = f }

/-- The kernel address of a page of `D`, or 0. -/
def uva2ka (c : Running) (D : Dir) (va : ℕ) (m : Memory) : Except Fault ℕ :=
  match (walkpgdir D va false m).1 with
  | some (t,_) => .ok ((t.pte (pt va)).elim 0 fun e => if e.flags.u then p2v e.addr else 0)
  | none =>
    -- `*pte` is read without a check that there is one, at address 0 of the running process.
    match ent c.dir 0 with
    | none => .error .trap
    | some e =>
      let pte := Disk.getInt (m.page e.addr) 0
      .ok (if pte%2 = 0 ∨ pte/4%2 = 0 then 0 else p2v (4096*(pte/4096)))

/-- The bytes `bs` are written at offset `o` of page `f`. -/
def Memory.blit (m : Memory) (f o : ℕ) (bs : List UInt8) : Memory :=
  m.put f fun i => if o ≤ i ∧ i < o+bs.length then bs.getD (i-o) 0 else m.page f i

/-- `memmove` of `buf` to offset `o` of the page at the kernel's address `ka`. -/
def memmove (c : Running) (ka o : ℕ) (buf : List UInt8) (m : Memory) : Except Fault Memory :=
  match ent c.dir (ka/pgSize) with
  | none => .error .trap
  | some e =>
    if e.flags.w = false then .error .trap
    else if c.sys e.addr then .error .wild
    else .ok (m.blit e.addr o buf)

/-- One round of `copyout`; `buf` are the bytes left. -/
def outBody (c : Running) (D : Dir) :
    ℕ × List UInt8 × Memory → Except Fault (ℕ × List UInt8 × Memory ⊕ Bool × Memory)
  | (va,buf,m) =>
    if 0 < buf.length then
      let va0 := pgRoundDown va
      match uva2ka c D va0 m with
      | .error e => .error e
      | .ok pa0 =>
        if pa0 = 0 then .ok (.inr (false,m))
        else
          let n := min (pgSize-(va-va0)) buf.length
          match memmove c pa0 (va-va0) (buf.take n) m with
          | .error e => .error e
          | .ok m => .ok (.inl ((va0+pgSize)%word,buf.drop n,m))
    else .ok (.inr (true,m))

/-- `copyout` of all of `buf`; `false` stands for -1. -/
def copyout (c : Running) (D : Dir) (va : ℕ) (buf : List UInt8) (m : Memory) : Except Fault (Bool × Memory) :=
  rounds (outBody c D) (fun s => (false,s.2.2)) (buf.length/pgSize+3) (va,buf,m)

/-- The fields of `struct trapframe` that `exec` sets, and the others. -/
structure Trapframe where
  eip : UInt32
  esp : UInt32
  others : List UInt32

/-- The fields of `struct proc` that a failed `exec` is to leave alone. -/
structure Proc where
  page : ℕ
  dir : Dir
  sz : ℕ
  tf : Trapframe
  name : List UInt8
  ofile : List ℕ
  cwd : ℕ

/-- The process, memory, `log.outstanding`, and the reference count and lock of the inode that `namei` returns. -/
structure World where
  proc : Proc
  mem : Memory
  ops : ℕ
  refs : ℕ
  locked : Bool

def World.beginOp (w : World) : World := { w with ops := w.ops+1 }

def World.endOp (w : World) : World := { w with ops := w.ops-1 }

/-- `namei` and `ilock`. -/
def World.inode (w : World) : World := { w with refs := w.refs+1, locked := true }

def World.iunlockput (w : World) : World := { w with refs := w.refs-1, locked := false }

/-- `bad:`, with the new directory if there is one, and whether `ip` is still set. -/
def bad (new : Option (ℕ × Dir)) (ip : Bool) (w : World) : Except Fault (Bool × World) := do
  let m ← match new with
    | none => pure w.mem
    | some (page,D) => calm (freevm page D w.mem)
  let w := { w with mem := m }
  pure (false,if ip then w.iunlockput.endOp else w)

/-- The loop over the program headers has the size, the directory and the memory. -/
abbrev Image := ℕ × Dir × Memory

/-- The end of the round for a segment, after `allocuvm`. -/
def segNext (f : File) (ph : Segment) (i : ℕ) (off : UInt32) :
    Except Panic Image → Except Panic ((ℕ × UInt32 × Image) ⊕ (Bool × Image))
  | .error e => .error e
  | .ok (sz,D,m) =>
    if sz = 0 then .ok (.inr (false,0,D,m))
    else if ph.vaddr.toNat%pgSize ≠ 0 then .ok (.inr (false,sz,D,m))
    else
      match loaduvm D f ph.vaddr.toNat ph.off ph.filesz.toNat m with
      | .error e => .error e
      | .ok (true,m) => .ok (.inl (i+1,off+32,sz,D,m))
      | .ok (false,m) => .ok (.inr (false,sz,D,m))

/-- One round of the loop of `exec` over the program headers; `false` stands for `goto bad`. -/
def segBody (f : File) (phnum : ℕ) : ℕ × UInt32 × Image → Except Panic ((ℕ × UInt32 × Image) ⊕ (Bool × Image))
  | (i,off,b) =>
    if i < phnum then
      match proghdr f off with
      | none => .ok (.inr (false,b))
      | some ph =>
        if ph.type ≠ elfProgLoad then .ok (.inl (i+1,off+32,b))
        else if ph.memsz < ph.filesz then .ok (.inr (false,b))
        else if ph.top < ph.vaddr.toNat then .ok (.inr (false,b))
        else segNext f ph i off (allocuvm b.2.1 b.1 ph.top b.2.2)
    else .ok (.inr (true,b))

/-- The bytes of a string that `copyout` gets, of its `strlen(s)+1` as a `uint`. -/
def cstring (s : List UInt8) : List UInt8 := (s ++ [0]).take ((s.length+1)%word)

/-- The loop of `exec` over the arguments, with the pointers so far; nothing stands for `goto bad`. -/
def pushArgs (c : Running) (D : Dir) :
    ℕ → List ℕ → List (List UInt8) → Memory → Except Fault (Option (ℕ × List ℕ) × Memory)
  | sp,ptrs,[],m => .ok (some (sp,ptrs),m)
  | sp,ptrs,s :: argv,m =>
    if maxArg ≤ ptrs.length then .ok (none,m)
    else
      match copyout c D (below sp s.length) (cstring s) m with
      | .error e => .error e
      | .ok (false,m) => .ok (none,m)
      | .ok (true,m) => pushArgs c D (below sp s.length) (ptrs ++ [below sp s.length]) argv m

/-- The bytes of words. -/
def words : List ℕ → List UInt8
  | [] => []
  | v :: vs => Disk.byteOf v 0 :: Disk.byteOf v 1 :: Disk.byteOf v 2 :: Disk.byteOf v 3 :: words vs

/-- `ustack` for the stack pointer below the strings. -/
def ustack (sp : ℕ) (ptrs : List ℕ) : List ℕ :=
  [0xffffffff,ptrs.length,(sp+word-(ptrs.length+1)*4)%word] ++ ptrs ++ [0]

/-- The last element of a path, at most 15 bytes of it. -/
def progName (path : List UInt8) : List UInt8 := ((path.reverse.takeWhile (· ≠ 47)).reverse).take 15

/-- The last copy to the stack, and the change to the new directory. -/
def commit (c : Running) (path : List UInt8) (entry : UInt32) (page sz : ℕ) (D : Dir) (w : World) :
    Except Fault (Option (ℕ × List ℕ) × Memory) → Except Fault (Bool × World)
  | .error e => .error e
  | .ok (none,m) => bad (some (page,D)) false { w with mem := m }
  | .ok (some (sp,ptrs),m) =>
    let esp := (sp+word-(3+ptrs.length+1)*4)%word
    match copyout c D esp (words (ustack sp ptrs)) m with
    | .error e => .error e
    | .ok (false,m) => bad (some (page,D)) false { w with mem := m }
    | .ok (true,m) =>
      match freevm w.proc.page w.proc.dir m with
      | .error e => .error (.panic e)
      | .ok m =>
        .ok (true,{ w with
          mem := m
          proc := { w.proc with
            page := page, dir := D, sz := sz, name := progName path
            tf := { w.proc.tf with eip := entry, esp := UInt32.ofNat esp } } })

/-- The stack guard and the arguments, once the stack has been added. -/
def argsNext (c : Running) (path : List UInt8) (argv : List (List UInt8)) (entry : UInt32) (page : ℕ) (w : World) :
    Except Panic Image → Except Fault (Bool × World)
  | .error e => .error (.panic e)
  | .ok (sz,D,m) =>
    if sz = 0 then bad (some (page,D)) false { w with mem := m }
    else
      match clearpteu D ((sz+word-2*pgSize)%word) m with
      | .error e => .error (.panic e)
      | .ok D =>
        let c := c.with page D
        commit c path entry page sz D w (pushArgs c D sz [] argv m)

/-- `exec` after the loop over the program headers. -/
def stackNext (c : Running) (path : List UInt8) (argv : List (List UInt8)) (entry : UInt32) (page : ℕ) (w : World) :
    Except Panic (Bool × Image) → Except Fault (Bool × World)
  | .error e => .error (.panic e)
  | .ok (false,_,D,m) => bad (some (page,D)) true { w with mem := m }
  | .ok (true,sz,D,m) =>
    argsNext c path argv entry page w.iunlockput.endOp
      (allocuvm D (pgRoundUp sz) ((pgRoundUp sz+2*pgSize)%word) m)

/-- The loop over the program headers, from the directory `D`. -/
def loadAll (f : File) (D : Dir) (m : Memory) : Except Panic (Bool × Image) :=
  rounds (segBody f (f.ushort 44)) (fun s => (false,s.2.2)) (f.ushort 44+1) (0,f.uint 28,0,D,m)

/-- The size that `allocuvm` returns, if it is one. -/
def allocated : Except Panic Image → Option ℕ
  | .error _ => none
  | .ok (sz,_,_) => if sz = 0 then none else some sz

/-- The size with the stack, after the loop over the program headers. -/
def stackSize : Except Panic (Bool × Image) → Option ℕ
  | .ok (true,sz,D,m) => allocated (allocuvm D (pgRoundUp sz) ((pgRoundUp sz+2*pgSize)%word) m)
  | _ => none

/-- The size of the process for which `exec` pushes the arguments, if it comes to that. -/
def stackTop (f : File) (m : Memory) : Option ℕ :=
  if readi f 0 52 ≠ some 52 ∨ f.uint 0 ≠ elfMagic then none
  else
    match setupkvm m with
    | .ok (some (_,D),m) => stackSize (loadAll f D m)
    | _ => none

/-- `exec(path, argv)`, where `namei(path)` gives `file`. The pages in `sys` have data of the kernel. -/
def exec (sys : ℕ → Bool) (path : List UInt8) (file : Option File) (argv : List (List UInt8)) (w : World) :
    Except Fault (Bool × World) :=
  match file with
  | none => .ok (false,w.beginOp.endOp)
  | some f =>
    let w := w.beginOp.inode
    if readi f 0 52 ≠ some 52 then bad none true w
    else if f.uint 0 ≠ elfMagic then bad none true w
    else
      match setupkvm w.mem with
      | .error e => .error (.panic e)
      | .ok (none,m) => bad none true { w with mem := m }
      | .ok (some (page,D),m) => stackNext ⟨w.proc.dir,sys⟩ path argv (f.uint 24) page w (loadAll f D m)

end Xv6Threads.Mem
