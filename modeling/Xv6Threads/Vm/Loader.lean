import Xv6Threads.Vm.Exec

/-! `exec` on the bytes of a regular file and any argument strings, with the reads of `loaduvm` and
the copies to the new stack. The contents of pages are left out, but for the one word of the caller's
memory that `uva2ka` reads through a null pointer. -/
namespace Xv6Threads.Vm.Loader
open UInt32

/-- A regular file, as `readi` sees it. -/
structure File where
  size : UInt32
  byte : ℕ → UInt8

/-- The number of bytes read; nothing stands for -1. -/
def readi (f : File) (off n : UInt32) : Option UInt32 :=
  if f.size < off ∨ off+n < off then none
  else if f.size < off+n then some (f.size-off)
  else some n

/-- The `uint` at `o`. -/
def File.uint (f : File) (o : ℕ) : UInt32 :=
  (f.byte o).toUInt32+256*((f.byte (o+1)).toUInt32+256*((f.byte (o+2)).toUInt32+256*(f.byte (o+3)).toUInt32))

/-- The `ushort` at `o`. -/
def File.ushort (f : File) (o : ℕ) : ℕ := (f.byte o).toNat+256*(f.byte (o+1)).toNat

def elfMagic : UInt32 := 0x464C457F

/-- A program header with the place of its segment in the file. -/
structure Segment extends Proghdr where
  off : UInt32

/-- The program header at `off`, if `readi` gets all of it. -/
def proghdr (f : File) (off : UInt32) : Option Segment :=
  if readi f off 32 = some 32 then
    some
      {type := f.uint off.toNat, off := f.uint (off.toNat+4), vaddr := f.uint (off.toNat+8)
       filesz := f.uint (off.toNat+16), memsz := f.uint (off.toNat+20)}
  else none

/-- A call of `panic`, or a page fault of the kernel itself. -/
inductive Fault
  | panic (p : Panic)
  | trap

/-- A call of `readi` in `loaduvm`: `n` bytes to the page at `pa`, for the address `va`. -/
structure Load where
  va : ℕ
  pa : ℕ
  n : ℕ

/-- One round of `loaduvm`; a result of a loop is nothing while the loop has not ended. -/
def loadBody (D : Dir) (f : File) (addr : ℕ) (offset : UInt32) (sz : ℕ) (h : Heap) :
    ℕ × List Load → Except Fault (ℕ × List Load ⊕ Option Bool × List Load)
  | (i,ls) =>
    if i < sz then
      match (walkpgdir D ((addr+i)%word) false h).1 with
      | none => .error (.panic .loadAddress)
      | some (t,_) =>
        let n := if sz-i < pgSize then sz-i else pgSize
        let ls := ls++[⟨(addr+i)%word,(t.pte (ptx ((addr+i)%word))).elim 0 Pte.addr,n⟩]
        if readi f (offset+UInt32.ofNat i) (UInt32.ofNat n) = some (UInt32.ofNat n) then
          .ok (.inl ((i+pgSize)%word,ls))
        else .ok (.inr (some false,ls))
    else .ok (.inr (some true,ls))

/-- `false` stands for -1. -/
def loaduvm (D : Dir) (f : File) (addr : ℕ) (offset : UInt32) (sz : ℕ) (h : Heap) (ls : List Load) :
    Except Fault (Option Bool × List Load) :=
  if addr%pgSize ≠ 0 then .error (.panic .loadAligned)
  else rounds (loadBody D f addr offset sz h) (fun s => (none,s.2)) (sz/pgSize+2) (0,ls)

/-- What the loop over the program headers has built: the size, the directory and the reads. -/
structure Built where
  sz : ℕ
  dir : Dir
  heap : Heap
  loads : List Load

/-- How the loop over the program headers ends. -/
inductive Ended
  | not
  | bad
  | done

/-- The end of the round for a segment, after `allocuvm`. -/
def segNext (f : File) (ph : Segment) (i : ℕ) (off : UInt32) (ls : List Load) :
    Except Panic (ℕ × Dir × Heap) → Except Fault ((ℕ × UInt32 × Built) ⊕ (Ended × Built))
  | .error e => .error (.panic e)
  | .ok (0,D,h) => .ok (.inr (.bad,⟨0,D,h,ls⟩))
  | .ok (sz,D,h) =>
    if ph.vaddr.toNat%pgSize ≠ 0 then .ok (.inr (.bad,⟨sz,D,h,ls⟩))
    else
      match loaduvm D f ph.vaddr.toNat ph.off ph.filesz.toNat h ls with
      | .error e => .error e
      | .ok (some true,ls) => .ok (.inl (i+1,off+32,⟨sz,D,h,ls⟩))
      | .ok (some false,ls) => .ok (.inr (.bad,⟨sz,D,h,ls⟩))
      | .ok (none,ls) => .ok (.inr (.not,⟨sz,D,h,ls⟩))

/-- One round of the loop of `exec` over the program headers. -/
def segBody (f : File) (phnum : ℕ) : ℕ × UInt32 × Built → Except Fault ((ℕ × UInt32 × Built) ⊕ (Ended × Built))
  | (i,off,b) =>
    if i < phnum then
      match proghdr f off with
      | none => .ok (.inr (.bad,b))
      | some ph =>
        if ph.type ≠ elfProgLoad then .ok (.inl (i+1,off+32,b))
        else if ph.memsz < ph.filesz then .ok (.inr (.bad,b))
        else if ph.top < ph.vaddr.toNat then .ok (.inr (.bad,b))
        else segNext f ph i off b.loads (allocuvm b.dir b.sz ph.top b.heap)
    else .ok (.inr (.done,b))

/-- The process that calls `exec`: its page directory, and the word at its address 0. -/
structure Caller where
  page : ℕ
  dir : Dir
  word : UInt32

/-- The kernel can write to its address `ka`. -/
def Caller.store (c : Caller) (ka : ℕ) : Bool := (ent c.dir (ka/4096)).elim false (fun e => e.perm.w)

def p2v (a : ℕ) : ℕ := (a+kernBase)%word

/-- The kernel address of a page of `D`, or 0. -/
def uva2ka (c : Caller) (D : Dir) (va : ℕ) (h : Heap) : Except Fault ℕ :=
  match (walkpgdir D va false h).1 with
  | some (t,_) => .ok ((t.pte (ptx va)).elim 0 (fun e => if e.perm.u then p2v e.addr else 0))
  | none =>
    -- `*pte` is read without a check that there is one.
    match ent c.dir 0 with
    | none => .error .trap
    | some _ =>
      .ok (if c.word &&& 1 = 0 ∨ c.word &&& 4 = 0 then 0 else p2v (c.word &&& 0xFFFFF000).toNat)

/-- One round of `copyout` with `len` bytes left. -/
def copyBody (c : Caller) (D : Dir) (h : Heap) : ℕ × ℕ → Except Fault (ℕ × ℕ ⊕ Option Bool)
  | (va,len) =>
    if 0 < len then
      match uva2ka c D (pgRoundDown va) h with
      | .error e => .error e
      | .ok pa0 =>
        if pa0 = 0 then .ok (.inr (some false))
        else if c.store (pa0+(va-pgRoundDown va)) then
          .ok (.inl ((pgRoundDown va+pgSize)%word,len-min (pgSize-(va-pgRoundDown va)) len))
        else .error .trap
    else .ok (.inr (some true))

/-- `false` stands for -1. -/
def copyout (c : Caller) (D : Dir) (va len : ℕ) (h : Heap) : Except Fault (Option Bool) :=
  rounds (copyBody c D h) (fun _ => none) (len/pgSize+3) (va,len)

def maxArg : ℕ := 32

/-- The stack pointer below a string of `n` characters that is pushed at `sp`. -/
def below (sp n : ℕ) : ℕ := 4*((sp+word-(n+1)%word)%word/4)

/-- The loop of `exec` over the arguments; it returns `argc` and `sp`, unless it goes to `bad`. -/
def pushArgs (c : Caller) (D : Dir) (h : Heap) :
    ℕ → ℕ → List (List UInt8) → Except Fault (Option (Option (ℕ × ℕ)))
  | argc,sp,[] => .ok (some (some (argc,sp)))
  | argc,sp,s :: argv =>
    if maxArg ≤ argc then .ok (some none)
    else
      match copyout c D (below sp s.length) ((s.length+1)%word) h with
      | .error e => .error e
      | .ok none => .ok none
      | .ok (some false) => .ok (some none)
      | .ok (some true) => pushArgs c D h (argc+1) (below sp s.length) argv

/-- No page directory of `setupkvm` has a page table for the address. -/
def Gap (va : ℕ) : Prop := kernBase+phystop ≤ va ∧ va < devSpace

instance (va : ℕ) : Decidable (Gap va) := inferInstanceAs (Decidable (_ ∧ _))

lemma gap_page {va : ℕ} : Gap (4096*(va/4096)) ↔ Gap va := by
  unfold Gap kernBase phystop devSpace
  omega

/-- The rest of the kernel's half is mapped. -/
lemma kmap_covers {a : ℕ} (h1 : kernBase ≤ a) (h2 : a < word) (hg : ¬Gap a) :
    ∃ k ∈ kmap, k.virt ≤ a ∧ a < k.virt+k.size ∧ k.perm.u = false := by
  have hsize : kmap.map (fun k => k.virt+k.size) = [0x80100000,0x8010a000,0x8e000000,word] := by decide
  obtain ⟨e1,e2,e3,e4⟩ : _ ∧ _ ∧ _ ∧ _ := by simpa [kmap] using hsize
  unfold Gap kernBase phystop devSpace at hg
  have hcases : a < 0x80100000 ∨ (0x80100000 ≤ a ∧ a < 0x8010a000) ∨ (0x8010a000 ≤ a ∧ a < 0x8e000000) ∨ 0xfe000000 ≤ a := by
    unfold kernBase at h1
    omega
  rcases hcases with h | h | h | h
  · exact ⟨_,.head _,h1,by simpa only [e1] using h,rfl⟩
  · exact ⟨_,.tail _ (.head _),h.1,by simpa only [e2] using h.2,rfl⟩
  · exact ⟨_,.tail _ (.tail _ (.head _)),h.1,by simpa only [e3] using h.2,rfl⟩
  · exact ⟨_,.tail _ (.tail _ (.tail _ (.head _))),h,by simpa only [e4] using h2,rfl⟩

/-- An argument that the loop comes to is so long that its address wraps around to where there is no page table. Those
before it fit into the stack page, which is the one from `base` on. -/
def Strays (base : ℕ) : ℕ → ℕ → List (List UInt8) → Prop
  | _,_,[] => False
  | argc,sp,s :: argv => argc < maxArg ∧
    (Gap (below sp s.length) ∨ (base+s.length+1 ≤ sp ∧ Strays base (argc+1) (below sp s.length) argv))

/-- What `exec` returns, and the record of its reads and of what the load loop left. -/
structure Outcome where
  ret : Option ℤ
  loads : List Load
  image : Option (ℕ × Dir)

/-- `bad:` -/
def bad (page : ℕ) (D : Dir) (h : Heap) (ls : List Load) (image : Option (ℕ × Dir)) : Except Fault Outcome :=
  match freevm page D h with
  | .error e => .error (.panic e)
  | .ok _ => .ok ⟨some (-1),ls,image⟩

/-- The last copy to the stack, and the change to the new directory. -/
def commit (c : Caller) (page : ℕ) (D : Dir) (h : Heap) (ls : List Load) (image : Option (ℕ × Dir)) :
    Except Fault (Option (Option (ℕ × ℕ))) → Except Fault Outcome
  | .error e => .error e
  | .ok none => .ok ⟨none,ls,image⟩
  | .ok (some none) => bad page D h ls image
  | .ok (some (some (argc,sp))) =>
    match copyout c D ((sp+word-(3+argc+1)*4)%word) ((3+argc+1)*4) h with
    | .error e => .error e
    | .ok none => .ok ⟨none,ls,image⟩
    | .ok (some false) => bad page D h ls image
    | .ok (some true) =>
      match freevm c.page c.dir h with
      | .error e => .error (.panic e)
      | .ok _ => .ok ⟨some 0,ls,image⟩

/-- The stack guard and the arguments, once the stack has been added. -/
def argsNext (c : Caller) (argv : List (List UInt8)) (page : ℕ) (ls : List Load) (image : Option (ℕ × Dir)) :
    Except Panic (ℕ × Dir × Heap) → Except Fault Outcome
  | .error e => .error (.panic e)
  | .ok (0,D,h) => bad page D h ls image
  | .ok (sz,D,h) =>
    match clearpteu D ((sz+word-2*pgSize)%word) h with
    | .error e => .error (.panic e)
    | .ok D => commit c page D h ls image (pushArgs c D h 0 sz argv)

/-- `exec` after the load loop. -/
def stackNext (c : Caller) (argv : List (List UInt8)) (page : ℕ) :
    Except Fault (Ended × Built) → Except Fault Outcome
  | .error e => .error e
  | .ok (.not,b) => .ok ⟨none,b.loads,none⟩
  | .ok (.bad,b) => bad page b.dir b.heap b.loads none
  | .ok (.done,b) =>
    argsNext c argv page b.loads (some (b.sz,b.dir))
      (allocuvm b.dir (pgRoundUp b.sz) ((pgRoundUp b.sz+2*pgSize)%word) b.heap)

/-- The size that `allocuvm` returns, if it is one. -/
def allocated : Except Panic (ℕ × Dir × Heap) → Option ℕ
  | .error _ => none
  | .ok (0,_,_) => none
  | .ok (sz,_,_) => some sz

/-- The size with the stack, after the load loop. -/
def stackSize : Except Fault (Ended × Built) → Option ℕ
  | .ok (.done,b) => allocated (allocuvm b.dir (pgRoundUp b.sz) ((pgRoundUp b.sz+2*pgSize)%word) b.heap)
  | _ => none

/-- The size of the process for which `exec` pushes the arguments, if it comes to that. -/
def stackTop (f : File) (h : Heap) : Option ℕ :=
  if readi f 0 52 ≠ some 52 ∨ f.uint 0 ≠ elfMagic then none
  else
    match setupkvm h with
    | .ok (some (_,D),h) =>
      stackSize (rounds (segBody f (f.ushort 44)) (fun s => (.not,s.2.2)) (f.ushort 44+1) (0,f.uint 28,⟨0,D,h,[]⟩))
    | _ => none

/-- `exec` of the file `f` with the strings `argv`, once `namei` has found it. -/
def exec (f : File) (argv : List (List UInt8)) (c : Caller) (h : Heap) : Except Fault Outcome :=
  if readi f 0 52 ≠ some 52 then .ok ⟨some (-1),[],none⟩
  else if f.uint 0 ≠ elfMagic then .ok ⟨some (-1),[],none⟩
  else
    match setupkvm h with
    | .error e => .error (.panic e)
    | .ok (none,_) => .ok ⟨some (-1),[],none⟩
    | .ok (some (page,D),h) =>
      stackNext c argv page
        (rounds (segBody f (f.ushort 44)) (fun s => (.not,s.2.2)) (f.ushort 44+1) (0,f.uint 28,⟨0,D,h,[]⟩))

end Xv6Threads.Vm.Loader
