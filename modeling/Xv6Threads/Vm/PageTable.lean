import Xv6Threads.Foundations.Loop

/-! The page tables of `vm.c`. A page directory is a tree of tables rather than a page of pointers,
and an entry without `PTE_P` is zero. What the allocator returns is given beforehand, so every
pattern of failures is one such sequence. -/
namespace Xv6Threads.Vm
open Function

def pgSize : ℕ := 4096

def kernBase : ℕ := 0x80000000

/-- Addresses are taken modulo this. -/
def word : ℕ := 2^32

def pgRoundUp (a : ℕ) : ℕ := pgSize*((a+pgSize-1)%word/pgSize)

def pgRoundDown (a : ℕ) : ℕ := pgSize*(a/pgSize)

/-- `PDX` -/
def pdx (va : ℕ) : ℕ := va/2^22%1024

/-- `PTX` -/
def ptx (va : ℕ) : ℕ := va/2^12%1024

/-- `PGADDR(d, 0, 0)` -/
def pgAddr (d : ℕ) : ℕ := 2^22*d%word

/-- The calls of `panic` in the functions below, in the order of `vm.c`. -/
inductive Panic
  | remap
  | phystop
  | loadAligned
  | loadAddress
  | kfree
  | freevm
  | clearpteu
  | pteShouldExist
  | pageNotPresent
  deriving DecidableEq

/-- `supply` has the results of the calls of `kalloc` to come, as physical addresses with 0 for a
failure, and `freed` the arguments of `kfree`, newest first. -/
structure Heap where
  supply : ℕ → ℕ
  freed : List ℕ

def kalloc (h : Heap) : ℕ × Heap := (h.supply 0,{h with supply := fun n => h.supply (n+1)})

def kfree (p : ℕ) (h : Heap) : Heap := {h with freed := p :: h.freed}

/-- `PTE_W` and `PTE_U` -/
structure Perm where
  w : Bool
  u : Bool
  deriving DecidableEq

/-- An entry with `PTE_P`. -/
structure Pte where
  addr : ℕ
  perm : Perm
  deriving DecidableEq

/-- A page table, with the address of its own page. -/
structure Tab where
  page : ℕ
  pte : ℕ → Option Pte

abbrev Dir := ℕ → Option Tab

/-- The table that has the entry for `va`. -/
def walkpgdir (D : Dir) (va : ℕ) (alloc : Bool) (h : Heap) : Option (Tab × Dir) × Heap :=
  match D (pdx va) with
  | some t => (some (t,D),h)
  | none =>
    if alloc then
      match kalloc h with
      | (0,h) => (none,h)
      | (p,h) =>
        let t : Tab := ⟨p,fun _ => none⟩
        (some (t,update D (pdx va) (some t)),h)
    else (none,h)

/-- `*pte = e` for the entry of `va` in its table `t`. -/
def setPte (D : Dir) (va : ℕ) (t : Tab) (e : Option Pte) : Dir :=
  update D (pdx va) (some {t with pte := update t.pte (ptx va) e})

/-- One round of `mappages` at `a`, to be mapped to `pa`. -/
def mapBody (perm : Perm) (last : ℕ) : Dir × ℕ × ℕ × Heap → Except Panic (Dir × ℕ × ℕ × Heap ⊕ Bool × Dir × Heap)
  | (D,a,pa,h) =>
    match walkpgdir D a true h with
    | (none,h) => .ok (.inr (false,D,h))
    | (some (t,D),h) =>
      match t.pte (ptx a) with
      | some _ => .error .remap
      | none =>
        let D := setPte D a t (some ⟨pa,perm⟩)
        if a = last then .ok (.inr (true,D,h))
        else .ok (.inl (D,(a+pgSize)%word,(pa+pgSize)%word,h))

/-- `false` stands for -1. -/
def mappages (D : Dir) (va size pa : ℕ) (perm : Perm) (h : Heap) : Except Panic (Bool × Dir × Heap) :=
  let a := pgRoundDown va
  let last := pgRoundDown ((va+size-1)%word)
  rounds (mapBody perm last) (fun s => (true,s.1,s.2.2.2)) ((last+word-a)%word/pgSize+1) (D,a,pa,h)

/-- One round of `loaduvm` at `addr+i`; what it reads does not change the page table. -/
def loadBody (D : Dir) (addr sz : ℕ) (h : Heap) (i : ℕ) : Except Panic (ℕ ⊕ Unit) :=
  if i < sz then
    match (walkpgdir D ((addr+i)%word) false h).1 with
    | none => .error .loadAddress
    | some _ => .ok (.inl ((i+pgSize)%word))
  else .ok (.inr ())

def loaduvm (D : Dir) (addr sz : ℕ) (h : Heap) : Except Panic Unit :=
  if addr%pgSize ≠ 0 then .error .loadAligned
  else rounds (loadBody D addr sz h) (fun _ => ()) (sz/pgSize+2) 0

/-- One round of `deallocuvm` at `a`. -/
def deallocBody (oldsz : ℕ) : Dir × ℕ × Heap → Except Panic (Dir × ℕ × Heap ⊕ Dir × Heap)
  | (D,a,h) =>
    if a < oldsz then
      match (walkpgdir D a false h).1 with
      | none => .ok (.inl (D,(pgAddr (pdx a+1)+word-pgSize+pgSize)%word,h))
      | some (t,_) =>
        match t.pte (ptx a) with
        | some e =>
          if e.addr = 0 then .error .kfree
          else .ok (.inl (setPte D a t none,(a+pgSize)%word,kfree e.addr h))
        | none => .ok (.inl (D,(a+pgSize)%word,h))
    else .ok (.inr (D,h))

/-- The new size, the directory and the heap. -/
def deallocuvm (D : Dir) (oldsz newsz : ℕ) (h : Heap) : Except Panic (ℕ × Dir × Heap) :=
  if oldsz ≤ newsz then .ok (oldsz,D,h)
  else
    match rounds (deallocBody oldsz) (fun s => (s.1,s.2.2)) (oldsz/pgSize+2) (D,pgRoundUp newsz,h) with
    | .error e => .error e
    | .ok (D,h) => .ok (newsz,D,h)

/-- The end of `allocuvm` when memory has run out. -/
def allocFail (D : Dir) (oldsz newsz : ℕ) (mem : Option ℕ) (h : Heap) : Except Panic (ℕ × Dir × Heap) :=
  match deallocuvm D newsz oldsz h with
  | .error e => .error e
  | .ok (_,D,h) => .ok (0,D,mem.elim h (fun p => kfree p h))

/-- One round of `allocuvm` at `a`. -/
def allocBody (oldsz newsz : ℕ) : Dir × ℕ × Heap → Except Panic (Dir × ℕ × Heap ⊕ ℕ × Dir × Heap)
  | (D,a,h) =>
    if a < newsz then
      match kalloc h with
      | (0,h) => (allocFail D oldsz newsz none h).map .inr
      | (mem,h) =>
        match mappages D a pgSize mem ⟨true,true⟩ h with
        | .error e => .error e
        | .ok (false,D,h) => (allocFail D oldsz newsz (some mem) h).map .inr
        | .ok (true,D,h) => .ok (.inl (D,(a+pgSize)%word,h))
    else .ok (.inr (newsz,D,h))

/-- The new size, or 0 on error. -/
def allocuvm (D : Dir) (oldsz newsz : ℕ) (h : Heap) : Except Panic (ℕ × Dir × Heap) :=
  if kernBase ≤ newsz then .ok (0,D,h)
  else if newsz < oldsz then .ok (oldsz,D,h)
  else rounds (allocBody oldsz newsz) (fun s => (newsz,s.1,s.2.2)) (newsz/pgSize+2) (D,pgRoundUp oldsz,h)

/-- `freevm` of a directory in page `page`. -/
def freevm (page : ℕ) (D : Dir) (h : Heap) : Except Panic Heap :=
  if page = 0 then .error .freevm
  else
    match deallocuvm D kernBase 0 h with
    | .error e => .error e
    | .ok (_,D,h) =>
      .ok (kfree page ((List.range 1024).foldl (fun h i => (D i).elim h (fun t => kfree t.page h)) h))

structure Kmap where
  virt : ℕ
  physStart : ℕ
  physEnd : ℕ
  perm : Perm

/-- `k->phys_end - k->phys_start` -/
def Kmap.size (k : Kmap) : ℕ := (k.physEnd+word-k.physStart)%word

/-- `EXTMEM`, `PHYSTOP`, `DEVSPACE` and the address of `data` in `kernel.sym`. -/
def extMem : ℕ := 0x100000

def phystop : ℕ := 0xE000000

def devSpace : ℕ := 0xFE000000

def dataAddr : ℕ := 0x8010a000

def kmap : List Kmap :=
  [⟨kernBase,0,extMem,⟨true,false⟩⟩,
   ⟨kernBase+extMem,extMem,dataAddr-kernBase,⟨false,false⟩⟩,
   ⟨dataAddr,dataAddr-kernBase,phystop,⟨true,false⟩⟩,
   ⟨devSpace,devSpace,0,⟨true,false⟩⟩]

/-- What `setupkvm` does with the result of one call of `mappages`, when the mappings `ks` are left. -/
def kmapNext (page : ℕ) (ks : List Kmap) :
    Except Panic (Bool × Dir × Heap) → Except Panic (List Kmap × Dir × Heap ⊕ Option (ℕ × Dir) × Heap)
  | .error e => .error e
  | .ok (true,D,h) => .ok (.inl (ks,D,h))
  | .ok (false,D,h) => (freevm page D h).map (fun h => .inr (none,h))

/-- One round of `setupkvm`, at the first of the kernel's mappings that are left. -/
def kmapBody (page : ℕ) :
    List Kmap × Dir × Heap → Except Panic (List Kmap × Dir × Heap ⊕ Option (ℕ × Dir) × Heap)
  | ([],D,h) => .ok (.inr (some (page,D),h))
  | (k :: ks,D,h) => kmapNext page ks (mappages D k.virt k.size k.physStart k.perm h)

/-- The page of the new directory and the directory. -/
def setupkvm (h : Heap) : Except Panic (Option (ℕ × Dir) × Heap) :=
  match kalloc h with
  | (0,h) => .ok (none,h)
  | (page,h) =>
    if devSpace < phystop+kernBase then .error .phystop
    else
      rounds (kmapBody page) (fun s => (some (page,s.2.1),s.2.2)) (kmap.length+1) (kmap,fun _ => none,h)

/-- `bad:` in `copyuvm` and `exec`. -/
def bad (page : ℕ) (D : Dir) (h : Heap) : Except Panic (Option (ℕ × Dir) × Heap) :=
  match freevm page D h with
  | .error e => .error e
  | .ok h => .ok (none,h)

/-- One round of `copyuvm` from `D` to the new directory `E`, at `i`. -/
def copyBody (D : Dir) (sz page : ℕ) :
    Dir × ℕ × Heap → Except Panic (Dir × ℕ × Heap ⊕ Option (ℕ × Dir) × Heap)
  | (E,i,h) =>
    if i < sz then
      match (walkpgdir D i false h).1 with
      | none => .error .pteShouldExist
      | some (t,_) =>
        match t.pte (ptx i) with
        | none => .error .pageNotPresent
        | some e =>
          match kalloc h with
          | (0,h) => (bad page E h).map .inr
          | (mem,h) =>
            match mappages E i pgSize mem e.perm h with
            | .error e => .error e
            | .ok (false,E,h) => (bad page E (kfree mem h)).map .inr
            | .ok (true,E,h) => .ok (.inl (E,(i+pgSize)%word,h))
    else .ok (.inr (some (page,E),h))

def copyuvm (D : Dir) (sz : ℕ) (h : Heap) : Except Panic (Option (ℕ × Dir) × Heap) :=
  match setupkvm h with
  | .error e => .error e
  | .ok (none,h) => .ok (none,h)
  | .ok (some (page,E),h) =>
    rounds (copyBody D sz page) (fun s => (some (page,s.1),s.2.2)) (sz/pgSize+2) (E,0,h)

def clearpteu (D : Dir) (va : ℕ) (h : Heap) : Except Panic Dir :=
  match (walkpgdir D va false h).1 with
  | none => .error .clearpteu
  | some (t,_) => .ok (setPte D va t ((t.pte (ptx va)).map (fun e => {e with perm := {e.perm with u := false}})))

end Xv6Threads.Vm
