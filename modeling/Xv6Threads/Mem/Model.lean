import Xv6Threads.Disk.Format
import Xv6Threads.Vm.PageTable

/-! The functions of `vm.c` and `kalloc.c` with the contents of pages and the list of free ones. A page directory is a
tree of tables rather than a page of pointers, and an entry without `PTE_P` is zero. -/
namespace Xv6Threads.Mem
open Function
open Vm (pgSize kernBase word pgRoundUp pgRoundDown pdx ptx pgAddr Panic Kmap kmap devSpace phystop)

/-- The flags of an entry but for `PTE_P`: `PTE_W`, `PTE_U`, and the bits that only the processor sets. -/
structure Flags where
  w : Bool
  u : Bool
  rest : BitVec 9
  deriving DecidableEq

/-- `PTE_W|PTE_U` -/
def Flags.user : Flags := ⟨true,true,0⟩

/-- An entry with `PTE_P`. -/
structure Pte where
  addr : ℕ
  flags : Flags
  deriving DecidableEq

/-- A page table, with the address of its own page. -/
structure Tab where
  page : ℕ
  pte : Fin 1024 → Option Pte

abbrev Dir := Fin 1024 → Option Tab

/-- `PDX` -/
def pd (va : ℕ) : Fin 1024 := ⟨pdx va,Nat.mod_lt _ (by decide)⟩

/-- `PTX` -/
def pt (va : ℕ) : Fin 1024 := ⟨ptx va,Nat.mod_lt _ (by decide)⟩

abbrev Page := ℕ → UInt8

/-- `kmem.freelist` and the contents of the pages, by physical addresses. `deny` says in which of the calls to come
`kalloc` fails even so. -/
structure Memory where
  free : List ℕ
  deny : ℕ → Bool
  page : ℕ → Page

/-- `end` in `kernel.sym` -/
def endAddr : ℕ := 0x80117e60

/-- Nothing stands for 0. -/
def kalloc (m : Memory) : Option ℕ × Memory :=
  let m' := { m with deny := fun n => m.deny (n+1) }
  match m.free with
  | [] => (none,m')
  | p :: ps => if m.deny 0 then (none,m') else (some p,{ m' with free := ps })

/-- `memset(v, 1, PGSIZE)` and `r->next = kmem.freelist`. -/
def junk (free : List ℕ) : Page := Disk.putInt (fun _ => 1) 0 (free.head?.elim 0 (fun p => p+kernBase))

/-- All of a page is written. -/
def Memory.put (m : Memory) (p : ℕ) (c : Page) : Memory := { m with page := update m.page p c }

/-- Page `p` is the first of the list. -/
def Memory.give (m : Memory) (p : ℕ) : Memory := { m.put p (junk m.free) with free := p :: m.free }

def kfree (p : ℕ) (m : Memory) : Except Panic Memory :=
  if p%pgSize ≠ 0 ∨ p+kernBase < endAddr ∨ phystop ≤ p then .error .kfree else .ok (m.give p)

/-- The table that has the entry for `va`. -/
def walkpgdir (D : Dir) (va : ℕ) (alloc : Bool) (m : Memory) : Option (Tab × Dir) × Memory :=
  match D (pd va) with
  | some t => (some (t,D),m)
  | none =>
    if alloc then
      match kalloc m with
      | (none,m) => (none,m)
      | (some p,m) =>
        let t : Tab := ⟨p,fun _ => none⟩
        (some (t,update D (pd va) (some t)),m)
    else (none,m)

/-- `*pte = e` for the entry of `va` in its table `t`. -/
def setPte (D : Dir) (va : ℕ) (t : Tab) (e : Option Pte) : Dir :=
  update D (pd va) (some { t with pte := update t.pte (pt va) e })

/-- One round of `mappages` at `a`, to be mapped to `pa`. -/
def mapBody (flags : Flags) (last : ℕ) :
    Dir × ℕ × ℕ × Memory → Except Panic (Dir × ℕ × ℕ × Memory ⊕ Bool × Dir × Memory)
  | (D,a,pa,m) =>
    match walkpgdir D a true m with
    | (none,m) => .ok (.inr (false,D,m))
    | (some (t,D),m) =>
      match t.pte (pt a) with
      | some _ => .error .remap
      | none =>
        let D := setPte D a t (some ⟨pa,flags⟩)
        if a = last then .ok (.inr (true,D,m))
        else .ok (.inl (D,(a+pgSize)%word,(pa+pgSize)%word,m))

/-- `false` stands for -1. -/
def mappages (D : Dir) (va size pa : ℕ) (flags : Flags) (m : Memory) : Except Panic (Bool × Dir × Memory) :=
  let a := pgRoundDown va
  let last := pgRoundDown ((va+size-1)%word)
  rounds (mapBody flags last) (fun s => (true,s.1,s.2.2.2)) ((last+word-a)%word/pgSize+1) (D,a,pa,m)

/-- One round of `deallocuvm` at `a`. -/
def deallocBody (oldsz : ℕ) : Dir × ℕ × Memory → Except Panic (Dir × ℕ × Memory ⊕ Dir × Memory)
  | (D,a,m) =>
    if a < oldsz then
      match (walkpgdir D a false m).1 with
      | none => .ok (.inl (D,(pgAddr (pdx a+1)+word-pgSize+pgSize)%word,m))
      | some (t,_) =>
        match t.pte (pt a) with
        | some e =>
          if e.addr = 0 then .error .kfree
          else (kfree e.addr m).map fun m => .inl (setPte D a t none,(a+pgSize)%word,m)
        | none => .ok (.inl (D,(a+pgSize)%word,m))
    else .ok (.inr (D,m))

/-- The new size, the directory and the memory. -/
def deallocuvm (D : Dir) (oldsz newsz : ℕ) (m : Memory) : Except Panic (ℕ × Dir × Memory) :=
  if oldsz ≤ newsz then .ok (oldsz,D,m)
  else
    (rounds (deallocBody oldsz) (fun s => (s.1,s.2.2)) (oldsz/pgSize+2) (D,pgRoundUp newsz,m)).map
      fun r => (newsz,r.1,r.2)

/-- The end of `allocuvm` when memory has run out; `mem` is the page that was not mapped. -/
def allocFail (D : Dir) (oldsz newsz : ℕ) (mem : Option ℕ) (m : Memory) : Except Panic (ℕ × Dir × Memory) := do
  let (_,D,m) ← deallocuvm D newsz oldsz m
  match mem with
  | none => pure (0,D,m)
  | some p =>
    let m ← kfree p m
    pure (0,D,m)

/-- What `allocuvm` at `a` does with the result of `mappages` for the page `mem`. -/
def allocNext (oldsz newsz a mem : ℕ) :
    Except Panic (Bool × Dir × Memory) → Except Panic (Dir × ℕ × Memory ⊕ ℕ × Dir × Memory)
  | .error e => .error e
  | .ok (false,D,m) => (allocFail D oldsz newsz (some mem) m).map .inr
  | .ok (true,D,m) => .ok (.inl (D,(a+pgSize)%word,m))

/-- One round of `allocuvm` at `a`. -/
def allocBody (oldsz newsz : ℕ) : Dir × ℕ × Memory → Except Panic (Dir × ℕ × Memory ⊕ ℕ × Dir × Memory)
  | (D,a,m) =>
    if a < newsz then
      match kalloc m with
      | (none,m) => (allocFail D oldsz newsz none m).map .inr
      | (some mem,m) => allocNext oldsz newsz a mem (mappages D a pgSize mem .user (m.put mem fun _ => 0))
    else .ok (.inr (newsz,D,m))

/-- The new size, or 0 on error. -/
def allocuvm (D : Dir) (oldsz newsz : ℕ) (m : Memory) : Except Panic (ℕ × Dir × Memory) :=
  if kernBase ≤ newsz then .ok (0,D,m)
  else if newsz < oldsz then .ok (oldsz,D,m)
  else rounds (allocBody oldsz newsz) (fun s => (newsz,s.1,s.2.2)) (newsz/pgSize+2) (D,pgRoundUp oldsz,m)

/-- The loop of `freevm` over the entries `is` of the directory. -/
def freeTabs (D : Dir) : List (Fin 1024) → Memory → Except Panic Memory
  | [],m => .ok m
  | i :: is,m =>
    match D i with
    | none => freeTabs D is m
    | some t => (kfree t.page m).bind (freeTabs D is)

/-- `freevm` of a directory in page `page`. -/
def freevm (page : ℕ) (D : Dir) (m : Memory) : Except Panic Memory :=
  if page = 0 then .error .freevm
  else do
    let (_,D,m) ← deallocuvm D kernBase 0 m
    let m ← freeTabs D (List.finRange 1024) m
    kfree page m

/-- The flags of a mapping of the kernel. -/
def kflags (k : Kmap) : Flags := ⟨k.perm.w,k.perm.u,0⟩

/-- What `setupkvm` does with the result of one call of `mappages`, when the mappings `ks` are left. -/
def kmapNext (page : ℕ) (ks : List Kmap) :
    Except Panic (Bool × Dir × Memory) → Except Panic (List Kmap × Dir × Memory ⊕ Option (ℕ × Dir) × Memory)
  | .error e => .error e
  | .ok (true,D,m) => .ok (.inl (ks,D,m))
  | .ok (false,D,m) => (freevm page D m).map fun m => .inr (none,m)

/-- One round of `setupkvm`, at the first of the kernel's mappings that are left. -/
def kmapBody (page : ℕ) :
    List Kmap × Dir × Memory → Except Panic (List Kmap × Dir × Memory ⊕ Option (ℕ × Dir) × Memory)
  | ([],D,m) => .ok (.inr (some (page,D),m))
  | (k :: ks,D,m) => kmapNext page ks (mappages D k.virt k.size k.physStart (kflags k) m)

/-- The page of the new directory and the directory. -/
def setupkvm (m : Memory) : Except Panic (Option (ℕ × Dir) × Memory) :=
  match kalloc m with
  | (none,m) => .ok (none,m)
  | (some page,m) =>
    if devSpace < phystop+kernBase then .error .phystop
    else rounds (kmapBody page) (fun s => (some (page,s.2.1),s.2.2)) (kmap.length+1) (kmap,fun _ => none,m)

/-- `bad:` in `copyuvm`; `mem` is a page that was not mapped. -/
def copyBad (page : ℕ) (D : Dir) (mem : Option ℕ) (m : Memory) : Except Panic (Option (ℕ × Dir) × Memory) := do
  let m ← match mem with
    | none => pure m
    | some p => kfree p m
  let m ← freevm page D m
  pure (none,m)

/-- What `copyuvm` at `i` does with the result of `mappages` for the page `mem`. -/
def copyNext (page i mem : ℕ) :
    Except Panic (Bool × Dir × Memory) → Except Panic (Dir × ℕ × Memory ⊕ Option (ℕ × Dir) × Memory)
  | .error e => .error e
  | .ok (false,E,m) => (copyBad page E (some mem) m).map .inr
  | .ok (true,E,m) => .ok (.inl (E,(i+pgSize)%word,m))

/-- One round of `copyuvm` from `D` to the new directory `E`, at `i`. -/
def copyBody (D : Dir) (sz page : ℕ) :
    Dir × ℕ × Memory → Except Panic (Dir × ℕ × Memory ⊕ Option (ℕ × Dir) × Memory)
  | (E,i,m) =>
    if i < sz then
      match (walkpgdir D i false m).1 with
      | none => .error .pteShouldExist
      | some (t,_) =>
        match t.pte (pt i) with
        | none => .error .pageNotPresent
        | some e =>
          match kalloc m with
          | (none,m) => (copyBad page E none m).map .inr
          | (some mem,m) => copyNext page i mem (mappages E i pgSize mem e.flags (m.put mem (m.page e.addr)))
    else .ok (.inr (some (page,E),m))

def copyuvm (D : Dir) (sz : ℕ) (m : Memory) : Except Panic (Option (ℕ × Dir) × Memory) :=
  match setupkvm m with
  | .error e => .error e
  | .ok (none,m) => .ok (none,m)
  | .ok (some (page,E),m) =>
    rounds (copyBody D sz page) (fun s => (some (page,s.1),s.2.2)) (sz/pgSize+2) (E,0,m)

def clearpteu (D : Dir) (va : ℕ) (m : Memory) : Except Panic Dir :=
  match (walkpgdir D va false m).1 with
  | none => .error .clearpteu
  | some (t,_) => .ok (setPte D va t ((t.pte (pt va)).map fun e => { e with flags := { e.flags with u := false } }))

/-- The fields of `struct proc` that `growproc` uses. -/
structure Space where
  sz : UInt32
  page : ℕ
  dir : Dir

/-- `growproc(n)`; `false` stands for -1. -/
def growproc (n : Int32) (c : Space) (m : Memory) : Except Panic (Bool × Space × Memory) :=
  let newsz := (c.sz+n.toUInt32).toNat
  let done : ℕ × Dir × Memory → Bool × Space × Memory := fun r =>
    if r.1 = 0 then (false,{ c with dir := r.2.1 },r.2.2)
    else (true,{ c with sz := UInt32.ofNat r.1, dir := r.2.1 },r.2.2)
  if 0 < n then (allocuvm c.dir c.sz.toNat newsz m).map done
  else if n < 0 then (deallocuvm c.dir c.sz.toNat newsz m).map done
  else .ok (true,c,m)

end Xv6Threads.Mem
