import Xv6Threads.Foundations.Transition

/-! The allocator of `umalloc.c`. A header is at an address and takes eight bytes; `p+n` on pointers to headers is
`p+8*n`. The bounds on what is asked for keep all sums below `2^32`. The loops have a bound of their own. -/
namespace Xv6Threads.Umalloc
open Function

/-- The headers in memory, the roving pointer, the end of memory, and what `sbrk` has returned: address and bytes. -/
structure Heap where
  ptr : ℕ → ℕ
  size : ℕ → ℕ
  freep : ℕ
  brk : ℕ
  segs : List (ℕ × ℕ)

/-- The loop of `free`: the place for `bp` in the list. -/
def freeSearch (h : Heap) (bp : ℕ) : ℕ → ℕ → Option ℕ
  | 0, _ => none
  | n+1, p =>
    if bp > p ∧ bp < h.ptr p then some p
    else if p ≥ h.ptr p ∧ (bp > p ∨ bp < h.ptr p) then some p
    else freeSearch h bp n (h.ptr p)

/-- The block `b` before the block `n`, joined to it where they touch. -/
def Heap.attach (h : Heap) (b n : ℕ) : Heap :=
  if b+8*h.size b = n then
    { h with
      size := update h.size b (h.size b+h.size n)
      ptr := update h.ptr b (h.ptr n) }
  else { h with ptr := update h.ptr b n }

/-- `bp` goes before the block after `p`, and `p` before `bp`. -/
def Heap.insert (h : Heap) (bp p : ℕ) : Heap := { (h.attach bp (h.ptr p)).attach p bp with freep := p }

/-- `free`, with a bound for its loop. -/
def free (n : ℕ) (h : Heap) (ap : ℕ) : Option Heap :=
  let bp := ap-8
  (freeSearch h bp n h.freep).map (h.insert bp)

/-- `sbrk`: fails, or gives memory some way above the end; there is none above `KERNBASE`. -/
def sbrk (h : Heap) (answer : Option ℕ) (bytes : ℕ) : Option (ℕ × Heap) :=
  match answer with
  | none => none
  | some gap =>
    if h.brk+gap+bytes < 2^31 then
      some (h.brk+gap,{ h with brk := h.brk+gap+bytes, segs := (h.brk+gap,bytes) :: h.segs })
    else none

/-- `morecore`: 0 when `sbrk` fails. -/
def morecore (n : ℕ) (h : Heap) (answer : Option ℕ) (nu : ℕ) : Option (ℕ × Heap) :=
  let nu := if nu < 4096 then 4096 else nu
  match sbrk h answer (nu*8) with
  | none => some (0,h)
  | some (p,h) => (free n { h with size := update h.size p nu } (p+8)).map fun h => (h.freep,h)

/-- A block that is large enough, from its end. -/
def take (h : Heap) (nunits prevp p : ℕ) : ℕ × Heap :=
  if h.size p = nunits then (p+8,{ h with ptr := update h.ptr prevp (h.ptr p), freep := prevp })
  else
    let q := p+8*(h.size p-nunits)
    (q+8,{ h with
      size := update (update h.size p (h.size p-nunits)) q nunits
      freep := prevp })

/-- The loop of `malloc` after `k` calls of `morecore`; the calls of `sbrk` are answered in order. It returns the
pointer, the heap and the number of calls. -/
def mallocLoop (m : ℕ) (answer : ℕ → Option ℕ) (nunits : ℕ) : ℕ → ℕ → Heap → ℕ → ℕ → Option (ℕ × Heap × ℕ)
  | 0, _, _, _, _ => none
  | n+1, k, h, prevp, p =>
    if h.size p ≥ nunits then some ((take h nunits prevp p).1,(take h nunits prevp p).2,k)
    else if p = h.freep then
      match morecore m h (answer k) nunits with
      | none => none
      | some (p,h) => if p = 0 then some (0,h,k+1) else mallocLoop m answer nunits n (k+1) h p (h.ptr p)
    else mallocLoop m answer nunits n k h p (h.ptr p)

section
variable (base : ℕ)

/-- The first call makes the list of `base` alone. -/
def Heap.start (h : Heap) : Heap :=
  if h.freep = 0 then
    { h with ptr := update h.ptr base base, size := update h.size base 0, freep := base }
  else h

def units (nbytes : ℕ) : ℕ := (nbytes+8-1)/8+1

/-- `malloc`, with a bound for its loops. -/
def malloc (n : ℕ) (h : Heap) (nbytes : ℕ) (answer : ℕ → Option ℕ) : Option (ℕ × Heap × ℕ) :=
  let h := h.start base
  mallocLoop n answer (units nbytes) n 0 h h.freep (h.ptr h.freep)

/-- More than there are addresses. -/
def bound : ℕ := 2^33

/-- The heap of a process and the blocks it has not freed: what `malloc` returned and was asked for. -/
structure State where
  heap : Heap
  live : List (ℕ × ℕ)

inductive Label
  | malloc (nbytes : ℕ) (answer : ℕ → Option ℕ)
  | free (ap : ℕ)

/-- Neither the size in units nor the argument of `sbrk` overflows. -/
def Small (nbytes : ℕ) : Prop := nbytes+8-1 < 2^32 ∧ max (units nbytes) 4096*8 < 2^31

instance (nbytes : ℕ) : Decidable (Small nbytes) := inferInstanceAs (Decidable (_ ∧ _))

def State.step (s : State) : Label → Option State
  | .malloc nbytes answer =>
    if Small nbytes then
      match malloc base bound s.heap nbytes answer with
      | none => none
      | some (p,h,_) => some ⟨h,if p = 0 then s.live else (p,nbytes) :: s.live⟩
    else none
  | .free ap =>
    if ap ∈ s.live.map Prod.fst then
      (free bound s.heap ap).map fun h => ⟨h,s.live.eraseP fun b => b.1 = ap⟩
    else none

/-- A process that has not called `malloc` yet; `base` is a variable of its program. -/
def program : System State Label where
  init s := s.heap.freep = 0 ∧ s.heap.segs = [] ∧ s.live = [] ∧ 0 < base ∧ base+8 ≤ s.heap.brk ∧ s.heap.brk < 2^31
  step s l := s.step base l

end

end Xv6Threads.Umalloc
