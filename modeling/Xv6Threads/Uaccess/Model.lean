import Xv6Threads.Foundations.Transition

/-! System calls that check pointers and strings of the user and use them later, by threads that share a page table.
Each access of a check to user memory is a step; a call that is through with its checks uses what it has validated at
any time until it returns. The size of the memory is kept in each thread's own `sz`. -/
namespace Xv6Threads.Uaccess
open Function

/-- What a page directory maps, by page numbers, and the bytes there. -/
structure Space where
  mapped : ℕ → Bool
  mem : ℕ → UInt8

/-- A validated string or buffer. -/
inductive Arg
  | str (p : ℕ)
  | buf (p size : ℕ)
  deriving DecidableEq

/-- The checks of the calls: `argstr(n)`, `argint(n)`, `argptr(n)`, also with the size that `argint(m)` has read,
and the loop of `sys_exec` over `argv`. -/
inductive Check
  | str (n : ℕ)
  | int (n : ℕ)
  | buf (n size : ℕ)
  | bufOf (n m : ℕ)
  | argv (n : ℕ)
  | argvAt (uargv i : ℕ)
  deriving DecidableEq

inductive Call
  | open | link | unlink | mkdir | mknod | chdir | exec | read | write | fstat | pipe | join
  deriving DecidableEq

def Call.checks : Call → List Check
  | .open => [.str 0,.int 1]
  | .link => [.str 0,.str 1]
  | .unlink | .mkdir | .chdir => [.str 0]
  | .mknod => [.str 0,.int 1,.int 2]
  | .exec => [.str 0,.argv 1]
  | .read | .write => [.int 0,.bufOf 1 2]
  | .fstat => [.int 0,.buf 1 20]
  | .pipe => [.buf 0 8]
  | .join => [.int 0,.buf 1 4]

/-- A call in progress: the checks to come, the string that `fetchstr` is scanning (its start, the next byte and `ep`),
and what has been validated. -/
structure Frame where
  esp : ℕ
  todo : List Check
  scan : Option (ℕ × ℕ × ℕ)
  valid : List Arg
  deriving DecidableEq

structure Proc where
  dir : ℕ
  sz : ℕ
  frame : Option Frame
  deriving DecidableEq

/-- Why a check does not go on: the kernel faults, or it returns -1. -/
inductive Stop
  | fault
  | fail

/-- The page of an address. -/
def page (a : ℕ) : ℕ := a/4096

def maxarg : ℕ := 32

section
variable (m : Space) (sz : ℕ)

def fetchint (addr : ℕ) : Except Stop ℕ :=
  if sz ≤ addr ∨ sz < (addr+4)%2^32 then .error .fail
  else if m.mapped (page addr) && m.mapped (page (addr+3)) then
    .ok ((m.mem addr).toNat+256*(m.mem (addr+1)).toNat+65536*(m.mem (addr+2)).toNat+16777216*(m.mem (addr+3)).toNat)
  else .error .fault

def argint (esp n : ℕ) : Except Stop ℕ := fetchint m sz ((esp+4+4*n)%2^32)

/-- `argptr` for a size that is not negative as an `int` -/
def argptr (esp n size : ℕ) : Except Stop Arg := do
  let i ← argint m sz esp n
  if 2^31 ≤ size ∨ sz ≤ i ∨ sz < (i+size)%2^32 then .error .fail else .ok (.buf i size)

/-- `fetchstr`, up to its loop -/
def fetchstr (f : Frame) (addr : ℕ) : Except Stop Frame :=
  if sz ≤ addr then .error .fail else .ok {f with scan := some (addr,addr,sz)}

/-- The next check, where `f` has the checks after it. -/
def check (f : Frame) : Check → Except Stop Frame
  | .int n => do
    let _ ← argint m sz f.esp n
    .ok f
  | .str n => do
    let addr ← argint m sz f.esp n
    fetchstr sz f addr
  | .buf n size => do
    let a ← argptr m sz f.esp n size
    .ok {f with valid := f.valid++[a]}
  | .bufOf n k => do
    let size ← argint m sz f.esp k
    .ok {f with todo := .buf n size :: f.todo}
  | .argv n => do
    let uargv ← argint m sz f.esp n
    .ok {f with todo := .argvAt uargv 0 :: f.todo}
  | .argvAt uargv i =>
    if maxarg ≤ i then .error .fail
    else do
      let uarg ← fetchint m sz ((uargv+4*i)%2^32)
      if uarg = 0 then .ok f else fetchstr sz {f with todo := .argvAt uargv (i+1) :: f.todo} uarg

/-- One byte of the loop in `fetchstr`. -/
def scanByte (f : Frame) (p s ep : ℕ) : Except Stop Frame :=
  if ep ≤ s then .error .fail
  else if m.mapped (page s) then
    .ok (if m.mem s = 0 then {f with scan := none, valid := f.valid++[.str p]} else {f with scan := some (p,s+1,ep)})
  else .error .fault

/-- The next step of a call that has not made all its checks. -/
def Frame.next (f : Frame) : Option (Except Stop Frame) :=
  match f.scan,f.todo with
  | some (p,s,ep),_ => some (scanByte m f p s ep)
  | none,c :: cs => some (check m sz {f with todo := cs} c)
  | none,[] => none

end

/-- `PGROUNDUP`, as a page number -/
def pgroundup (a : ℕ) : ℕ := (a+4095)/4096

/-- The loop of `allocuvm`: `false` if `kalloc` has no page left; a page that is mapped already is a panic. -/
def allocLoop : List ℕ → ℕ → Space → Option (Bool × Space)
  | [], _, m => some (true,m)
  | _ :: _, 0, m => some (false,m)
  | q :: qs, k+1, m =>
    if m.mapped q then none
    else allocLoop qs k ⟨update m.mapped q true,fun a => if page a = q then 0 else m.mem a⟩

def deallocuvm (m : Space) (oldsz newsz : ℕ) : Space :=
  {m with mapped := fun q => m.mapped q && !(pgroundup newsz ≤ q && q < pgroundup oldsz)}

/-- `growproc(n)` with `k` free pages: the memory and the new `sz`. -/
def growproc (m : Space) (sz : ℕ) (n : ℤ) (k : ℕ) : Option (Space × ℕ) :=
  if 0 < n then
    let newsz := sz+n.toNat
    if 2^31 ≤ newsz then some (m,sz)
    else
      match allocLoop (List.range' (pgroundup sz) (pgroundup newsz-pgroundup sz)) k m with
      | none => none
      | some (true,m) => some (m,newsz)
      | some (false,m) => some (deallocuvm m newsz sz,sz)
  else
    let newsz := ((sz+n)%2^32).toNat
    if sz ≤ newsz then some (m,sz)
    -- `deallocuvm` returns 0 for the whole memory, which `growproc` takes for a failure
    else some (deallocuvm m sz newsz,if newsz = 0 then sz else newsz)

structure State (T : Type) where
  space : ℕ → Space
  proc : T → Option Proc
  /-- the next page directory that `setupkvm` makes -/
  nextdir : ℕ

/-- A thread enters a call, takes the next step of its checks, or returns; stores a byte, from user mode or into a
validated buffer; calls `sbrk` with `k` free pages, `clone`, `fork`, or exits. -/
inductive Label (T : Type)
  | call (t : T) (c : Call) (esp : ℕ)
  | run (t : T)
  | ret (t : T)
  | store (t : T) (a : ℕ) (x : UInt8)
  | sbrk (t : T) (n : ℤ) (k : ℕ)
  | clone (t u : T)
  | fork (t u : T)
  | exit (t : T)

def Arg.covers (a : ℕ) : Arg → Bool
  | .buf q n => decide (q ≤ a ∧ a < q+n)
  | .str _ => false

/-- A store from user mode goes to mapped memory, one in a call to a validated buffer. -/
def Proc.stores (p : Proc) (m : Space) (a : ℕ) : Bool :=
  match p.frame with
  | none => m.mapped (page a)
  | some f => f.valid.any (Arg.covers a)

variable {T : Type} [DecidableEq T]

def State.setProc (s : State T) (t : T) (p : Option Proc) : State T := {s with proc := update s.proc t p}

def State.setSpace (s : State T) (d : ℕ) (m : Space) : State T := {s with space := update s.space d m}

def State.step (s : State T) : Label T → Option (State T)
  | .call t c esp =>
    match s.proc t with
    | some ⟨d,sz,none⟩ => some (s.setProc t (some ⟨d,sz,some ⟨esp,c.checks,none,[]⟩⟩))
    | _ => none
  | .run t =>
    match s.proc t with
    | some ⟨d,sz,some f⟩ =>
      match f.next (s.space d) sz with
      | some (.ok f) => some (s.setProc t (some ⟨d,sz,some f⟩))
      | some (.error .fail) => some (s.setProc t (some ⟨d,sz,none⟩))
      | _ => none
    | _ => none
  | .ret t =>
    match s.proc t with
    | some ⟨d,sz,some _⟩ => some (s.setProc t (some ⟨d,sz,none⟩))
    | _ => none
  | .store t a x =>
    match s.proc t with
    | some p =>
      let m := s.space p.dir
      if p.stores m a then some (s.setSpace p.dir {m with mem := update m.mem a x}) else none
    | none => none
  | .sbrk t n k =>
    match s.proc t with
    | some ⟨d,sz,none⟩ =>
      -- `n` is an `int`
      if -2^31 ≤ n ∧ n < 2^31 then
        (growproc (s.space d) sz n k).map (fun r => (s.setSpace d r.1).setProc t (some ⟨d,r.2,none⟩))
      else none
    | _ => none
  | .clone t u =>
    match s.proc t,s.proc u with
    | some ⟨d,sz,none⟩,none => some (s.setProc u (some ⟨d,sz,none⟩))
    | _,_ => none
  | .fork t u =>
    match s.proc t,s.proc u with
    | some ⟨d,sz,none⟩,none =>
      let m := {s.space d with mapped := fun q => decide (q < pgroundup sz)}
      some {(s.setSpace s.nextdir m).setProc u (some ⟨s.nextdir,sz,none⟩) with nextdir := s.nextdir+1}
    | _,_ => none
  | .exit t =>
    match s.proc t with
    | some ⟨_,_,none⟩ => some (s.setProc t none)
    | _ => none

/-- The first process, with its memory mapped. -/
structure Start (s : State T) : Prop where
  proc : ∀ t p, s.proc t = some p → p.frame = none ∧ p.dir < s.nextdir ∧ p.sz ≤ 2^31 ∧
    ∀ a, a < p.sz → (s.space p.dir).mapped (page a) = true
  alone : ∀ t u p q, s.proc t = some p → s.proc u = some q → t = u

variable (T) in
def threads : System (State T) (Label T) where
  init := Start
  step := State.step

end Xv6Threads.Uaccess
