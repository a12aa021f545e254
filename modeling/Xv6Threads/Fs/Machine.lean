import Xv6Threads.Foundations.Transition
import Xv6Threads.Fs.Calls

/-! Processes that make system calls on names: one call after the other, or interleaved after
every instruction. -/
namespace Xv6Threads.Fs
open Function

inductive Call
  | link (old new : List UInt8)
  | unlink (path : List UInt8)
  | create (path : List UInt8)
  | mkdir (path : List UInt8)
  | mknod (path : List UInt8)
  | openFile (path : List UInt8) (rdonly : Bool)
  | chdir (path : List UInt8)
  | exec (path : List UInt8)
  | transfer (fd k : ℕ)
  | dup (fd : ℕ)
  | close (fd : ℕ)
  | exit
  deriving DecidableEq

def Call.code : Call → Code ℤ
  | .link old new => sysLink (cstring old) (cstring new)
  | .unlink path => sysUnlink (cstring path)
  | .create path => sysCreate (cstring path)
  | .mkdir path => sysMkdir (cstring path)
  | .mknod path => sysMknod (cstring path)
  | .openFile path rdonly => sysOpen (cstring path) rdonly
  | .chdir path => sysChdir (cstring path)
  | .exec path => sysExec (cstring path)
  | .transfer fd k => sysTransfer fd k
  | .dup fd => sysDup fd
  | .close fd => sysClose fd
  | .exit => Fs.exit

variable {P : Type} [DecidableEq P]

/-- `fork` of `p` into `q`, as far as files and the current directory go. -/
def State.fork (s : State P) (p q : P) : State P where
  ino := s.ino
  ref := update s.ref (s.proc p).cwd (s.ref (s.proc p).cwd+1)
  valid := s.valid
  lock := s.lock
  file f := {s.file f with ref := (s.file f).ref+(List.range nofile).countP (fun fd => (s.proc p).ofile fd = some f)}
  proc := update s.proc q (s.proc p)

/-- `filedup` does not panic for any descriptor of `p`. -/
def State.mayDup (s : State P) (p : P) : Bool :=
  (List.range nofile).all (fun fd => ((s.proc p).ofile fd).all (fun f => 0 < (s.file f).ref))

/-- What happens next when the calls come one after the other. -/
inductive Label (P : Type)
  | call (p : P) (c : Call)
  | fork (p q : P)

/-- A system call that panics or waits for ever has no next state. -/
def State.step (s : State P) : Label P → Option (State P)
  | .call p c =>
    if (s.proc p).live then
      match c.code.run (S := fs) (handle p) s with
      | .ok (_,t) => some t
      | .error _ => none
    else none
  | .fork p q => if (s.proc p).live ∧ (s.proc q).live = false ∧ s.mayDup p then some (s.fork p q) else none

/-- What has been done to the entries of a directory. -/
inductive Event
  | linked (n : List UInt8) (i : ℕ)
  | unlinked (n : List UInt8)
  deriving DecidableEq

/-- The interleaved system. `work p` is the call that `p` is in and what is left of it, `hist d`
what has been done to directory `d`, the last first. -/
structure Sys (P : Type) where
  fs : State P
  work : P → Option (Call × Code ℤ)
  hist : ℕ → List Event

inductive SysLabel (P : Type)
  | start (p : P) (c : Call)
  | next (p : P)
  | fork (p q : P)

/-- The record of an instruction that returns `r`. -/
def record (h : ℕ → List Event) : (i : Instr) → i.Reply → ℕ → List Event
  | .link d _ n i,_ => update h d (.linked n i :: h d)
  | .unlink d _ n,_ => update h d (.unlinked n :: h d)
  | .ialloc _,i => update h i []
  | .free i,_ => update h i []
  | _,_ => h

def Sys.next (s : Sys P) (p : P) : Option (Sys P) :=
  match s.work p with
  | none => none
  | some (_,.ret _) => some {s with work := update s.work p none}
  | some (c,.call i k) =>
    match handle p i s.fs with
    | .ok (r,t) => some ⟨t,update s.work p (some (c,k r)),record s.hist i r⟩
    | .error _ => none

def Sys.step (s : Sys P) : SysLabel P → Option (Sys P)
  | .start p c =>
    if (s.fs.proc p).live ∧ s.work p = none then
      some {s with work := update s.work p (some (c,c.code))}
    else none
  | .next p => s.next p
  | .fork p q =>
    if (s.fs.proc p).live ∧ (s.fs.proc q).live = false ∧ s.work p = none ∧ s.work q = none ∧ s.fs.mayDup p then
      some {s with fs := s.fs.fork p q}
    else none

end Xv6Threads.Fs
