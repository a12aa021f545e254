import Xv6Threads.Files.Model

/-! Every step on open files, with what it has found. -/
namespace Xv6Threads.Files
open Function State
variable {P F : Type} [DecidableEq F]

/-- `f->ref` becomes `r`. -/
def State.setRef (s : State P F) (f : F) (r : ℕ) : State P F :=
  {s with file := update s.file f ⟨r,(s.file f).type⟩}

def State.setType (s : State P F) (f : F) (y : Ftype) : State P F :=
  {s with file := update s.file f ⟨(s.file f).ref,y⟩}

/-- `f` is closed for good. -/
def State.clear (s : State P F) (f : F) : State P F := {s with file := update s.file f ⟨0,.none⟩}

def State.setPipe (s : State P F) (p : ℕ) (y : Pipe) : State P F := {s with pipe := update s.pipe p y}

/-- What `pipealloc` does once it has everything. -/
def State.addPipe (s : State P F) (f0 f1 : F) : State P F :=
  {((s.setType f0 (.pipe ⟨s.pipes,false⟩)).setType f1 (.pipe ⟨s.pipes,true⟩)).setPipe s.pipes newPipe with
    pipes := s.pipes+1}

/-- The steps that a process takes alone. -/
inductive Acts (s : State P F) : Proc P F → State P F → Proc P F → Prop
  | callOpen (o) : Acts s ⟨.idle,o⟩ s ⟨.openAlloc,o⟩
  | callPipe (o) : Acts s ⟨.idle,o⟩ s ⟨.pipe0,o⟩
  | dup (o : ℕ → Option F) (fd fd' : ℕ) (f : F) (hfd : fd < nofile) (ho : o fd = some f) (hf : freeFd o = some fd')
      (hr : ¬(s.file f).ref < 1) :
      Acts s ⟨.idle,o⟩ (s.setRef f ((s.file f).ref+1)) ⟨.idle,setFd o fd' (some f)⟩
  | close (o : ℕ → Option F) (fd : ℕ) (f : F) (hfd : fd < nofile) (ho : o fd = some f) :
      Acts s ⟨.idle,o⟩ s ⟨.drop f .ret,setFd o fd none⟩
  | exit (o) : Acts s ⟨.idle,o⟩ s ⟨.exitAt 0,o⟩
  | openFail (o) : Acts s ⟨.openAlloc,o⟩ s ⟨.idle,o⟩
  | openAlloc (o) (f : F) (hf : (s.file f).ref = 0) : Acts s ⟨.openAlloc,o⟩ (s.setRef f 1) ⟨.openFd f,o⟩
  | openFull (o) (f : F) : Acts s ⟨.openFd f,o⟩ s ⟨.drop f .ret,o⟩
  | openFd (o) (f : F) (fd : ℕ) (hf : freeFd o = some fd) :
      Acts s ⟨.openFd f,o⟩ s ⟨.openSet f,setFd o fd (some f)⟩
  | openSet (o) (f : F) : Acts s ⟨.openSet f,o⟩ (s.setType f .inode) ⟨.idle,o⟩
  | pipeFail (o) : Acts s ⟨.pipe0,o⟩ s ⟨.idle,o⟩
  | pipe0 (o) (f : F) (hf : (s.file f).ref = 0) : Acts s ⟨.pipe0,o⟩ (s.setRef f 1) ⟨.pipe1 f,o⟩
  | pipeFail1 (o) (f : F) : Acts s ⟨.pipe1 f,o⟩ s ⟨.drop f .ret,o⟩
  | pipe1 (o) (f0 f : F) (hf : (s.file f).ref = 0) : Acts s ⟨.pipe1 f0,o⟩ (s.setRef f 1) ⟨.pipe2 f0 f,o⟩
  | pipeFail2 (o) (f0 f1 : F) : Acts s ⟨.pipe2 f0 f1,o⟩ s ⟨.drop f0 (.also f1),o⟩
  | pipe2 (o) (f0 f1 : F) : Acts s ⟨.pipe2 f0 f1,o⟩ (s.addPipe f0 f1) ⟨.pipeFd f0 f1,o⟩
  | pipeFull (o) (f0 f1 : F) : Acts s ⟨.pipeFd f0 f1,o⟩ s ⟨.drop f0 (.also f1),o⟩
  | pipeHalf (o) (f0 f1 : F) (fd : ℕ) (hf : freeFd o = some fd) :
      Acts s ⟨.pipeFd f0 f1,o⟩ s ⟨.drop f0 (.also f1),setFd (setFd o fd (some f0)) fd none⟩
  | pipeFd (o) (f0 f1 : F) (fd fd' : ℕ) (hf : freeFd o = some fd) (hf' : freeFd (setFd o fd (some f0)) = some fd') :
      Acts s ⟨.pipeFd f0 f1,o⟩ s ⟨.idle,setFd (setFd o fd (some f0)) fd' (some f1)⟩
  | drop (o) (f : F) (k : After F) (hr : 1 < (s.file f).ref) :
      Acts s ⟨.drop f k,o⟩ (s.setRef f ((s.file f).ref-1)) (k.back o)
  | last (o) (f : F) (k : After F) (hr : (s.file f).ref = 1) :
      Acts s ⟨.drop f k,o⟩ (s.clear f) ⟨.tail (s.file f).type k,o⟩
  | pipeclose (o) (e : End) (k : After F)
      (hw : ¬(((s.pipe e.pipe).close e.writable).opened false = false ∧
        ((s.pipe e.pipe).close e.writable).opened true = false)) :
      Acts s ⟨.tail (.pipe e) k,o⟩ (s.setPipe e.pipe ((s.pipe e.pipe).close e.writable)) (k.back o)
  | pipelast (o) (e : End) (k : After F)
      (hw : ((s.pipe e.pipe).close e.writable).opened false = false ∧
        ((s.pipe e.pipe).close e.writable).opened true = false) :
      Acts s ⟨.tail (.pipe e) k,o⟩ (s.setPipe e.pipe ((s.pipe e.pipe).close e.writable)) ⟨.kfree e.pipe k,o⟩
  | closed (o) (ff : Ftype) (k : After F) (hff : ∀ e, ff ≠ .pipe e) : Acts s ⟨.tail ff k,o⟩ s (k.back o)
  | kfree (o) (p : ℕ) (k : After F) :
      Acts s ⟨.kfree p k,o⟩ (s.setPipe p {s.pipe p with frees := (s.pipe p).frees+1}) (k.back o)
  | exitClose (o : ℕ → Option F) (fd : ℕ) (f : F) (hfd : fd < nofile) (ho : o fd = some f) :
      Acts s ⟨.exitAt fd,o⟩ s ⟨.drop f (.exit fd),o⟩
  | exitSkip (o : ℕ → Option F) (fd : ℕ) (ho : o fd = none) : Acts s ⟨.exitAt fd,o⟩ s ⟨.exitAt (fd+1),o⟩
  | exitEnd (o) (fd : ℕ) (hfd : ¬fd < nofile) : Acts s ⟨.exitAt fd,o⟩ s ⟨.zombie,o⟩
  | begin (o) (q : P) : Acts s ⟨.made q,o⟩ s ⟨.copy q 0,o⟩
  | copySkip (o : ℕ → Option F) (q : P) (i : ℕ) (ho : o i = none) : Acts s ⟨.copy q i,o⟩ s ⟨.copy q (i+1),o⟩
  | reap (o) : Acts s ⟨.zombie,o⟩ s ⟨.unused,o⟩

lemma act_cases {s s' : State P F} {o : ℕ → Option F} {f : Option F} {ok : Bool} {pc : Pc P F} {x : Proc P F}
    (h : act s o f ok pc = some (s',x)) : Acts s ⟨pc,o⟩ s' x := by
  cases pc with
  | unused | embryo | zombie | idle | made | copy => cases h
  | openAlloc =>
    cases f with
    | none => cases h; exact .openFail o
    | some f =>
      simp only [act] at h
      split_ifs at h with hf
      cases h
      exact .openAlloc o f hf
  | openFd f =>
    simp only [act] at h
    split at h
    · cases h; exact .openFull o f
    · next fd hfd => cases h; exact .openFd o f fd hfd
  | openSet f => cases h; exact .openSet o f
  | pipe0 =>
    cases f with
    | none => cases h; exact .pipeFail o
    | some f =>
      simp only [act] at h
      split_ifs at h with hf
      cases h
      exact .pipe0 o f hf
  | pipe1 f0 =>
    cases f with
    | none => cases h; exact .pipeFail1 o f0
    | some f =>
      simp only [act] at h
      split_ifs at h with hf
      cases h
      exact .pipe1 o f0 f hf
  | pipe2 f0 f1 =>
    cases ok with
    | false => cases h; exact .pipeFail2 o f0 f1
    | true => cases h; exact .pipe2 o f0 f1
  | pipeFd f0 f1 =>
    simp only [act] at h
    split at h
    · cases h; exact .pipeFull o f0 f1
    · next fd hfd =>
      split at h
      · cases h; exact .pipeHalf o f0 f1 fd hfd
      · next fd' hfd' => cases h; exact .pipeFd o f0 f1 fd fd' hfd hfd'
  | drop f k =>
    simp only [act] at h
    split_ifs at h with h1 h2
    · cases h; exact .drop o f k h2
    · cases h; exact .last o f k (by omega)
  | tail ff k =>
    cases ff with
    | none => cases h; exact .closed o .none k nofun
    | inode => cases h; exact .closed o .inode k nofun
    | pipe e =>
      simp only [act] at h
      by_cases hw : ((s.pipe e.pipe).close e.writable).opened false = false ∧
          ((s.pipe e.pipe).close e.writable).opened true = false
      · rw [if_pos hw] at h
        cases h
        exact .pipelast o e k hw
      · rw [if_neg hw] at h
        cases h
        exact .pipeclose o e k hw
  | kfree p k => cases h; exact .kfree o p k
  | exitAt fd =>
    simp only [act] at h
    split_ifs at h with hfd
    · split at h
      · next f hf => cases h; exact .exitClose o fd f hfd hf
      · next hf => cases h; exact .exitSkip o fd hf
    · cases h; exact .exitEnd o fd hfd

variable [DecidableEq P]

/-- Every step of the system. -/
inductive Steps (s : State P F) : State P F → Prop
  | refl : Steps s s
  | move (t : P) (s1 : State P F) (x : Proc P F) (h : Acts s (s.proc t) s1 x) : Steps s (s1.set t x)
  | fork (t q : P) (o o' : ℕ → Option F) (ht : s.proc t = ⟨.idle,o⟩) (hq : s.proc q = ⟨.unused,o'⟩) :
      Steps s ((s.set q ⟨.embryo,o'⟩).set t ⟨.made q,o⟩)
  | undo (t q : P) (o : ℕ → Option F) (ht : s.proc t = ⟨.made q,o⟩) :
      Steps s ((s.set q ⟨.unused,(s.proc q).ofile⟩).set t ⟨.idle,o⟩)
  | copy (t q : P) (i : ℕ) (f : F) (o : ℕ → Option F) (ht : s.proc t = ⟨.copy q i,o⟩) (hi : i < nofile)
      (ho : o i = some f) (hr : ¬(s.file f).ref < 1) :
      Steps s (((s.setRef f ((s.file f).ref+1)).set q ⟨(s.proc q).pc,setFd (s.proc q).ofile i (some f)⟩).set t
        ⟨.copy q (i+1),o⟩)
  | finish (t q : P) (i : ℕ) (o : ℕ → Option F) (ht : s.proc t = ⟨.copy q i,o⟩) (hi : ¬i < nofile) :
      Steps s ((s.set q ⟨.idle,(s.proc q).ofile⟩).set t ⟨.idle,o⟩)

lemma step_cases {s s' : State P F} {l : Label P F} (h : s.step l = some s') : Steps s s' := by
  cases l with
  | call t c =>
    cases hx : s.proc t with
    | mk pc o =>
      simp only [step,hx] at h
      cases pc with
      | idle =>
        cases c with
        | openFile => cases h; exact .move t s _ (hx ▸ .callOpen o)
        | pipe => cases h; exact .move t s _ (hx ▸ .callPipe o)
        | exit => cases h; exact .move t s _ (hx ▸ .exit o)
        | dup fd =>
          simp only [dup] at h
          split_ifs at h with hfd
          · split at h
            · next f fd' hf hf' =>
              split_ifs at h with hr
              cases h
              exact .move t (s.setRef f ((s.file f).ref+1)) _ (hx ▸ .dup o fd fd' f hfd hf hf' hr)
            · cases h; exact .refl
          · cases h; exact .refl
        | close fd =>
          simp only [close] at h
          split_ifs at h with hfd
          · cases ho : o fd with
            | some f =>
              rw [ho] at h
              cases h
              exact .move t s _ (hx ▸ .close o fd f hfd ho)
            | none =>
              rw [ho] at h
              cases h
              exact .refl
          · cases h; exact .refl
        | fork q =>
          cases hq : s.proc q with
          | mk pc' o' =>
            simp only [hq] at h
            cases pc' with
            | unused => cases h; exact .fork t q o o' hx hq
            | _ => cases h
      | _ => cases h
  | run t f ok =>
    cases hx : s.proc t with
    | mk pc o =>
      simp only [step,hx] at h
      cases pc with
      | made q =>
        cases ok with
        | true => cases h; exact .move t s _ (hx ▸ .begin o q)
        | false => cases h; exact .undo t q o hx
      | copy q i =>
        simp only [copyFd] at h
        split_ifs at h with hi
        · split at h
          · next f hf =>
            split_ifs at h with hr
            cases h
            exact .copy t q i f o hx hi hf hr
          · next hf => cases h; exact .move t s _ (hx ▸ .copySkip o q i hf)
        · cases h; exact .finish t q i o hx hi
      | _ =>
        obtain ⟨r,hr,he⟩ := Option.map_eq_some_iff.mp h
        cases he
        exact .move t r.1 r.2 (hx ▸ act_cases hr)
  | reap q =>
    cases hx : s.proc q with
    | mk pc o =>
      simp only [step,hx] at h
      cases pc with
      | zombie => cases h; exact .move q s _ (hx ▸ .reap o)
      | _ => cases h

end Xv6Threads.Files
