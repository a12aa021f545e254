import Xv6Threads.Files.Steps
import Xv6Threads.Foundations.Counting

/-! The reference counts of open files are exact. A reference is a descriptor of a process or a local
variable of a call in progress. The descriptor that `exit` is closing stops to count when `fileclose`
has given up its reference, although `exit` clears it only afterwards. -/
namespace Xv6Threads.Files
open Function List Proc State Nat
variable {P F : Type} [DecidableEq F]

/-- The files that are to be closed after this one. -/
def After.rest : After F → List F
  | .also f => [f]
  | _ => []

/-- The reference that `fileclose(f)` is about to give up, unless a descriptor still counts for it. -/
def After.own (f : F) : After F → List F
  | .exit _ => []
  | _ => [f]

/-- The references that a process has in its local variables. -/
def Pc.locals : Pc P F → List F
  | .openFd f | .pipe1 f => [f]
  | .pipe2 f0 f1 | .pipeFd f0 f1 => [f0,f1]
  | .drop f k => k.own f++k.rest
  | .tail _ k | .kfree _ k => k.rest
  | _ => []

/-- The descriptors that count as references. -/
def Proc.slots (x : Proc P F) : ℕ → Option F :=
  match x.pc with
  | .tail _ (.exit fd) | .kfree _ (.exit fd) => setFd x.ofile fd none
  | _ => x.ofile

/-- How often a file is among descriptors. -/
def among (o : ℕ → Option F) (f : F) : ℕ := (List.range nofile).countP (fun fd => o fd = some f)

/-- The references to `f` that a process has. -/
def Proc.live (x : Proc P F) (f : F) : ℕ := among x.slots f+x.pc.locals.count f

lemma countP_range_update (n : ℕ) (o : ℕ → Option F) (fd : ℕ) (y : Option F) (f : F) (hfd : fd < n) :
    (range n).countP (fun i => update o fd y i = some f)+(if o fd = some f then 1 else 0) =
      (range n).countP (fun i => o i = some f)+(if y = some f then 1 else 0) := by
  induction n with
  | zero => omega
  | succ n ih =>
    rw [range_succ,countP_append,countP_append,countP_singleton,countP_singleton]
    by_cases hn : fd = n
    · subst hn
      have hsame : (range fd).countP (fun i => update o fd y i = some f) =
          (range fd).countP (fun i => o i = some f) := by
        refine countP_congr fun i hi => ?_
        rw [update_of_ne (Nat.ne_of_lt (mem_range.mp hi))]
      rw [hsame,update_self]
      simp only [decide_eq_true_eq]
      omega
    · have := ih (by omega)
      rw [update_of_ne (Ne.symm hn)]
      omega

variable {o : ℕ → Option F} {fd : ℕ}

lemma among_set (hfd : fd < nofile) (y : Option F) (f : F) :
    among (setFd o fd y) f+(if o fd = some f then 1 else 0) = among o f+(if y = some f then 1 else 0) :=
  countP_range_update nofile o fd y f hfd

variable {f : F}

lemma among_pos (hfd : fd < nofile) (h : o fd = some f) : 0 < among o f :=
  countP_pos_iff.mpr ⟨fd,mem_range.mpr hfd,decide_eq_true h⟩

omit [DecidableEq F] in
lemma freeFd_spec (h : freeFd o = some fd) : fd < nofile ∧ o fd = none := by
  have h1 := mem_of_find?_eq_some h
  have h2 := find?_some h
  exact ⟨mem_range.mp h1,by simpa using h2⟩

omit [DecidableEq F] in
lemma setFd_undo (h : o fd = none) (y : Option F) : setFd (setFd o fd y) fd none = o := by
  unfold setFd
  rw [update_idem,← h,update_eq_self]

/-- Where `exit` is in its loop. -/
def Pc.exiting : Pc P F → Option ℕ
  | .exitAt fd | .drop _ (.exit fd) | .tail _ (.exit fd) | .kfree _ (.exit fd) => some fd
  | _ => none

/-- The process is `UNUSED` or `ZOMBIE`. -/
def Pc.absent : Pc P F → Bool
  | .unused | .zombie => true
  | _ => false

/-- What holds of a process and its own descriptors. -/
structure Own (x : Proc P F) : Prop where
  high : ∀ fd, nofile ≤ fd → x.ofile fd = none
  gone : x.pc.absent = true → ∀ fd, x.ofile fd = none
  exiting : ∀ fd, x.pc.exiting = some fd → ∀ i, i < fd → x.ofile i = none
  closing : ∀ fd f, x.pc = .drop f (.exit fd) → fd < nofile ∧ x.ofile fd = some f
  opening : ∀ f, x.pc = .openSet f → ∃ fd, fd < nofile ∧ x.ofile fd = some f

variable {s s' : State P F} {x x' : Proc P F}

lemma setRef_ref (f g : F) (r : ℕ) : ((s.setRef f r).file g).ref = if g = f then r else (s.file g).ref := by
  unfold setRef
  by_cases h : g = f
  · rw [if_pos h,h]
    dsimp only
    rw [update_self]
  · rw [if_neg h]
    dsimp only
    rw [update_of_ne h]

lemma setType_ref (f g : F) (y : Ftype) : ((s.setType f y).file g).ref = (s.file g).ref := by
  unfold setType
  by_cases h : g = f
  · rw [h]
    dsimp only
    rw [update_self]
  · dsimp only
    rw [update_of_ne h]

lemma addPipe_ref (f0 f1 g : F) : ((s.addPipe f0 f1).file g).ref = (s.file g).ref :=
  (setType_ref f1 g _).trans (setType_ref f0 g _)

lemma clear_ref (f g : F) : ((s.clear f).file g).ref = if g = f then 0 else (s.file g).ref := by
  unfold clear
  by_cases h : g = f
  · rw [if_pos h,h]
    dsimp only
    rw [update_self]
  · rw [if_neg h]
    dsimp only
    rw [update_of_ne h]

lemma count_one (f g : F) : [f].count g = if g = f then 1 else 0 := by
  rw [count_singleton']
  exact if_congr eq_comm rfl rfl

lemma count_two (f f' g : F) : [f,f'].count g = (if g = f then 1 else 0)+(if g = f' then 1 else 0) := by
  rw [show [f,f'] = [f]++[f'] from rfl,count_append,count_one,count_one]

lemma among_fill (hfd : fd < nofile) (ho : o fd = none) (f g : F) :
    among (setFd o fd (some f)) g = among o g+(if g = f then 1 else 0) := by
  have := among_set (o := o) hfd (some f) g
  simp only [ho,reduceCtorEq,if_false,Option.some.injEq,eq_comm (a := f)] at this
  exact this

lemma among_empty (hfd : fd < nofile) (ho : o fd = some f) (g : F) :
    among (setFd o fd none) g+(if g = f then 1 else 0) = among o g := by
  have := among_set (o := o) hfd none g
  simp only [ho,reduceCtorEq,if_false,Option.some.injEq,eq_comm (a := f)] at this
  exact this

lemma back_live (hx : Own (⟨.drop f k,o⟩ : Proc P F)) (g : F) :
    (k.back o : Proc P F).live g+(if g = f then 1 else 0) = (⟨.drop f k,o⟩ : Proc P F).live g := by
  cases k with
  | ret =>
    change among o g+0+_ = among o g+[f].count g
    rw [count_one]
    omega
  | also f' =>
    change among o g+[f'].count g+_ = among o g+[f,f'].count g
    rw [count_two,count_one]
    omega
  | exit fd =>
    obtain ⟨hfd,ho⟩ := hx.closing fd f rfl
    change among (setFd o fd none) g+0+_ = among o g+0
    have := among_empty hfd ho g
    dsimp only at this
    omega

lemma acts_live (hx : Own x) (h : Acts s x s' x') (g : F) : x'.live g+(s.file g).ref = x.live g+(s'.file g).ref := by
  cases h with
  | dup o fd fd' f hfd ho hf hr =>
    obtain ⟨hfd',ho'⟩ := freeFd_spec hf
    change among (setFd o fd' (some f)) g+0+_ = among o g+0+_
    rw [among_fill hfd' ho',setRef_ref]
    split_ifs with hg
    · rw [hg]
      omega
    · omega
  | close o fd f hfd ho =>
    have := among_empty hfd ho g
    change among (setFd o fd none) g+[f].count g+_ = among o g+0+_
    rw [count_one]
    omega
  | openAlloc o f hf | pipe0 o f hf =>
    change among o g+[f].count g+_ = among o g+0+_
    rw [count_one,setRef_ref]
    split_ifs with hg
    · rw [hg]
      omega
    · omega
  | pipe1 o f0 f hf =>
    change among o g+[f0,f].count g+_ = among o g+[f0].count g+_
    rw [count_two,count_one,setRef_ref]
    split_ifs with h1 hg hg
    · rw [hg,hf]
    · omega
    · rw [hg,hf]
    · omega
  | openFd o f fd hf =>
    obtain ⟨hfd',ho'⟩ := freeFd_spec hf
    change among (setFd o fd (some f)) g+0+_ = among o g+[f].count g+_
    rw [among_fill hfd' ho',count_one]
    omega
  | openSet o f =>
    rw [setType_ref]
    rfl
  | pipe2 o f0 f1 =>
    rw [addPipe_ref]
    rfl
  | pipeHalf o f0 f1 fd hf =>
    rw [setFd_undo (freeFd_spec hf).2]
    rfl
  | pipeFd o f0 f1 fd fd' hf hf' =>
    obtain ⟨hfd,ho⟩ := freeFd_spec hf
    obtain ⟨hfd',ho'⟩ := freeFd_spec hf'
    change among (setFd (setFd o fd (some f0)) fd' (some f1)) g+0+_ = among o g+[f0,f1].count g+_
    rw [among_fill hfd' ho',among_fill hfd ho,count_two]
    omega
  | drop o f k hr =>
    have := back_live hx g
    rw [setRef_ref]
    split_ifs at this ⊢ with hg
    · rw [hg] at this ⊢
      omega
    · omega
  | last o f k hr =>
    have := back_live hx g
    have htail : (⟨.tail (s.file f).type k,o⟩ : Proc P F).live g = (k.back o : Proc P F).live g := by cases k <;> rfl
    rw [clear_ref,htail]
    split_ifs at this ⊢ with hg
    · rw [hg] at this ⊢
      omega
    · omega
  | pipeclose o e k hw => cases k <;> rfl
  | closed o ff k hff => cases k <;> rfl
  | kfree o p k => cases k <;> rfl
  | pipelast o e k hw => cases k <;> rfl
  | _ => rfl

omit [DecidableEq F] in
lemma high_set (hfd : fd < nofile) (h : ∀ i, nofile ≤ i → o i = none) (y : Option F) :
    ∀ i, nofile ≤ i → setFd o fd y i = none := by
  intro i hi
  unfold setFd
  rw [update_of_ne (by omega)]
  exact h i hi

omit [DecidableEq F] in
lemma back_own {k : After F} {pc : Pc P F} (hx : Own (⟨pc,o⟩ : Proc P F))
    (hk : ∀ fd, k = .exit fd → pc.exiting = some fd) : Own (k.back o : Proc P F) := by
  cases k with
  | ret | also f => exact ⟨hx.high,nofun,nofun,nofun,nofun⟩
  | exit fd =>
    have hset : ∀ i, o i = none → setFd o fd none i = none := by
      intro i hi
      unfold setFd
      by_cases h : i = fd
      · rw [h,update_self]
      · rwa [update_of_ne h]
    refine ⟨fun i hi => hset i (hx.high i hi),nofun,fun i hi j hj => ?_,nofun,nofun⟩
    cases hi
    by_cases h : j = fd
    · subst h
      exact update_self ..
    · exact hset j (hx.exiting fd (hk fd rfl) j (by omega))

lemma acts_own (hx : Own x) (h : Acts s x s' x') : Own x' := by
  cases h with
  | callOpen | callPipe | openFail | openAlloc | openFull | openSet | pipeFail | pipe0 | pipeFail1 | pipe1
  | pipeFail2 | pipe2 | pipeFull | begin | copySkip =>
    exact ⟨hx.high,nofun,nofun,nofun,nofun⟩
  | dup o fd fd' f hfd ho hf =>
    exact ⟨high_set (freeFd_spec hf).1 hx.high _,nofun,nofun,nofun,nofun⟩
  | close o fd f hfd ho => exact ⟨high_set hfd hx.high _,nofun,nofun,nofun,nofun⟩
  | exit o =>
    exact ⟨hx.high,nofun,fun fd h i hi => (by cases h; omega),nofun,nofun⟩
  | openFd o f fd hf =>
    obtain ⟨hfd,ho⟩ := freeFd_spec hf
    refine ⟨high_set hfd hx.high _,nofun,nofun,nofun,fun g hg => ⟨fd,hfd,?_⟩⟩
    cases hg
    exact update_self ..
  | pipeHalf o f0 f1 fd hf =>
    rw [setFd_undo (freeFd_spec hf).2]
    exact ⟨hx.high,nofun,nofun,nofun,nofun⟩
  | pipeFd o f0 f1 fd fd' hf hf' =>
    exact ⟨high_set (freeFd_spec hf').1 (high_set (freeFd_spec hf).1 hx.high _) _, nofun,nofun,nofun,nofun⟩
  | drop o f k hr | pipeclose o e k hw | closed o ff k hff | kfree o p k =>
    exact back_own hx (fun fd hk => by rw [hk]; rfl)
  | last o f k hr | pipelast o e k hw =>
    refine ⟨hx.high,nofun,fun fd hfd => hx.exiting fd ?_,nofun,nofun⟩
    cases k <;> exact hfd
  | exitClose o fd f hfd ho =>
    exact ⟨hx.high,nofun,fun i hi => hx.exiting i hi, fun i g hi => (by cases hi; exact ⟨hfd,ho⟩),nofun⟩
  | exitSkip o fd ho =>
    refine ⟨hx.high,nofun,fun i hi j hj => ?_,nofun,nofun⟩
    cases hi
    by_cases h : j = fd
    · rw [h]
      exact ho
    · exact hx.exiting fd rfl j (by omega)
  | exitEnd o fd hfd =>
    refine ⟨hx.high,fun _ i => ?_,nofun,nofun,nofun⟩
    by_cases h : i < fd
    · exact hx.exiting fd rfl i h
    · exact hx.high i (by omega)
  | reap o => exact ⟨hx.high,fun _ => hx.gone rfl,nofun,nofun,nofun⟩

/-- The files that a process has allocated and not yet set up. -/
def Pc.fresh : Pc P F → List F
  | .openFd f | .openSet f | .pipe1 f => [f]
  | .pipe2 f0 f1 => [f0,f1]
  | _ => []

/-- The child that a process is making, and how many of its descriptors are there. -/
def Pc.child : Pc P F → Option (P × ℕ)
  | .made q => some (q,0)
  | .copy q i => some (q,i)
  | _ => none

lemma fresh_live (hx : Own x) (hf : f ∈ x.pc.fresh) : 0 < x.live f := by
  obtain ⟨pc,o⟩ := x
  cases pc with
  | openFd g | pipe1 g =>
    rw [mem_singleton.mp hf]
    exact Nat.lt_add_left _ (count_pos_iff.mpr (mem_singleton_self g))
  | openSet g =>
    rw [mem_singleton.mp hf]
    obtain ⟨fd,hfd,ho⟩ := hx.opening g rfl
    exact Nat.lt_add_right _ (among_pos hfd ho)
  | pipe2 f0 f1 => exact Nat.lt_add_left _ (count_pos_iff.mpr hf)
  | _ => cases hf

lemma acts_touch (hx : Own x) (h : Acts s x s' x') {g : F} (hg : s'.file g ≠ s.file g) :
    (s.file g).ref = 0 ∨ 0 < x.live g := by
  have hfile : ∀ (f : F) (y : File), update s.file f y g ≠ s.file g → g = f := by
    intro f y hne
    by_contra h
    exact hne (update_of_ne h ..)
  cases h with
  | dup o fd fd' f hfd ho hf hr =>
    rw [hfile f _ hg]
    exact .inr (Nat.lt_add_right _ (among_pos hfd ho))
  | openAlloc o f hf | pipe0 o f hf | pipe1 o f0 f hf =>
    rw [hfile f _ hg]
    exact .inl hf
  | openSet o f =>
    rw [hfile f _ hg]
    exact .inr (fresh_live hx (mem_singleton_self f))
  | pipe2 o f0 f1 =>
    right
    apply fresh_live hx
    by_cases h1 : g = f1
    · rw [h1]
      exact mem_cons_of_mem _ (mem_singleton_self _)
    · have : g = f0 := by
        refine hfile f0 ⟨(s.file f0).ref,.pipe ⟨s.pipes,false⟩⟩ fun he => hg ?_
        refine (update_of_ne h1 ..).trans he
      rw [this]
      exact mem_cons_self ..
  | drop o f k hr | last o f k hr =>
    have := back_live hx f
    rw [if_pos rfl] at this
    rw [hfile f _ hg]
    exact .inr (by omega)
  | _ => exact (hg rfl).elim

/-- A file that is allocated and not yet set up. -/
def Untyped (s : State P F) (f : F) : Prop := s.file f = ⟨1,.none⟩

lemma setRef_file (f g : F) (r : ℕ) (h : g ≠ f) : (s.setRef f r).file g = s.file g := update_of_ne h ..

section
variable (hidle : ∀ f, (s.file f).ref = 0 → (s.file f).type = .none) (hx : ∀ f ∈ x.pc.fresh, Untyped s f) (h : Acts s x s' x')
include hidle hx h

lemma acts_fresh : ∀ f ∈ x'.pc.fresh, Untyped s' f := by
  have hnew : ∀ f, (s.file f).ref = 0 → Untyped (s.setRef f 1) f := by
    intro f hf
    refine (update_self ..).trans ?_
    rw [hidle f hf]
  intro g hg
  cases h with
  | openAlloc o f hf | pipe0 o f hf =>
    rw [mem_singleton.mp hg]
    exact hnew f hf
  | pipe1 o f0 f hf =>
    rcases mem_cons.mp hg with rfl | hg
    · have h0 := hx g (mem_singleton_self g)
      refine (setRef_file f g 1 fun he => ?_).trans h0
      rw [← he,h0] at hf
      cases hf
    · rw [mem_singleton.mp hg]
      exact hnew f hf
  | openFd o f fd hf => exact hx g hg
  | drop o f k hr => cases k <;> cases hg
  | pipeclose o e k hw => cases k <;> cases hg
  | closed o ff k hff => cases k <;> cases hg
  | kfree o p k => cases k <;> cases hg
  | _ => cases hg

lemma acts_idle : ∀ f, (s'.file f).ref = 0 → (s'.file f).type = .none := by
  have hset : ∀ f r, r ≠ 0 → ∀ g, ((s.setRef f r).file g).ref = 0 → ((s.setRef f r).file g).type = .none := by
    intro f r hr g hg
    by_cases h : g = f
    · rw [setRef_ref,if_pos h] at hg
      exact (hr hg).elim
    · rw [setRef_file f g r h] at hg ⊢
      exact hidle g hg
  intro g hg
  cases h with
  | dup o fd fd' f hfd ho hf hr => exact hset f _ (succ_ne_zero _) g hg
  | openAlloc o f hf | pipe0 o f hf | pipe1 o f0 f hf => exact hset f 1 one_ne_zero g hg
  | drop o f k hr => exact hset f _ (by omega) g hg
  | last o f k hr =>
    by_cases h : g = f
    · subst h
      have he : (s.clear g).file g = ⟨0,.none⟩ := update_self ..
      rw [he]
    · have he : (s.clear f).file g = s.file g := update_of_ne h ..
      rw [he] at hg ⊢
      exact hidle g hg
  | openSet o f =>
    by_cases h : g = f
    · rw [setType_ref,h,hx f (mem_singleton_self f)] at hg
      cases hg
    · have he : (s.setType f .inode).file g = s.file g := update_of_ne h ..
      rw [he] at hg ⊢
      exact hidle g hg
  | pipe2 o f0 f1 =>
    rw [addPipe_ref] at hg
    have hne : ∀ f ∈ [f0,f1], g ≠ f := by
      intro f hf he
      rw [he,hx f hf] at hg
      cases hg
    have he : (s.addPipe f0 f1).file g = s.file g :=
      (update_of_ne (hne f1 (by simp)) ..).trans (update_of_ne (hne f0 (by simp)) ..)
    rw [he]
    exact hidle g hg
  | _ => exact hidle g hg

end

omit [DecidableEq F] in
lemma back_child {k : After F} : (k.back o : Proc P F).pc.child = none := by cases k <;> rfl

lemma acts_child {q : P} {i : ℕ} (h : Acts s x s' x') (hc : x'.pc.child = some (q,i)) :
    ∃ j ≤ i, x.pc.child = some (q,j) := by
  cases h with
  | begin o r => exact ⟨i,le_rfl,hc⟩
  | copySkip o r j ho =>
    cases hc
    exact ⟨j,le_succ j,rfl⟩
  | drop o f k hr | pipeclose o e k hw | closed o ff k hff | kfree o p k => rw [back_child] at hc; cases hc
  | _ => cases hc

lemma acts_proc (h : Acts s x s' x') : s'.proc = s.proc := by cases h <;> rfl

lemma acts_embryo (h : Acts s x s' x') : x.pc ≠ .embryo := by cases h <;> exact nofun

variable [Fintype P] [DecidableEq P]

/-- What holds of all processes and files. -/
structure Counted (s : State P F) : Prop where
  own : ∀ t, Own (s.proc t)
  refs : ∀ f, (s.file f).ref = total (fun _ x => x.live f) s.proc
  child : ∀ t q i, (s.proc t).pc.child = some (q,i) →
    (s.proc q).pc = .embryo ∧ ∀ fd, i ≤ fd → (s.proc q).ofile fd = none
  only : ∀ t u q i j, (s.proc t).pc.child = some (q,i) → (s.proc u).pc.child = some (q,j) → t = u
  fresh : ∀ t, ∀ f ∈ (s.proc t).pc.fresh, Untyped s f
  idle : ∀ f, (s.file f).ref = 0 → (s.file f).type = .none

omit [DecidableEq P] in
lemma Counted.alone (hI : Counted s) {t u : P} (htu : t ≠ u) (hf : f ∈ (s.proc u).pc.fresh) :
    (s.proc t).live f = 0 := by
  have h1 := fresh_live (hI.own u) hf
  have h2 := add_weight_le_total (fun _ (x : Proc P F) => x.live f) s.proc htu
  have h3 := hI.refs f
  rw [hI.fresh u f hf] at h3
  dsimp only at h2 h3
  omega

lemma counted_move {t : P} {s1 : State P F} (hI : Counted s) (h : Acts s (s.proc t) s1 x) : Counted (s1.set t x) := by
  have hproc := acts_proc h
  have hset : (s1.set t x).proc = update s.proc t x := by
    unfold State.set
    rw [hproc]
  have hother : ∀ u, u ≠ t → (s1.set t x).proc u = s.proc u := fun u hu => by
    rw [hset,update_of_ne hu]
  have hself : (s1.set t x).proc t = x := by rw [hset,update_self]
  -- Nobody acts on an embryo, so the child that a process makes stays as it is.
  have hchild : ∀ u q i, ((s1.set t x).proc u).pc.child = some (q,i) → ∃ j ≤ i, (s.proc u).pc.child = some (q,j) := by
    intro u q i hc
    by_cases hu : u = t
    · rw [hu,hself] at hc
      rw [hu]
      exact acts_child h hc
    · rw [hother u hu] at hc
      exact ⟨i,le_rfl,hc⟩
  have hidle := acts_idle hI.idle (hI.fresh t) h
  refine ⟨fun u => ?_,fun f => ?_,fun u q i hc => ?_,fun u w q i j hu hw => ?_,fun u f hf => ?_,fun f => hidle f⟩
  · by_cases hu : u = t
    · rw [hu,hself]
      exact acts_own (hI.own t) h
    · rw [hother u hu]
      exact hI.own u
  · have h1 := total_update (fun _ (x : Proc P F) => x.live f) s.proc t x
    have h2 := acts_live (hI.own t) h f
    have h3 := hI.refs f
    rw [hset]
    dsimp only [State.set] at h1 ⊢
    omega
  · obtain ⟨j,hj,hc⟩ := hchild u q i hc
    obtain ⟨he,hn⟩ := hI.child u q j hc
    have hqt : q ≠ t := fun hq => acts_embryo h (hq ▸ he)
    rw [hother q hqt]
    exact ⟨he,fun fd hfd => hn fd (by omega)⟩
  · obtain ⟨i',-,hu⟩ := hchild u q i hu
    obtain ⟨j',-,hw⟩ := hchild w q j hw
    exact hI.only u w q i' j' hu hw
  · by_cases hu : u = t
    · rw [hu,hself] at hf
      exact acts_fresh hI.idle (hI.fresh t) h f hf
    · rw [hother u hu] at hf
      have hold := hI.fresh u f hf
      by_cases hfile : s1.file f = s.file f
      · exact hfile.trans hold
      · rcases acts_touch (hI.own t) h hfile with h0 | hlive
        · rw [hold] at h0
          cases h0
        · rw [hI.alone (Ne.symm hu) hf] at hlive
          omega

lemma counted_pair {t q : P} {s1 : State P F} {y : Proc P F} (hI : Counted s) (htq : t ≠ q) (hproc : s1.proc = s.proc)
    (hx : Own x) (hy : Own y)
    (hlive : ∀ f, x.live f+y.live f+(s.file f).ref = (s.proc t).live f+(s.proc q).live f+(s1.file f).ref)
    (hxc : ∀ r i, x.pc.child = some (r,i) → r = q ∧ y.pc = .embryo ∧ ∀ fd, i ≤ fd → y.ofile fd = none)
    (hyc : y.pc.child = none) (honly : ∀ u i, u ≠ t → (s.proc u).pc.child ≠ some (q,i))
    (ht : (s.proc t).pc ≠ .embryo) (hxf : x.pc.fresh = []) (hyf : y.pc.fresh = [])
    (htouch : ∀ g, s1.file g ≠ s.file g → 0 < (s.proc t).live g)
    (hidle : ∀ f, (s1.file f).ref = 0 → (s1.file f).type = .none) : Counted ((s1.set q y).set t x) := by
  have hset : ((s1.set q y).set t x).proc = update (update s.proc q y) t x := by
    unfold State.set
    rw [hproc]
  have hself : ((s1.set q y).set t x).proc t = x := by rw [hset,update_self]
  have hq : ((s1.set q y).set t x).proc q = y := by rw [hset,update_of_ne (Ne.symm htq),update_self]
  have hother : ∀ u, u ≠ t → u ≠ q → ((s1.set q y).set t x).proc u = s.proc u := fun u h1 h2 => by
    rw [hset,update_of_ne h1,update_of_ne h2]
  have hchild : ∀ u r i, (((s1.set q y).set t x).proc u).pc.child = some (r,i) →
      (u = t ∧ r = q) ∨ (u ≠ t ∧ r ≠ q ∧ (s.proc u).pc.child = some (r,i)) := by
    intro u r i hc
    by_cases h1 : u = t
    · rw [h1,hself] at hc
      exact .inl ⟨h1,(hxc r i hc).1⟩
    by_cases h2 : u = q
    · rw [h2,hq,hyc] at hc
      cases hc
    · rw [hother u h1 h2] at hc
      exact .inr ⟨h1,fun hr => honly u i h1 (hr ▸ hc),hc⟩
  refine ⟨fun u => ?_,fun f => ?_,fun u r i hc => ?_,fun u w r i j hu hw => ?_,fun u f hf => ?_,fun f => hidle f⟩
  · by_cases h1 : u = t
    · rwa [h1,hself]
    by_cases h2 : u = q
    · rwa [h2,hq]
    · rw [hother u h1 h2]
      exact hI.own u
  · have h1 := total_update (fun _ (x : Proc P F) => x.live f) s.proc q y
    have h2 := total_update (fun _ (x : Proc P F) => x.live f) (update s.proc q y) t x
    have h3 := hlive f
    have h4 := hI.refs f
    rw [hset]
    rw [update_of_ne htq] at h2
    dsimp only [State.set] at h1 h2 ⊢
    omega
  · by_cases h1 : u = t
    · rw [h1,hself] at hc
      obtain ⟨rfl,he,hn⟩ := hxc r i hc
      rw [hq]
      exact ⟨he,hn⟩
    · rcases hchild u r i hc with ⟨h,-⟩ | ⟨-,hr,hc⟩
      · exact (h1 h).elim
      · obtain ⟨he,hn⟩ := hI.child u r i hc
        rw [hother r (fun h => ht (h ▸ he)) hr]
        exact ⟨he,hn⟩
  · rcases hchild u r i hu with ⟨h1,h2⟩ | ⟨h1,h2,h3⟩ <;> rcases hchild w r j hw with ⟨h4,h5⟩ | ⟨h4,h5,h6⟩
    · rw [h1,h4]
    · exact (h5 h2).elim
    · exact (h2 h5).elim
    · exact hI.only u w r i j h3 h6
  · by_cases h1 : u = t
    · rw [h1,hself,hxf] at hf
      cases hf
    by_cases h2 : u = q
    · rw [h2,hq,hyf] at hf
      cases hf
    · rw [hother u h1 h2] at hf
      have hold := hI.fresh u f hf
      by_cases hfile : s1.file f = s.file f
      · exact hfile.trans hold
      · have := htouch f hfile
        rw [hI.alone (Ne.symm h1) hf] at this
        omega

lemma counted_step (hI : Counted s) (h : Steps s s') : Counted s' := by
  cases h with
  | refl => exact hI
  | move t s1 x h => exact counted_move hI h
  | fork t q o o' ht hq =>
    have htq : t ≠ q := fun h => by rw [h,hq] at ht; cases ht
    have hOt := hI.own t
    have hOq := hI.own q
    rw [ht] at hOt
    rw [hq] at hOq
    have hnone := hOq.gone rfl
    refine counted_pair hI htq rfl ⟨hOt.high,nofun,nofun,nofun,nofun⟩ ⟨hOq.high,nofun,nofun,nofun,nofun⟩ (fun f => ?_)
      (fun r i hc => ?_) rfl (fun u i hu hc => ?_) (by rw [ht]; nofun) rfl rfl (fun g hg => (hg rfl).elim) hI.idle
    · rw [ht,hq]
      rfl
    · cases hc
      exact ⟨rfl,rfl,fun fd _ => hnone fd⟩
    · have := (hI.child u q i hc).1
      rw [hq] at this
      cases this
  | undo t q o ht =>
    obtain ⟨he,hn⟩ := hI.child t q 0 (by rw [ht]; rfl)
    have htq : t ≠ q := fun h => by rw [← h,ht] at he; cases he
    have hOt := hI.own t
    rw [ht] at hOt
    refine counted_pair hI htq rfl ⟨hOt.high,nofun,nofun,nofun,nofun⟩
      ⟨(hI.own q).high,fun _ fd => hn fd (zero_le _),nofun,nofun,nofun⟩ (fun f => ?_) nofun rfl
      (fun u i hu hc => hu (hI.only u t q i 0 hc (by rw [ht]; rfl))) (by rw [ht]; nofun) rfl rfl
      (fun g hg => (hg rfl).elim) hI.idle
    have hq : (s.proc q).live f = (⟨.unused,(s.proc q).ofile⟩ : Proc P F).live f := by
      unfold live slots
      rw [he]
      rfl
    rw [ht,hq]
    rfl
  | finish t q i o ht hi =>
    obtain ⟨he,hn⟩ := hI.child t q i (by rw [ht]; rfl)
    have htq : t ≠ q := fun h => by rw [← h,ht] at he; cases he
    have hOt := hI.own t
    rw [ht] at hOt
    refine counted_pair hI htq rfl ⟨hOt.high,nofun,nofun,nofun,nofun⟩
      ⟨(hI.own q).high,nofun,nofun,nofun,nofun⟩ (fun f => ?_) nofun rfl
      (fun u j hu hc => hu (hI.only u t q j i hc (by rw [ht]; rfl))) (by rw [ht]; nofun) rfl rfl
      (fun g hg => (hg rfl).elim) hI.idle
    have hq : (s.proc q).live f = (⟨.idle,(s.proc q).ofile⟩ : Proc P F).live f := by
      unfold live slots
      rw [he]
      rfl
    rw [ht,hq]
    rfl
  | copy t q i f o ht hi ho hr =>
    obtain ⟨he,hn⟩ := hI.child t q i (by rw [ht]; rfl)
    have htq : t ≠ q := fun h => by rw [← h,ht] at he; cases he
    have hOt := hI.own t
    rw [ht] at hOt
    have hq : ∀ g, (s.proc q).live g = among (s.proc q).ofile g := by
      intro g
      unfold live slots
      rw [he]
      rfl
    refine counted_pair hI htq rfl ⟨hOt.high,nofun,nofun,nofun,nofun⟩
      ⟨high_set hi (hI.own q).high _,?_,?_,?_,?_⟩ (fun g => ?_) (fun r j hc => ?_) ?_
      (fun u j hu hc => hu (hI.only u t q j i hc (by rw [ht]; rfl))) (by rw [ht]; nofun) rfl ?_
      (fun g hg => ?_) (fun g hg => ?_)
    · rw [he]; nofun
    · rw [he]; nofun
    · rw [he]; nofun
    · rw [he]; nofun
    · have hy : (⟨(s.proc q).pc,setFd (s.proc q).ofile i (some f)⟩ : Proc P F).live g =
          among (setFd (s.proc q).ofile i (some f)) g := by
        unfold live slots
        rw [he]
        rfl
      rw [hy,hq,among_fill hi (hn i le_rfl),ht,setRef_ref]
      change among o g+0+_+_ = among o g+0+_+_
      split_ifs with hg
      · rw [hg]
        omega
      · omega
    · cases hc
      refine ⟨rfl,he,fun fd hfd => ?_⟩
      refine (update_of_ne (by omega) ..).trans (hn fd (by omega))
    · rw [he]; rfl
    · rw [he]; rfl
    · have hgf : g = f := by
        by_contra h
        exact hg (setRef_file f g _ h)
      rw [ht,hgf]
      exact Nat.lt_add_right _ (among_pos hi ho)
    · by_cases h : g = f
      · rw [setRef_ref,if_pos h] at hg
        cases hg
      · rw [setRef_file f g _ h] at hg ⊢
        exact hI.idle g hg

end Xv6Threads.Files
