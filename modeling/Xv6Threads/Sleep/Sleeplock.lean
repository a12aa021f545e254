import Xv6Threads.Foundations.Monitor
import Xv6Threads.Log.Model

/-! Sleep-locks and the admission to the log, as critical sections of any number of processes. What a process has
acquired, and whether it is in an operation or commits, is noted beside the variables of the source. -/
namespace Xv6Threads.Sleep
open Function Finset

/-- The sleep-locks and the log, each with its spinlock, its channel and its data. -/
inductive Obj
  | lk (k : ℕ)
  | log
  deriving DecidableEq

/-- The stretches of the calls that hold a spinlock. `commit` is the end of `end_op`, after `commit()`. -/
inductive Job
  | acquiresleep (k : ℕ)
  | releasesleep (k : ℕ)
  | beginOp
  | endOp
  | commit
  | logWrite (b : ℕ)
  deriving DecidableEq

structure Sleeplock (T : Type) where
  locked : Bool
  pid : Option T

structure Data (T : Type) where
  lk : ℕ → Sleeplock T
  outstanding : ℕ
  committing : Bool
  lh : List ℕ
  size : ℕ
  /-- who has acquired the sleep-lock and has not released it -/
  holders : ℕ → Finset T
  /-- who is between `begin_op` and `end_op` -/
  ops : Finset T
  /-- who has `do_commit` set -/
  committer : Option T

open Data

variable {T : Type}

/-- The tests of `begin_op`. -/
def Data.refused (d : Data T) : Bool :=
  d.committing || decide (logSize < d.lh.length+(d.outstanding+1)*maxOpBlocks)

variable [DecidableEq T]

/-- A sleep-lock is released, and an operation ended, by who has it. -/
def Data.owns (d : Data T) (t : T) : Job → Bool
  | .acquiresleep _ => true
  | .releasesleep k => decide (t ∈ d.holders k)
  | .beginOp => decide (t ∉ d.ops)
  | .endOp | .logWrite _ => decide (t ∈ d.ops)
  | .commit => decide (d.committer = some t)

/-- What `log_write` tests before it has the lock, and panics. -/
def Data.fits (d : Data T) : Job → Bool
  | .logWrite _ => decide (d.lh.length < logSize ∧ d.lh.length < d.size-1 ∧ 1 ≤ d.outstanding)
  | _ => true

def Data.call (d : Data T) (t : T) (j : Job) : Option (Data T) := if d.owns t j && d.fits j then some d else none

/-- `commit` empties the header without `log.lock`. -/
def Data.clear (d : Data T) (t : T) : Option (Data T) :=
  if d.committer = some t then some {d with lh := []} else none

def Data.setLk (d : Data T) (k : ℕ) (l : Sleeplock T) (h : Finset T) : Data T :=
  {d with lk := update d.lk k l, holders := update d.holders k h}

def Data.body (d : Data T) (t : T) : Job → Option (Verdict (Data T) Job Obj)
  | .acquiresleep k =>
    if (d.lk k).locked then some ⟨d,[],.sleep (.lk k) (.acquiresleep k)⟩
    else some ⟨d.setLk k ⟨true,some t⟩ (insert t (d.holders k)),[],.leave none⟩
  | .releasesleep k => some ⟨d.setLk k ⟨false,none⟩ ((d.holders k).erase t),[.lk k],.leave none⟩
  | .beginOp =>
    if d.refused then some ⟨d,[],.sleep .log .beginOp⟩
    else some ⟨{d with outstanding := d.outstanding+1, ops := insert t d.ops},[],.leave none⟩
  | .endOp =>
    if d.committing then none -- panic
    else if d.outstanding-1 = 0 then
      some ⟨{d with outstanding := 0, ops := d.ops.erase t, committing := true, committer := some t},[],.leave none⟩
    else some ⟨{d with outstanding := d.outstanding-1, ops := d.ops.erase t},[.log],.leave none⟩
  | .commit => some ⟨{d with committing := false, committer := none},[.log],.leave none⟩
  | .logWrite b => some ⟨{d with lh := if b ∈ d.lh then d.lh else d.lh++[b]},[],.leave none⟩

structure Data.Start (d : Data T) : Prop where
  lk : ∀ k, (d.lk k).locked = false
  outstanding : d.outstanding = 0
  committing : d.committing = false
  holders : ∀ k, d.holders k = ∅
  ops : d.ops = ∅
  committer : d.committer = none

def Job.obj : Job → Obj
  | .acquiresleep k | .releasesleep k => .lk k
  | _ => .log

variable (T) in
def sleeplocks : Monitor T (Data T) Obj Job Obj where
  init := Data.Start
  lock := Job.obj
  guard := id
  call := Data.call
  aside := Data.clear
  body := Data.body

/-- Who holds what, for the jobs `f` that the processes have to do. -/
structure Held (d : Data T) (f : T → Option Job) : Prop where
  holders : ∀ k t, t ∈ d.holders k ↔ (d.lk k).locked = true ∧ (d.lk k).pid = some t
  owns : ∀ t j, f t = some j → d.owns t j = true
  outstanding : d.outstanding = d.ops.card
  committing : d.committing = d.committer.isSome
  alone : d.committing = true → d.outstanding = 0

section
variable {d d' : Data T} {f : T → Option Job} {t u : T} {j : Job}

lemma held_start (h : d.Start) : Held d (fun _ => none) := by
  refine ⟨fun k t => ?_,nofun,by rw [h.outstanding,h.ops]; rfl,by rw [h.committing,h.committer]; rfl,
    fun hc => by rw [h.committing] at hc; cases hc⟩
  rw [h.holders k,h.lk k]
  exact ⟨fun ht => absurd ht (notMem_empty t),nofun⟩

section
variable (hH : Held d f)
include hH

lemma held_call (h : d.call t j = some d') : Held d' (update f t (some j)) := by
  unfold call at h
  split_ifs at h with hj
  cases h
  refine ⟨hH.holders,fun u i hu => ?_,hH.outstanding,hH.committing,hH.alone⟩
  by_cases hut : u = t
  · rw [hut,update_self] at hu
    cases hu
    rw [hut]
    exact (Bool.and_eq_true_iff.mp hj).1
  · rw [update_of_ne hut] at hu
    exact hH.owns u i hu

lemma held_clear (h : d.clear t = some d') : Held d' f := by
  unfold clear at h
  split_ifs at h
  cases h
  refine ⟨hH.holders,fun u i hu => ?_,hH.outstanding,hH.committing,hH.alone⟩
  have := hH.owns u i hu
  cases i <;> exact this

lemma Held.unique {k : ℕ} (ht : t ∈ d.holders k) (hu : u ∈ d.holders k) : u = t := by
  have h1 := ((hH.holders k t).mp ht).2
  rw [((hH.holders k u).mp hu).2] at h1
  exact Option.some.inj h1

lemma held_body_owns {d' : Data T} {o : Option Job} (ho : ∀ j, o = some j → d'.owns t j = true)
    (hother : ∀ u i, u ≠ t → d.owns u i = true → d'.owns u i = true) :
    ∀ u i, update f t o u = some i → d'.owns u i = true := by
  intro u i hu
  by_cases hut : u = t
  · rw [hut,update_self] at hu
    rw [hut]
    exact ho i hu
  · rw [update_of_ne hut] at hu
    exact hother u i hut (hH.owns u i hu)

lemma held_setLk {k : ℕ} {l : Sleeplock T} {h : Finset T}
    (hl : ∀ u, u ∈ h ↔ l.locked = true ∧ l.pid = some u) (hkeep : ∀ u, u ≠ t → u ∈ d.holders k → u ∈ h) :
    Held (d.setLk k l h) (update f t none) := by
  refine ⟨fun i u => ?_,held_body_owns hH nofun (fun u i hut hu => ?_),hH.outstanding,hH.committing,hH.alone⟩
  · by_cases hi : i = k
    · subst hi
      simpa [setLk] using hl u
    · simpa [setLk,hi] using hH.holders i u
  · cases i with
    | releasesleep i =>
      by_cases hi : i = k
      · subst hi
        simpa [setLk,owns] using hkeep u hut (by simpa [owns] using hu)
      · simpa [setLk,owns,hi] using hu
    | _ => exact hu

lemma held_ops {d' : Data T} (hlk : d'.lk = d.lk) (hh : d'.holders = d.holders)
    (hops : ∀ u, u ≠ t → (u ∈ d'.ops ↔ u ∈ d.ops)) (hout : d'.outstanding = d'.ops.card)
    (hc : d'.committing = d'.committer.isSome) (ha : d'.committing = true → d'.outstanding = 0)
    (hcom : ∀ u, u ≠ t → d.committer = some u → d'.committer = some u) : Held d' (update f t none) := by
  refine ⟨fun k u => by rw [hlk,hh]; exact hH.holders k u,held_body_owns hH nofun (fun u i hut hu => ?_),hout,hc,ha⟩
  cases i with
  | acquiresleep k => rfl
  | releasesleep k => simpa [owns,hh] using hu
  | commit => simpa [owns] using hcom u hut (by simpa [owns] using hu)
  | beginOp | endOp | logWrite b => simpa [owns,hops u hut] using hu

lemma held_body {v : Verdict (Data T) Job Obj} (hf : f t = some j) (h : d.body t j = some v) :
    Held v.data (update f t v.next.todo) := by
  have hown := hH.owns t j hf
  have hsame : update f t (some j) = f := by
    rw [← hf]
    exact update_eq_self t f
  cases j with
  | acquiresleep k =>
    simp only [body] at h
    split_ifs at h with hl <;> cases h
    · change Held d (update f t (some _))
      rwa [hsame]
    · refine held_setLk hH (fun u => ?_) (fun u _ hu => mem_insert_of_mem hu)
      have hnone : u ∉ d.holders k := fun hu => hl ((hH.holders k u).mp hu).1
      simp [hnone,eq_comm]
  | releasesleep k =>
    simp only [body] at h
    cases h
    have ht : t ∈ d.holders k := by simpa [owns] using hown
    refine held_setLk hH (fun u => ?_) (fun u hut hu => absurd (hH.unique ht hu) hut)
    simp only [Bool.false_eq_true,false_and,iff_false,mem_erase,not_and]
    exact fun hut hu => hut (hH.unique ht hu)
  | beginOp =>
    simp only [body] at h
    have ht : t ∉ d.ops := by simpa [owns] using hown
    split_ifs at h with hr <;> cases h
    · change Held d (update f t (some _))
      rwa [hsame]
    · have hnc : d.committing = false := by
        rw [refused,Bool.or_eq_true,not_or] at hr
        simpa using hr.1
      refine held_ops hH rfl rfl (fun u hut => by simp [hut]) ?_ hH.committing (fun hc => ?_) (fun _ _ => id)
      · change d.outstanding+1 = (insert t d.ops).card
        rw [card_insert_of_notMem ht,hH.outstanding]
      · rw [show d.committing = true from hc] at hnc
        cases hnc
  | endOp =>
    simp only [body] at h
    have ht : t ∈ d.ops := by simpa [owns] using hown
    have hcard := card_erase_of_mem ht
    have hout := hH.outstanding
    split_ifs at h with hc h0 <;> cases h
    · refine held_ops hH rfl rfl (fun u hut => by simp [hut]) ?_ rfl (fun _ => rfl) (fun u _ hu => ?_)
      · change 0 = (d.ops.erase t).card
        omega
      · rw [hH.committing,hu] at hc
        exact absurd rfl hc
    · refine held_ops hH rfl rfl (fun u hut => by simp [hut]) ?_ hH.committing (fun h => absurd h hc) (fun _ _ => id)
      change d.outstanding-1 = (d.ops.erase t).card
      omega
  | commit =>
    simp only [body] at h
    cases h
    have ht : d.committer = some t := by simpa [owns] using hown
    refine held_ops hH rfl rfl (fun u _ => Iff.rfl) hH.outstanding rfl nofun (fun u hut hu => ?_)
    rw [ht] at hu
    exact absurd (Option.some.inj hu).symm hut
  | logWrite b =>
    simp only [body] at h
    cases h
    exact held_ops hH rfl rfl (fun u _ => Iff.rfl) hH.outstanding hH.committing hH.alone (fun _ _ => id)

end

end

variable {s : Monitor.State T (Data T) Obj Job Obj} {t : T}

lemma reach_held (h : (sleeplocks T).system.Reachable s) : Held s.data (fun t => (s.pc t).todo) :=
  Monitor.data_invariant (fun _ h => held_start h) (fun hH _ h => held_call hH h) (fun hH _ h => held_clear hH h)
    (fun hH hf h => held_body hH hf h) h

/-- What the processes sleep for. -/
def HasToWait (d : Data T) (_ : T) : Obj → Job → Prop
  | .lk i, .acquiresleep k => i = k ∧ (d.lk k).locked = true
  | .log, .beginOp => d.refused = true
  | _, _ => False

section
omit [DecidableEq T]

lemma refused_mono {d d' : Data T} (h : d.refused = true) (hc : d.committing = true → d'.committing = true)
    (hl : d.lh.length ≤ d'.lh.length) (ho : d.outstanding ≤ d'.outstanding) : d'.refused = true := by
  unfold refused at h ⊢
  rw [Bool.or_eq_true,decide_eq_true_eq] at h ⊢
  refine h.imp hc (fun h => ?_)
  have := Nat.mul_le_mul_right maxOpBlocks (Nat.add_le_add_right ho 1)
  omega

lemma hasToWait_mono {d d' : Data T} {u : T} {c : Obj} {k : Job} (h : HasToWait d u c k) (hlk : d'.lk = d.lk)
    (hr : d.refused = true → d'.refused = true) : HasToWait d' u c k := by
  unfold HasToWait at h ⊢
  split at h
  · exact ⟨h.1,by rw [hlk]; exact h.2⟩
  · exact hr h
  · exact h

lemma hasToWait_setLk {d : Data T} {u : T} {c : Obj} {k : Job} {i : ℕ} {l : Sleeplock T} {h : Finset T}
    (hw : HasToWait d u c k) (hl : c = .lk i → l.locked = true) : HasToWait (d.setLk i l h) u c k := by
  unfold HasToWait at hw ⊢
  split at hw
  case h_1 a b =>
    obtain ⟨rfl,hw⟩ := hw
    refine ⟨rfl,?_⟩
    by_cases ha : a = i
    · subst ha
      simpa [setLk] using hl rfl
    · simpa [setLk,ha] using hw
  case h_2 => exact hw
  case h_3 => exact hw

end

lemma sleeplocks_signal : (sleeplocks T).Signals HasToWait (fun s => Held s.data (fun t => (s.pc t).todo)) where
  call {s t j d u c k} _ _ h _ hw := by
    change s.data.call t j = some d at h
    unfold call at h
    split_ifs at h
    cases h
    exact hw
  aside {s t d u c k} hI _ h _ hw := by
    change s.data.clear t = some d at h
    unfold clear at h
    split_ifs at h with hc
    cases h
    refine hasToWait_mono hw rfl (fun _ => ?_)
    have : s.data.committing = true := by rw [hI.committing,hc]; rfl
    simp [refused,this]
  body {s t j v u c k} hI hpc h _ hw := by
    change s.data.body t j = some v at h
    cases j with
    | acquiresleep i =>
      simp only [body] at h
      split_ifs at h with hl <;> cases h
      · exact .inl hw
      · exact .inl (hasToWait_setLk hw (fun _ => rfl))
    | releasesleep i =>
      simp only [body] at h
      cases h
      by_cases hc : c = .lk i
      · exact .inr ⟨by simp [hc],hc.symm⟩
      · exact .inl (hasToWait_setLk hw (fun h => absurd h hc))
    | beginOp =>
      simp only [body] at h
      split_ifs at h with hr <;> cases h
      · exact .inl hw
      · exact .inl (hasToWait_mono hw rfl (fun hr => refused_mono hr id le_rfl (Nat.le_succ _)))
    | endOp =>
      simp only [body] at h
      split_ifs at h with hc h0 <;> cases h
      · exact .inl (hasToWait_mono hw rfl (fun _ => rfl))
      · cases c with
        | log => exact .inr ⟨by simp,rfl⟩
        | lk i => exact .inl (by cases k <;> exact hw)
    | commit =>
      simp only [body] at h
      cases h
      cases c with
      | log => exact .inr ⟨by simp,rfl⟩
      | lk i => exact .inl (by cases k <;> exact hw)
    | logWrite b =>
      simp only [body] at h
      cases h
      refine .inl (hasToWait_mono hw rfl (fun hr => refused_mono hr id ?_ le_rfl))
      change _ ≤ (if b ∈ s.data.lh then s.data.lh else s.data.lh++[b]).length
      split_ifs
      · exact le_rfl
      · simp
  sleep {s t j v c k} _ _ h hn := by
    change s.data.body t j = some v at h
    cases j with
    | acquiresleep i =>
      simp only [body] at h
      split_ifs at h with hl <;> cases h <;> cases hn
      exact ⟨⟨rfl,hl⟩,rfl⟩
    | beginOp =>
      simp only [body] at h
      split_ifs at h with hr <;> cases h <;> cases hn
      exact ⟨hr,rfl⟩
    | endOp =>
      simp only [body] at h
      split_ifs at h <;> cases h <;> cases hn
    | _ =>
      simp only [body] at h
      cases h
      cases hn

/-- Nobody is stranded at a sleep-lock or at the log: a sleep-lock has at most one holder, nobody sleeps on a free one,
whoever sleeps in `begin_op` would be refused again, and nothing is outstanding while somebody commits. -/
theorem no_waiter_stranded (h : (sleeplocks T).system.Reachable s) : (∀ k, (s.data.holders k).card ≤ 1) ∧
    (∀ k, s.lock (.lk k) = none → (s.data.lk k).locked = false →
      ∀ t, ¬(s.sleeping t = true ∧ s.chan t = some (.lk k))) ∧
    (s.lock .log = none → ∀ t, s.sleeping t = true → s.chan t = some .log →
      s.pc t = .asleep .log .beginOp ∧ s.data.refused = true) ∧
    (∀ t, s.data.committer = some t → s.data.outstanding = 0) := by
  have hH := reach_held h
  have hwait : ∀ t c, s.lock c = none → s.sleeping t = true → s.chan t = some c →
      ∃ k, s.pc t = .asleep c k ∧ HasToWait s.data t c k :=
    fun t c hf hs hc => Monitor.has_to_wait sleeplocks_signal (fun s h => reach_held h) h hf hs hc
  refine ⟨fun k => ?_,fun k hf hl t ⟨hs,hc⟩ => ?_,fun hf t hs hc => ?_,fun t ht => ?_⟩
  · exact Finset.card_le_one.mpr fun a ha b hb => (hH.unique hb ha)
  · obtain ⟨j,-,hw⟩ := hwait t _ hf hs hc
    cases j with
    | acquiresleep i =>
      obtain ⟨rfl,hw⟩ := hw
      rw [hl] at hw
      cases hw
    | _ => exact hw
  · obtain ⟨j,hpc,hw⟩ := hwait t _ hf hs hc
    cases j with
    | beginOp => exact ⟨hpc,hw⟩
    | _ => exact hw.elim
  · exact hH.alone (by rw [hH.committing,ht]; rfl)

def booted : Monitor.State (Fin 2) (Data (Fin 2)) Obj Job Obj where
  data := ⟨fun _ => ⟨false,none⟩,0,false,[],logSize,fun _ => ∅,∅,none⟩
  lock _ := none
  table := none
  sleeping _ := false
  chan _ := none
  pc _ := .idle

lemma booted_start : (sleeplocks (Fin 2)).Start booted :=
  ⟨⟨fun _ => rfl,rfl,rfl,fun _ => rfl,rfl,rfl⟩,fun _ => rfl,rfl,fun _ => rfl,fun _ => rfl⟩

/-- One process has a sleep-lock and is in an operation, the other sleeps on the sleep-lock. -/
theorem sleeper_has_to_wait : ∃ s, (sleeplocks (Fin 2)).system.Reachable s ∧ s.sleeping 1 = true ∧
    s.chan 1 = some (.lk 0) ∧ s.data.outstanding = 1 ∧ ((s.data.holders 0).card ≤ 1 ∧
      (s.lock (.lk 0) = none → (s.data.lk 0).locked = false → ∀ t, ¬(s.sleeping t = true ∧ s.chan t = some (.lk 0)))) := by
  have hrun : ∃ s, (sleeplocks (Fin 2)).system.Reachable s ∧
      s.sleeping 1 = true ∧ s.chan 1 = some (.lk 0) ∧ s.data.outstanding = 1 :=
    System.reachable_of_exec
      ([.call 0 .beginOp,.run 0,.run 0,.run 0,.call 0 (.acquiresleep 0),.run 0,.run 0,.run 0,
        .call 1 (.acquiresleep 0)]++List.replicate 5 (.run 1)) _ booted_start (by decide +kernel)
  obtain ⟨s,hs,h1,h2,h3⟩ := hrun
  have hno := no_waiter_stranded hs
  exact ⟨s,hs,h1,h2,h3,hno.1 0,hno.2.1 0⟩

end Xv6Threads.Sleep
