import Xv6Threads.Ptable.Base

/-! Parents. `exit` passes the children of a dying process to init; `thread_exit` does not, and
leaves the children of a thread with a dead parent. -/
namespace Xv6Threads.Ptable
open Function

/-- Nobody is its own parent, and init has none. -/
structure Kin (t : Table) : Prop where
  noself : ∀ q, (t q).parent ≠ some q
  init : (t initproc).parent = none

section
variable {t : Table}

lemma kin_put {c : Slot} {e : Proc} (hK : Kin t)
    (he : e.parent = (t c).parent ∨ e.parent = none ∨ ∃ p, e.parent = some p ∧ p ≠ c ∧ c ≠ initproc) :
    Kin (update t c e) := by
  constructor
  · intro q
    by_cases hq : q = c
    · subst hq
      rw [update_self]
      rcases he with he | he | ⟨p,he,hp,-⟩ <;> rw [he]
      · exact hK.noself q
      · nofun
      · exact fun h => hp (Option.some.inj h)
    · rw [update_of_ne hq]; exact hK.noself q
  · by_cases hc : initproc = c
    · rw [hc,update_self]
      rcases he with he | he | ⟨p,-,-,hp⟩
      · rw [he,← hc]; exact hK.init
      · exact he
      · exact (hp hc.symm).elim
    · rw [update_of_ne hc]; exact hK.init

lemma kin_woken {t' : Table} {p : Slot} (hK : Kin t) (hw : ∀ q, Woken p (t q) (t' q)) : Kin t' := by
  constructor
  · intro q
    rcases (hw q).parent with h | ⟨h,h'⟩
    · rw [h]; exact hK.noself q
    · rw [h']
      rintro hq
      have := Option.some.inj hq
      subst this
      rw [hK.init] at h
      cases h
  · rcases (hw initproc).parent with h | ⟨h,-⟩
    · rw [h]; exact hK.init
    · rw [hK.init] at h; cases h

lemma kin_die {s : State} {t' : Table} {p : Slot} (hK : Kin s.table) (hw : ∀ q, Woken p (s.table q) (t' q)) :
    Kin (s.die p (update t' p {t' p with state := .zombie})).table := kin_put (kin_woken hK hw) (.inl rfl)

end

lemma kin_step {s s' : State} {l : Label} (hB : Base s) (hK : Kin s.table) (h : Steps s l s') : Kin s'.table := by
  cases h with
  | act hr h =>
    next p _ =>
    cases h with
    | noSlot | copy | execBuild | execBad | execFree | waitFail | joinFail => exact hK
    | forkFill c _ hc | cloneFill c hc =>
      have hch : (s.ctl p).child = some c := by rw [hc]; rfl
      have he := (hB.child p c hch).1
      refine kin_put hK (.inr (.inr ⟨p,rfl,?_,?_⟩))
      · rintro rfl; rw [hr] at he; cases he
      · rintro rfl; have := hB.init.1; rw [he] at this; cases this
    | reap | joinReap => exact kin_put hK (.inr (.inl rfl))
    | exit _ hu hp =>
      exact kin_die hK (fun q => (wakeup1_woken _ _ p q).trans (reparents_woken p _ _ q))
    | threadExit => exact kin_die hK (fun q => wakeup1_woken _ _ p q)
    | _ => exact kin_put hK (.inl rfl)
  | killNone => exact hK
  | sched | kill => exact kin_put hK (.inl rfl)
  | wakeup => exact kin_woken hK (fun q => wakeup1_woken _ _ initproc q)

lemma kin_initial : Kin initial.table := by
  constructor
  · intro q
    by_cases hq : q = initproc <;> simp [initial,hq]
  · simp [initial]

/-- `z` has a parent that can reap it: init, or the process that created it. -/
def Kept (t : Table) (z : Slot) : Prop :=
  ∃ p, (t z).parent = some p ∧ (t p).state.alive = true ∧
    ((t p).birth = (t z).creator ∨ p = initproc)

def ParentAt (t : Table) : Prop :=
  ∀ z, z ≠ initproc → (t z).state ≠ .unused → (t z).ready = true → Kept t z

/-- A thread that calls `thread_exit` has no children. -/
def leavesNoChild (s : State) : Label → Prop
  | .act p .threadExit => (s.table p).isthread = true → ∀ q, (s.table q).parent ≠ some p
  | _ => True

section
variable {t t' : Table}

lemma kept_of_woken {p z : Slot} (hw : ∀ q, Woken p (t q) (t' q)) (hi : (t' initproc).state.alive = true)
    (h : Kept t z) : Kept t' z := by
  obtain ⟨q,hq,ha,hb⟩ := h
  rcases (hw z).parent with h | ⟨-,h⟩
  · exact ⟨q,by rw [h,hq],by rw [(hw q).similar.alive,ha],by rw [(hw q).birth,(hw z).creator]; exact hb⟩
  · exact ⟨initproc,h,hi,.inr rfl⟩

lemma parent_woken {p : Slot} (hP : ParentAt t) (hi : (t initproc).state.alive = true)
    (hw : ∀ q, Woken p (t q) (t' q)) : ParentAt t' := by
  intro z hz hs hr
  rw [(hw z).ready] at hr
  refine kept_of_woken hw (by rw [(hw initproc).similar.alive]; exact hi) (hP z hz (fun h => hs ?_) hr)
  exact (hw z).similar.unused.mpr h

lemma parent_put {c : Slot} {e : Proc} (hP : ParentAt t)
    (halive : (t c).state.alive = true → e.state.alive = true ∧ e.birth = (t c).birth)
    (he : e.state ≠ .unused → e.ready = true →
      ((t c).state ≠ .unused ∧ (t c).ready = true ∧ e.parent = (t c).parent ∧ e.creator = (t c).creator) ∨
      ∃ p, (t p).state.alive = true ∧ e.parent = some p ∧ e.creator = (t p).birth) : ParentAt (update t c e) := by
  -- A parent in the old table is one in the new table.
  have hkeep : ∀ q, (t q).state.alive = true → (update t c e q).state.alive = true ∧
      (update t c e q).birth = (t q).birth := by
    intro q hq
    by_cases hqc : q = c
    · subst hqc; rw [update_self]; exact halive hq
    · rw [update_of_ne hqc]; exact ⟨hq,rfl⟩
  intro z hz hs hr
  by_cases hzc : z = c
  · subst hzc
    rw [update_self] at hs hr
    unfold Kept
    rw [update_self]
    rcases he hs hr with ⟨h1,h2,h3,h4⟩ | ⟨p,hp,h3,h4⟩
    · obtain ⟨p,hp,ha,hb⟩ := hP z hz h1 h2
      exact ⟨p,by rw [h3,hp],(hkeep p ha).1,by rw [(hkeep p ha).2,h4]; exact hb⟩
    · exact ⟨p,h3,(hkeep p hp).1,.inl (by rw [(hkeep p hp).2,h4])⟩
  · unfold Kept
    rw [update_of_ne hzc] at hs hr ⊢
    obtain ⟨p,hp,ha,hb⟩ := hP z hz hs hr
    exact ⟨p,hp,(hkeep p ha).1,by rw [(hkeep p ha).2]; exact hb⟩

lemma parent_die {p : Slot} (hP : ParentAt t) (hn : ∀ z, (t z).parent ≠ some p)
    (hu : (t p).state ≠ .unused) (hr : (t p).ready = true) : ParentAt (update t p {t p with state := .zombie}) := by
  have hkept : ∀ z, Kept t z → ∃ q, q ≠ p ∧ (t z).parent = some q ∧ (t q).state.alive = true ∧
      ((t q).birth = (t z).creator ∨ q = initproc) := by
    rintro z ⟨q,hq,h⟩
    exact ⟨q,by rintro rfl; exact hn z hq,hq,h⟩
  intro z hz hs hrz
  by_cases hzp : z = p
  · subst hzp
    obtain ⟨q,hqp,hq,ha,hb⟩ := hkept z (hP z hz hu hr)
    exact ⟨q,by rwa [update_self],by rwa [update_of_ne hqp],by
      rwa [update_of_ne hqp,update_self]⟩
  · rw [update_of_ne hzp] at hs hrz
    obtain ⟨q,hqp,hq,ha,hb⟩ := hkept z (hP z hz hs hrz)
    exact ⟨q,by rwa [update_of_ne hzp],by rwa [update_of_ne hqp],by
      rwa [update_of_ne hqp,update_of_ne hzp]⟩

end

lemma parent_step {s s' : State} {l : Label} (hB : Base s) (hP : ParentAt s.table)
    (hok : leavesNoChild s l) (h : Steps s l s') : ParentAt s'.table := by
  cases h with
  | act hr h =>
    next p _ =>
    have ha : (s.table p).state.alive = true := by rw [hr]; rfl
    have hu : (s.table p).state ≠ .unused := by rw [hr]; nofun
    have hready : (s.table p).ready = true := hB.ready p hu (by rw [hr]; nofun)
    have hdead : ∀ {c : Slot} {e : Proc} {st : ProcState}, (s.table c).state = st → st.alive = false →
        (s.table c).state.alive = true → e.state.alive = true ∧ e.birth = (s.table c).birth := by
      intro c e st h1 h2 h3
      rw [h1,h2] at h3
      cases h3
    cases h with
    | noSlot | copy | execBuild | execBad | execFree | waitFail | joinFail => exact hP
    | fork c _ hc | clone c _ hc => exact parent_put hP (hdead hc rfl) nofun
    | forkFail c hc | cloneFail c hc | copyNone c hc | copyFail c d hc =>
      have he := (hB.child p c (by rw [hc]; rfl)).1
      exact parent_put hP (hdead he rfl) (fun h => (h rfl).elim)
    | forkFill c d hc | cloneFill c hc =>
      have he := (hB.child p c (by rw [hc]; rfl)).1
      exact parent_put hP (hdead he rfl) (fun _ _ => .inr ⟨p,ha,rfl,rfl⟩)
    | start c hc =>
      obtain ⟨he,hrd⟩ := hB.child p c (by rw [hc]; rfl)
      rw [hc] at hrd
      exact parent_put hP (hdead he rfl) (fun _ _ => .inl ⟨by rw [he]; nofun,hrd,rfl,rfl⟩)
    | execCommit | fault => exact parent_put hP (fun _ => ⟨ha,rfl⟩) (fun _ _ => .inl ⟨hu,hready,rfl,rfl⟩)
    | waitSleep | joinSleep | yield | block =>
      exact parent_put hP (fun _ => ⟨rfl,rfl⟩) (fun _ _ => .inl ⟨hu,hready,rfl,rfl⟩)
    | reap z d _ _ hz | joinReap w z _ _ hz => exact parent_put hP (hdead hz rfl) (fun h => (h rfl).elim)
    | exit _ _ hp =>
      have hw : ∀ q, Woken p (s.table q) (reparent p (wakeup1 s.table ((s.table p).parent.map .proc)) q) :=
        fun q => (wakeup1_woken _ _ p q).trans (reparents_woken p _ _ q)
      refine parent_die (parent_woken hP hB.init.1 hw) (fun z => ?_) ?_ ?_
      · exact reparents_parent hp _ _ (.inl (List.mem_finRange z))
      · exact fun h => hu ((hw p).similar.unused.mp h)
      · rw [(hw p).ready]; exact hready
    | threadExit _ ht =>
      have hw := fun q => wakeup1_woken s.table ((s.table p).parent.map .proc) p q
      refine parent_die (parent_woken hP hB.init.1 hw) (fun z => ?_) ?_ ?_
      · rw [wakeup1_parent]; exact hok ht z
      · exact fun h => hu ((hw p).similar.unused.mp h)
      · rw [(hw p).ready]; exact hready
  | sched hr =>
    next p =>
    have hu : (s.table p).state ≠ .unused := by rw [hr]; nofun
    have hready : (s.table p).ready = true := hB.ready p hu (by rw [hr]; nofun)
    exact parent_put hP (fun _ => ⟨rfl,rfl⟩) (fun _ _ => .inl ⟨hu,hready,rfl,rfl⟩)
  | killNone => exact hP
  | kill =>
    next pid q =>
    have hs := similar_kill (s.table q)
    exact parent_put hP (fun h => ⟨hs.alive.trans h,rfl⟩)
      (fun h hr => .inl ⟨fun h' => h (hs.unused.mpr h'),hr,rfl,rfl⟩)
  | wakeup => exact parent_woken hP hB.init.1 (fun q => wakeup1_woken _ _ initproc q)

/-- What holds in every state of a run in which no thread leaves children. -/
structure Kinship (s : State) : Prop where
  base : Base s
  parent : ParentAt s.table

lemma reach_kinship {s : State} (h : machine.ReachWhile leavesNoChild s) : Kinship s :=
  System.ReachWhile.invariant (I := Kinship)
    (fun s (hs : s = initial) => hs ▸ ⟨base_initial,fun z hz h => by simp [initial,hz] at h⟩)
    (fun _ _ _ hI hok hs => by
      have hs := step_cases hs
      exact ⟨base_step hI.base hs,parent_step hI.base hI.parent hok hs⟩) h

/-- In every run in which threads that call `thread_exit` have no children, every process has a
live parent, which is init or has created it. -/
theorem live_parent {s : State} (h : machine.ReachWhile leavesNoChild s) {z : Slot} (hz : z ≠ initproc)
    (hu : (s.table z).state ≠ .unused) (he : (s.table z).state ≠ .embryo) :
    ∃ p, (s.table z).parent = some p ∧ (s.table p).state ≠ .unused ∧ (s.table p).state ≠ .zombie ∧
      ((s.table p).birth = (s.table z).creator ∨ p = initproc) := by
  obtain ⟨hB,hP⟩ := reach_kinship h
  obtain ⟨p,hp,ha,hb⟩ := hP z hz hu (hB.ready z hu he)
  refine ⟨p,hp,fun h => ?_,fun h => ?_,hb⟩
  · rw [h] at ha; cases ha
  · rw [h] at ha; cases ha

instance (s : State) (l : Label) : Decidable (leavesNoChild s l) := by
  unfold leavesNoChild
  split <;> infer_instance

/-- A process with a thread that has ended. -/
theorem live_parent_of_zombie_thread : ∃ s, machine.ReachWhile leavesNoChild s ∧
    (s.table 2).state = .zombie ∧ ∃ p, (s.table 2).parent = some p ∧ (s.table p).state ≠ .zombie := by
  obtain ⟨s,hs,hz⟩ := System.reachWhile_of_exec (M := machine) (fun s l => decide (leavesNoChild s l))
    (fun _ _ h => of_decide_eq_true h) [.sched 0,.act 0 .fork,.act 0 (.copy 1),.act 0 .forkFill,.act 0 .start,
       .sched 1,.act 1 .clone,.act 1 .cloneFill,.act 1 .start,
       .sched 2,.act 2 .threadExit]
    (fun s => (s.table 2).state = .zombie) rfl (by decide +kernel)
  obtain ⟨p,h1,-,h2,-⟩ := live_parent hs (z := 2) (by decide) (by rw [hz]; nofun) (by rw [hz]; nofun)
  exact ⟨s,hs,hz,p,h1,h2⟩

/-- A thread forks and calls `thread_exit`: its child runs on with a zombie as parent. -/
theorem thread_exit_orphans_child : ∃ s, machine.Reachable s ∧ (s.table 3).state = .runnable ∧
    (s.table 3).parent = some 2 ∧ (s.table 2).state = .zombie :=
  System.reachable_of_exec (M := machine) [.sched 0,.act 0 .fork,.act 0 (.copy 1),.act 0 .forkFill,.act 0 .start,
     .sched 1,.act 1 .clone,.act 1 .cloneFill,.act 1 .start,
     .sched 2,.act 2 .fork,.act 2 (.copy 2),.act 2 .forkFill,.act 2 .start,
     .act 2 .threadExit] _ rfl (by decide +kernel)

end Xv6Threads.Ptable
