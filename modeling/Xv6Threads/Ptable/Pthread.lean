import Xv6Threads.Ptable.Reaping

/-! `pthread_join`. A call is a number of scans of the table by `join`, with the steps of others while the caller
sleeps. `join` takes 0 and negative numbers for any thread, and `pthread_join` compares what it returns, a pid or -1,
with the number it was given. -/
namespace Xv6Threads.Ptable
open Option Function

/-- What a scan of `join(w)` returns, if it returns. -/
def State.joinReturn (s : State) (p : Slot) (w : Int32) : Option Int32 :=
  match firstSlot (fun z => joinable s.table p w z ∧ (s.table z).state = .zombie) with
  | some z => some (s.table z).pid
  | none => if (∀ q, joinable s.table p w q = false) ∨ (s.table p).killed then some (-1) else none

/-- The first ended thread in the table that `join(w)` takes for one of `p`. -/
def State.ended (s : State) (p : Slot) (w : Int32) : Option Slot :=
  firstSlot (fun z => joinable s.table p w z ∧ (s.table z).state = .zombie)

/-- What `pthread_join(t)` makes of the value of `join`. -/
def pthreadReturn (t pid : Int32) : Int32 := if pid = t then 0 else -1

/-- A step of the machine that is not an action of `p`. -/
def Others (ok : State → Label → Prop) (p : Slot) (s s' : State) : Prop :=
  ∃ l, (∀ a, l ≠ .act p a) ∧ ok s l ∧ machine.step s l = some s'

/-- A call of `pthread_join(t)` by `p`: its own steps, with the states before and after each of them, and what it
returns. `sys_join` may find that the pointer it is given is bad. -/
inductive PthreadJoin (ok : State → Label → Prop) (p : Slot) (t : Int32) : State → List (State × State) → Int32 → Prop
  | badPointer (s : State) : PthreadJoin ok p t s [] (pthreadReturn t (-1))
  | returns {s s' : State} {pid : Int32} (h : machine.step s (.act p (.join t)) = some s')
      (hr : s.joinReturn p t = some pid) : PthreadJoin ok p t s [(s,s')] (pthreadReturn t pid)
  | sleeps {s s' u : State} {own : List (State × State)} {r : Int32} (h : machine.step s (.act p (.join t)) = some s')
      (hr : s.joinReturn p t = none) (ho : Relation.ReflTransGen (Others ok p) s' u)
      (hc : PthreadJoin ok p t u own r) : PthreadJoin ok p t s ((s,s') :: own) r

/-- A step of `p` that reaps nobody and changes nothing in the table but its own state and channel. -/
structure Idle (p : Slot) (s s' : State) : Prop where
  hist : s'.hist = s.hist
  others : ∀ q, q ≠ p → s'.table q = s.table q
  self : s'.table p = {s.table p with state := (s'.table p).state, chan := (s'.table p).chan}

/-- A step of `p` that reaps the thread with the pid `t`, which `p` has cloned and which has ended. -/
def ReapsThread (p : Slot) (t : Int32) (s s' : State) : Prop :=
  ∃ z, s' = s.joinReap p z ∧ (s.table z).pid = t ∧ (s.table z).state = .zombie ∧ (s.table z).isthread = true ∧
    (s.table z).parent = some p ∧ (s.table z).creator = (s.table p).birth

section
variable {s s' : State} {p : Slot} {t : Int32}

section
variable (h : machine.step s (.act p (.join t)) = some s')
include h

lemma joinScan_of_step : s.joinScan p t = some s' := by
  change (if (s.table p).state = .running then s.act p (.join t) else none) = some s' at h
  split_ifs at h with hr
  change (if s.ctl p = .user ∨ s.ctl p = .joining t then s.joinScan p t else none) = some s' at h
  split_ifs at h with hu
  exact h

lemma scan_cases : (∃ z, s.ended p t = some z ∧ s' = s.joinReap p z ∧ s.joinReturn p t = some (s.table z).pid) ∨
    (s.ended p t = none ∧ s' = s.goto p .user ∧ s.joinReturn p t = some (-1)) ∨
    (s.ended p t = none ∧ s' = (s.sleepOn p (.proc p)).goto p (.joining t) ∧ s.joinReturn p t = none) := by
  have hs := joinScan_of_step h
  unfold State.joinScan at hs
  unfold State.joinReturn State.ended
  cases hf : firstSlot (fun z => joinable s.table p t z ∧ (s.table z).state = .zombie) with
  | some z =>
    rw [hf] at hs
    cases hs
    exact .inl ⟨z,rfl,rfl,rfl⟩
  | none =>
    rw [hf] at hs
    simp only at hs ⊢
    split_ifs at hs ⊢ with hk
    · cases hs
      exact .inr (.inl ⟨trivial,rfl,rfl⟩)
    · cases hs
      exact .inr (.inr ⟨trivial,rfl,rfl⟩)

end

lemma idle_goto (c : Ctl) : Idle p s (s.goto p c) := ⟨rfl,fun _ _ => rfl,rfl⟩

lemma idle_sleep (c : Chan) (d : Ctl) : Idle p s ((s.sleepOn p c).goto p d) := by
  have hself : ((s.sleepOn p c).goto p d).table p = {s.table p with state := .sleeping, chan := some c} :=
    update_self ..
  refine ⟨rfl,fun q hq => update_of_ne hq _ _,?_⟩
  rw [hself]

lemma scan_idle (h : machine.step s (.act p (.join t)) = some s') (hr : s.joinReturn p t = none) :
    Idle p s s' ∧ s.ended p t = none := by
  rcases scan_cases h with ⟨z,-,-,hret⟩ | ⟨-,-,hret⟩ | ⟨hnone,rfl,-⟩
  · rw [hret] at hr
    cases hr
  · rw [hret] at hr
    cases hr
  · exact ⟨idle_sleep _ _,hnone⟩

lemma ended_spec {z : Slot} (h : s.ended p t = some z) : (s.table z).parent = some p ∧ (s.table z).isthread = true ∧
    (s.table z).state = .zombie ∧ (0 < t → (s.table z).pid = t) := by
  have hz : joinable s.table p t z = true ∧ (s.table z).state = .zombie := by simpa using firstSlot_some h
  have hj : ((s.table z).parent = some p ∧ (s.table z).isthread = true) ∧ (t ≤ 0 ∨ (s.table z).pid = t) := by
    simpa [joinable] using hz.1
  exact ⟨hj.1.1,hj.1.2,hz.2,fun ht => hj.2.resolve_left (Int32.not_le.mpr ht)⟩

lemma not_idle_joinReap (z : Slot) : ¬Idle p s (s.joinReap p z) := fun h =>
  List.cons_ne_self _ _ h.hist

lemma reapsThread_iff {z : Slot} (h : s.ended p t = some z) : ReapsThread p t s (s.joinReap p z) ↔
    (s.table z).pid = t ∧ (s.table z).creator = (s.table p).birth := by
  obtain ⟨hpar,hthr,hz,-⟩ := ended_spec h
  refine ⟨?_,fun ⟨hpid,hcr⟩ => ⟨z,rfl,hpid,hz,hthr,hpar,hcr⟩⟩
  rintro ⟨z',heq,hpid,-,-,-,hcr⟩
  have hev : Event.reaped z (s.table z).pid = .reaped z' (s.table z').pid := (List.cons.inj (congrArg State.hist heq)).1
  cases hev
  exact ⟨hpid,hcr⟩

/-- In a run in which no thread leaves children behind, the parent of a thread is the one that has cloned it. -/
lemma ended_own (hreach : machine.ReachWhile leavesNoChild s) (hp : p ≠ initproc) {z : Slot} (h : s.ended p t = some z) :
    (s.table z).creator = (s.table p).birth := by
  obtain ⟨hpar,-,hz,-⟩ := ended_spec h
  have hzi : z ≠ initproc := by
    rintro rfl
    rw [(reach_reaps hreach.reachable).kin.init] at hpar
    cases hpar
  obtain ⟨q,hq,-,-,hb⟩ := live_parent hreach hzi (by rw [hz]; nofun) (by rw [hz]; nofun)
  obtain rfl : p = q := some.inj (hpar.symm.trans hq)
  exact (hb.resolve_right hp).symm

end

lemma others_reach {ok : State → Label → Prop} {p : Slot} {s s' : State} (hs : machine.ReachWhile ok s)
    (h : Relation.ReflTransGen (Others ok p) s s') : machine.ReachWhile ok s' := by
  induction h with
  | refl => exact hs
  | tail _ hstep ih =>
    obtain ⟨l,-,hok,hl⟩ := hstep
    exact .step ih hok hl

/-- 0 means that the call has reaped the thread `t`, which `p` has cloned, and -1 that it has changed nothing. -/
def Reports (p : Slot) (t : Int32) (own : List (State × State)) (r : Int32) : Prop :=
  (r = 0 → ∃ before a b, own = before++[(a,b)] ∧ (∀ x ∈ before, Idle p x.1 x.2) ∧ ReapsThread p t a b) ∧
    (r = -1 → ∀ x ∈ own, Idle p x.1 x.2)

/-- The thread that the last scan finds, if it finds one, is `t` and the caller has cloned it; and -1 is no number for a
call that finds none. -/
def Finds (p : Slot) (t : Int32) (own : List (State × State)) : Prop :=
  match own.getLast?.bind fun x => (x.1.ended p t).map (x.1,·) with
  | some (s,z) => (s.table z).pid = t ∧ (s.table z).creator = (s.table p).birth
  | none => t ≠ -1

section
variable {ok : State → Label → Prop} {p : Slot} {t r : Int32} {s s' : State} {own : List (State × State)}

lemma finds_some {z : Slot} (h : s.ended p t = some z) : Finds p t [(s,s')] ↔
    (s.table z).pid = t ∧ (s.table z).creator = (s.table p).birth := by
  simp [Finds,h]

lemma finds_none (h : s.ended p t = none) : Finds p t [(s,s')] ↔ t ≠ -1 := by
  simp [Finds,h]

lemma finds_cons (h : s.ended p t = none) : Finds p t ((s,s') :: own) ↔ Finds p t own := by
  cases own with
  | nil => exact finds_none h
  | cons x own => rw [Finds,Finds,List.getLast?_cons_cons]

lemma ReapsThread.not_idle (h : ReapsThread p t s s') : ¬Idle p s s' := by
  obtain ⟨z,rfl,-⟩ := h
  exact not_idle_joinReap z

lemma reports_cons (h : Idle p s s') : Reports p t ((s,s') :: own) r ↔ Reports p t own r := by
  refine and_congr (forall_congr' fun _ => ⟨?_,?_⟩) (forall_congr' fun _ => by simp [h])
  · rintro ⟨before,a,b,hown,hidle,hreap⟩
    cases before with
    | nil =>
      cases hown
      exact absurd h hreap.not_idle
    | cons x before =>
      obtain ⟨-,rfl⟩ := List.cons.inj hown
      exact ⟨before,a,b,rfl,fun y hy => hidle y (List.mem_cons_of_mem x hy),hreap⟩
  · rintro ⟨before,a,b,rfl,hidle,hreap⟩
    exact ⟨(s,s') :: before,a,b,rfl,List.forall_mem_cons.mpr ⟨h,hidle⟩,hreap⟩

lemma reports_none (h : ∀ x ∈ own, Idle p x.1 x.2) : Reports p t own (pthreadReturn t (-1)) ↔ t ≠ -1 := by
  unfold pthreadReturn
  split_ifs with ht
  · refine ⟨fun hrep => ?_,fun hne => absurd ht.symm hne⟩
    obtain ⟨before,a,b,rfl,-,hreap⟩ := hrep.1 rfl
    exact absurd (h (a,b) (by simp)) hreap.not_idle
  · exact ⟨fun _ hne => ht hne.symm,fun _ => ⟨fun h0 => absurd h0 (by decide),fun _ => h⟩⟩

lemma reports_reap {z : Slot} (h : s.ended p t = some z) :
    Reports p t [(s,s.joinReap p z)] (pthreadReturn t (s.table z).pid) ↔ Finds p t [(s,s.joinReap p z)] := by
  rw [finds_some h,← reapsThread_iff h]
  unfold pthreadReturn
  split_ifs with hpid
  · refine ⟨fun hrep => ?_,fun hreap => ⟨fun _ => ⟨[],_,_,rfl,nofun,hreap⟩,fun h0 => absurd h0 (by decide)⟩⟩
    obtain ⟨before,a,b,hown,-,hreap⟩ := hrep.1 rfl
    obtain ⟨-,hab⟩ := List.append_inj' (show []++[_] = _ from hown) rfl
    cases hab
    exact hreap
  · refine ⟨fun hrep => absurd (hrep.2 rfl _ (List.mem_singleton_self _)) (not_idle_joinReap z),fun hreap => ?_⟩
    exact absurd ((reapsThread_iff h).mp hreap).1 hpid

end

/-- A call of `pthread_join` reports what it has done just if the thread that it finds is `t` and the caller has cloned
it, or it finds none and `t` is not -1. In runs in which no thread leaves children behind this is so for every positive
number and every caller but init. -/
theorem pthread_join_reaps_named {ok : State → Label → Prop} {p : Slot} {t : Int32} {s : State} {own : List (State × State)}
    {r : Int32} (h : PthreadJoin ok p t s own r) : (Reports p t own r ↔ Finds p t own) ∧
      (p ≠ initproc → 0 < t → (∀ s l, ok s l → leavesNoChild s l) → machine.ReachWhile leavesNoChild s → Finds p t own) := by
  induction h with
  | badPointer s =>
    refine ⟨reports_none nofun,fun _ ht _ _ => ?_⟩
    rintro rfl
    exact absurd ht (by decide)
  | @returns s s' pid hstep hr =>
    rcases scan_cases hstep with ⟨z,hz,rfl,hret⟩ | ⟨hnone,rfl,hret⟩ | ⟨hnone,-,hret⟩
    · cases hr.symm.trans hret
      exact ⟨reports_reap hz,fun hp ht _ hs => (finds_some hz).mpr ⟨(ended_spec hz).2.2.2 ht,ended_own hs hp hz⟩⟩
    · cases hr.symm.trans hret
      have hidle : ∀ x ∈ [(s,s.goto p .user)], Idle p x.1 x.2 := fun x hx => by
        rw [List.mem_singleton.mp hx]
        exact idle_goto _
      refine ⟨(reports_none hidle).trans (finds_none hnone).symm,fun _ ht _ _ => (finds_none hnone).mpr ?_⟩
      rintro rfl
      exact absurd ht (by decide)
    · cases hr.symm.trans hret
  | @sleeps s s' u own r hstep hr ho _ ih =>
    obtain ⟨hidle,hnone⟩ := scan_idle hstep hr
    rw [reports_cons hidle,finds_cons hnone]
    refine ⟨ih.1,fun hp ht hok hs => ih.2 hp ht hok ?_⟩
    have hs' : machine.ReachWhile leavesNoChild s' := .step hs (show leavesNoChild s (.act p (.join t)) from trivial) hstep
    have hmono : Others ok p ≤ Others leavesNoChild p := fun a _ ⟨l,h1,h2,h3⟩ => ⟨l,h1,hok a l h2,h3⟩
    exact others_reach hs' (Relation.ReflTransGen.mono hmono _ _ ho)

open scoped FixedRuns

/-- Process 2 in slot 1 clones thread 3 in slot 2, which ends. -/
def endedThread : List Label :=
  [.sched 0,.act 0 .fork,.act 0 (.copy 1),.act 0 .forkFill,.act 0 .start,.sched 1,.act 1 .clone,.act 1 .cloneFill,
    .act 1 .start,.sched 2,.act 2 .threadExit]

theorem pthread_join_reaps_three : ∃ s s', machine.ReachWhile leavesNoChild s ∧
    PthreadJoin leavesNoChild 1 3 s [(s,s')] 0 ∧ ReapsThread 1 3 s s' := by
  obtain ⟨s,hs,hr,hsome⟩ := System.reachWhile_of_exec (M := machine) (fun s l => decide (leavesNoChild s l))
    (fun _ _ h => of_decide_eq_true h) endedThread
    (fun s => s.joinReturn 1 3 = some 3 ∧ (machine.step s (.act 1 (.join 3))).isSome) rfl (by decide +kernel)
  obtain ⟨s',hstep⟩ := isSome_iff_exists.mp hsome
  have hcall : PthreadJoin leavesNoChild 1 3 s [(s,s')] 0 := .returns hstep hr
  obtain ⟨hiff,hfinds⟩ := pthread_join_reaps_named hcall
  obtain ⟨before,a,b,hown,-,hreap⟩ := (hiff.mpr (hfinds (by decide) (by decide) (fun _ _ h => h) hs)).1 rfl
  obtain ⟨-,hab⟩ := List.append_inj' (show []++[_] = _ from hown) rfl
  cases hab
  exact ⟨s,s',hs,hcall,hreap⟩

/-- `pthread_join(-1)` by a process without threads returns 0, and `pthread_join(0)` by a process whose thread 3 has
ended reaps it and returns -1. -/
theorem pthread_join_wildcard :
    (∃ s s', machine.Reachable s ∧ PthreadJoin (fun _ _ => True) 1 (-1) s [(s,s')] 0 ∧ s'.hist = s.hist ∧
      ∀ q, (s.table q).isthread = false) ∧
    ∃ s s', machine.Reachable s ∧ PthreadJoin (fun _ _ => True) 1 0 s [(s,s')] (-1) ∧
      s'.hist = .reaped 2 3 :: s.hist := by
  constructor
  · obtain ⟨s,hs,hr,hstep,hq⟩ := System.reachable_of_exec (M := machine) (endedThread.take 6)
      (fun s => s.joinReturn 1 (-1) = some (-1) ∧
        (machine.step s (.act 1 (.join (-1)))).map State.hist = some s.hist ∧ ∀ q, (s.table q).isthread = false) rfl
      (by decide +kernel)
    obtain ⟨s',hstep,hhist⟩ := map_eq_some_iff.mp hstep
    exact ⟨s,s',hs,.returns hstep hr,hhist,hq⟩
  · obtain ⟨s,hs,hr,hstep⟩ := System.reachable_of_exec (M := machine) endedThread
      (fun s => s.joinReturn 1 0 = some 3 ∧
        (machine.step s (.act 1 (.join 0))).map State.hist = some (.reaped 2 3 :: s.hist)) rfl (by decide +kernel)
    obtain ⟨s',hstep,hhist⟩ := map_eq_some_iff.mp hstep
    exact ⟨s,s',hs,.returns hstep hr,hhist⟩

end Xv6Threads.Ptable
