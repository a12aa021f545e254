import Xv6Threads.Ptable.Base
import Xv6Threads.Sched.Model

/-! Which CPU runs which process, across the hand-over of `ptable.lock` in `swtch`. A CPU without the
lock is in the scheduler with no process, or runs one that is `RUNNING`. -/
namespace Xv6Threads.Sched
open Function Option State
open Ptable (Slot Table)
variable {C : Type} [DecidableEq C]

/-- The CPU has `ptable.lock`. -/
def At.holds : At → Bool
  | .idle | .run _ .free => false
  | _ => true

/-- What `c->proc` is. -/
def At.proc : At → Option Slot
  | .idle | .intr _ | .scan _ => none
  | .picked p | .marked p | .back p | .run p _ => some p

/-- The process of the CPU is `RUNNING`. -/
def At.settled : At → Bool
  | .run _ .switch => false
  | .marked _ | .run _ _ => true
  | _ => false

structure Inv (s : State C) : Prop where
  lock : ∀ c, s.lock = some c ↔ (s.pc c).holds = true
  proc : ∀ c, s.proc c = (s.pc c).proc
  uniq : ∀ {c d p}, (s.pc c).proc = some p → (s.pc d).proc = some p → c = d
  settled : ∀ {c p}, (s.pc c).proc = some p → (s.pc c).settled = true → (s.table p).state = .running
  running : ∀ {p}, (s.table p).state = .running → ∃ c, (s.pc c).proc = some p ∧ (s.pc c).settled = true
  picked : ∀ {c p}, s.pc c = .picked p → (s.table p).state = .runnable
  child : ∀ {p q}, s.child p = some q → (s.table q).state = .embryo
  kids : ∀ {p r q}, s.child p = some q → s.child r = some q → p = r

section
variable {s s' : State C} {c : C} {a : At}

variable {p : Slot}

lemma settled_of_not_holds {a : At} (hp : a.proc = some p) (h : a.holds = false) : a.settled = true := by
  cases a with
  | run p k => cases k <;> simp [At.holds,At.settled] at h ⊢
  | _ => simp [At.holds,At.proc] at h hp

omit [DecidableEq C] in
lemma Inv.other (hI : Inv s) (hc : (s.pc c).holds = true) {d : C} (hd : d ≠ c)
    (hp : (s.pc d).proc = some p) : (s.table p).state = .running := by
  refine hI.settled hp (settled_of_not_holds hp ?_)
  by_contra h
  have h1 := (hI.lock d).mpr (by simpa using h)
  have h2 := (hI.lock c).mpr hc
  rw [h1] at h2
  exact hd (some.inj h2)

/-- How the lock may change when CPU `c` goes to `a`. -/
inductive LockStep (s s' : State C) (c : C) (a : At) : Prop
  | same (hl : s'.lock = s.lock) (ha : a.holds = (s.pc c).holds)
  | acquire (hn : s.lock = none) (hl : s'.lock = some c) (ha : a.holds = true)
  | release (hc : (s.pc c).holds = true) (hl : s'.lock = none) (ha : a.holds = false)

lemma LockStep.lock (hI : Inv s) (h : LockStep s s' c a) (d : C) :
    s'.lock = some d ↔ (update s.pc c a d).holds = true := by
  by_cases hd : d = c
  · subst hd
    rw [update_self]
    cases h with
    | same hl ha => rw [hl,ha]; exact hI.lock d
    | acquire _ hl ha => rw [hl,ha]; exact ⟨fun _ => rfl,fun _ => rfl⟩
    | release _ hl ha => rw [hl,ha]; exact ⟨nofun,nofun⟩
  · rw [update_of_ne hd]
    cases h with
    | same hl => rw [hl]; exact hI.lock d
    | acquire hn hl =>
      rw [hl,← hI.lock d,hn]
      exact ⟨fun h => (hd (some.inj h).symm).elim,nofun⟩
    | release hc hl =>
      rw [hl,← hI.lock d,(hI.lock c).mpr hc]
      exact ⟨nofun,fun h => (hd (some.inj h).symm).elim⟩

/-- CPU `c` goes to `a`, which may give it a process or take it. -/
lemma inv_move (hI : Inv s) (hpc : s'.pc = update s.pc c a) (hl : LockStep s s' c a)
    (hp : s'.proc = update s.proc c a.proc) (hnew : ∀ {p}, a.proc = some p → ∀ d, d ≠ c → (s.pc d).proc ≠ some p)
    (hset : ∀ {p}, a.proc = some p → a.settled = true → (s'.table p).state = .running)
    (hrun : ∀ {q}, (s'.table q).state = .running →
      (a.proc = some q ∧ a.settled = true) ∨ ((s.table q).state = .running ∧ (s.pc c).proc ≠ some q))
    (hkeep : ∀ {q}, (s.pc c).proc ≠ some q → (s.table q).state = .running → (s'.table q).state = .running)
    (hpick : ∀ {d p}, update s.pc c a d = .picked p → (s'.table p).state = .runnable)
    (hch : ∀ {p q}, s'.child p = some q → (s'.table q).state = .embryo)
    (hk : ∀ {p r q}, s'.child p = some q → s'.child r = some q → p = r) : Inv s' := by
  refine ⟨fun d => by rw [hpc]; exact hl.lock hI d,fun d => ?_,fun {d e p} hd he => ?_,fun {d p} hd hs => ?_,
    fun {p} hr => ?_,fun {d p} h => hpick (by rw [← hpc]; exact h),hch,hk⟩
  · rw [hp,hpc]
    by_cases hd : d = c
    · rw [hd,update_self,update_self]
    · rw [update_of_ne hd,update_of_ne hd]
      exact hI.proc d
  · rw [hpc] at hd he
    by_cases hdc : d = c <;> by_cases hec : e = c
    · rw [hdc,hec]
    · rw [hdc,update_self] at hd
      rw [update_of_ne hec] at he
      exact (hnew hd e hec he).elim
    · rw [update_of_ne hdc] at hd
      rw [hec,update_self] at he
      exact (hnew he d hdc hd).elim
    · rw [update_of_ne hdc] at hd
      rw [update_of_ne hec] at he
      exact hI.uniq hd he
  · rw [hpc] at hd hs
    by_cases hdc : d = c
    · rw [hdc,update_self] at hd hs
      exact hset hd hs
    · rw [update_of_ne hdc] at hd hs
      exact hkeep (fun h => hdc (hI.uniq hd h)) (hI.settled hd hs)
  · rw [hpc]
    rcases hrun hr with ⟨h1,h2⟩ | ⟨h1,h2⟩
    · exact ⟨c,by rw [update_self]; exact h1,by rw [update_self]; exact h2⟩
    · obtain ⟨d,hd,hs⟩ := hI.running h1
      have hdc : d ≠ c := by
        rintro rfl
        exact h2 hd
      exact ⟨d,by rw [update_of_ne hdc]; exact hd,by rw [update_of_ne hdc]; exact hs⟩

variable {t : Table}

lemma no_pick (hI : Inv s) (hc : (s.pc c).holds = true ∨ s.lock = none) (ha : ∀ p, a ≠ .picked p) {d : C}
    (h : update s.pc c a d = .picked p) : (t p).state = .runnable := by
  by_cases hd : d = c
  · rw [hd,update_self] at h
    exact (ha p h).elim
  · rw [update_of_ne hd] at h
    have h1 := (hI.lock d).mpr (by rw [h]; rfl)
    rcases hc with hc | hc
    · rw [(hI.lock c).mpr hc] at h1
      exact (hd (some.inj h1).symm).elim
    · rw [hc] at h1
      cases h1

/-- A change of the table that nobody is made to run or stopped by, and no entry under construction
touched. -/
structure Quiet (t u : Table) : Prop where
  running : ∀ q, (u q).state = .running ↔ (t q).state = .running
  embryo : ∀ q, (t q).state = .embryo → (u q).state = .embryo

lemma Quiet.refl (t : Table) : Quiet t t := ⟨fun _ => Iff.rfl,fun _ h => h⟩

lemma Quiet.of_woken {t u : Table} (h : ∀ q, Ptable.Woken p (t q) (u q)) : Quiet t u := by
  refine ⟨fun q => ?_,fun q hq => (h q).similar.embryo.mpr hq⟩
  rcases (h q).state with h | ⟨h,h'⟩
  · rw [h]
  · rw [h,h']
    exact ⟨nofun,nofun⟩

variable {e : Ptable.Proc}

lemma Quiet.put {q : Slot} (hr : e.state = .running ↔ (t q).state = .running)
    (he : (t q).state = .embryo → e.state = .embryo) : Quiet t (update t q e) := by
  refine ⟨fun r => ?_,fun r h => ?_⟩ <;> by_cases hrq : r = q
  · rw [hrq,update_self]
    exact hr
  · rw [update_of_ne hrq]
  · rw [hrq,update_self]
    rw [hrq] at h
    exact he h
  · rwa [update_of_ne hrq]

section
variable (hI : Inv s) (hpc : s'.pc = update s.pc c a) (hl : LockStep s s' c a) (hp : s'.proc = s.proc) (ha : a.proc = (s.pc c).proc) (hs : a.settled = (s.pc c).settled)
include hI hpc hl hp ha hs

lemma inv_same
    (ht : ∀ q, (s'.table q).state = .running ↔ (s.table q).state = .running)
    (hpick : ∀ {d p}, update s.pc c a d = .picked p → (s'.table p).state = .runnable)
    (hch : ∀ {p q}, s'.child p = some q → (s'.table q).state = .embryo)
    (hk : ∀ {p r q}, s'.child p = some q → s'.child r = some q → p = r) : Inv s' := by
  refine inv_move hI hpc hl ?_ (fun {p} h d hd hd' => ?_) (fun {p} h h' => ?_) (fun {q} h => ?_) (fun {q} _ h => ?_)
    hpick hch hk
  · rw [hp,ha,← hI.proc c,update_eq_self]
  · rw [ha] at h
    exact hd (hI.uniq hd' h)
  · rw [ht]
    exact hI.settled (by rw [← ha]; exact h) (by rw [← hs]; exact h')
  · rw [ht] at h
    by_cases hq : (s.pc c).proc = some q
    · obtain ⟨d,hd,hd'⟩ := hI.running h
      obtain rfl := hI.uniq hd hq
      exact .inl ⟨ha.trans hq,hs.trans hd'⟩
    · exact .inr ⟨h,hq⟩
  · rwa [ht]

lemma inv_quiet
    (ht : Quiet s.table s'.table) (hpick : ∀ {d p}, update s.pc c a d = .picked p → (s'.table p).state = .runnable)
    (hch : s'.child = s.child) : Inv s' :=
  inv_same hI hpc hl hp ha hs ht.running hpick (fun h => ht.embryo _ (hI.child (by rw [← hch]; exact h)))
    (by rw [hch]; exact hI.kids)

end

/-- CPU `c` goes from `b` to `a` with the process that it has. -/
lemma inv_goto {b : At} (hI : Inv s) (hb : s.pc c = b) (hpc : s'.pc = update s.pc c a) (hl : LockStep s s' c a)
    (hh : b.holds = true ∨ s.lock = none) (hp : s'.proc = s.proc) (ha : a.proc = b.proc)
    (hs : a.settled = b.settled) (ht : Quiet s.table s'.table) (hn : ∀ p, a ≠ .picked p) (hch : s'.child = s.child) :
    Inv s' := by
  subst hb
  exact inv_quiet hI hpc hl hp ha hs ht (no_pick hI hh hn) hch

lemma inv_give {k : Ctx} {t u : Table} {o : Op} (hI : Inv s) (hpc : s.pc c = .run p (.held o))
    (ht : Quiet s.table t) (hu : u = update t p (u p)) (hs : (u p).state ≠ .running) : Inv (s.give c p k u) := by
  have hrun : (s.table p).state = .running := hI.settled (c := c) (by rw [hpc]; rfl) (by rw [hpc]; rfl)
  have hne : ∀ {q}, q ≠ p → u q = t q := fun {q} hq => by rw [hu,update_of_ne hq]
  refine inv_move (a := .run p .switch) hI rfl (.same rfl (by rw [hpc]; rfl)) ?_ (fun {q} h d hd hd' => ?_) nofun
    (fun {q} h => ?_) (fun {q} hq h => ?_) (no_pick (t := u) hI (.inl (by rw [hpc]; rfl)) (fun _ h => by cases h))
    (fun {r q} h => ?_) hI.kids
  · change s.proc = update s.proc c (some p)
    rw [show some p = s.proc c by rw [hI.proc,hpc]; rfl,update_eq_self]
  · cases h
    exact hd (hI.uniq hd' (by rw [hpc]; rfl))
  · by_cases hq : q = p
    · exact (hs (hq ▸ h)).elim
    · refine .inr ⟨(ht.running q).mp (hne hq ▸ h),?_⟩
      rw [hpc]
      exact fun h => hq (some.inj h).symm
  · have hqp : q ≠ p := by
      rintro rfl
      exact hq (by rw [hpc]; rfl)
    change (u q).state = _
    rw [hne hqp]
    exact (ht.running q).mpr h
  · have he := hI.child h
    have hqp : q ≠ p := by
      rintro rfl
      rw [hrun] at he
      cases he
    change (u q).state = _
    rw [hne hqp]
    exact ht.embryo q he

lemma inv_leave {o : Op} (hI : Inv s) (hpc : s.pc c = .run p (.held o)) (ht : Quiet s.table t) : Inv (s.leave c p t) :=
  inv_goto (a := .run p .leave) hI hpc rfl (.same rfl (by rw [hpc]; rfl)) (.inl rfl) rfl rfl rfl ht (by simp) rfl

lemma quiet_zombie {z : Slot} (hz : (t z).state = .zombie) (he : e.state = .unused) : Quiet t (update t z e) :=
  .put (by rw [hz,he]; exact ⟨nofun,nofun⟩) (by rw [hz]; nofun)

section
omit [DecidableEq C]

lemma zombieChild_zombie {p z : Slot} (h : s.zombieChild p = some z) : (s.table z).state = .zombie := by
  have := Ptable.firstSlot_some h
  simp only [decide_eq_true_eq] at this
  exact this.2

lemma zombieThread_zombie {p z : Slot} {w : Int32} (h : s.zombieThread p w = some z) : (s.table z).state = .zombie := by
  have := Ptable.firstSlot_some h
  simp only [decide_eq_true_eq] at this
  exact this.2

lemma kids_drop {p q : Slot} (hI : Inv s) (hq : s.child p = some q) :
    (∀ {r x}, update s.child p none r = some x → (update s.table q e x).state = .embryo) ∧
    ∀ {r r' x}, update s.child p none r = some x → update s.child p none r' = some x → r = r' := by
  have hold : ∀ {r x}, update s.child p none r = some x → r ≠ p ∧ s.child r = some x := by
    intro r x h
    by_cases hr : r = p
    · rw [hr,update_self] at h
      cases h
    · rw [update_of_ne hr] at h
      exact ⟨hr,h⟩
  refine ⟨fun {r x} h => ?_,fun h h' => hI.kids (hold h).2 (hold h').2⟩
  obtain ⟨hr,h⟩ := hold h
  have hx : x ≠ q := by
    rintro rfl
    exact hr (hI.kids h hq)
  rw [update_of_ne hx]
  exact hI.child h

end

/-- What a process does under the lock. -/
lemma inv_body {o : Op} (hI : Inv s) (hpc : s.pc c = .run p (.held o)) : Inv (s.body c p o) := by
  have hsleep : ∀ k ch, Inv (s.give c p k (s.asleep p ch)) := fun k ch => by
    refine inv_give hI hpc (.refl s.table) ?_ ?_ <;> simp [asleep]
  have hexit : ∀ k, Inv (s.give c p k (Ptable.exit p s.table)) := fun k => by
    refine inv_give hI hpc (.of_woken (fun q => (Ptable.wakeup1_woken s.table ((s.table p).parent.map .proc) p q).trans
      (Ptable.reparents_woken p (List.finRange Ptable.nproc) _ q))) ?_ ?_ <;> simp [Ptable.exit,Ptable.reparent]
  cases o with
  | yield => refine inv_give hI hpc (.refl s.table) ?_ ?_ <;> simp
  | sleep ch => exact hsleep _ _
  | exit => exact hexit _
  | threadExit =>
    simp only [body]
    split_ifs
    · refine inv_give hI hpc (.of_woken (Ptable.wakeup1_woken s.table ((s.table p).parent.map .proc) p)) ?_ ?_ <;>
        simp [Ptable.threadExit]
    · exact hexit _
  | wait =>
    simp only [body]
    split
    · next z hz => exact inv_leave hI hpc (quiet_zombie (zombieChild_zombie hz) rfl)
    · split_ifs
      · exact inv_leave hI hpc (.refl _)
      · exact hsleep _ _
  | join w =>
    simp only [body]
    split
    · next z hz => exact inv_leave hI hpc (quiet_zombie (zombieThread_zombie hz) rfl)
    · split_ifs
      · exact inv_leave hI hpc (.refl _)
      · exact hsleep _ _
  | kill pid =>
    simp only [body]
    split
    · exact inv_leave hI hpc (.refl _)
    · next q _ =>
      have hs := Ptable.similar_kill (s.table q)
      refine inv_leave hI hpc (.put ?_ hs.embryo.mpr)
      by_cases h : (s.table q).state = .sleeping <;> simp [Ptable.killEntry,h]
  | wakeup ch => exact inv_leave hI hpc (.of_woken (Ptable.wakeup1_woken _ _ p))
  | alloc =>
    simp only [body]
    split
    · exact inv_leave hI hpc (.refl _)
    · next q hq =>
      have hq : (s.table q).state = .unused := by simpa using Ptable.firstSlot_some hq
      have hnew : ∀ {r}, s.child r ≠ some q := fun {r} h => by
        have := hI.child h
        rw [hq] at this
        cases this
      refine inv_same (a := .run p .leave) hI rfl (.same rfl (by rw [hpc]; rfl)) rfl (by rw [hpc]; rfl)
        (by rw [hpc]; rfl) (fun r => ?_) (no_pick hI (.inl (by rw [hpc]; rfl)) (fun _ h => by cases h))
        (fun {r x} h => ?_) (fun {r r' x} h h' => ?_)
      · by_cases hr : r = q <;> simp [leave,hr,hq,Ptable.allocEntry]
      · change (update s.table q _ x).state = _
        by_cases hx : x = q
        · rw [hx,update_self]
          rfl
        · rw [update_of_ne hx]
          change update s.child p (some q) r = some x at h
          by_cases hr : r = p
          · rw [hr,update_self] at h
            exact (hx (some.inj h).symm).elim
          · rw [update_of_ne hr] at h
            exact hI.child h
      · change update s.child p (some q) r = some x at h
        change update s.child p (some q) r' = some x at h'
        by_cases hr : r = p <;> by_cases hr' : r' = p
        · rw [hr,hr']
        · rw [hr,update_self] at h
          rw [update_of_ne hr'] at h'
          exact (hnew (h.symm ▸ h')).elim
        · rw [hr',update_self] at h'
          rw [update_of_ne hr] at h
          exact (hnew (h'.symm ▸ h)).elim
        · rw [update_of_ne hr] at h
          rw [update_of_ne hr'] at h'
          exact hI.kids h h'
  | start =>
    simp only [body]
    split
    · exact inv_leave hI hpc (.refl _)
    · next q hq =>
      have he := hI.child hq
      obtain ⟨hch,hk⟩ := kids_drop hI (e := {s.table q with state := .runnable}) hq
      refine inv_same (a := .run p .leave) hI rfl (.same rfl (by rw [hpc]; rfl)) rfl (by rw [hpc]; rfl)
        (by rw [hpc]; rfl) (fun r => ?_) (no_pick hI (.inl (by rw [hpc]; rfl)) (fun _ h => by cases h)) hch hk
      by_cases hr : r = q <;> simp [leave,hr,he]

lemma inv_scanAt {i : ℕ} (hI : Inv s) (hpc : s.pc c = .scan i) : Inv (s.scanAt c i) := by
  have hold : (s.pc c).holds = true := by rw [hpc]; rfl
  unfold scanAt
  split_ifs with hi hr
  · refine inv_move (a := .picked ⟨i,hi⟩) hI rfl (.same rfl (by rw [hpc]; rfl)) rfl (fun {p} h d hd hd' => ?_) nofun
      (fun {q} h => .inr ⟨h,by rw [hpc]; nofun⟩) (fun _ h => h) (fun {d p} h => ?_) hI.child hI.kids
    · cases h
      rw [hI.other hold hd hd'] at hr
      cases hr
    · by_cases hd : d = c
      · rw [hd,update_self] at h
        cases h
        exact hr
      · rw [update_of_ne hd] at h
        exact hI.picked h
  · exact inv_goto (a := .scan (i+1)) hI hpc rfl (.same rfl (by rw [hpc]; rfl)) (.inl rfl) rfl rfl rfl
      (.refl _) (by simp) rfl
  · exact inv_goto (a := .idle) hI hpc rfl (.release hold rfl rfl) (.inl rfl) rfl rfl rfl (.refl _) (by simp) rfl

lemma inv_resume (hI : Inv s) (hpc : s.pc c = .run p .resumed) : Inv (s.resume c p) := by
  have hq : Quiet s.table (update s.table p {s.table p with chan := none}) := .put Iff.rfl (fun h => h)
  have hgo : ∀ (k : Kpc) (t : Table), k ≠ .free → k ≠ .switch → Quiet s.table t →
      Inv {s.setPc c (.run p k) with table := t} := by
    intro k t h1 h2 ht
    refine inv_quiet (a := .run p k) hI rfl (.same rfl ?_) rfl (by rw [hpc]; rfl) ?_ ht
      (no_pick hI (.inl (by rw [hpc]; rfl)) (fun _ h => by cases h)) rfl <;> rw [hpc] <;> cases k <;> first | rfl | contradiction
  unfold resume
  split
  · exact hgo .leave _ nofun nofun (.refl _)
  · exact hgo .leave _ nofun nofun hq
  · exact hgo _ _ nofun nofun hq
  · exact hgo _ _ nofun nofun hq

lemma inv_next (hI : Inv s) (h : s.next c = some s') : Inv s' := by
  unfold next at h
  split at h
  · next hpc =>
    split_ifs at h with hl
    cases h
    exact inv_goto (a := .scan 0) hI hpc rfl (.acquire hl rfl rfl) (.inr hl) rfl rfl rfl (.refl _) (by simp) rfl
  · next ch hpc =>
    cases h
    have hold : (s.pc c).holds = true := by rw [hpc]; rfl
    exact inv_goto (a := .idle) hI hpc rfl (.release hold rfl rfl) (.inl rfl) rfl rfl rfl
      (.of_woken (Ptable.wakeup1_woken _ _ Ptable.initproc)) (by simp) rfl
  · next i hpc => cases h; exact inv_scanAt hI hpc
  · next p hpc =>
    cases h
    have hold : (s.pc c).holds = true := by rw [hpc]; rfl
    have hrun : ∀ q, q ≠ p → (update s.table p {s.table p with state := .running}) q = s.table q :=
      fun q hq => update_of_ne hq ..
    refine inv_move (a := .marked p) hI rfl (.same rfl (by rw [hpc]; rfl)) ?_ (fun {q} h d hd hd' => ?_)
      (fun {q} h _ => ?_) (fun {q} h => ?_) (fun {q} hq h => ?_) (no_pick hI (.inl hold) (fun _ h => by cases h))
      (fun {r q} h => ?_) hI.kids
    · change s.proc = update s.proc c (some p)
      rw [show some p = s.proc c by rw [hI.proc,hpc]; rfl,update_eq_self]
    · cases h
      exact hd (hI.uniq hd' (by rw [hpc]; rfl))
    · cases h
      change (update s.table p _ p).state = _
      rw [update_self]
    · by_cases hq : q = p
      · exact .inl ⟨by rw [hq]; rfl,rfl⟩
      · refine .inr ⟨by rw [← hrun q hq]; exact h,?_⟩
        rw [hpc]
        exact fun h => hq (some.inj h).symm
    · have hqp : q ≠ p := by
        rintro rfl
        exact hq (by rw [hpc]; rfl)
      change (update s.table p _ q).state = _
      rw [hrun q hqp]
      exact h
    · have hqp : q ≠ p := by
        rintro rfl
        have := hI.child h
        rw [hI.picked hpc] at this
        cases this
      change (update s.table p _ q).state = _
      rw [hrun q hqp]
      exact hI.child h
  · next p hpc =>
    cases h
    exact inv_goto (a := .run p .resumed) hI hpc rfl (.same rfl (by rw [hpc]; rfl)) (.inl rfl) rfl rfl rfl
      (.refl _) (by simp) rfl
  · next p hpc =>
    cases h
    have hns : (s.table p).state ≠ .running := fun h => by
      obtain ⟨d,hd,hs⟩ := hI.running h
      obtain rfl := hI.uniq hd (by rw [hpc]; rfl : (s.pc c).proc = some p)
      rw [hpc] at hs
      cases hs
    refine inv_move (a := .scan (p+1)) hI rfl (.same rfl (by rw [hpc]; rfl)) rfl nofun nofun (fun {q} h => ?_)
      (fun _ h => h) (no_pick (t := s.table) hI (.inl (by rw [hpc]; rfl)) (fun _ h => by cases h)) hI.child hI.kids
    refine .inr ⟨h,fun hq => hns ?_⟩
    rw [hpc] at hq
    cases hq
    exact h
  · cases h
  · next p o hpc => cases h; exact inv_body hI hpc
  · next p hpc =>
    cases h
    exact inv_goto (a := .back p) hI hpc rfl (.same rfl (by rw [hpc]; rfl)) (.inl rfl) rfl rfl rfl
      (.refl _) (by simp) rfl
  · next p hpc => cases h; exact inv_resume hI hpc
  · next p hpc =>
    cases h
    exact inv_goto (a := .run p .free) hI hpc rfl (.release (by rw [hpc]; rfl) rfl rfl) (.inl rfl) rfl rfl rfl
      (.refl _) (by simp) rfl

omit [DecidableEq C] in
lemma inv_entry {p q : Slot} (hI : Inv s) (hq : s.child p = some q) (hr : e.state ≠ .running)
    (hpc : s'.pc = s.pc) (hl : s'.lock = s.lock) (hp : s'.proc = s.proc) (ht : s'.table = update s.table q e)
    (hch : ∀ {r x}, s'.child r = some x → (s'.table x).state = .embryo)
    (hk : ∀ {r r' x}, s'.child r = some x → s'.child r' = some x → r = r') : Inv s' := by
  have he := hI.child hq
  have hkeep : ∀ x, (s.table x).state ≠ .embryo → s'.table x = s.table x := fun x hx => by
    rw [ht,update_of_ne (by rintro rfl; exact hx he)]
  refine ⟨by rw [hl,hpc]; exact hI.lock,by rw [hp,hpc]; exact hI.proc,by rw [hpc]; exact hI.uniq,fun {d x} h h' => ?_,
    fun {x} h => ?_,fun {d x} h => ?_,hch,hk⟩
  · rw [hpc] at h h'
    have hx := hI.settled h h'
    rw [hkeep x (by rw [hx]; nofun)]
    exact hx
  · rw [hpc]
    by_cases hx : x = q
    · rw [hx,ht,update_self] at h
      exact (hr h).elim
    · rw [ht,update_of_ne hx] at h
      exact hI.running h
  · rw [hpc] at h
    have hx := hI.picked h
    rw [hkeep x (by rw [hx]; nofun)]
    exact hx

end

lemma inv_step {s s' : State C} {l : Label C} (hI : Inv s) (h : s.step l = some s') : Inv s' := by
  cases l with
  | next c => exact inv_next hI h
  | call c o =>
    simp only [step] at h
    split at h
    · next p hpc =>
      split_ifs at h with hl
      cases h
      exact inv_goto (a := .run p (.held o)) hI hpc rfl (.acquire hl.1 rfl rfl) (.inr hl.1) rfl rfl rfl
        (.refl _) (by simp) rfl
    · cases h
  | intr c ch =>
    simp only [step] at h
    split at h
    · next hpc =>
      split_ifs at h with hl
      cases h
      exact inv_goto (a := .intr ch) hI hpc rfl (.acquire hl rfl rfl) (.inr hl) rfl rfl rfl (.refl _) (by simp) rfl
    · cases h
  | giveUp c =>
    simp only [step] at h
    split at h
    · split at h
      · next p _ q hq =>
        cases h
        obtain ⟨hch,hk⟩ := kids_drop hI (e := {s.table q with state := .unused}) hq
        exact inv_entry hI hq (fun h => by cases h) rfl rfl rfl rfl hch hk
      · cases h
    · cases h
  | fork c d | clone c =>
    simp only [step] at h
    split at h
    · split at h
      · next p _ q hq =>
        cases h
        have he := hI.child hq
        refine inv_entry hI hq ?_ rfl rfl rfl rfl (fun {r x} hx => ?_) hI.kids
        · change (s.table q).state ≠ .running
          rw [he]
          nofun
        · have hx' := hI.child hx
          change (update s.table q _ x).state = _
          by_cases hxq : x = q
          · rw [hxq,update_self]
            exact he
          · rwa [update_of_ne hxq]
      · cases h
    · cases h

omit [DecidableEq C] in
lemma inv_initial : Inv (initial C) := by
  refine ⟨fun _ => ⟨nofun,nofun⟩,fun _ => rfl,nofun,nofun,fun {p} h => ?_,nofun,nofun,nofun⟩
  by_cases hp : p = Ptable.initproc <;> simp [initial,hp] at h

/-- In every state that any number of CPUs reach: when `ptable.lock` is free, a process is `RUNNING`
if and only if exactly one CPU has it as `c->proc`, and every `c->proc` is `RUNNING`; no two CPUs are on
one process; and no step of `wait` or `join` frees a kernel stack that a CPU executes on. -/
theorem scheduler_exclusive {s : State C} (h : (machine C).Reachable s) :
    (s.lock = none → (∀ p, (s.table p).state = .running ↔ ∃! c, s.proc c = some p) ∧
      ∀ c p, s.proc c = some p → (s.table p).state = .running) ∧
    (∀ c d p, (s.pc c).stack = some p → (s.pc d).stack = some p → c = d) ∧
    ∀ l z, s.frees l = some z → ∀ c, (s.pc c).stack ≠ some z := by
  have hI : Inv s := System.Reachable.invariant (I := Inv) (fun s (hs : s = initial C) => hs ▸ inv_initial)
    (fun _ _ _ hI hs => inv_step hI hs) h
  have hstack : ∀ {c p}, (s.pc c).stack = some p → (s.pc c).proc = some p := by
    intro c p hc
    cases hpc : s.pc c with
    | run q k => rw [hpc] at hc; exact hc
    | _ => rw [hpc] at hc; cases hc
  refine ⟨fun hl => ?_,fun c d p hc hd => hI.uniq (hstack hc) (hstack hd),fun l z hz c hc => ?_⟩
  · -- With the lock free every CPU that has a process is settled.
    have hset : ∀ {c p}, s.proc c = some p → (s.table p).state = .running := by
      intro c p hc
      rw [hI.proc] at hc
      refine hI.settled hc (settled_of_not_holds hc ?_)
      by_contra hh
      have := (hI.lock c).mpr (by simpa using hh)
      rw [hl] at this
      cases this
    refine ⟨fun p => ⟨fun hp => ?_,fun ⟨c,hc,_⟩ => hset hc⟩,fun c p hc => hset hc⟩
    obtain ⟨c,hc,-⟩ := hI.running hp
    refine ⟨c,(hI.proc c).trans hc,fun d hd => ?_⟩
    exact hI.uniq ((hI.proc d).symm.trans hd) hc
  · -- The caller of `wait` has the lock, so a CPU on the stack of `z` would have `z` running.
    have hzomb : (s.table z).state = .zombie ∧ ∃ d p o, s.pc d = .run p (.held o) := by
      cases l with
      | next d =>
        simp only [State.frees] at hz
        split at hz
        · next p hpc => exact ⟨zombieChild_zombie hz,d,p,_,hpc⟩
        · next p w hpc => exact ⟨zombieThread_zombie hz,d,p,_,hpc⟩
        · cases hz
      | _ => cases hz
    obtain ⟨hzs,d,p,o,hpc⟩ := hzomb
    have hrun : (s.table z).state = .running := by
      by_cases hcd : c = d
      · subst hcd
        rw [hpc] at hc
        cases hc
        exact hI.settled (c := c) (by rw [hpc]; rfl) (by rw [hpc]; rfl)
      · exact hI.other (c := d) (by rw [hpc]; rfl) hcd (hstack hc)
    rw [hrun] at hzs
    cases hzs

open scoped FixedRuns

/-- `init` forks on CPU 0, the child exits on CPU 1, and `init` is about to reap it. -/
def forkExitWait : List (Label (Fin 2)) :=
  System.schedule
    [(.next 0,6),(.call 0 .alloc,1),(.next 0,2),(.fork 0 1,1),(.call 0 .start,1),(.next 0,2),
     (.next 1,7),(.call 1 .exit,1),(.next 1,66),(.call 0 .wait,1)]

theorem scheduler_exclusive_at_reap : ∃ s : State (Fin 2), (machine (Fin 2)).Reachable s ∧
    s.frees (.next 0) = some 1 ∧ (s.table 0).state = .running ∧ ∀ c, (s.pc c).stack ≠ some 1 := by
  obtain ⟨s,hs,hf,hr⟩ := System.reachable_of_exec (M := machine (Fin 2)) forkExitWait
    (fun s => s.frees (.next 0) = some 1 ∧ (s.table 0).state = .running) rfl (by decide +kernel)
  exact ⟨s,hs,hf,hr,(scheduler_exclusive hs).2.2 _ _ hf⟩

end Xv6Threads.Sched
