import Xv6Threads.Foundations.Counting
import Xv6Threads.Missionaries.Program

/-! The inductive invariant of the missionaries program: who holds the mutex, and how the
waiting counts, the permits, the passengers under way and the passengers aboard add up. -/
namespace Xv6Threads.Missionaries
open Function Option State
variable {nm nc : ℕ}

/-- Statements executed between a lock and an unlock of `mu`. -/
def Pc.critical : Pc → Bool
  | .arrive | .announceArrival | .form _ _ | .unlock | .boardInc | .boardPrint | .boardTest
  | .boardUnlock _ | .resetBusy | .resetBoarded | .resetBoat | .rowUnlock => true
  | _ => false

section
variable {p : Passenger nm nc} {v v' : Vars nm nc} {c c' : Pc} {e : List (Event nm nc)}

lemma mutexLock_inv (h : mutexLock v p c = some (v',c',e)) :
    v.mu = none ∧ v' = {v with mu := some p} ∧ c' = c ∧ e = [] := by
  unfold mutexLock at h
  split_ifs at h with hm
  cases h
  exact ⟨hm,rfl,rfl,rfl⟩

/-- A passenger takes a permit, and nothing else. -/
lemma semWait_inv (h : act v p .semWait = some (v',c',e)) :
    ∃ a b, v' = {v with mpermit := a, cpermit := b} ∧ c' = .boardLock ∧ e = [.permit p] := by
  obtain ⟨w,hw,he⟩ := map_eq_some_iff.mp h
  cases he
  cases p <;> simp only [semWait] at hw <;> split_ifs at hw <;> cases hw <;> exact ⟨_,_,rfl,rfl,rfl⟩

variable (h : act v p c = some (v',c',e))
include h

lemma act_mutex : (v.mu = none ∧ c.critical = false ∧ v'.mu = some p ∧ c'.critical = true) ∨
    (c.critical = true ∧ v'.mu = none ∧ c'.critical = false) ∨ (v'.mu = v.mu ∧ c'.critical = c.critical) := by
  cases c with
  | unborn | done => cases h
  | lock | boardLock | rowLock =>
    obtain ⟨hm,rfl,rfl,rfl⟩ := mutexLock_inv h
    exact .inl ⟨hm,rfl,rfl,rfl⟩
  | arrive =>
    cases h
    cases p <;> exact .inr (.inr ⟨rfl,rfl⟩)
  | form k f =>
    right; right
    cases k <;> cases f <;> simp only [act,tryFormBoat,some.injEq] at h <;>
      (try split_ifs at h) <;> cases h <;> exact ⟨rfl,rfl⟩
  | semWait =>
    obtain ⟨a,b,rfl,rfl,rfl⟩ := semWait_inv h
    exact .inr (.inr ⟨rfl,rfl⟩)
  | unlock | rowUnlock => cases h; exact .inr (.inl ⟨rfl,rfl,rfl⟩)
  | boardUnlock last => cases h; cases last <;> exact .inr (.inl ⟨rfl,rfl,rfl⟩)
  | _ => cases h; exact .inr (.inr ⟨rfl,rfl⟩)

lemma act_born : c ≠ .unborn ∧ c' ≠ .unborn ∧ c ≠ .done := by
  cases c with
  | unborn | done => cases h
  | lock | boardLock | rowLock =>
    obtain ⟨-,rfl,rfl,rfl⟩ := mutexLock_inv h
    simp
  | form k f =>
    cases k <;> cases f <;> simp only [act,tryFormBoat,some.injEq] at h <;>
      (try split_ifs at h) <;> cases h <;> simp [Caller.ret]
  | semWait =>
    obtain ⟨-,-,-,rfl,rfl⟩ := semWait_inv h
    simp
  | boardUnlock last => cases h; cases last <;> simp
  | _ => cases h; simp

end

variable {p : Passenger nm nc} {s t : State nm nc}

lemma advance_inv (h : s.advance p = some t) : ∃ v' c' e, act s.vars p (s.pc p) = some (v',c',e) ∧
      t = {s with vars := v', pc := update s.pc p c', hist := e++s.hist} := by
  obtain ⟨⟨v',c',e⟩,hr,rfl⟩ := map_eq_some_iff.mp h
  exact ⟨v',c',e,hr,rfl⟩

/-- How far `main` has come: who exists, and who has been joined. -/
def MainAt (s : State nm nc) : Prop :=
  match s.main with
  | .createC i => (∀ j, s.pc (.inl j) = .unborn ↔ i ≤ j.val) ∧
      ∀ j, s.pc (.inr j) = .unborn ↔ i ≤ j.val
  | .createM i => (∀ j, s.pc (.inl j) = .unborn ↔ i ≤ j.val) ∧
      ∀ j, s.pc (.inr j) = .unborn ↔ i < j.val
  | _ => ∀ p, s.pc p ≠ .unborn

lemma mainStep_inv (hm : MainAt s) (h : s.mainStep = some t) :
    t.vars = s.vars ∧ ((∃ p, s.pc p = .unborn ∧ t.pc = update s.pc p .lock) ∨ t.pc = s.pc) ∧
      (t.hist = s.hist ∨ t.hist = .passed :: s.hist) := by
  cases hpc : s.main with
  | createC i =>
    simp only [MainAt,hpc] at hm
    simp only [mainStep,hpc] at h
    split_ifs at h with h1 h2 <;> cases h
    · exact ⟨rfl,.inl ⟨.inr ⟨i,h2⟩,(hm.2 ⟨i,h2⟩).mpr le_rfl,rfl⟩,.inl rfl⟩
    · exact ⟨rfl,.inr rfl,.inl rfl⟩
    · exact ⟨rfl,.inr rfl,.inl rfl⟩
  | createM i =>
    simp only [MainAt,hpc] at hm
    simp only [mainStep,hpc] at h
    split_ifs at h with h1 <;> cases h
    · exact ⟨rfl,.inl ⟨.inl ⟨i,h1⟩,(hm.1 ⟨i,h1⟩).mpr le_rfl,rfl⟩,.inl rfl⟩
    · exact ⟨rfl,.inr rfl,.inl rfl⟩
  | joinM i | joinC i =>
    simp only [mainStep,hpc] at h
    split_ifs at h <;> cases h <;> exact ⟨rfl,.inr rfl,.inl rfl⟩
  | pass =>
    simp only [mainStep,hpc] at h
    cases h
    exact ⟨rfl,.inr rfl,.inr rfl⟩
  | exited => simp [mainStep,hpc] at h

lemma mainAt_create (hm : MainAt s) (h : s.mainStep = some t) : MainAt t := by
  cases hpc : s.main with
  | createC i =>
    simp only [MainAt,hpc] at hm
    simp only [mainStep,hpc] at h
    split_ifs at h with h1 h2 <;> cases h <;> simp only [MainAt,create]
    · refine ⟨fun j => by simpa using hm.1 j,fun j => ?_⟩
      by_cases hj : j = ⟨i,h2⟩
      · subst hj; simp
      · have hne : j.val ≠ i := fun he => hj (Fin.ext he)
        rw [update_of_ne (by simpa using hj),hm.2 j]
        omega
    · refine ⟨hm.1,fun j => ?_⟩
      have := j.isLt
      rw [hm.2 j]
      omega
    · rintro (j | j) <;> have := j.isLt
      · rw [ne_eq,hm.1 j]; omega
      · rw [ne_eq,hm.2 j]; omega
  | createM i =>
    simp only [MainAt,hpc] at hm
    simp only [mainStep,hpc] at h
    split_ifs at h with h1 <;> cases h <;> simp only [MainAt,create]
    · refine ⟨fun j => ?_,fun j => by simpa [Nat.add_one_le_iff] using hm.2 j⟩
      by_cases hj : j = ⟨i,h1⟩
      · subst hj; simp
      · have hne : j.val ≠ i := fun he => hj (Fin.ext he)
        rw [update_of_ne (by simpa using hj),hm.1 j]
        omega
    · refine ⟨fun j => ?_,hm.2⟩
      have := j.isLt
      rw [hm.1 j]
      omega
  | joinM i | joinC i =>
    simp only [MainAt,hpc] at hm
    simp only [mainStep,hpc] at h
    split_ifs at h <;> cases h <;> exact hm
  | pass =>
    simp only [MainAt,hpc] at hm
    simp only [mainStep,hpc] at h
    cases h
    exact hm
  | exited => simp [mainStep,hpc] at h

lemma mainAt_step {l : Label nm nc} (hm : MainAt s) (h : s.step l = some t) : MainAt t := by
  cases l with
  | none => exact mainAt_create hm h
  | some p =>
    obtain ⟨v',c',e,ha,rfl⟩ := advance_inv h
    obtain ⟨hc,hc',-⟩ := act_born ha
    have hb : ∀ q, update s.pc p c' q = .unborn ↔ s.pc q = .unborn := by
      intro q
      by_cases hq : q = p
      · subst hq; simp [hc,hc']
      · simp [hq]
    unfold MainAt at hm ⊢
    simpa only [ne_eq,hb] using hm

/-- The mutex is held by the passenger that is inside a critical section, if any is. -/
def MutexAt (s : State nm nc) : Prop := ∀ p, s.vars.mu = some p ↔ (s.pc p).critical = true

lemma mutexAt_step {l : Label nm nc} (hm : MainAt s) (hx : MutexAt s) (h : s.step l = some t) : MutexAt t := by
  cases l with
  | none =>
    obtain ⟨hv,⟨p,hp,hpc⟩ | hpc,-⟩ := mainStep_inv hm h
    · intro q
      rw [hv,hpc,hx q]
      by_cases hq : q = p
      · subst hq; simp [hp,Pc.critical]
      · simp [hq]
    · intro q; rw [hv,hpc]; exact hx q
  | some p =>
    obtain ⟨v',c',e,ha,rfl⟩ := advance_inv h
    intro q
    have hq := hx q
    have hp := hx p
    by_cases hqp : q = p
    · subst hqp
      simp only [update_self]
      rcases act_mutex ha with ⟨-,-,h3,h4⟩ | ⟨-,h2,h3⟩ | ⟨h1,h2⟩
      · simp [h3,h4]
      · simp [h2,h3]
      · rw [h1,h2]; exact hq
    · simp only [update_of_ne hqp,← hq]
      rcases act_mutex ha with ⟨h1,-,h3,-⟩ | ⟨h1,h2,-⟩ | ⟨h1,-⟩
      · simp [h1,h3,Ne.symm hqp]
      · simp [hp.mpr h1,h2,Ne.symm hqp]
      · rw [h1]

/-- The statement that the holder of the mutex is at. -/
def State.ctl (s : State nm nc) : Option Pc := s.vars.mu.map s.pc

lemma ctl_of_critical {s : State nm nc} (hx : MutexAt s) (hp : (s.pc p).critical = true) : s.ctl = some (s.pc p) := by
  simp [ctl,(hx p).mpr hp]

lemma map_update_of_not_critical {s : State nm nc} (hx : MutexAt s) (hp : (s.pc p).critical = false) (c' : Pc) :
    s.vars.mu.map (update s.pc p c') = s.ctl := by
  unfold ctl
  cases hmu : s.vars.mu with
  | none => rfl
  | some q =>
    have hq := (hx q).mp hmu
    have hne : q ≠ p := by rintro rfl; simp [hp] at hq
    simp [update_of_ne hne]

lemma ctl_main (hm : MainAt s) (hx : MutexAt s) (h : s.mainStep = some t) : t.ctl = s.ctl := by
  obtain ⟨hv,⟨p,hp,hpc⟩ | hpc,-⟩ := mainStep_inv hm h
  · rw [ctl,hv,hpc]
    exact map_update_of_not_critical hx (by rw [hp]; rfl) _
  · rw [ctl,ctl,hv,hpc]

end Xv6Threads.Missionaries
