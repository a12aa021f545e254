import Xv6Threads.Missionaries.Progress

/-! The states in which no thread can go on. Everybody has then crossed, unless a boat of three
missionaries and a mixed boat have both left: then one missionary and two cannibals wait for
ever. -/
namespace Xv6Threads.Missionaries
open Function List Option Event State
variable {nm nc : ℕ} {p : Passenger nm nc} {e : List (Event nm nc)}

lemma act_boatno {v v' : Vars nm nc} {k : Option Pc} {n : Tally} {c c' : Pc} (hA : Acct k v n) (hk : c.critical = true → k = some c)
    (h : act v p c = some (v',c',e)) : v'.boatno = v.boatno ∨ (n.aboardM = 0 ∧ n.aboardC = 0) := by
  cases c with
  | unborn | done => cases h
  | lock | boardLock | rowLock =>
    obtain ⟨-,rfl,rfl,rfl⟩ := mutexLock_inv h
    exact .inl rfl
  | arrive => cases h; cases p <;> exact .inl rfl
  | semWait =>
    obtain ⟨a,b,rfl,rfl,rfl⟩ := semWait_inv h
    exact .inl rfl
  | form q f =>
    cases f with
    | incNo =>
      rw [hk rfl] at hA
      obtain ⟨-,-,h3,h4,-⟩ := hA.out (.inl hA.here)
      simp only [dueM,dueC,pendM,pendC] at h3 h4
      right
      omega
    | _ =>
      left
      simp only [act,tryFormBoat,some.injEq] at h
      (try split_ifs at h) <;> cases h <;> rfl
  | _ => cases h; exact .inl rfl

lemma act_rower {v v' : Vars nm nc} {c c' : Pc}
    (h : act v p c = some (v',c',e)) (hc' : c' = .rowLock ∨ c' = .resetBusy) :
    c = .rowLock ∨ ∃ b, c = .row b ∧ e = [.rowed p b] := by
  cases c with
  | unborn | done => cases h
  | rowLock => exact .inl rfl
  | row b => cases h; exact .inr ⟨b,rfl,rfl⟩
  | lock | boardLock =>
    obtain ⟨-,rfl,rfl,rfl⟩ := mutexLock_inv h
    simp at hc'
  | form k f =>
    cases k <;> cases f <;> simp only [act,tryFormBoat,some.injEq] at h <;>
      (try split_ifs at h) <;> cases h <;> simp [Caller.ret] at hc'
  | semWait =>
    obtain ⟨-,-,-,rfl,rfl⟩ := semWait_inv h
    simp at hc'
  | boardUnlock last => cases h; cases last <;> simp at hc'
  | _ => cases h; simp at hc'

/-- Everybody who has boarded is on the boat that is out, or on one that has been rowed. -/
structure RowedAt (s : State nm nc) : Prop where
  boarded : ∀ q no, Event.boarded q no ∈ s.hist → (∃ p b, Event.rowed p b ∈ s.hist ∧ b.no = no) ∨
    (q ∈ aboard s.hist ∧ no = s.vars.boatno ∧ Out s.ctl s.vars)
  rower : ∀ q, s.pc q = .rowLock ∨ s.pc q = .resetBusy →
    ∃ p b, Event.rowed p b ∈ s.hist ∧ b.no = s.vars.boatno
  passed : s.main = .exited → Event.passed ∈ s.hist

variable {s t : State nm nc}

lemma aboard_eq_nil (hM : s.tally.aboardM = 0) (hC : s.tally.aboardC = 0) : aboard s.hist = [] := by
  have hlen : (aboard s.hist).length = s.tally.aboardM+s.tally.aboardC := by
    rw [length_eq_countP_add_countP isM]
    simp [tally]
  exact length_eq_zero_iff.mp (by omega)

lemma mainStep_exited (h : s.mainStep = some t) (ht : t.main = .exited) : t.hist = .passed :: s.hist := by
  cases hpc : s.main with
  | pass => simp only [mainStep,hpc] at h; cases h; rfl
  | exited => simp [mainStep,hpc] at h
  | _ =>
    simp only [mainStep,hpc] at h
    split_ifs at h <;> cases h <;> simp at ht

lemma rowedAt_main (hI : Inv s) (hR : RowedAt s) (h : s.mainStep = some t) : RowedAt t := by
  obtain ⟨hv,hpc,hh⟩ := mainStep_inv hI.main h
  have hctl := ctl_main hI.main hI.mutex h
  have hmem : ∀ e, e ≠ passed → (e ∈ t.hist ↔ e ∈ s.hist) := by
    intro e he
    rcases hh with hh | hh <;> rw [hh]
    simp [he]
  have hab : aboard t.hist = aboard s.hist := by
    rcases hh with hh | hh <;> rw [hh]
    rfl
  have hrow : ∀ no, (∃ p b, rowed p b ∈ t.hist ∧ b.no = no) ↔ ∃ p b, rowed p b ∈ s.hist ∧ b.no = no := by
    intro no
    simp only [hmem (.rowed _ _) (by simp)]
  refine ⟨fun q no hq => ?_,fun q hq => ?_,fun ht => ?_⟩
  · rw [hrow,hab,hv,hctl]
    exact hR.boarded q no ((hmem _ (by simp)).mp hq)
  · rw [hrow,hv]
    apply hR.rower q
    rcases hpc with ⟨p,hp,hpc⟩ | hpc
    · rw [hpc] at hq
      by_cases hqp : q = p
      · subst hqp; simp at hq
      · rwa [update_of_ne hqp] at hq
    · rwa [hpc] at hq
  · rw [mainStep_exited h ht]
    exact mem_cons_self

lemma rowedAt_advance (hI : Inv s) (hB : RowAt s) (hR : RowedAt s) (h : s.advance p = some t) : RowedAt t := by
  obtain ⟨v',c',e,ha,rfl⟩ := advance_inv h
  have hk : (s.pc p).critical = true → s.ctl = some (s.pc p) := fun hc => ctl_of_critical hI.mutex hc
  have hctl := ctl_advance hI.mutex ha
  have hkeep : ∀ no, (∃ q b, rowed q b ∈ s.hist ∧ b.no = no) → ∃ q b, rowed q b ∈ e++s.hist ∧ b.no = no := by
    rintro no ⟨q,b,hb,hno⟩
    exact ⟨q,b,mem_append_right _ hb,hno⟩
  -- A rower is counted, so the number of its boat stays.
  have hrow : ∀ q, (s.pc q).rowing = 1 → v'.boatno = s.vars.boatno := by
    intro q hq
    rcases act_boat hI.acct hk ha with ⟨-,-,h3⟩ | h0
    · exact h3
    · have := rowing_eq_zero h0 q
      omega
  refine ⟨fun q no hq => ?_,fun q hq => ?_,fun hm => mem_append_right _ (hR.passed hm)⟩
  · rw [mem_append] at hq
    rcases act_events ha with ⟨rfl,-,-⟩ | ⟨k,m,d,bn,hc,rfl,rfl⟩ | ⟨hc,rfl,rfl⟩ | ⟨hc,rfl,rfl⟩ |
      ⟨b,hc,rfl,rfl⟩
    · rcases hR.boarded q no (hq.resolve_left (by simp)) with hr | ⟨hq,hno,ho⟩
      · exact .inl (hkeep no hr)
      rcases act_out hI.acct hk (fun hm => by simp [ctl,hm]) (tally_pos s p).2.2.2.2 ha with
        ⟨hiff,-⟩ | ⟨hc,-⟩
      · right
        rw [hctl]
        refine ⟨hq,?_,hiff.mpr ho⟩
        rcases act_boatno hI.acct hk ha with hn | ⟨hM,hC⟩
        · exact hno.trans hn.symm
        · rw [aboard_eq_nil hM hC] at hq
          simp at hq
      · exact .inl (hkeep no (hno ▸ hR.rower p (.inr hc)))
    · -- No boat is out when one is selected.
      rcases hR.boarded q no (hq.resolve_left (by simp)) with hr | ⟨-,-,ho⟩
      · exact .inl (hkeep no hr)
      · exact (hI.home_of_choose hc ho).elim
    · rcases hR.boarded q no (hq.resolve_left (by simp)) with hr | ⟨hab,hno,ho⟩
      · exact .inl (hkeep no hr)
      right
      rw [hctl,hc]
      rw [hc] at ha
      obtain ⟨a,b,rfl,-,-⟩ := semWait_inv ha
      exact ⟨hab,hno,ho⟩
    · have hb := hI.busy_of_boardInc hc
      rw [hc] at ha
      cases ha
      rcases hq with hq | hq
      · simp only [mem_singleton,boarded.injEq] at hq
        obtain ⟨rfl,rfl⟩ := hq
        exact .inr ⟨mem_cons_self,rfl,.inl hb⟩
      · exact (hR.boarded q no hq).imp (hkeep no)
          (fun h => ⟨mem_cons_of_mem _ h.1,h.2.1,.inl hb⟩)
    · rcases hR.boarded q no (hq.resolve_left (by simp)) with hr | ⟨hq,hno,ho⟩
      · exact .inl (hkeep no hr)
      right
      rw [hctl,hc]
      rw [hc] at ha
      cases ha
      exact ⟨hq,hno,ho⟩
  · by_cases hqp : q = p
    · subst hqp
      simp only [update_self] at hq
      rcases act_rower ha hq with hc | ⟨b,hc,rfl⟩
      · exact hrow q (by rw [hc]; rfl) ▸ hkeep _ (hR.rower q (.inl hc))
      · refine ⟨q,b,mem_append_left _ mem_cons_self,?_⟩
        rw [hrow q (by rw [hc]; rfl),hB q b (.inr hc)]
    · simp only [update_of_ne hqp] at hq
      have hn := hrow q (by rcases hq with hq | hq <;> rw [hq] <;> rfl)
      exact hn ▸ hkeep _ (hR.rower q hq)

lemma reachable_rowedAt (h : (program nm nc).Reachable s) : RowedAt s :=
  System.ReachWhile.invariant_on (J := fun s => Inv s ∧ RowAt s) (I := RowedAt)
    (fun _ hs => ⟨reachable_inv hs,reachable_rowAt hs⟩)
    (fun s (hs : s = initial nm nc) => by subst hs; constructor <;> simp [initial])
    (fun s l t hJ hR _ hs => by
      cases l with
      | none => exact rowedAt_main hJ.1 hR hs
      | some p => exact rowedAt_advance hJ.1 hJ.2 hR hs) h

lemma act_critical (v : Vars nm nc) (p : Passenger nm nc) {c : Pc} (hc : c.critical = true) : act v p c ≠ none := by
  cases c <;> simp_all [Pc.critical,act]

lemma act_blocked {v : Vars nm nc} {c : Pc} (hmu : v.mu = none)
    (h : act v p c = none) : c = .unborn ∨ c = .done ∨ (c = .semWait ∧ semWait v p = none) := by
  cases c <;> simp_all [act,mutexLock]

/-- A stuck state: everybody is across or waits, the boat is in, and no boat can be formed. -/
structure Rest (s : State nm nc) : Prop where
  ashoreOrDone : ∀ p, s.pc p = .semWait ∨ s.pc p = .done
  home : ¬ Out s.ctl s.vars
  waitingM : (s.tally.ashoreM : ℤ) = s.vars.waitingM
  waitingC : (s.tally.ashoreC : ℤ) = s.vars.waitingC
  unformable : ¬ Formable s.vars

lemma stuck_main (h : s.mainStep = none) :
    (∃ p, s.pc p ≠ .done ∧ ((∃ i, s.main = .joinM i) ∨ ∃ i, s.main = .joinC i)) ∨ s.main = .exited := by
  cases hpc : s.main with
  | exited => exact .inr rfl
  | pass => simp [mainStep,hpc] at h
  | joinM i =>
    simp only [mainStep,hpc] at h
    split_ifs at h with h1 h2
    exact .inl ⟨_,h2,.inl ⟨i,rfl⟩⟩
  | joinC i =>
    simp only [mainStep,hpc] at h
    split_ifs at h with h1 h2
    exact .inl ⟨_,h2,.inr ⟨i,rfl⟩⟩
  | _ =>
    simp only [mainStep,hpc] at h
    split_ifs at h

lemma permit_taken (hpc : ∀ p, s.pc p = .semWait ∨ s.pc p = .done)
    (hblk : ∀ p, s.pc p = .semWait → semWait s.vars p = none) :
    (0 < s.tally.ashoreM → s.vars.mpermit = 0) ∧ (0 < s.tally.ashoreC → s.vars.cpermit = 0) := by
  have hwait : ∀ p, (s.pc p).ashore ≠ 0 → s.pc p = .semWait := by
    intro p hp
    exact (hpc p).resolve_right (fun hd => by simp [hd,Pc.ashore] at hp)
  constructor <;> intro hpos
  · obtain ⟨p,hp⟩ := exists_of_total_pos (w := onM Pc.ashore) (f := s.pc) hpos
    cases p with
    | inl i => simpa [semWait] using hblk _ (hwait _ hp.ne')
    | inr i => simp [onM] at hp
  · obtain ⟨p,hp⟩ := exists_of_total_pos (w := onC Pc.ashore) (f := s.pc) hpos
    cases p with
    | inl i => simp [onC] at hp
    | inr i => simpa [semWait] using hblk _ (hwait _ hp.ne')

lemma rest_of_stuck (hs : (program nm nc).Reachable s) (hst : (program nm nc).Stuck s) : Rest s := by
  have hI := reachable_inv hs
  have hact : ∀ p, act s.vars p (s.pc p) = none := fun p => map_eq_none_iff.mp (hst (some p))
  have hmu : s.vars.mu = none := by
    cases hmu : s.vars.mu with
    | none => rfl
    | some p => exact (act_critical s.vars p ((hI.mutex p).mp hmu) (hact p)).elim
  have hborn : ∀ p, s.pc p ≠ .unborn := by
    have hm := hI.main
    rcases stuck_main (hst none) with ⟨p,-,⟨i,hi⟩ | ⟨i,hi⟩⟩ | hi <;> simpa only [MainAt,hi] using hm
  have hblk : ∀ p, s.pc p = .done ∨ (s.pc p = .semWait ∧ semWait s.vars p = none) :=
    fun p => (act_blocked hmu (hact p)).resolve_left (hborn p)
  have hpc : ∀ p, s.pc p = .semWait ∨ s.pc p = .done := fun p => (hblk p).symm.imp_left And.left
  have hctl : s.ctl = none := by simp [ctl,hmu]
  have hnone : ∀ w : Passenger nm nc → Pc → ℕ, (∀ q, w q .semWait = 0 ∧ w q .done = 0) → total w s.pc = 0 := by
    intro w hw
    refine total_eq_zero (fun q => ?_)
    rcases hpc q with h | h <;> rw [h]
    · exact (hw q).1
    · exact (hw q).2
  have hM : s.tally.underwayM = 0 := hnone _ (fun q => by cases q <;> exact ⟨rfl,rfl⟩)
  have hC : s.tally.underwayC = 0 := hnone _ (fun q => by cases q <;> exact ⟨rfl,rfl⟩)
  have hr : s.tally.rowing = 0 := hnone (fun _ => Pc.rowing) (fun _ => ⟨rfl,rfl⟩)
  have hA := hI.acct
  unfold AcctAt at hA
  have haM := hA.ashoreM
  have haC := hA.ashoreC
  have h0M := hA.waitingM
  have h0C := hA.waitingC
  rw [hctl] at haM haC
  simp only [pendM,pendC,add_zero] at haM haC
  obtain ⟨hpM,hpC⟩ := permit_taken hpc (fun p hp => ((hblk p).resolve_left (by simp [hp])).2)
  have hhome : ¬ Out s.ctl s.vars := by
    intro ho
    obtain ⟨hl,hb,h3,h4,h5⟩ := hA.out ho
    rw [hctl] at h3 h4 h5
    rw [hr] at h5
    simp only [dueM,dueC,pendM,pendC,testing,and_true] at h3 h4 h5
    have := hl.bounds
    split_ifs at h5 with h6
    omega
  obtain ⟨h1,h2,-⟩ := hA.home hhome
  refine ⟨hpc,hhome,by omega,by omega,?_⟩
  have hb : s.vars.boatBusy = 0 := hA.busy.resolve_right (fun hb => hhome (.inl hb))
  exact reachable_settledAt hs (by rw [hctl]; rfl) hb

lemma rest_count (hr : ∀ p, s.pc p = .semWait ∨ s.pc p = .done) :
    s.tally.ashoreM+total (onM Pc.seat) s.pc = nm ∧ s.tally.ashoreC+total (onC Pc.seat) s.pc = nc := by
  have hone : ∀ p, (s.pc p).ashore+(s.pc p).seat = 1 := by
    intro p
    rcases hr p with h | h <;> rw [h] <;> rfl
  constructor <;> simp only [tally,total] <;> rw [← Finset.sum_add_distrib] <;> simp [Fintype.sum_sum_type,onM,onC,hone]

/-- Everybody has boarded a boat that was rowed, and `main` has printed its last line. -/
structure Crossed (s : State nm nc) : Prop where
  across : ∀ q, s.pc q = .done
  rowed : ∀ q, ∃ no p b, Event.boarded q no ∈ s.hist ∧ Event.rowed p b ∈ s.hist ∧ b.no = no
  main : s.main = .exited
  passed : Event.passed ∈ s.hist

lemma mem_boardings {q : Passenger nm nc} {h : List (Event nm nc)} (hq : q ∈ boardings h) : ∃ no, boarded q no ∈ h := by
  induction h with
  | nil => simp [boardings] at hq
  | cons a h ih =>
    cases a with
    | boarded p no =>
      rcases mem_cons.mp hq with rfl | hq
      · exact ⟨no,mem_cons_self⟩
      · exact (ih hq).imp (fun _ => mem_cons_of_mem _)
    | _ => exact (ih hq).imp (fun _ => mem_cons_of_mem _)

lemma crossed_of_done (hs : (program nm nc).Reachable s)
    (hst : (program nm nc).Stuck s) (hd : ∀ q, s.pc q = .done) : Crossed s := by
  have hmain : s.main = .exited := (stuck_main (hst none)).resolve_left (fun ⟨p,hp,_⟩ => hp (hd p))
  have hR := reachable_rowedAt hs
  refine ⟨hd,fun q => ?_,hmain,hR.passed hmain⟩
  obtain ⟨no,hno⟩ := mem_boardings (((reachable_histAt hs).boardIff q).mpr (by rw [hd q]; rfl))
  rcases hR.boarded q no hno with ⟨p,b,hb,he⟩ | ⟨-,-,ho⟩
  · exact ⟨no,p,b,hno,hb,he⟩
  · exact ((rest_of_stuck hs hst).home ho).elim

/-- The loads chosen so far leave a way to carry everybody: a mixed boat is chosen only if no
boat of three missionaries has been, and the other way round. -/
def compatible (s : State nm nc) : Label nm nc → Bool
  | none => true
  | some p =>
    match s.pc p with
    | .form _ .choose =>
      if s.vars.waitingM ≥ 2 ∧ s.vars.waitingC ≥ 1 then boats 3 0 s.hist == 0
      else if s.vars.waitingM ≥ 3 then boats 2 1 s.hist == 0
      else true
    | _ => true

lemma compatible_step {l : Label nm nc} (hm : MainAt s)
    (hb : boats 2 1 s.hist = 0 ∨ boats 3 0 s.hist = 0) (hc : compatible s l = true)
    (h : s.step l = some t) : boats 2 1 t.hist = 0 ∨ boats 3 0 t.hist = 0 := by
  cases l with
  | none =>
    obtain ⟨-,-,hh⟩ := mainStep_inv hm h
    rcases hh with hh | hh <;> rw [hh] <;> exact hb
  | some p =>
    obtain ⟨v',c',e,ha,rfl⟩ := advance_inv h
    rcases act_events ha with ⟨rfl,-,-⟩ | ⟨k,m,d,no,hp,rfl,rfl⟩ | ⟨-,-,rfl⟩ | ⟨-,-,rfl⟩ | ⟨b,-,-,rfl⟩
    · exact hb
    · simp only [compatible,hp] at hc
      rw [hp] at ha
      simp only [act,tryFormBoat,some.injEq] at ha
      split_ifs at ha hc with h1 h2 h3 <;> simp only [Prod.mk.injEq,List.cons.injEq,
        selected.injEq,reduceCtorEq,and_true,and_false] at ha <;> obtain ⟨-,-,rfl,rfl,-⟩ := ha
      · right; simpa [boats] using hc
      · left; simpa [boats] using hc
      · simpa [boats] using hb
    · exact hb
    · exact hb
    · exact hb

lemma stuck_count (hs : (program nm nc).Reachable s) (hst : (program nm nc).Stuck s) :
    s.tally.ashoreM+2*boats 2 1 s.hist+3*boats 3 0 s.hist = nm ∧
    s.tally.ashoreC+boats 2 1 s.hist+3*boats 0 3 s.hist = nc := by
  have hr := rest_of_stuck hs hst
  have hc := rest_count hr.ashoreOrDone
  have hb := (reachable_boatsAt hs).home hr.home
  omega

/-- With six of each kind: a run that never selects both a boat of three missionaries and a
mixed boat gets stuck only when everybody has crossed, and one that selects both never gets
everybody across. -/
theorem stuck_crossed (s : State 6 6) (hst : (program 6 6).Stuck s) :
    ((program 6 6).ReachWhile (fun s l => compatible s l = true) s → Crossed s) ∧
    ((program 6 6).Reachable s → 0 < boats 3 0 s.hist → 0 < boats 2 1 s.hist → ¬ Crossed s) := by
  refine ⟨fun hs => ?_,fun hs h3 h2 hx => ?_⟩
  · have hR := hs.reachable
    have hr := rest_of_stuck hR hst
    have hb : boats 2 1 s.hist = 0 ∨ boats 3 0 s.hist = 0 :=
      System.ReachWhile.invariant_on (J := MainAt)
        (I := fun s : State 6 6 => boats 2 1 s.hist = 0 ∨ boats 3 0 s.hist = 0)
        (fun _ hs => (reachable_inv hs.reachable).main)
        (fun s (hs : s = initial 6 6) => by subst hs; exact .inl rfl)
        (fun _ _ _ hm hb hc h => compatible_step hm hb hc h) hs
    have hc := stuck_count hR hst
    have hz : s.tally.ashoreM = 0 ∧ s.tally.ashoreC = 0 := by
      have hu := hr.unformable
      have hM := hr.waitingM
      have hC := hr.waitingC
      unfold Formable at hu
      omega
    refine crossed_of_done hR hst (fun q => (hr.ashoreOrDone q).resolve_left (fun hq => ?_))
    have := tally_pos s q
    rw [hq] at this
    cases q <;> simp only [onM,onC,Pc.ashore] at this <;> omega
  · have hc := stuck_count hs hst
    have hz : s.tally.ashoreM = 0 := by
      refine total_eq_zero (w := onM Pc.ashore) (fun q => ?_)
      rw [hx.across q]
      cases q <;> rfl
    omega

/-- Three mixed boats and one of three cannibals carry everybody. -/
theorem stuck_crossed_mixed : ∃ s, (program 6 6).ReachWhile (fun s l => compatible s l = true) s ∧
    (program 6 6).Stuck s ∧ Crossed s := by
  obtain ⟨s,hs,hst⟩ := System.reachWhile_of_exec (M := program 6 6)
    compatible (fun _ _ h => h)
    (System.schedule [(none,13),(some (.inl 0),7),(some (.inl 1),7),(some (.inr 0),24),(some (.inl 0),6),
      (some (.inl 1),15),(some (.inl 2),7),(some (.inl 3),7),(some (.inr 1),24),(some (.inl 2),6),
      (some (.inl 3),15),(some (.inl 4),7),(some (.inl 5),7),(some (.inr 2),24),(some (.inl 4),6),
      (some (.inl 5),15),(some (.inr 3),7),(some (.inr 4),7),(some (.inr 5),24),(some (.inr 3),6),
      (some (.inr 4),15),(none,15)])
    (fun s => ∀ l, s.step l = none) rfl (by decide +kernel)
  exact ⟨s,hs,hst,(stuck_crossed s hst).1 hs⟩

/-- The arrival order MMM, CCC, MMC, then M, C and C: the last three wait for ever. -/
theorem greedy_choice_strands_three : ∃ s, (program 6 6).Reachable s ∧ (program 6 6).Stuck s ∧
    s.pc (.inl 5) = .semWait ∧ s.pc (.inr 4) = .semWait ∧ s.pc (.inr 5) = .semWait ∧
    s.main = .joinM 5 ∧ ¬ Crossed s := by
  obtain ⟨s,hs,hst,h1,h2,h3,h4⟩ := System.reachable_of_exec (M := program 6 6)
    (System.schedule [(none,13),(some (.inl 0),7),(some (.inl 1),7),(some (.inl 2),24),(some (.inl 0),6),
      (some (.inl 1),15),(some (.inr 0),7),(some (.inr 1),7),(some (.inr 2),24),(some (.inr 0),6),
      (some (.inr 1),15),(some (.inl 3),7),(some (.inl 4),7),(some (.inr 3),24),(some (.inl 3),6),
      (some (.inl 4),15),(some (.inl 5),7),(some (.inr 4),7),(some (.inr 5),7),(none,5)])
    (fun s => (∀ l, s.step l = none) ∧ s.pc (.inl 5) = .semWait ∧ s.pc (.inr 4) = .semWait ∧
      s.pc (.inr 5) = .semWait ∧ s.main = .joinM 5) rfl (by decide +kernel)
  refine ⟨s,hs,hst,h1,h2,h3,h4,fun hx => ?_⟩
  have := hx.across (.inl 5)
  rw [h1] at this
  cases this

variable {s t : State nm nc}

/-- The statements of `try_form_boat` that are still to come, if no boat has more than three seats. -/
def FormPc.rank : FormPc → ℕ
  | .testBusy => 17 | .clear => 16 | .choose => 15 | .subM => 14 | .subC => 13 | .setBusy => 12
  | .zeroBoarded => 11 | .incNo => 10 | .announce => 9 | .postM i => 3-i+5 | .postC i => 3-i+1

/-- The statements that are still to come for a passenger who rows. -/
def Pc.rank : Pc → ℕ
  | .unborn | .lock => 50 | .arrive => 49 | .announceArrival => 48 | .form .arrive f => f.rank+30
  | .unlock => 30 | .semWait => 29 | .boardLock => 28 | .boardInc => 27 | .boardPrint => 26 | .boardTest => 25
  | .boardUnlock _ => 24 | .row _ => 23 | .rowLock => 22 | .resetBusy => 21 | .resetBoarded => 20
  | .resetBoat => 19 | .form .row f => f.rank+1 | .rowUnlock => 1 | .done => 0

/-- The statements that are still to come for `main` with `n` passengers. -/
def MainPc.rank (n : ℕ) : MainPc → ℕ
  | .createC i => 2*(n-i)+2*n+4
  | .createM i => 2*(n-i-1)+1+2*n+4
  | .joinM i => n-i+n+3
  | .joinC i => n-i+2
  | .pass => 1 | .exited => 0

lemma act_rank {k : Option Pc} {v v' : Vars nm nc} {n : Tally} {c c' : Pc} (hA : Acct k v n)
    (hk : c.critical = true → k = some c) (h : act v p c = some (v',c',e)) : c'.rank < c.rank := by
  cases c with
  | unborn | done => cases h
  | lock | boardLock | rowLock =>
    obtain ⟨-,rfl,rfl,rfl⟩ := mutexLock_inv h
    simp [Pc.rank]
  | semWait =>
    obtain ⟨-,-,-,rfl,rfl⟩ := semWait_inv h
    simp [Pc.rank]
  | boardUnlock last => cases h; cases last <;> simp [Pc.rank]
  | form q f =>
    rw [hk rfl] at hA
    cases f with
    | postM i | postC i =>
      have := (hA.out (.inl hA.here.1)).1.bounds
      cases q <;> simp only [act,tryFormBoat,some.injEq] at h <;> split_ifs at h <;> cases h <;>
        simp only [Caller.ret,Pc.rank,FormPc.rank] <;> omega
    | _ =>
      cases q <;> simp only [act,tryFormBoat,some.injEq] at h <;> (try split_ifs at h) <;> cases h <;>
        simp [Caller.ret,Pc.rank,FormPc.rank]
  | _ => cases h; simp [Pc.rank,FormPc.rank]

def State.rank (s : State nm nc) : ℕ := total (fun _ => Pc.rank) s.pc+s.main.rank (nm+nc)

lemma rank_main (hm : MainAt s) (h : s.mainStep = some t) : t.rank < s.rank := by
  have hpc : total (fun _ => Pc.rank) t.pc = total (fun _ => Pc.rank) s.pc := by
    obtain ⟨-,⟨q,hq,hpc⟩ | hpc,-⟩ := mainStep_inv hm h <;> rw [hpc]
    exact total_update_of_eq (by rw [hq]; rfl)
  rw [State.rank,State.rank,hpc,Nat.add_lt_add_iff_left]
  cases hpc : s.main <;> simp only [State.mainStep,hpc] at h <;> (try split_ifs at h) <;> cases h <;>
    simp only [MainPc.rank] <;> omega

lemma rank_step {l : Label nm nc} (hs : (program nm nc).Reachable s) (h : (program nm nc).step s l = some t) : t.rank < s.rank := by
  have hI := reachable_inv hs
  cases l with
  | none => exact rank_main hI.main h
  | some p =>
    obtain ⟨v',c',e,ha,rfl⟩ := advance_inv h
    have := act_rank hI.acct (ctl_of_critical hI.mutex) ha
    have := total_update (fun _ => Pc.rank) s.pc p c'
    simp only [State.rank]
    omega

/-- Every run ends, after at most 54 statements for each passenger. Those who then wait are too few for a boat; the
others went three at a time, and if nobody waits everybody has crossed. -/
theorem every_run_ends (nm nc : ℕ) :
    (∀ ls s, (program nm nc).exec (fun _ _ => true) (initial nm nc) ls = some s → ls.length ≤ 54*(nm+nc)+4) ∧
    ∀ s, (program nm nc).Reachable s → (program nm nc).Stuck s → (∀ p, s.pc p = .semWait ∨ s.pc p = .done) ∧
      s.tally.ashoreM < 3 ∧ s.tally.ashoreC < 3 ∧ (s.tally.ashoreM < 2 ∨ s.tally.ashoreC = 0) ∧
      s.tally.ashoreM+2*boats 2 1 s.hist+3*boats 3 0 s.hist = nm ∧
      s.tally.ashoreC+boats 2 1 s.hist+3*boats 0 3 s.hist = nc ∧ ((∀ p, s.pc p = .done) → Crossed s) := by
  refine ⟨fun ls s h => ?_,fun s hs hst => ?_⟩
  · have := System.exec_length_le (fun _ _ _ => rank_step) (.init rfl) h
    have h0 : (initial nm nc).rank = 54*(nm+nc)+4 := by
      simp [State.rank,initial,total,Pc.rank,MainPc.rank]
      omega
    omega
  · have hr := rest_of_stuck hs hst
    have hu := hr.unformable
    have hM := hr.waitingM
    have hC := hr.waitingC
    obtain ⟨hnm,hnc⟩ := stuck_count hs hst
    unfold Formable at hu
    exact ⟨hr.ashoreOrDone,by omega,by omega,by omega,hnm,hnc,crossed_of_done hs hst⟩

end Xv6Threads.Missionaries
