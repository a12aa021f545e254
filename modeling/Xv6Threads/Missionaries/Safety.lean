import Xv6Threads.Missionaries.Accounting

/-! What the history of a run says at a ROW step: who has boarded since the boat was selected,
with whose permits, and that nobody boards twice. -/
namespace Xv6Threads.Missionaries
open Function List Option Pc System.ReachWhile List.Sublist
variable {nm nc : ℕ}

/-- Past `boarded++`. -/
def Pc.boardedYet : Pc → Bool
  | .boardPrint | .boardTest | .boardUnlock _ | .row _ | .rowLock | .resetBusy | .resetBoarded
  | .resetBoat | .form .row _ | .rowUnlock | .done => true
  | _ => false

/-- Past `sem_wait_u`. -/
def Pc.permittedYet (c : Pc) : Bool := c.boardedYet || (c.underway == 1)

/-- All permits consumed in a run. -/
def permits : List (Event nm nc) → List (Passenger nm nc)
  | [] => []
  | .permit p :: h => p :: permits h
  | _ :: h => permits h

variable {p : Passenger nm nc} {e : List (Event nm nc)}

lemma act_events {v v' : Vars nm nc} {c c' : Pc} (h : act v p c = some (v',c',e)) :
    (e = [] ∧ c'.boardedYet = c.boardedYet ∧ c'.underway = c.underway) ∨
    (∃ k m d no, c = .form k .choose ∧ c' = .form k .subM ∧ e = [.selected m d no]) ∨
    (c = .semWait ∧ c' = .boardLock ∧ e = [.permit p]) ∨
    (c = .boardInc ∧ c' = .boardPrint ∧ e = [.boarded p v.boatno]) ∨
    (∃ b, c = .row b ∧ c' = .rowLock ∧ e = [.rowed p b]) := by
  cases c with
  | unborn | done => cases h
  | lock | boardLock | rowLock =>
    obtain ⟨-,rfl,rfl,rfl⟩ := mutexLock_inv h
    exact .inl ⟨rfl,rfl,rfl⟩
  | form k f =>
    simp only [act,some.injEq] at h
    cases f with
    | choose =>
      simp only [tryFormBoat] at h
      split_ifs at h <;> cases h
      · exact .inr (.inl ⟨k,2,1,_,rfl,rfl,rfl⟩)
      · exact .inr (.inl ⟨k,3,0,_,rfl,rfl,rfl⟩)
      · exact .inr (.inl ⟨k,0,3,_,rfl,rfl,rfl⟩)
      · cases k <;> exact .inl ⟨rfl,rfl,rfl⟩
    | _ =>
      left
      simp only [tryFormBoat] at h
      (try split_ifs at h) <;> cases h <;> cases k <;> exact ⟨rfl,rfl,rfl⟩
  | semWait =>
    obtain ⟨-,-,-,rfl,rfl⟩ := semWait_inv h
    exact .inr (.inr (.inl ⟨rfl,rfl,rfl⟩))
  | boardInc => cases h; exact .inr (.inr (.inr (.inl ⟨rfl,rfl,rfl⟩)))
  | row b => cases h; exact .inr (.inr (.inr (.inr ⟨b,rfl,rfl,rfl⟩)))
  | boardUnlock last => cases h; cases last <;> exact .inl ⟨rfl,rfl,rfl⟩
  | _ => cases h; exact .inl ⟨rfl,rfl,rfl⟩

/-- The history agrees with where the passengers stand. -/
structure HistAt (s : State nm nc) : Prop where
  boardNodup : (boardings s.hist).Nodup
  boardIff : ∀ q, q ∈ boardings s.hist ↔ (s.pc q).boardedYet = true
  permitNodup : (permits s.hist).Nodup
  permitIff : ∀ q, q ∈ permits s.hist ↔ (s.pc q).permittedYet = true
  aboardPermitted : ∀ q ∈ aboard s.hist, q ∈ permitted s.hist
  underwayPermitted : ∀ q, (s.pc q).underway = 1 → q ∈ permitted s.hist
  permittedSeen : ∀ q ∈ permitted s.hist, (s.pc q).underway = 1 ∨ q ∈ aboard s.hist

lemma histAt_initial : HistAt (initial nm nc) := ⟨nodup_nil,fun q => by simp [initial,boardings,boardedYet],nodup_nil,
    fun q => by simp [initial,permits,permittedYet,boardedYet,underway],
    fun q => by simp [initial,aboard],fun q => by simp [initial,underway], fun q => by simp [initial,permitted]⟩

variable {s t : State nm nc}

lemma HistAt.congr (h : HistAt s) (hb : ∀ q, (t.pc q).boardedYet = (s.pc q).boardedYet)
    (hu : ∀ q, (t.pc q).underway = (s.pc q).underway)
    (hh : boardings t.hist = boardings s.hist ∧ permits t.hist = permits s.hist ∧
      aboard t.hist = aboard s.hist ∧ permitted t.hist = permitted s.hist) : HistAt t := by
  obtain ⟨h1,h2,h3,h4⟩ := hh
  obtain ⟨i1,i2,i3,i4,i5,i6,i7⟩ := h
  have hp : ∀ q, (t.pc q).permittedYet = (s.pc q).permittedYet := fun q => by
    rw [permittedYet,permittedYet,hb,hu]
  refine ⟨by rwa [h1],fun q => ?_,by rwa [h2],fun q => ?_,by rwa [h3,h4],fun q hq => ?_,fun q hq => ?_⟩
  · rw [h1,hb]; exact i2 q
  · rw [h2,hp]; exact i4 q
  · rw [hu] at hq; rw [h4]; exact i6 q hq
  · rw [h4] at hq; rw [hu,h3]; exact i7 q hq

lemma update_congr {β : Type} {f : Passenger nm nc → Pc} {c' : Pc} (w : Pc → β)
    (h : w c' = w (f p)) (q : Passenger nm nc) : w (update f p c' q) = w (f q) := by
  by_cases hq : q = p
  · subst hq; simp [h]
  · simp [hq]

/-- The boat is in when one is selected. -/
lemma Inv.home_of_choose {k : Caller} (hI : Inv s) (hc : s.pc p = .form k .choose) : ¬ Out s.ctl s.vars := by
  have hctl : s.ctl = some (.form k .choose) := hc ▸ ctl_of_critical hI.mutex (by rw [hc]; rfl)
  have hh := hI.acct.here
  rw [hctl] at hh ⊢
  simp [Out,selecting,hh.1]

/-- The boat is out when somebody boards. -/
lemma Inv.busy_of_boardInc (hI : Inv s) (hc : s.pc p = .boardInc) : s.vars.boatBusy = 1 := by
  have hctl : s.ctl = some .boardInc := hc ▸ ctl_of_critical hI.mutex (by rw [hc]; rfl)
  have ho : Out s.ctl s.vars := by
    apply hI.acct.out_of_underway
    have := (tally_pos s p).2.2
    rw [hc] at this
    cases p <;> simp only [onM,onC,underway] at this <;> omega
  simpa [Out,selecting,hctl] using ho

lemma histAt_step {l : Label nm nc} (hI : Inv s) (hH : HistAt s) (h : s.step l = some t) : HistAt t := by
  cases l with
  | none =>
    obtain ⟨-,hpc,hh⟩ := mainStep_inv hI.main h
    have hlists : boardings t.hist = boardings s.hist ∧ permits t.hist = permits s.hist ∧
        aboard t.hist = aboard s.hist ∧ permitted t.hist = permitted s.hist := by
      rcases hh with hh | hh <;> rw [hh] <;> exact ⟨rfl,rfl,rfl,rfl⟩
    rcases hpc with ⟨p,hp,hpc⟩ | hpc
    · exact hH.congr (fun q => by rw [hpc]; exact update_congr _ (by rw [hp]; rfl) q)
        (fun q => by rw [hpc]; exact update_congr _ (by rw [hp]; rfl) q) hlists
    · exact hH.congr (fun q => by rw [hpc]) (fun q => by rw [hpc]) hlists
  | some p =>
    obtain ⟨v',c',e,ha,rfl⟩ := advance_inv h
    rcases act_events ha with ⟨rfl,hb,hu⟩ | ⟨k,m,d,no,hc,rfl,rfl⟩ | ⟨hc,rfl,rfl⟩ | ⟨hc,rfl,rfl⟩ |
      ⟨b,hc,rfl,rfl⟩
    · exact hH.congr (update_congr _ hb) (update_congr _ hu) ⟨rfl,rfl,rfl,rfl⟩
    · -- A new boat: the previous one has been given back, so nobody is under way.
      obtain ⟨-,-,hM,hC,-⟩ := hI.acct.home (hI.home_of_choose hc)
      have hnone := underway_eq_zero hM hC
      have hbd : ∀ q, (update s.pc p (.form k .subM) q).boardedYet = (s.pc q).boardedYet :=
        update_congr _ (by rw [hc]; cases k <;> rfl)
      have hun : ∀ q, (update s.pc p (.form k .subM) q).underway = (s.pc q).underway := update_congr _ (by rw [hc]; rfl)
      refine ⟨hH.boardNodup,fun q => ?_,hH.permitNodup,fun q => ?_,by simp [aboard],fun q hq => ?_, by simp [permitted]⟩
      · rw [hbd]; exact hH.boardIff q
      · rw [permittedYet,hbd,hun]; exact hH.permitIff q
      · simp only [hun,hnone] at hq
        omega
    · have hnew : p ∉ permits s.hist := by rw [hH.permitIff,hc]; simp [permittedYet,boardedYet,underway]
      have hbd : ∀ q, (update s.pc p .boardLock q).boardedYet = (s.pc q).boardedYet := update_congr _ (by rw [hc]; rfl)
      refine ⟨hH.boardNodup,fun q => ?_,nodup_cons.mpr ⟨hnew,hH.permitNodup⟩,fun q => ?_,
        fun q hq => mem_cons_of_mem _ (hH.aboardPermitted q hq),fun q hq => ?_,fun q hq => ?_⟩
      · rw [hbd]; exact hH.boardIff q
      · by_cases hq : q = p
        · subst hq; simp [permits,permittedYet,underway]
        · simpa [permits,hq] using hH.permitIff q
      · by_cases hqp : q = p
        · subst hqp; simp [permitted]
        · simp only [update_of_ne hqp] at hq
          exact mem_cons_of_mem _ (hH.underwayPermitted q hq)
      · by_cases hqp : q = p
        · subst hqp; left; simp [underway]
        · simp only [update_of_ne hqp]
          exact hH.permittedSeen q ((mem_cons.mp hq).resolve_left hqp)
    · have hnew : p ∉ boardings s.hist := by rw [hH.boardIff,hc]; simp [boardedYet]
      have hpm : p ∈ permitted s.hist := hH.underwayPermitted p (by rw [hc]; rfl)
      refine ⟨nodup_cons.mpr ⟨hnew,hH.boardNodup⟩,fun q => ?_,hH.permitNodup,fun q => ?_,
        fun q hq => ?_,fun q hq => ?_,fun q hq => ?_⟩
      · by_cases hq : q = p
        · subst hq; simp [boardings,boardedYet]
        · simpa [boardings,hq] using hH.boardIff q
      · have := hH.permitIff q
        by_cases hq : q = p
        · subst hq; simpa [permits,permittedYet,boardedYet,underway,hc] using this
        · simpa [permits,hq] using this
      · rcases mem_cons.mp hq with rfl | hq
        · exact hpm
        · exact hH.aboardPermitted q hq
      · by_cases hqp : q = p
        · subst hqp; simp [underway] at hq
        · simp only [update_of_ne hqp] at hq
          exact hH.underwayPermitted q hq
      · by_cases hqp : q = p
        · subst hqp; right; exact mem_cons_self
        · simp only [update_of_ne hqp]
          exact (hH.permittedSeen q hq).imp_right (mem_cons_of_mem _)
    · exact hH.congr (update_congr _ (by rw [hc]; rfl)) (update_congr _ (by rw [hc]; rfl))
        ⟨rfl,rfl,rfl,rfl⟩

lemma reachable_histAt (h : (program nm nc).Reachable s) : HistAt s :=
  invariant_on (J := Inv) (I := HistAt) (fun _ hs => reachable_inv hs)
    (fun s (hs : s = initial nm nc) => hs ▸ histAt_initial)
    (fun _ _ _ hI hH _ hs => histAt_step hI hH hs) h

/-- The boat that a rower has read is the one that is out. -/
def RowAt (s : State nm nc) : Prop :=
  ∀ q b, s.pc q = .boardUnlock (some b) ∨ s.pc q = .row b →
    b = ⟨s.vars.boatM,s.vars.boatC,s.vars.boatno⟩

lemma act_boat {v v' : Vars nm nc} {k : Option Pc} {n : Tally} {c c' : Pc} (hA : Acct k v n) (hk : c.critical = true → k = some c)
    (h : act v p c = some (v',c',e)) :
    (v'.boatM = v.boatM ∧ v'.boatC = v.boatC ∧ v'.boatno = v.boatno) ∨ n.rowing = 0 := by
  cases c with
  | unborn | done => cases h
  | lock | boardLock | rowLock =>
    obtain ⟨-,rfl,rfl,rfl⟩ := mutexLock_inv h
    exact .inl ⟨rfl,rfl,rfl⟩
  | arrive => cases h; cases p <;> exact .inl ⟨rfl,rfl,rfl⟩
  | semWait =>
    obtain ⟨a,b,rfl,rfl,rfl⟩ := semWait_inv h
    exact .inl ⟨rfl,rfl,rfl⟩
  | resetBoat =>
    rw [hk rfl] at hA
    have hb : v.boatBusy = 0 := hA.here
    exact .inr (hA.home (by simp [Out,selecting,hb])).2.2.2.2.1
  | form q f =>
    rw [hk rfl] at hA
    cases f with
    | clear =>
      have hb : v.boatBusy = 0 := hA.here
      exact .inr (hA.home (by simp [Out,selecting,hb])).2.2.2.2.1
    | choose =>
      have hb : v.boatBusy = 0 := hA.here.1
      exact .inr (hA.home (by simp [Out,selecting,hb])).2.2.2.2.1
    | incNo =>
      -- No permit has been posted yet, so the count of `boarded` is still zero.
      have hb : v.boatBusy = 1 := hA.here
      obtain ⟨hl,h2,h3,h4,h5⟩ := hA.out (.inl hb)
      simp only [dueM,dueC,pendM,pendC] at h3 h4
      have := hl.bounds
      rw [h5,if_neg (by omega)]
      exact .inr rfl
    | _ =>
      left
      simp only [act,tryFormBoat,some.injEq] at h
      (try split_ifs at h) <;> cases h <;> exact ⟨rfl,rfl,rfl⟩
  | _ => cases h; exact .inl ⟨rfl,rfl,rfl⟩

lemma rowing_eq_zero (h : s.tally.rowing = 0) (q : Passenger nm nc) : (s.pc q).rowing = 0 := by
  have := (tally_pos s q).2.2.2.2
  omega

lemma rowAt_step {l : Label nm nc} (hI : Inv s) (hR : RowAt s) (h : s.step l = some t) : RowAt t := by
  cases l with
  | none =>
    obtain ⟨hv,hpc,-⟩ := mainStep_inv hI.main h
    intro q b hq
    rw [hv]
    rcases hpc with ⟨p,hp,hpc⟩ | hpc
    · rw [hpc] at hq
      by_cases hqp : q = p
      · subst hqp; simp at hq
      · simp only [update_of_ne hqp] at hq
        exact hR q b hq
    · rw [hpc] at hq; exact hR q b hq
  | some p =>
    obtain ⟨v',c',e,ha,rfl⟩ := advance_inv h
    have hkeep := act_boat hI.acct (fun hc => ctl_of_critical hI.mutex hc) ha
    intro q b hq
    by_cases hqp : q = p
    · subst hqp
      simp only [update_self] at hq
      cases hc : s.pc q with
      | boardTest =>
        -- The rower copies the variables here.
        rw [hc] at ha
        cases ha
        split_ifs at hq with h3 <;> simp at hq
        exact hq.symm
      | boardUnlock last =>
        rw [hc] at ha
        cases ha
        cases last with
        | none => simp at hq
        | some b' =>
          simp only [reduceCtorEq,row.injEq,false_or] at hq
          subst hq
          exact hR q b' (.inl hc)
      | unborn | done => rw [hc] at ha; simp [act] at ha
      | lock | boardLock | rowLock =>
        rw [hc] at ha
        simp only [act,mutexLock] at ha
        split_ifs at ha
        cases ha
        simp at hq
      | form k f =>
        rw [hc] at ha
        cases k <;> cases f <;> simp only [act,tryFormBoat,some.injEq] at ha <;>
          (try split_ifs at ha) <;> cases ha <;> simp [Caller.ret] at hq
      | semWait =>
        rw [hc] at ha
        obtain ⟨w,hw,he⟩ := map_eq_some_iff.mp ha
        cases he
        simp at hq
      | _ => rw [hc] at ha; cases ha; simp at hq
    · simp only [update_of_ne hqp] at hq
      rcases hkeep with ⟨h1,h2,h3⟩ | h0
      · rw [hR q b hq,h1,h2,h3]
      · have := rowing_eq_zero h0 q
        rcases hq with hq | hq <;> rw [hq] at this <;> simp [rowing] at this

lemma reachable_rowAt (h : (program nm nc).Reachable s) : RowAt s :=
  invariant_on (J := Inv) (I := RowAt) (fun _ hs => reachable_inv hs)
    (fun s (hs : s = initial nm nc) => by subst hs; intro q b hq; simp [initial] at hq)
    (fun _ _ _ hI hR _ hs => rowAt_step hI hR hs) h

lemma aboard_sublist (h : List (Event nm nc)) : (aboard h).Sublist (boardings h) := by
  induction h with
  | nil => exact refl _
  | cons a h ih =>
    cases a with
    | selected m c no => exact nil_sublist _
    | boarded p no => exact ih.cons_cons p
    | _ => exact ih

lemma permitted_sublist (h : List (Event nm nc)) : (permitted h).Sublist (permits h) := by
  induction h with
  | nil => exact refl _
  | cons a h ih =>
    cases a with
    | selected m c no => exact nil_sublist _
    | permit p => exact ih.cons_cons p
    | _ => exact ih

/-- What must hold when boat `b` is rowed. -/
structure RowSafe (s : State nm nc) (b : Boat) : Prop where
  three : (aboard s.hist).length = 3
  distinct : (aboard s.hist).Nodup
  ownPermits : (permitted s.hist).Perm (aboard s.hist)
  missionaries : ((aboard s.hist).countP isM : ℤ) = b.m
  cannibals : ((aboard s.hist).countP (fun p => !isM p) : ℤ) = b.c
  boat : b.m = s.vars.boatM ∧ b.c = s.vars.boatC
  legal : Legal b.m b.c

lemma rowSafe_of_row (hs : (program nm nc).Reachable s) {b : Boat} (hp : s.pc p = .row b) : RowSafe s b := by
  have hI := reachable_inv hs
  have hH := reachable_histAt hs
  have hb := reachable_rowAt hs p b (.inr hp)
  have hr : s.tally.rowing ≠ 0 := by
    have := (tally_pos s p).2.2.2.2
    rw [hp] at this
    simp only [rowing] at this
    omega
  obtain ⟨ho,h3,ht,-⟩ := hI.acct.out_of_rowing hr
  obtain ⟨hl,hsum,-,-,-⟩ := hI.acct.out ho
  have hdue : 0 ≤ dueM s.vars.boatM s.ctl ∧ 0 ≤ dueC s.vars.boatC s.ctl := by
    have hbd := hl.bounds
    have hh := hI.acct.here
    cases hc : s.ctl with
    | none => simp [dueM,dueC,pendM,pendC]
    | some c =>
      rw [hc] at hh
      cases c with
      | form k f => cases f <;> simp_all [dueM,dueC,pendM,pendC,Local,FormPc.here]
      | _ => simp [dueM,dueC,pendM,pendC]
  obtain ⟨-,-,hM,hC,hm,hc⟩ := hI.acct.full ho h3 hdue.1 hdue.2
  have hlen : (aboard s.hist).length = s.tally.aboardM+s.tally.aboardC := by
    rw [length_eq_countP_add_countP isM]
    simp [State.tally]
  have hnd := hH.boardNodup.sublist (aboard_sublist s.hist)
  refine ⟨by omega,hnd,?_,?_,?_,?_,?_⟩
  · -- Nobody is under way, so the permits consumed are those of the passengers aboard.
    refine (perm_ext_iff_of_nodup (hH.permitNodup.sublist (permitted_sublist s.hist)) hnd).mpr
      (fun q => ⟨fun hq => ?_,hH.aboardPermitted q⟩)
    refine (hH.permittedSeen q hq).resolve_left ?_
    rw [underway_eq_zero hM hC q]
    omega
  · rw [hb]; exact hm
  · rw [hb]; exact hc
  · rw [hb]; exact ⟨rfl,rfl⟩
  · rw [hb]; exact hl

/-- Boat safety for any numbers of passengers and any interleaving. -/
theorem boat_safety (nm nc : ℕ) (s : State nm nc) (hs : (program nm nc).Reachable s) :
    0 ≤ s.vars.waitingM ∧ 0 ≤ s.vars.waitingC ∧ (boardings s.hist).Nodup ∧
    (∀ p t b, s.step (some p) = some t → t.hist = .rowed p b :: s.hist → RowSafe s b) ∧
    (∀ p t m c no, s.step (some p) = some t → t.hist = .selected m c no :: s.hist →
      s.vars.mpermit = 0 ∧ s.vars.cpermit = 0 ∧ ∀ q, (s.pc q).underway = 0) := by
  have hI := reachable_inv hs
  refine ⟨hI.acct.waitingM,hI.acct.waitingC,(reachable_histAt hs).boardNodup,?_,?_⟩
  · intro p t b h hh
    obtain ⟨v',c',e,ha,rfl⟩ := advance_inv h
    have he : e = [.rowed p b] := append_cancel_right hh
    subst he
    rcases act_events ha with ⟨he,-⟩ | ⟨k,m,d,no,hc,-,he⟩ | ⟨hc,-,he⟩ | ⟨hc,-,he⟩ | ⟨b',hc,-,he⟩ <;>
      simp at he
    subst he
    exact rowSafe_of_row hs hc
  · intro p t m c no h hh
    obtain ⟨v',c',e,ha,rfl⟩ := advance_inv h
    have he : e = [.selected m c no] := append_cancel_right hh
    subst he
    rcases act_events ha with ⟨he,-⟩ | ⟨k,m,d,no,hc,-,he⟩ | ⟨hc,-,he⟩ | ⟨hc,-,he⟩ | ⟨b',hc,-,he⟩ <;>
      simp at he
    obtain ⟨h1,h2,hM,hC,-⟩ := hI.acct.home (hI.home_of_choose hc)
    exact ⟨h1,h2,underway_eq_zero hM hC⟩

/-- Three missionaries alone fill a boat, and the third one rows it. -/
theorem boat_safety_three_missionaries : ∃ s : State 3 0, (program 3 0).Reachable s ∧
    (s.step (some (.inl 2))).isSome ∧ RowSafe s ⟨3,0,1⟩ := by
  obtain ⟨s,hs,hp⟩ := System.reachable_of_exec (M := program 3 0)
    (System.schedule [(none,6),(some (.inl 0),7),(some (.inl 1),7),(some (.inl 2),18),
      (some (.inl 0),6),(some (.inl 1),6),(some (.inl 2),6)])
    (fun s => s.pc (.inl 2) = .row ⟨3,0,1⟩) rfl (by decide +kernel)
  have hx : ∃ t, s.step (some (.inl 2)) = some t ∧ t.hist = .rowed (.inl 2) ⟨3,0,1⟩ :: s.hist := by
    simp [State.step,State.advance,hp,act]
  obtain ⟨t,ht,hh⟩ := hx
  exact ⟨s,hs,by rw [ht]; rfl,(boat_safety 3 0 s hs).2.2.2.1 _ _ _ ht hh⟩

end Xv6Threads.Missionaries
