import Xv6Threads.Missionaries.Safety

/-! When the program gets stuck. A stuck state has every passenger either across or waiting
for a permit, with waiting counts that form no boat; how many boats of each load have been
selected then decides whether anybody is left. -/
namespace Xv6Threads.Missionaries
open Function List Option Pc State System.ReachWhile Event
variable {nm nc : ℕ}

/-- The number of boats selected with a given load. -/
def boats (m c : ℤ) : List (Event nm nc) → ℕ
  | [] => 0
  | .selected m' c' _ :: h => boats m c h+if m' = m ∧ c' = c then 1 else 0
  | _ :: h => boats m c h

/-- The waiting passengers fill a boat. -/
def Formable (v : Vars nm nc) : Prop :=
  (v.waitingM ≥ 2 ∧ v.waitingC ≥ 1) ∨ v.waitingM ≥ 3 ∨ v.waitingC ≥ 3

/-- Places of the holder at which `try_form_boat` has nothing left to do. -/
def settled : Option Pc → Bool
  | some .announceArrival | some (.form _ _) | some .resetBoarded | some .resetBoat => false
  | _ => true

/-- A boat that could leave has been selected. -/
def SettledAt (k : Option Pc) (v : Vars nm nc) : Prop :=
  settled k = true → v.boatBusy = 0 → ¬ Formable v

variable {v v' : Vars nm nc} {p : Passenger nm nc} {n : Tally}

lemma settled_act {k : Option Pc} {c c' : Pc}
    {e : List (Event nm nc)} (hA : Acct k v n) (hS : SettledAt k v)
    (hk : c.critical = true → k = some c) (hfree : v.mu = none → k = none)
    (h : act v p c = some (v',c',e)) : SettledAt (nextCtl k c c') v' := by
  cases c with
  | unborn | done => cases h
  | lock | boardLock | rowLock =>
    obtain ⟨hm,rfl,rfl,rfl⟩ := mutexLock_inv h
    rw [hfree hm] at hS
    exact fun _ => hS rfl
  | arrive | announceArrival | resetBusy | resetBoarded | resetBoat =>
    cases h
    intro hset
    simp [nextCtl,critical,settled] at hset
  | form q f =>
    rw [hk rfl] at hA
    cases f with
    | testBusy =>
      simp only [act,tryFormBoat,some.injEq] at h
      split_ifs at h with hb <;> cases h
      · exact fun _ h0 => (hb h0).elim
      · intro hset; simp [nextCtl,critical,settled] at hset
    | choose =>
      simp only [act,tryFormBoat,some.injEq] at h
      split_ifs at h with h1 h2 h3 <;> cases h
      · intro hset; simp [nextCtl,critical,settled] at hset
      · intro hset; simp [nextCtl,critical,settled] at hset
      · intro hset; simp [nextCtl,critical,settled] at hset
      · rintro - - (hf | hf | hf)
        · exact h1 hf
        · exact h2 hf
        · exact h3 hf
    | postC i =>
      have hb : v.boatBusy = 1 := hA.here.1
      simp only [act,tryFormBoat,some.injEq] at h
      split_ifs at h with hi <;> cases h
      · intro hset; simp [nextCtl,critical,settled] at hset
      · intro _ h0; omega
    | _ =>
      simp only [act,tryFormBoat,some.injEq] at h
      (try split_ifs at h) <;> cases h <;> intro hset <;> simp [nextCtl,critical,settled] at hset
  | semWait =>
    obtain ⟨a,b,rfl,rfl,rfl⟩ := semWait_inv h
    exact hS
  | row b => cases h; exact hS
  | unlock | boardInc | boardPrint | boardTest | rowUnlock =>
    cases h
    rw [hk rfl] at hS
    exact fun _ => hS rfl
  | boardUnlock last =>
    cases h
    rw [hk rfl] at hS
    cases last <;> exact fun _ => hS rfl

variable {s t : State nm nc}

lemma settledAt_step {l : Label nm nc} (hI : Inv s)
    (hS : SettledAt s.ctl s.vars) (h : s.step l = some t) : SettledAt t.ctl t.vars := by
  cases l with
  | none =>
    obtain ⟨hv,-,-⟩ := mainStep_inv hI.main h
    rwa [ctl_main hI.main hI.mutex h,hv]
  | some p =>
    obtain ⟨v',c',e,ha,rfl⟩ := advance_inv h
    rw [ctl_advance hI.mutex ha]
    exact settled_act hI.acct hS (fun hc => ctl_of_critical hI.mutex hc)
      (fun hm => by simp [ctl,hm]) ha

lemma reachable_settledAt {s : State nm nc} (h : (program nm nc).Reachable s) : SettledAt s.ctl s.vars :=
  invariant_on (J := Inv) (I := fun s => SettledAt s.ctl s.vars)
    (fun _ hs => reachable_inv hs)
    (fun s (hs : s = initial nm nc) => by
      subst hs
      intro _ _ hf
      simp [Formable,initial] at hf)
    (fun _ _ _ hI hS _ hs => settledAt_step hI hS hs) h

/-- A passenger that has boarded. -/
def Pc.seat (c : Pc) : ℕ := if c.boardedYet then 1 else 0

/-- Everybody who has boarded belongs to a selected boat, and the boats that have been given
back are full. -/
structure BoatsAt (s : State nm nc) : Prop where
  out : Out s.ctl s.vars →
    (total (onM Pc.seat) s.pc : ℤ)+s.vars.boatM =
      2*boats 2 1 s.hist+3*boats 3 0 s.hist+s.tally.aboardM ∧
    (total (onC Pc.seat) s.pc : ℤ)+s.vars.boatC =
      boats 2 1 s.hist+3*boats 0 3 s.hist+s.tally.aboardC
  home : ¬ Out s.ctl s.vars →
    total (onM Pc.seat) s.pc = 2*boats 2 1 s.hist+3*boats 3 0 s.hist ∧
    total (onC Pc.seat) s.pc = boats 2 1 s.hist+3*boats 0 3 s.hist

lemma act_out {k : Option Pc} {c c' : Pc}
    (hA : Acct k v n) (hk : c.critical = true → k = some c) (hfree : v.mu = none → k = none)
    (hr : c.rowing ≤ n.rowing) (h : act v p c = some (v',c',[])) :
    ((Out (nextCtl k c c') v' ↔ Out k v) ∧ (Out k v → v'.boatM = v.boatM ∧ v'.boatC = v.boatC)) ∨
    (c = .resetBusy ∧ Out k v ∧ ¬ Out (nextCtl k c c') v' ∧ (n.aboardM : ℤ) = v.boatM ∧ (n.aboardC : ℤ) = v.boatC) := by
  cases c with
  | unborn | done => cases h
  | lock | boardLock | rowLock =>
    obtain ⟨hm,rfl,rfl,-⟩ := mutexLock_inv h
    rw [hfree hm]
    exact .inl ⟨Iff.rfl,fun _ => ⟨rfl,rfl⟩⟩
  | arrive =>
    cases h
    rw [hk rfl]
    cases p <;> exact .inl ⟨Iff.rfl,fun _ => ⟨rfl,rfl⟩⟩
  | form q f =>
    rw [hk rfl] at hA ⊢
    have hh := hA.here
    left
    cases q <;> cases f <;> simp only [act,tryFormBoat,some.injEq] at h <;>
      (try split_ifs at h) <;> simp only [Prod.mk.injEq,reduceCtorEq,and_false] at h <;> obtain ⟨rfl,rfl,-⟩ := h <;>
      simp_all [nextCtl,critical,Caller.ret,Out,selecting,Local,FormPc.here]
  | semWait => simp [act] at h
  | boardInc => simp [act] at h
  | row b => simp [act] at h
  | resetBusy =>
    cases h
    rw [hk rfl] at hA ⊢
    obtain ⟨ho,hb,-,-⟩ := hA.out_of_rowing (by simp only [rowing] at hr; omega)
    obtain ⟨-,-,-,-,h1,h2⟩ := hA.full ho hb (by simp [dueM,pendM]) (by simp [dueC,pendC])
    exact .inr ⟨rfl,ho,by simp [nextCtl,critical,Out,selecting],h1,h2⟩
  | resetBoat =>
    cases h
    rw [hk rfl] at hA ⊢
    have hb : v.boatBusy = 0 := hA.here
    left
    simp [nextCtl,critical,Out,selecting,hb]
  | boardUnlock last =>
    cases h
    rw [hk rfl]
    cases last <;> exact .inl ⟨Iff.rfl,fun _ => ⟨rfl,rfl⟩⟩
  | _ =>
    cases h
    rw [hk rfl]
    exact .inl ⟨Iff.rfl,fun _ => ⟨rfl,rfl⟩⟩

lemma act_selected {q : Caller} {c' : Pc} {m d no : ℤ} (hA : Acct (some (.form q .choose)) v n)
    (h : act v p (.form q .choose) = some (v',c',[.selected m d no])) : v'.boatM = m ∧ v'.boatC = d ∧ Legal m d := by
  obtain ⟨-,h0,h1⟩ := hA.here
  simp only [act,tryFormBoat,some.injEq] at h
  split_ifs at h <;> simp only [Prod.mk.injEq,List.cons.injEq,selected.injEq,reduceCtorEq,
    and_true,and_false] at h <;> obtain ⟨rfl,-,rfl,rfl,-⟩ := h
  · exact ⟨rfl,rfl,.inr (.inr ⟨rfl,rfl⟩)⟩
  · exact ⟨rfl,h1,.inl ⟨rfl,rfl⟩⟩
  · exact ⟨h0,rfl,.inr (.inl ⟨rfl,rfl⟩)⟩

lemma boatsAt_main (hI : Inv s) (hB : BoatsAt s) (h : s.mainStep = some t) : BoatsAt t := by
  obtain ⟨hv,hpc,hh⟩ := mainStep_inv hI.main h
  have hw : ∀ w : Passenger nm nc → Pc → ℕ, (∀ q, w q .lock = w q .unborn) → total w t.pc = total w s.pc := by
    intro w hw
    rcases hpc with ⟨p,hp,hpc⟩ | hpc
    · have := total_update w s.pc p .lock
      rw [hp,hw p] at this
      rw [hpc]
      omega
    · rw [hpc]
  have hctl := ctl_main hI.main hI.mutex h
  have hM := hw (onM seat) (fun q => by cases q <;> rfl)
  have hC := hw (onC seat) (fun q => by cases q <;> rfl)
  have hhist : ∀ m c, boats m c t.hist = boats m c s.hist := by
    intro m c
    rcases hh with hh | hh <;> rw [hh]
    rfl
  have hab : aboard t.hist = aboard s.hist := by
    rcases hh with hh | hh <;> rw [hh]
    rfl
  obtain ⟨h1,h2⟩ := hB
  constructor
  · simpa only [hctl,hv,hM,hC,hhist,tally,hab] using h1
  · simpa only [hctl,hv,hM,hC,hhist] using h2

lemma boatsAt_advance (hI : Inv s) (hB : BoatsAt s) (h : s.advance p = some t) : BoatsAt t := by
  obtain ⟨v',c',e,ha,rfl⟩ := advance_inv h
  have hctl := ctl_advance hI.mutex ha
  have hw : ∀ w : Passenger nm nc → Pc → ℕ, w p c' = w p (s.pc p) → total w (update s.pc p c') = total w s.pc := by
    intro w hw
    have := total_update w s.pc p c'
    omega
  have hseat : c'.boardedYet = (s.pc p).boardedYet → total (onM seat) (update s.pc p c') = total (onM seat) s.pc ∧
      total (onC seat) (update s.pc p c') = total (onC seat) s.pc := by
    intro hb
    constructor <;> apply hw <;> cases p <;> simp [onM,onC,seat,hb]
  rcases act_events ha with ⟨rfl,hb,-⟩ | ⟨k,m,d,no,hc,rfl,rfl⟩ | ⟨hc,rfl,rfl⟩ | ⟨hc,rfl,rfl⟩ |
    ⟨b,hc,rfl,rfl⟩
  · obtain ⟨hM,hC⟩ := hseat hb
    have hcase := act_out hI.acct (fun hc => ctl_of_critical hI.mutex hc)
      (fun hm => by simp [ctl,hm]) (tally_pos s p).2.2.2.2 ha
    rw [← hctl] at hcase
    simp only [nil_append] at hctl hcase ⊢
    rcases hcase with ⟨hiff,hsame⟩ | ⟨-,ho,hn,h1,h2⟩
    · constructor
      · intro ho
        obtain ⟨e1,e2⟩ := hsame (hiff.mp ho)
        have := hB.out (hiff.mp ho)
        simpa only [hM,hC,e1,e2,tally] using this
      · intro ho
        simpa only [hM,hC] using hB.home (fun hs => ho (hiff.mpr hs))
    · refine ⟨fun ho' => (hn ho').elim,fun _ => ?_⟩
      have := hB.out ho
      simp only [hM,hC]
      omega
  · -- The boat that is selected is the first one since the last was given back.
    have hk : s.ctl = some (.form k .choose) := hc ▸ ctl_of_critical hI.mutex (by rw [hc]; rfl)
    have hA := hI.acct
    unfold AcctAt at hA
    rw [hk] at hA
    rw [hc] at ha
    obtain ⟨h1,h2,hl⟩ := act_selected hA ha
    obtain ⟨hM,hC⟩ := hseat (by rw [hc]; cases k <;> rfl)
    have hh := hB.home (hI.home_of_choose hc)
    rw [hc] at hctl
    refine ⟨fun _ => ?_,fun ho => (ho (.inr (by rw [hctl]; rfl))).elim⟩
    simp only [hM,hC,h1,h2,tally,cons_append,nil_append,aboard,boats,countP_nil]
    rcases hl with ⟨rfl,rfl⟩ | ⟨rfl,rfl⟩ | ⟨rfl,rfl⟩ <;> simp <;> omega
  · obtain ⟨hM,hC⟩ := hseat (by rw [hc]; rfl)
    rw [hc] at ha hctl
    have hv : v'.boatBusy = s.vars.boatBusy ∧ v'.boatM = s.vars.boatM ∧ v'.boatC = s.vars.boatC := by
      obtain ⟨a,b,rfl,-,-⟩ := semWait_inv ha
      exact ⟨rfl,rfl,rfl⟩
    have hctl' : nextCtl s.ctl .semWait .boardLock = s.ctl := rfl
    rw [hctl'] at hctl
    obtain ⟨b1,b2,b3⟩ := hv
    obtain ⟨h1,h2⟩ := hB
    have hh : ∀ m c, boats m c ([permit p]++s.hist) = boats m c s.hist := fun _ _ => rfl
    constructor
    · simpa only [hctl,Out,b1,b2,b3,hM,hC,tally_move,Tally.move,aboardAfter,hh] using h1
    · simpa only [hctl,Out,b1,hM,hC,hh] using h2
  · have hb := hI.busy_of_boardInc hc
    rw [hc] at ha
    cases ha
    refine ⟨fun _ => ?_,fun hn => (hn (.inl hb)).elim⟩
    have hold := hB.out (.inl hb)
    have hM := total_update (onM seat) s.pc p .boardPrint
    have hC := total_update (onC seat) s.pc p .boardPrint
    rw [hc] at hM hC
    rw [tally_move]
    simp only [Tally.move,aboardAfter,cons_append,nil_append,boats]
    cases p <;> simp [onM,onC,seat,boardedYet,isM] at hM hC ⊢ <;> omega
  · obtain ⟨hM,hC⟩ := hseat (by rw [hc]; rfl)
    rw [hc] at ha hctl
    cases ha
    have hctl' : nextCtl s.ctl (.row b) .rowLock = s.ctl := rfl
    rw [hctl'] at hctl
    obtain ⟨h1,h2⟩ := hB
    have hh : ∀ m c, boats m c ([rowed p b]++s.hist) = boats m c s.hist := fun _ _ => rfl
    constructor
    · simpa only [hctl,hM,hC,tally_move,Tally.move,aboardAfter,hh] using h1
    · simpa only [hctl,hM,hC,hh] using h2

lemma reachable_boatsAt {s : State nm nc} (h : (program nm nc).Reachable s) : BoatsAt s :=
  invariant_on (J := Inv) (I := BoatsAt) (fun _ hs => reachable_inv hs)
    (fun s (hs : s = initial nm nc) => by
      subst hs
      have hz : ∀ w : Passenger nm nc → Pc → ℕ, (∀ q, w q .unborn = 0) →
          total w (initial nm nc).pc = 0 := fun w hw => Finset.sum_eq_zero (fun q _ => hw q)
      refine ⟨fun ho => by simp [Out,initial,ctl,selecting] at ho,fun _ => ?_⟩
      rw [hz _ (fun q => by cases q <;> rfl),hz _ (fun q => by cases q <;> rfl)]
      exact ⟨rfl,rfl⟩)
    (fun s l t hI hB _ hs => by
      cases l with
      | none => exact boatsAt_main hI hB hs
      | some p => exact boatsAt_advance hI hB hs) h

end Xv6Threads.Missionaries
