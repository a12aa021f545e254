import Xv6Threads.Foundations.Lock
import Xv6Threads.Ksync.Model

/-! Who holds `ksync_lock` and `ptable.lock`, who sleeps where, and which slots are in use, in
every run in which `ensureinit` is not entered by two threads at once. -/
namespace Xv6Threads.Ksync
open Function Option Pc
variable {n : ℕ}

/-- Between an `acquire` and a `release` of `ksync_lock`. -/
def Pc.inKs : Pc → Bool
  | .check _ | .loop _ _ | .killedTest _ _ | .sleepLock _ _ | .sleepRelease _ _ | .take _ _
  | .store _ _ | .wake _ _ | .leave _ => true
  | _ => false

/-- Between an `acquire` and a `release` of `ptable.lock`. -/
def Pc.inPt : Pc → Bool
  | .sleepRelease _ _ | .sleepSet _ _ | .tidy _ _ => true
  | _ => false

/-- Inside the branch of `ensureinit`. -/
def Pc.inInit : Pc → Bool
  | .initLock _ | .initSet _ => true
  | _ => false

/-- Past `ensureinit`. -/
def Pc.past : Pc → Bool
  | .idle | .initTest _ | .initLock _ | .initSet _ => false
  | _ => true

/-- The slot that has been found used and of the right kind. -/
def Pc.target : Pc → Option (Kind × Id)
  | .loop k id | .killedTest k id | .sleepLock k id | .sleepRelease k id | .sleepSet k id
  | .asleep k id | .tidy k id | .reacquire k id | .take k id | .store k id | .wake k id => some (k,id)
  | _ => none

/-- About to test `initialized`. -/
def Pc.testsInit : Pc → Bool
  | .initTest _ => true
  | _ => false

/-- A thread that tests `initialized` and finds it clear is alone in `ensureinit`. -/
def quietInit (s : State n) : Label n → Bool
  | .run t => s.vars.initialized || !(s.pc t).testsInit || decide (∀ u, (s.pc u).inInit = false)
  | _ => true

lemma start_cases (c : Call) : c.start = .idle ∨ ∃ j, c.start = .initTest j := by
  cases c with
  | ksemCreate value =>
    simp only [Call.start,ksemCreate]
    split_ifs
    · exact .inl rfl
    · exact .inr ⟨_,rfl⟩
  | _ => exact .inr ⟨_,rfl⟩

/-- Every step that `act` allows, with what it found. -/
inductive Acts (v : Vars n) (t : Fin n) : Pc → Vars n → Pc → List Done → Prop
  | initDone (j) (hi : v.initialized = true) : Acts v t (.initTest j) v (enter j) []
  | initEnter (j) (hi : v.initialized = false) : Acts v t (.initTest j) v (.initLock j) []
  | initLock (j) : Acts v t (.initLock j) {v with ksyncLock := none} (.initSet j) []
  | initSet (j) : Acts v t (.initSet j) {v with initialized := true} (enter j) []
  | acquire (j) (hf : v.ksyncLock = none) :
      Acts v t (.acquire j) {v with ksyncLock := some t} (.check j) []
  | create (k x i) (hi : freeSlot v.objs = some i) :
      Acts v t (.check (.create k x)) {v with objs := update v.objs i ⟨true,k.code,x,0⟩}
        (.leave (some (.created k i x))) []
  | reject (j) : Acts v t (.check j) v (.leave none) []
  | checkDown (k id) (hu : (v.objs id).used = true) (hk : (v.objs id).kind = k.code) :
      Acts v t (.check (.down k id)) v (.loop k id) []
  | checkUp (k id) (hu : (v.objs id).used = true) (hk : (v.objs id).kind = k.code)
      (hr : upReady k (v.objs id) = true) : Acts v t (.check (.up k id)) v (.store k id) []
  | empty (k id) (h0 : (v.objs id).value = 0) : Acts v t (.loop k id) v (.killedTest k id) []
  | ready (k id) (h0 : (v.objs id).value ≠ 0) : Acts v t (.loop k id) v (.take k id) []
  | killed (k id) : Acts v t (.killedTest k id) v (.leave none) []
  | alive (k id) : Acts v t (.killedTest k id) v (.sleepLock k id) []
  | sleepLock (k id) (hf : v.ptableLock = none) :
      Acts v t (.sleepLock k id) {v with ptableLock := some t} (.sleepRelease k id) []
  | sleepRelease (k id) : Acts v t (.sleepRelease k id) {v with ksyncLock := none} (.sleepSet k id) []
  | sleepSet (k id) : Acts v t (.sleepSet k id) (goSleep v t id) (.asleep k id) []
  | resume (k id) (hs : v.sleeping t = false) (hf : v.ptableLock = none) :
      Acts v t (.asleep k id) {v with ptableLock := some t} (.tidy k id) []
  | tidy (k id) : Acts v t (.tidy k id)
      {v with chan := update v.chan t none, ptableLock := none} (.reacquire k id) []
  | reacquire (k id) (hf : v.ksyncLock = none) :
      Acts v t (.reacquire k id) {v with ksyncLock := some t} (.loop k id) []
  | take (k id) : Acts v t (.take k id)
      {v with objs := update v.objs id (downStore k t (v.objs id))}
      (.leave (some (.downed k id))) []
  | store (k id) : Acts v t (.store k id)
      {v with objs := update v.objs id (upStore k (v.objs id))} (.wake k id) []
  | wake (k id) (hf : v.ptableLock = none) :
      Acts v t (.wake k id) (wakeup1 v id) (.leave (some (.upped k id))) []
  | leave (x) : Acts v t (.leave x) {v with ksyncLock := none} .idle x.toList

section
variable {v v' : Vars n} {t : Fin n} {c c' : Pc} {e : List Done}

lemma act_cases (h : act v t c = some (v',c',e)) : Acts v t c v' c' e := by
  cases c with
  | idle => simp [act] at h
  | initTest j =>
    cases h
    cases hi : v.initialized with
    | false => exact .initEnter j hi
    | true => exact .initDone j hi
  | check j =>
    cases j with
    | create k x =>
      simp only [act] at h
      cases hs : freeSlot v.objs with
      | none => rw [hs] at h; cases h; exact .reject _
      | some i => rw [hs] at h; cases h; exact .create k x i hs
    | down k id =>
      simp only [act,some.injEq] at h
      split_ifs at h with hu <;> cases h
      · exact .checkDown k id hu.1 hu.2
      · exact .reject _
    | up k id =>
      simp only [act,some.injEq] at h
      split_ifs at h with hu <;> cases h
      · exact .checkUp k id hu.1 hu.2.1 hu.2.2
      · exact .reject _
  | loop k id =>
    simp only [act,some.injEq] at h
    split_ifs at h with h0 <;> cases h
    · exact .empty k id h0
    · exact .ready k id h0
  | killedTest k id =>
    simp only [act,some.injEq] at h
    split_ifs at h <;> cases h
    · exact .killed k id
    · exact .alive k id
  | asleep k id =>
    simp only [act] at h
    split_ifs at h with hf
    cases h
    exact .resume k id hf.1 hf.2
  | acquire | sleepLock | reacquire | sleepRelease | wake | leave =>
    simp only [act] at h
    split_ifs at h with hf
    cases h
    constructor <;> exact hf
  | _ => cases h; constructor

section
variable (h : Acts v t c v' c' e)
include h

lemma act_ks : Handover t v.ksyncLock v'.ksyncLock c.inKs c'.inKs ∨
      (c.inInit = true ∧ c'.inKs = false ∧ v'.ksyncLock = none) := by
  cases h with
  | initLock j => exact .inr ⟨rfl,rfl,rfl⟩
  | initDone j | initSet j => cases j <;> exact .inl (.keep rfl rfl)
  | acquire _ hf | reacquire _ _ hf => exact .inl (.take hf rfl rfl)
  | sleepRelease | leave => exact .inl (.drop rfl rfl rfl)
  | _ => exact .inl (.keep rfl rfl)

lemma act_pt : Handover t v.ptableLock v'.ptableLock c.inPt c'.inPt := by
  cases h with
  | initDone j | initSet j => cases j <;> exact .keep rfl rfl
  | sleepLock _ _ hf | resume _ _ _ hf => exact .take hf rfl rfl
  | sleepSet | tidy => exact .drop rfl rfl rfl
  | _ => exact .keep rfl rfl

lemma act_init : (v'.initialized = v.initialized ∧ (c'.past = true → c.past = true ∨ v.initialized = true) ∧
      (c'.inInit = true → c.inInit = true ∨ (v.initialized = false ∧ c.testsInit = true))) ∨
    (c.inInit = true ∧ v'.initialized = true ∧ c'.inInit = false) := by
  cases h with
  | initDone j hi => cases j <;> exact .inl ⟨rfl,fun _ => .inr hi,by simp [enter,inInit]⟩
  | initEnter j hi => exact .inl ⟨rfl,by simp [past],fun _ => .inr ⟨hi,rfl⟩⟩
  | initLock j => exact .inl ⟨rfl,by simp [past],fun _ => .inl rfl⟩
  | initSet j => cases j <;> exact .inr ⟨rfl,rfl,rfl⟩
  | _ => exact .inl ⟨rfl,fun _ => .inl rfl,nofun⟩

lemma act_sleep : (∀ u, u ≠ t → (v'.sleeping u = true → v.sleeping u = true) ∧ v'.chan u = v.chan u) ∧
    (v'.sleeping t = true → (∃ k id, c' = .asleep k id ∧ v'.chan t = some id) ∨
      (v.sleeping t = true ∧ ∀ k id, c ≠ .asleep k id)) := by
  cases h with
  | sleepSet k id =>
    refine ⟨fun u hu => ?_,fun _ => .inl ⟨k,id,rfl,by simp [goSleep]⟩⟩
    simp [goSleep,hu]
  | tidy k id => exact ⟨fun u hu => ⟨fun h => h,by simp [hu]⟩,fun hs => .inr ⟨hs,nofun⟩⟩
  | wake k id =>
    refine ⟨fun u _ => ⟨fun hs => ?_,rfl⟩,fun hs => .inr ⟨?_,nofun⟩⟩ <;> exact ((Bool.and_eq_true _ _).mp hs).1
  | resume k id hs _ => exact ⟨fun _ _ => ⟨fun h => h,rfl⟩,fun ht => absurd ht (by simp [hs])⟩
  | _ => exact ⟨fun _ _ => ⟨fun h => h,rfl⟩,fun hs => .inr ⟨hs,nofun⟩⟩

lemma act_objs : (v'.objs = v.objs ∧ ∀ k id, c ≠ .take k id ∧ c ≠ .store k id) ∨
    (∃ k x i, c = .check (.create k x) ∧ (v.objs i).used = false ∧ c' = .leave (some (.created k i x)) ∧
      v'.objs = update v.objs i ⟨true,k.code,x,0⟩) ∨ (∃ k id, c = .take k id ∧ c' = .leave (some (.downed k id)) ∧
      v'.objs = update v.objs id (downStore k t (v.objs id))) ∨ (∃ k id, c = .store k id ∧ c' = .wake k id ∧
      v'.objs = update v.objs id (upStore k (v.objs id))) := by
  cases h with
  | create k x i hi =>
    refine .inr (.inl ⟨k,x,i,rfl,?_,rfl,rfl⟩)
    simpa using List.find?_some hi
  | take k id => exact .inr (.inr (.inl ⟨k,id,rfl,rfl,rfl⟩))
  | store k id => exact .inr (.inr (.inr ⟨k,id,rfl,rfl,rfl⟩))
  | _ => exact .inl ⟨rfl,fun _ _ => ⟨nofun,nofun⟩⟩

lemma act_used {id : Id} (hu : (v.objs id).used = true) :
    (v'.objs id).used = true ∧ (v'.objs id).kind = (v.objs id).kind := by
  rcases act_objs h with ⟨ho,-⟩ | ⟨k,x,i,-,hi,-,ho⟩ | ⟨k,i,-,-,ho⟩ | ⟨k,i,-,-,ho⟩ <;> rw [ho]
  · exact ⟨hu,rfl⟩
  · have hne : id ≠ i := by rintro rfl; simp [hi] at hu
    simp [hne,hu]
  · by_cases hi : id = i
    · subst hi; cases k <;> simp [downStore,hu]
    · simp [hi,hu]
  · by_cases hi : id = i
    · subst hi; cases k <;> simp [upStore,hu]
    · simp [hi,hu]

lemma act_objs_inKs : v'.objs = v.objs ∨ c.inKs = true := by
  rcases act_objs h with ⟨ho,-⟩ | ⟨k,x,i,rfl,-⟩ | ⟨k,i,rfl,-⟩ | ⟨k,i,rfl,-⟩
  · exact .inl ho
  all_goals exact .inr rfl

lemma act_take {k : Kind} {id : Id} (hc : c' = .take k id) : v' = v ∧ (v.objs id).value ≠ 0 := by
  cases h with
  | ready k id h0 => cases hc; exact ⟨rfl,h0⟩
  | initDone j | initSet j => cases j <;> cases hc
  | _ => cases hc

lemma act_target {k : Kind} {id : Id} (hc : c'.target = some (k,id)) :
    c.target = some (k,id) ∨ ((v.objs id).used = true ∧ (v.objs id).kind = k.code) := by
  cases h with
  | initDone j | initSet j => cases j <;> cases hc
  | checkDown k id hu hk | checkUp k id hu hk => cases hc; exact .inr ⟨hu,hk⟩
  | initEnter | initLock | acquire | create | reject | killed | leave | take | wake => cases hc
  | _ => exact .inl hc

end

end

/-- At most one thread is in the branch of `ensureinit`, and nobody is past it before it ends. -/
structure InitAt (b : Bool) (pc : Fin n → Pc) : Prop where
  past : ∀ t, (pc t).past = true → b = true
  branch : ∀ t, (pc t).inInit = true → b = false
  alone : ∀ t u, (pc t).inInit = true → (pc u).inInit = true → t = u

variable {t : Fin n}

lemma InitAt.update {b b' : Bool} {pc : Fin n → Pc} {c' : Pc} (h : InitAt b pc)
    (hmono : b = true → b' = true) (hp : c'.past = true → b' = true)
    (hin : c'.inInit = true → b' = false ∧ ∀ u, u ≠ t → (pc u).inInit = false)
    (hout : b' = true → ∀ u, u ≠ t → (pc u).inInit = false) : InitAt b' (update pc t c') := by
  refine ⟨fun u hu => ?_,fun u hu => ?_,fun u w hu hw => ?_⟩
  · by_cases hut : u = t
    · subst hut; rw [update_self] at hu; exact hp hu
    · rw [update_of_ne hut] at hu; exact hmono (h.past u hu)
  · by_cases hut : u = t
    · subst hut; rw [update_self] at hu; exact (hin hu).1
    · rw [update_of_ne hut] at hu
      cases hb : b' with
      | false => rfl
      | true => rw [hout hb u hut] at hu; cases hu
  · by_cases hut : u = t <;> by_cases hwt : w = t
    · rw [hut,hwt]
    · subst hut
      rw [update_self] at hu
      rw [update_of_ne hwt,(hin hu).2 w hwt] at hw
      cases hw
    · subst hwt
      rw [update_self] at hw
      rw [update_of_ne hut,(hin hw).2 u hut] at hu
      cases hu
    · rw [update_of_ne hut] at hu
      rw [update_of_ne hwt] at hw
      exact h.alone u w hu hw

/-- The invariant about the locks, the start and the sleepers. -/
structure Core (s : State n) : Prop where
  ks : Guarded Pc.inKs s.vars.ksyncLock s.pc
  pt : Guarded Pc.inPt s.vars.ptableLock s.pc
  init : InitAt s.vars.initialized s.pc
  asleep : ∀ t, s.vars.sleeping t = true → ∃ k id, s.pc t = .asleep k id ∧ s.vars.chan t = some id
  target : ∀ t k id, (s.pc t).target = some (k,id) →
    (s.vars.objs id).used = true ∧ (s.vars.objs id).kind = k.code
  take : ∀ t k id, s.pc t = .take k id → (s.vars.objs id).value ≠ 0

lemma core_initial : Core (initial n) := ⟨by simp [Guarded,initial,inKs],by simp [Guarded,initial,inPt],
    ⟨by simp [initial,past],by simp [initial,inInit],by simp [initial,inInit]⟩,
    by simp [initial],by simp [initial,target],by simp [initial]⟩

lemma inKs_past {c : Pc} (h : c.inKs = true) : c.past = true := by cases c <;> first | rfl | cases h

variable {s s' : State n}

lemma run_inv (h : s.run t = some s') : ∃ v' c' e, Acts s.vars t (s.pc t) v' c' e ∧
      s' = {s with vars := v', pc := update s.pc t c', hist := e.map (Prod.mk t)++s.hist} := by
  obtain ⟨⟨v',c',e⟩,hr,rfl⟩ := map_eq_some_iff.mp h
  exact ⟨v',c',e,act_cases hr,rfl⟩

lemma call_inv {c : Call} (h : s.call t c = some s') : s.pc t = .idle ∧ s' = {s with pc := update s.pc t c.start} := by
  simp only [State.call] at h
  split_ifs at h with hi
  cases h
  exact ⟨hi,rfl⟩

lemma kill_inv (h : s.kill t = some s') : s.vars.ptableLock = none ∧ s' = {s with vars := killStore s.vars t} := by
  simp only [State.kill] at h
  split_ifs at h with hf
  cases h
  exact ⟨hf,rfl⟩

section
variable {v' : Vars n} {c' : Pc} {e : List Done}

lemma ks_run (hC : Core s) (ha : Acts s.vars t (s.pc t) v' c' e) : Guarded inKs v'.ksyncLock (update s.pc t c') := by
  rcases act_ks ha with hk | ⟨hb,hc',hl⟩
  · exact hC.ks.step hk
  · -- Nobody is past `ensureinit`, so `initlock` finds the lock free.
    have hfree : s.vars.ksyncLock = none := by
      cases hk : s.vars.ksyncLock with
      | none => rfl
      | some u =>
        have := hC.init.past u (inKs_past ((hC.ks u).mp hk))
        simp [hC.init.branch t hb] at this
    refine hC.ks.step (.keep (hl.trans hfree.symm) ?_)
    rw [hc',hC.ks.outside hfree t]

lemma init_run (hC : Core s) (hq : quietInit s (.run t) = true)
    (ha : Acts s.vars t (s.pc t) v' c' e) : InitAt v'.initialized (update s.pc t c') := by
  have hI := hC.init
  have halone : (s.pc t).inInit = true → ∀ u, u ≠ t → (s.pc u).inInit = false := by
    intro ht u hu
    by_contra hn
    exact hu (hI.alone u t (by simpa using hn) ht)
  rcases act_init ha with ⟨hi,hp,hb⟩ | ⟨hb,hi,hc'⟩
  · rw [hi]
    refine hI.update (fun h => h) (fun hc => (hp hc).elim (hI.past t) (fun h => h)) (fun hc => ?_) ?_
    · rcases hb hc with hb | ⟨h0,h1⟩
      · exact ⟨hI.branch t hb,halone hb⟩
      · have hq' : ∀ u, (s.pc u).inInit = false := by simpa [quietInit,h0,h1] using hq
        exact ⟨h0,fun u _ => hq' u⟩
    · intro h1 u _
      by_contra hn
      rw [hI.branch u (by simpa using hn)] at h1
      cases h1
  · rw [hi]
    exact hI.update (fun _ => rfl) (fun _ => rfl) (fun hc => by simp [hc'] at hc) (fun _ => halone hb)

section
variable (hC : Core s) (ha : Acts s.vars t (s.pc t) v' c' e)
include hC ha

lemma asleep_run (u : Fin n) (hu : v'.sleeping u = true) :
    ∃ k id, update s.pc t c' u = .asleep k id ∧ v'.chan u = some id := by
  obtain ⟨ho,ht⟩ := act_sleep ha
  by_cases hut : u = t
  · subst hut
    rw [update_self]
    rcases ht hu with h | ⟨hs,hn⟩
    · exact h
    · obtain ⟨k,id,hk,-⟩ := hC.asleep u hs
      exact (hn k id hk).elim
  · rw [update_of_ne hut,(ho u hut).2]
    exact hC.asleep u ((ho u hut).1 hu)

lemma target_run (u : Fin n) (k : Kind) (id : Id) (hu : (update s.pc t c' u).target = some (k,id)) :
    (v'.objs id).used = true ∧ (v'.objs id).kind = k.code := by
  have hold : (s.vars.objs id).used = true ∧ (s.vars.objs id).kind = k.code := by
    by_cases hut : u = t
    · subst hut
      rw [update_self] at hu
      exact (act_target ha hu).elim (hC.target u k id) (fun h => h)
    · rw [update_of_ne hut] at hu
      exact hC.target u k id hu
  obtain ⟨h1,h2⟩ := act_used ha hold.1
  exact ⟨h1,h2.trans hold.2⟩

lemma take_run (u : Fin n) (k : Kind) (id : Id) (hu : update s.pc t c' u = .take k id) : (v'.objs id).value ≠ 0 := by
  by_cases hut : u = t
  · subst hut
    rw [update_self] at hu
    obtain ⟨rfl,h0⟩ := act_take ha hu
    exact h0
  · rw [update_of_ne hut] at hu
    rcases act_objs_inKs ha with ho | hk
    · rw [ho]; exact hC.take u k id hu
    · exact (hut (hC.ks.unique (by rw [hu]; rfl) hk)).elim

end

end

lemma core_step {l : Label n} (hC : Core s) (hq : quietInit s l = true) (h : s.step l = some s') : Core s' := by
  cases l with
  | run t =>
    obtain ⟨v',c',e,ha,rfl⟩ := run_inv h
    exact ⟨ks_run hC ha,hC.pt.step (act_pt ha),init_run hC hq ha,asleep_run hC ha,target_run hC ha, take_run hC ha⟩
  | call t c =>
    obtain ⟨hi,rfl⟩ := call_inv h
    have hc' := start_cases c
    generalize c.start = c' at hc' ⊢
    have hsame : c'.inKs = false ∧ c'.inPt = false ∧ c'.past = false ∧ c'.inInit = false ∧ c'.target = none := by
      rcases hc' with rfl | ⟨j,rfl⟩ <;> exact ⟨rfl,rfl,rfl,rfl,rfl⟩
    obtain ⟨h1,h2,h3,h4,h5⟩ := hsame
    refine ⟨hC.ks.step (.keep rfl (by rw [h1,hi]; rfl)),hC.pt.step (.keep rfl (by rw [h2,hi]; rfl)),
      hC.init.update (fun h => h) (by simp [h3]) (by simp [h4]) (fun hb u _ => ?_),fun u hu => ?_,
      fun u k id hu => ?_,fun u k id hu => ?_⟩
    · by_contra hn
      rw [hC.init.branch u (by simpa using hn)] at hb
      cases hb
    · obtain ⟨k,id,hk,hc⟩ := hC.asleep u hu
      have hut : u ≠ t := by rintro rfl; simp [hi] at hk
      exact ⟨k,id,by simpa [hut] using hk,hc⟩
    · by_cases hut : u = t
      · subst hut; simp [h5] at hu
      · exact hC.target u k id (by simpa [hut] using hu)
    · by_cases hut : u = t
      · subst hut; rcases hc' with rfl | ⟨j,rfl⟩ <;> simp at hu
      · exact hC.take u k id (by simpa [hut] using hu)
  | kill t =>
    obtain ⟨-,rfl⟩ := kill_inv h
    refine ⟨hC.ks,hC.pt,hC.init,fun u hu => ?_,hC.target,hC.take⟩
    by_cases hut : u = t
    · subst hut; simp [killStore] at hu
    · exact hC.asleep u (by simpa [killStore,hut] using hu)

lemma reach_core {ok : State n → Label n → Prop} (hok : ∀ s l, ok s l → quietInit s l = true)
    {s : State n} (h : (kernel n).ReachWhile ok s) : Core s :=
  System.ReachWhile.invariant (I := Core) (fun s (hs : s = initial n) => hs ▸ core_initial)
    (fun _ _ _ hC hl hs => core_step hC (hok _ _ hl) hs) h

end Xv6Threads.Ksync
