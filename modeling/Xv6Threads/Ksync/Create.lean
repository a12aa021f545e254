import Xv6Threads.Ksync.Model

/-! The calls of `create` in `ksync.c`, access by access, with the lock that the first of them sets up. A process runs on
any processor until `pushcli` keeps it on one; a `panic` has no next state. -/
namespace Xv6Threads.Ksync.Creating
open Function List Option

/-- Where a process is in `create`; `kind` and `value` are the arguments, `i` the index, `r` the result. -/
inductive Pc
  | idle
  | test (kind value : Int32)
  | initLocked (kind value : Int32)
  | initCpu (kind value : Int32)
  | initSet (kind value : Int32)
  | pushcli (kind value : Int32)
  | acquireLocked (kind value : Int32)
  | acquireCpu (kind value : Int32)
  | xchg (kind value : Int32)
  | setCpu (kind value : Int32)
  | scan (kind value : Int32) (i : ℕ)
  | claim (kind value : Int32) (i : Id)
  | fill (kind value : Int32) (i : Id)
  | releaseLocked (r : Option Id)
  | releaseCpu (r : Option Id)
  | clearCpu (r : Option Id)
  | clearLocked (r : Option Id)

/-- Between the test of `initialized` and its store. -/
def Pc.initing : Pc → Bool
  | .initLocked _ _ | .initCpu _ _ | .initSet _ _ => true
  | _ => false

/-- From the exchange that gets `ksync_lock` to the store that gives it up. -/
def Pc.holds : Pc → Bool
  | .setCpu _ _ | .scan _ _ _ | .claim _ _ _ | .fill _ _ _ | .releaseLocked _ | .releaseCpu _ | .clearCpu _
  | .clearLocked _ => true
  | _ => false

/-- `ensureinit` has not returned. -/
def Pc.early : Pc → Bool
  | .idle | .test _ _ => true
  | pc => pc.initing

/-- The statics of `ksync.c`, with the fields of `ksync_lock`; `off` says who has turned interrupts off on a processor.
`claims` has the slots whose `used` was set, and `returned` what the calls returned, newest first. -/
structure Vars (P C : Type) where
  initialized : Bool
  locked : Bool
  cpu : Option C
  objs : Id → Kobj
  off : C → Option P
  claims : List Id
  returned : List (Option Id)

variable {P C : Type} [DecidableEq P] [DecidableEq C]

/-- A step of `p` on `c`. -/
def act (v : Vars P C) (p : P) (c : C) : Pc → Option (Vars P C × Pc)
  | .idle => none
  | .test kind value => some (v,if v.initialized then .pushcli kind value else .initLocked kind value)
  | .initLocked kind value => some ({ v with locked := false },.initCpu kind value)
  | .initCpu kind value => some ({ v with cpu := none },.initSet kind value)
  | .initSet kind value => some ({ v with initialized := true },.pushcli kind value)
  | .pushcli kind value => some ({ v with off := update v.off c (some p) },.acquireLocked kind value)
  | .acquireLocked kind value => some (v,if v.locked then .acquireCpu kind value else .xchg kind value)
  | .acquireCpu kind value => if v.cpu = some c then none else some (v,.xchg kind value)
  | .xchg kind value => some ({ v with locked := true },if v.locked then .xchg kind value else .setCpu kind value)
  | .setCpu kind value => some ({ v with cpu := some c },.scan kind value 0)
  | .scan kind value i =>
    if h : i < nksync then
      some (v,if (v.objs ⟨i,h⟩).used then .scan kind value (i+1) else .claim kind value ⟨i,h⟩)
    else some (v,.releaseLocked none)
  | .claim kind value i =>
    some ({ v with objs := update v.objs i { v.objs i with used := true }, claims := i :: v.claims },
      .fill kind value i)
  | .fill kind value i =>
    some ({ v with objs := update v.objs i { v.objs i with kind := kind, value := value, owner := 0 } },
      .releaseLocked (some i))
  | .releaseLocked r => if v.locked then some (v,.releaseCpu r) else none
  | .releaseCpu r => if v.cpu = some c then some (v,.clearCpu r) else none
  | .clearCpu r => some ({ v with cpu := none },.clearLocked r)
  | .clearLocked r =>
    some ({ v with locked := false, off := update v.off c none, returned := r :: v.returned },.idle)

structure State (P C : Type) where
  vars : Vars P C
  pc : P → Pc

/-- The next access of `p`, on `c`, or a new call. -/
inductive Label (P C : Type)
  | call (p : P) (kind value : Int32)
  | run (p : P) (c : C)

/-- Interrupts are off from `pushcli` on. -/
def Pc.cli : Pc → Bool
  | .idle | .test _ _ | .initLocked _ _ | .initCpu _ _ | .initSet _ _ | .pushcli _ _ => false
  | _ => true

def State.step (s : State P C) : Label P C → Option (State P C)
  | .call p kind value =>
    match s.pc p with
    | .idle => some { s with pc := update s.pc p (.test kind value) }
    | _ => none
  | .run p c =>
    if s.vars.off c = if (s.pc p).cli then some p else none then
      (act s.vars p c (s.pc p)).map fun a => ⟨a.1,update s.pc p a.2⟩
    else none

/-- The zeroed memory of the kernel. -/
def booted (P C : Type) : State P C :=
  ⟨⟨false,false,none,fun _ => ⟨false,0,0,0⟩,fun _ => none,[],[]⟩,fun _ => .idle⟩

def creators (P C : Type) [DecidableEq P] [DecidableEq C] : System (State P C) (Label P C) :=
  ⟨fun s => s = booted P C,State.step⟩

/-- A call that finds `initialized` clear does so while no other is between that test and its store. -/
def FirstAlone (s : State P C) : Label P C → Prop
  | .call _ _ _ => True
  | .run p _ => ∀ kind value, s.pc p = .test kind value → s.vars.initialized = false → ∀ q, (s.pc q).initing = false

/-- What a process at `pc` knows of the table when it has `ksync_lock`. -/
def Knows (v : Vars P C) : Pc → Prop
  | .scan _ _ i => ∀ j : Id, j.val < i → (v.objs j).used = true
  | .claim _ _ i => (v.objs i).used = false
  | .fill _ _ i => i ∈ v.claims ∧ some i ∉ v.returned
  | .releaseLocked r | .releaseCpu r | .clearCpu r | .clearLocked r =>
    match r with
    | some i => i ∈ v.claims ∧ some i ∉ v.returned
    | none => ∀ j, (v.objs j).used = true
  | _ => True

/-- The slots in use are those claimed, each once; the calls that have returned got different ones. -/
structure Table (v : Vars P C) : Prop where
  used : ∀ i, (v.objs i).used = true ↔ i ∈ v.claims
  claims : v.claims.Nodup
  ids : (v.returned.filterMap id).Nodup
  mem : ∀ i, some i ∈ v.returned → i ∈ v.claims
  full : none ∈ v.returned → ∀ i, (v.objs i).used = true

section
omit [DecidableEq P] [DecidableEq C]

lemma Table.same {v v' : Vars P C} (h : Table v) (ho : v'.objs = v.objs) (hc : v'.claims = v.claims)
    (hr : v'.returned = v.returned) : Table v' := by
  obtain ⟨h1,h2,h3,h4,h5⟩ := h
  constructor <;> simpa only [ho,hc,hr]

lemma Table.claim {v : Vars P C} {i : Id} (h : Table v) (hi : (v.objs i).used = false) : i ∉ v.claims ∧
      Table { v with objs := update v.objs i { v.objs i with used := true }, claims := i :: v.claims } := by
  have hfree : i ∉ v.claims := fun hm => by
    rw [← h.used,hi] at hm
    cases hm
  have hused : ∀ j, (update v.objs i { v.objs i with used := true } j).used = true ↔ j ∈ i :: v.claims := fun j => by
      by_cases hj : j = i
      · simp [hj]
      · simp [hj,h.used j]
  exact ⟨hfree,hused,nodup_cons.mpr ⟨hfree,h.claims⟩,h.ids,fun j hj => mem_cons_of_mem i (h.mem j hj),
    fun hn j => (hused j).mpr (mem_cons_of_mem i ((h.used j).mp (h.full hn j)))⟩

lemma Table.fill {v : Vars P C} {i : Id} (h : Table v) (kind value : Int32) :
    Table { v with objs := update v.objs i { v.objs i with kind := kind, value := value, owner := 0 } } := by
  have hused : ∀ j, (update v.objs i { v.objs i with kind := kind, value := value, owner := 0 } j).used =
      (v.objs j).used := fun j => by
    by_cases hj : j = i
    · simp [hj]
    · simp [hj]
  exact ⟨fun j => by rw [hused]; exact h.used j,h.claims,h.ids,h.mem,fun hn j => by rw [hused]; exact h.full hn j⟩

lemma Table.return {v v' : Vars P C} {r : Option Id} (h : Table v) (hk : Knows v (.clearLocked r))
    (ho : v'.objs = v.objs) (hc : v'.claims = v.claims) (hr : v'.returned = r :: v.returned) : Table v' := by
  constructor <;> simp only [ho,hc,hr]
  case used => exact h.used
  case claims => exact h.claims
  case ids =>
    cases r with
    | none => simpa using h.ids
    | some i =>
      refine nodup_cons.mpr ⟨fun hm => hk.2 ?_,h.ids⟩
      simpa using hm
  case mem =>
    intro i hm
    rcases mem_cons.mp hm with hm | hm
    · subst hm
      exact hk.1
    · exact h.mem i hm
  case full =>
    intro hm
    rcases mem_cons.mp hm with hm | hm
    · subst hm
      exact hk
    · exact h.full hm

end

structure Inv (s : State P C) : Prop where
  one : ∀ p q, (s.pc p).initing = true → (s.pc q).initing = true → p = q
  first : s.vars.initialized = false → s.vars.locked = false ∧ ∀ p, (s.pc p).early = true
  init : ∀ p, (s.pc p).initing = true → s.vars.initialized = false
  excl : ∀ p q, (s.pc p).holds = true → (s.pc q).holds = true → p = q
  held : ∀ p, (s.pc p).holds = true → s.vars.locked = true
  knows : ∀ p, Knows s.vars (s.pc p)
  table : Table s.vars

omit [DecidableEq P] [DecidableEq C] in
lemma booted_inv : Inv (booted P C) where
  one _ _ h := by cases h
  first _ := ⟨rfl,fun _ => rfl⟩
  init _ h := by cases h
  excl _ _ h := by cases h
  held _ h := by cases h
  knows _ := trivial
  table := ⟨fun i => by simp [booted],nodup_nil,nodup_nil,nofun,nofun⟩

lemma not_early_of_holds {pc : Pc} (h : pc.holds = true) : pc.early = false := by cases pc <;> first | rfl | cases h

omit [DecidableEq P] [DecidableEq C] in
lemma knows_of_not_holds {v : Vars P C} {pc : Pc} (h : pc.holds = false) : Knows v pc := by cases pc <;> trivial

section
variable {s : State P C} {v : Vars P C} {pc : Pc} {p : P} {c : C}

/-- What has to be shown of a step of `p` to `pc` that leaves the variables `v`. -/
structure Keeps (s : State P C) (p : P) (v : Vars P C) (pc : Pc) : Prop where
  one : pc.initing = true → v.initialized = false ∧ ∀ q, q ≠ p → (s.pc q).initing = false
  init : ∀ q, q ≠ p → (s.pc q).initing = true → v.initialized = false
  first : v.initialized = false → s.vars.initialized = false ∧ v.locked = false ∧ pc.early = true
  excl : pc.holds = true → v.locked = true ∧ ∀ q, q ≠ p → (s.pc q).holds = false
  held : ∀ q, q ≠ p → (s.pc q).holds = true → v.locked = true
  knows : Knows v pc
  others : ∀ q, q ≠ p → (s.pc q).holds = true → Knows v (s.pc q)
  table : Table v

omit [DecidableEq C] in
lemma one_of_update {f : Pc → Bool} {g : P → Pc} (h : ∀ a b, f (g a) = true → f (g b) = true → a = b)
    (hp : f pc = true → ∀ q, q ≠ p → f (g q) = false) (a b : P) (ha : f (update g p pc a) = true)
    (hb : f (update g p pc b) = true) : a = b := by
  by_cases hap : a = p <;> by_cases hbp : b = p
  · rw [hap,hbp]
  · subst hap
    rw [update_self] at ha
    rw [update_of_ne hbp,hp ha b hbp] at hb
    cases hb
  · subst hbp
    rw [update_self] at hb
    rw [update_of_ne hap,hp hb a hap] at ha
    cases ha
  · rw [update_of_ne hap] at ha
    rw [update_of_ne hbp] at hb
    exact h a b ha hb

omit [DecidableEq C] in
lemma Inv.of_keeps (hi : Inv s) (hk : Keeps s p v pc) : Inv ⟨v,update s.pc p pc⟩ where
  one := one_of_update hi.one fun h => (hk.one h).2
  first h := by
    obtain ⟨h1,h2,h3⟩ := hk.first h
    refine ⟨h2,fun a => ?_⟩
    by_cases hap : a = p
    · simpa [hap] using h3
    · simpa [hap] using (hi.first h1).2 a
  init a ha := by
    by_cases hap : a = p
    · simp only [hap,update_self] at ha
      exact (hk.one ha).1
    · simp only [update_of_ne hap] at ha
      exact hk.init a hap ha
  excl := one_of_update hi.excl fun h => (hk.excl h).2
  held a ha := by
    by_cases hap : a = p
    · simp only [hap,update_self] at ha
      exact (hk.excl ha).1
    · simp only [update_of_ne hap] at ha
      exact hk.held a hap ha
  knows a := by
    by_cases hap : a = p
    · simpa [hap] using hk.knows
    · simp only [update_of_ne hap]
      cases ha : (s.pc a).holds with
      | false => exact knows_of_not_holds ha
      | true => exact hk.others a hap ha
  table := hk.table

section
omit [DecidableEq P] [DecidableEq C]

variable (hi : Inv s)
include hi

lemma Inv.initialized (hp : (s.pc p).early = false) : s.vars.initialized = true := by
  by_contra h
  rw [(hi.first (by simpa using h)).2 p] at hp
  cases hp

lemma Inv.other_holds (hp : (s.pc p).holds = true) {q : P} (hq : q ≠ p) : (s.pc q).holds = false := by
  by_contra h
  exact hq (hi.excl q p (by simpa using h) hp)

lemma Inv.quiet (hini : v.initialized = s.vars.initialized) (hlock : v.locked = s.vars.locked)
    (hobjs : v.objs = s.vars.objs) (hclaims : v.claims = s.vars.claims) (hret : v.returned = s.vars.returned)
    (hi' : pc.initing = false) (he : v.initialized = false → pc.early = true)
    (hh : pc.holds = true → (s.pc p).holds = true) (hk : Knows v pc) : Keeps s p v pc := by
  have hknows : ∀ q, Knows v (s.pc q) := fun q => by
    have := hi.knows q
    revert this
    generalize s.pc q = r
    cases r <;> simp [Knows,hobjs,hclaims,hret]
  refine ⟨fun h => ?_,fun q _ hq => hini.trans (hi.init q hq),fun h => ?_,fun h => ⟨hlock.trans (hi.held p (hh h)),
    fun q => hi.other_holds (hh h)⟩,fun q _ hq => hlock.trans (hi.held q hq),hk,fun q _ _ => hknows q,
    hi.table.same hobjs hclaims hret⟩
  · rw [hi'] at h
    cases h
  · have := hi.first (hini.symm.trans h)
    exact ⟨hini.symm.trans h,hlock.trans this.1,he h⟩

lemma Inv.waiting (hp : (s.pc p).early = false) (hini : v.initialized = s.vars.initialized)
    (hlock : v.locked = s.vars.locked) (hobjs : v.objs = s.vars.objs) (hclaims : v.claims = s.vars.claims)
    (hret : v.returned = s.vars.returned) (hi' : pc.initing = false) (hh : pc.holds = false) : Keeps s p v pc := by
  refine hi.quiet hini hlock hobjs hclaims hret hi' (fun h => ?_) (fun h => ?_) (knows_of_not_holds hh)
  · rw [hini,hi.initialized hp] at h
    cases h
  · rw [hh] at h
    cases h

lemma Inv.inside (hp : (s.pc p).holds = true) (hini : v.initialized = s.vars.initialized)
    (hlock : v.locked = s.vars.locked) (hi' : pc.initing = false) (hk : Knows v pc)
    (ht : Table v) : Keeps s p v pc := by
  have hi1 := hi.initialized (not_early_of_holds hp)
  refine ⟨fun h => ?_,fun q _ hq => hini.trans (hi.init q hq),fun h => ?_,
    fun _ => ⟨hlock.trans (hi.held p hp),fun q => hi.other_holds hp⟩,fun q _ hq => hlock.trans (hi.held q hq),hk,
    fun q hq h => ?_,ht⟩
  · rw [hi'] at h
    cases h
  · rw [hini,hi1] at h
    cases h
  · rw [hi.other_holds hp hq] at h
    cases h

end

omit [DecidableEq P] in
lemma Inv.act (hi : Inv s) (hfirst : ∀ kind value, s.pc p = .test kind value → s.vars.initialized = false →
    ∀ q, (s.pc q).initing = false) (h : act s.vars p c (s.pc p) = some (v,pc)) : Keeps s p v pc := by
  have hkn := hi.knows p
  have ht := hi.table
  cases hpc : s.pc p with
  | idle =>
    rw [hpc] at h
    cases h
  | test kind value =>
    rw [hpc] at h
    cases h
    split_ifs with hini
    · exact hi.quiet rfl rfl rfl rfl rfl rfl (fun h => by rw [hini] at h; cases h) nofun trivial
    · have hini : s.vars.initialized = false := by simpa using hini
      have hnone := hfirst kind value hpc hini
      refine ⟨fun _ => ⟨hini,fun q _ => hnone q⟩,fun _ _ _ => hini,fun _ => ⟨hini,(hi.first hini).1,rfl⟩,nofun,
        fun q _ => hi.held q,trivial,fun q _ _ => hi.knows q,ht.same rfl rfl rfl⟩
  | initLocked kind value =>
    have hini := hi.init p (by rw [hpc]; rfl)
    rw [hpc] at h
    cases h
    have hnot : ∀ q, (s.pc q).holds = false := fun q => by
      by_contra hq
      have := not_early_of_holds (by simpa using hq)
      rw [(hi.first hini).2 q] at this
      cases this
    refine ⟨fun _ => ⟨hini,fun q hq => ?_⟩,fun _ _ _ => hini,fun _ => ⟨hini,rfl,rfl⟩,nofun,fun q _ hq => ?_,trivial,
      fun q _ _ => hi.knows q,ht.same rfl rfl rfl⟩
    · by_contra hne
      exact hq (hi.one q p (by simpa using hne) (by rw [hpc]; rfl))
    · rw [hnot q] at hq
      cases hq
  | initCpu kind value =>
    have hini := hi.init p (by rw [hpc]; rfl)
    rw [hpc] at h
    cases h
    refine ⟨fun _ => ⟨hini,fun q hq => ?_⟩,fun _ _ _ => hini,fun _ => ⟨hini,(hi.first hini).1,rfl⟩,nofun,
      fun q _ => hi.held q,trivial,fun q _ _ => hi.knows q,ht.same rfl rfl rfl⟩
    by_contra hne
    exact hq (hi.one q p (by simpa using hne) (by rw [hpc]; rfl))
  | initSet kind value =>
    rw [hpc] at h
    cases h
    refine ⟨nofun,fun q hq hqi => ?_,nofun,nofun,fun q _ => hi.held q,trivial,fun q _ _ => hi.knows q,ht.same rfl rfl rfl⟩
    exact absurd (hi.one q p hqi (by rw [hpc]; rfl)) hq
  | pushcli kind value =>
    have hp : (s.pc p).early = false := by rw [hpc]; rfl
    rw [hpc] at h
    cases h
    exact hi.waiting hp rfl rfl rfl rfl rfl rfl rfl
  | acquireLocked kind value =>
    have hp : (s.pc p).early = false := by rw [hpc]; rfl
    rw [hpc] at h
    cases h
    split_ifs <;> exact hi.waiting hp rfl rfl rfl rfl rfl rfl rfl
  | acquireCpu kind value =>
    have hp : (s.pc p).early = false := by rw [hpc]; rfl
    rw [hpc] at h
    obtain ⟨-,h⟩ := ite_none_left_eq_some.mp h
    cases h
    exact hi.waiting hp rfl rfl rfl rfl rfl rfl rfl
  | xchg kind value =>
    have hini := hi.initialized (p := p) (by rw [hpc]; rfl)
    rw [hpc] at h
    cases h
    have hfirst : s.vars.initialized = false → False := fun h => by
      rw [hini] at h
      cases h
    split_ifs with hl
    · exact ⟨nofun,fun q _ => hi.init q,fun h => (hfirst h).elim,nofun,fun _ _ _ => rfl,trivial,
        fun q _ _ => hi.knows q,ht.same rfl rfl rfl⟩
    · refine ⟨nofun,fun q _ => hi.init q,fun h => (hfirst h).elim,fun _ => ⟨rfl,fun q _ => ?_⟩,fun _ _ _ => rfl,trivial,
        fun q _ _ => hi.knows q,ht.same rfl rfl rfl⟩
      by_contra hne
      exact hl (hi.held q (by simpa using hne))
  | setCpu kind value =>
    have hp : (s.pc p).holds = true := by rw [hpc]; rfl
    rw [hpc] at h
    cases h
    exact hi.inside hp rfl rfl rfl nofun (ht.same rfl rfl rfl)
  | scan kind value i =>
    have hp : (s.pc p).holds = true := by rw [hpc]; rfl
    rw [hpc] at h hkn
    unfold Creating.act at h
    simp only at h
    split_ifs at h with hlt hused
    · cases h
      refine hi.inside hp rfl rfl rfl (fun j hj => ?_) ht
      rcases Nat.lt_succ_iff_lt_or_eq.mp hj with hj | hj
      · exact hkn j hj
      · rw [show j = ⟨i,hlt⟩ from Fin.ext hj]
        exact hused
    · cases h
      exact hi.inside hp rfl rfl rfl (show (s.vars.objs ⟨i,hlt⟩).used = false by simpa using hused) ht
    · cases h
      exact hi.inside hp rfl rfl rfl (fun j => hkn j (by omega)) ht
  | claim kind value i =>
    have hp : (s.pc p).holds = true := by rw [hpc]; rfl
    rw [hpc] at h hkn
    cases h
    obtain ⟨hfree,ht'⟩ := ht.claim (i := i) hkn
    exact hi.inside hp rfl rfl rfl ⟨mem_cons_self,fun hm => hfree (ht.mem i hm)⟩ ht'
  | fill kind value i =>
    have hp : (s.pc p).holds = true := by rw [hpc]; rfl
    rw [hpc] at h hkn
    cases h
    exact hi.inside hp rfl rfl rfl hkn (ht.fill kind value)
  | releaseLocked r | releaseCpu r =>
    have hp : (s.pc p).holds = true := by rw [hpc]; rfl
    rw [hpc] at h hkn
    obtain ⟨-,h⟩ := ite_none_right_eq_some.mp h
    cases h
    exact hi.inside hp rfl rfl rfl hkn ht
  | clearCpu r =>
    have hp : (s.pc p).holds = true := by rw [hpc]; rfl
    rw [hpc] at h hkn
    cases h
    exact hi.inside hp rfl rfl rfl hkn (ht.same rfl rfl rfl)
  | clearLocked r =>
    have hp : (s.pc p).holds = true := by rw [hpc]; rfl
    have hini := hi.initialized (p := p) (by rw [hpc]; rfl)
    have hnot : ∀ q, q ≠ p → (s.pc q).holds = true → False := fun q hq h => by
      rw [hi.other_holds hp hq] at h
      cases h
    rw [hpc] at h hkn
    cases h
    refine ⟨nofun,fun q _ => hi.init q,fun h => ?_,nofun,fun q hq h => (hnot q hq h).elim,trivial,
      fun q hq h => (hnot q hq h).elim,ht.return hkn rfl rfl rfl⟩
    rw [hini] at h
    cases h

end

lemma creators_inv {s : State P C} (h : (creators P C).ReachWhile FirstAlone s) : Inv s := by
  refine System.ReachWhile.invariant (I := Inv) (fun s hs => ?_) (fun s l t hi hok ht => ?_) h
  · rw [show s = booted P C from hs]
    exact booted_inv
  · cases l with
    | call p kind value =>
      change (match s.pc p with | .idle => _ | _ => _) = some t at ht
      split at ht
      case h_1 hpc =>
        cases ht
        exact hi.of_keeps (hi.quiet rfl rfl rfl rfl rfl rfl (fun _ => rfl) nofun trivial)
      case h_2 => cases ht
    | run p c =>
      obtain ⟨-,ht⟩ := ite_none_right_eq_some.mp ht
      obtain ⟨⟨v,pc⟩,ha,rfl⟩ := map_eq_some_iff.mp ht
      exact hi.of_keeps (hi.act hok ha)

/-- Creation is exclusive: returned ids differ, a slot is claimed once and stays in use, one process has `ksync_lock`,
and -1 is returned only when all slots are in use. -/
theorem creation_exclusive {s : State P C} (h : (creators P C).ReachWhile FirstAlone s) :
    (s.vars.returned.filterMap id).Nodup ∧ s.vars.claims.Nodup ∧ (∀ i ∈ s.vars.claims, (s.vars.objs i).used = true) ∧
    (∀ p q, (s.pc p).holds = true → (s.pc q).holds = true → p = q) ∧
    (none ∈ s.vars.returned → ∀ i, (s.vars.objs i).used = true) := by
  have hi := creators_inv h
  exact ⟨hi.table.ids,hi.table.claims,fun i hm => (hi.table.used i).mpr hm,hi.excl,hi.table.full⟩

/-- A test for `FirstAlone`. -/
def firstAlone (s : State (Fin 2) (Fin 2)) : Label (Fin 2) (Fin 2) → Bool
  | .call _ _ _ => true
  | .run p _ =>
    match s.pc p with
    | .test _ _ => s.vars.initialized || decide (∀ q, (s.pc q).initing = false)
    | _ => true

lemma firstAlone_sound {s : State (Fin 2) (Fin 2)} {l : Label (Fin 2) (Fin 2)} (h : firstAlone s l = true) :
    FirstAlone s l := by
  cases l with
  | call p kind value => trivial
  | run p c =>
    intro kind value hpc hini
    simpa [firstAlone,hpc,hini] using h

/-- Two processes create one object each; the second starts while the first has the lock. -/
theorem two_objects_created : ∃ s : State (Fin 2) (Fin 2), (creators (Fin 2) (Fin 2)).ReachWhile FirstAlone s ∧
    s.vars.returned = [some 1,some 0] ∧ s.vars.claims.Nodup := by
  have hrun : ∃ s : State (Fin 2) (Fin 2), (creators (Fin 2) (Fin 2)).ReachWhile FirstAlone s ∧
      s.vars.returned = [some 1,some 0] :=
    System.reachWhile_of_exec firstAlone (fun s l => firstAlone_sound)
      (System.schedule [(.call 0 1 1,1),(.run 0 0,7),(.call 1 2 0,1),(.run 1 1,4),(.run 0 0,8),(.run 1 1,10)]) _ rfl
      (by decide +kernel)
  obtain ⟨s,hs,hd⟩ := hrun
  exact ⟨s,hs,hd,(creation_exclusive hs).2.1⟩

/-- Both of the first two calls find `initialized` clear. The second sets up the lock again while the first has it, and
then has it too; both claim slot 0. -/
theorem first_calls_share_slot : ∃ s : State (Fin 2) (Fin 2), (creators (Fin 2) (Fin 2)).Reachable s ∧
    (s.pc 0).holds = true ∧ (s.pc 1).holds = true ∧ s.vars.claims = [0,0] := by
  have hrun : ∃ s : State (Fin 2) (Fin 2), (creators (Fin 2) (Fin 2)).Reachable s ∧
      (s.pc 0).holds = true ∧ (s.pc 1).holds = true ∧ s.vars.claims = [0,0] :=
    System.reachable_of_exec (System.schedule [(.call 0 1 1,1),(.call 1 1 1,1),(.run 0 0,1),(.run 1 1,1),(.run 0 0,8),
      (.run 1 1,8),(.run 0 0,1),(.run 1 1,1)]) _ rfl (by decide +kernel)
  obtain ⟨s,hs,hd⟩ := hrun
  exact ⟨s,hs,hd⟩

end Xv6Threads.Ksync.Creating
