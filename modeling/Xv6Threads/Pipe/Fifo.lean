import Xv6Threads.Pipe.Steps

/-! The pipe is a channel: what reads take is what writes have stored, in order, also when the
counters wrap around. -/
namespace Xv6Threads.Pipe
open Prod Nat Function List UInt32
variable {T : Type}

/-- The counters count modulo 2^32, and the bytes between them are in the ring. -/
structure Ring (v : Vars T) : Prop where
  le : v.taken.length ≤ v.stored.length
  room : v.stored.length ≤ v.taken.length+pipeSize
  nread : v.nread = UInt32.ofNat v.taken.length
  nwrite : v.nwrite = UInt32.ofNat v.stored.length
  data : ∀ k x, v.stored[k]? = some x → v.taken.length ≤ k → v.data (k%pipeSize) = x.2
  prefix_taken : v.taken = (v.stored.take v.taken.length).map Prod.snd

lemma toNat_index (n : ℕ) : (UInt32.ofNat n%512).toNat = n%pipeSize := by
  rw [UInt32.toNat_mod,UInt32.toNat_ofNat']
  change n%2^32%512 = n%512
  omega

lemma ofNat_inj {a b : ℕ} (h : ofNat a = ofNat b) (hab : a ≤ b) (hb : b ≤ a+pipeSize) : a = b := by
  have := congrArg toNat h
  rw [toNat_ofNat',toNat_ofNat'] at this
  unfold pipeSize at hb
  omega

namespace Ring
variable {v : Vars T}

variable (hR : Ring v)
include hR

lemma empty_iff : v.nread = v.nwrite ↔ v.taken.length = v.stored.length := by
  rw [hR.nread,hR.nwrite]
  exact ⟨fun h => ofNat_inj h hR.le hR.room,fun h => by rw [h]⟩

lemma full_iff : v.nwrite = v.nread+512 ↔ v.stored.length = v.taken.length+pipeSize := by
  have hadd : v.nread+512 = ofNat (v.taken.length+pipeSize) := by
    rw [hR.nread,ofNat_add]
    rfl
  rw [hadd,hR.nwrite]
  have h1 := hR.le
  have h2 := hR.room
  exact ⟨fun h => ofNat_inj h h2 (by omega),fun h => by rw [h]⟩

lemma store (hf : v.nwrite ≠ v.nread+512) (c : Write) (i : ℕ) : Ring (v.store c i) := by
  have hlt : v.stored.length < v.taken.length+pipeSize := lt_of_le_of_ne hR.room (fun h => hf (hR.full_iff.mpr h))
  have hlen : (v.stored++[(c.id,c.addr i)]).length = v.stored.length+1 := by rw [length_append,length_singleton]
  have hle := hR.le
  refine ⟨?_,?_,hR.nread,?_,fun k x hx hk => ?_,?_⟩
  · change v.taken.length ≤ (v.stored++[(c.id,c.addr i)]).length
    omega
  · change (v.stored++[(c.id,c.addr i)]).length ≤ _
    rw [hlen]
    exact hlt
  · change v.nwrite+1 = ofNat (v.stored++[(c.id,c.addr i)]).length
    rw [hlen,hR.nwrite,ofNat_add]
    rfl
  · change update v.data (v.nwrite%512).toNat (c.addr i) (k%pipeSize) = x.2
    change (v.stored++[(c.id,c.addr i)])[k]? = some x at hx
    change v.taken.length ≤ k at hk
    rw [hR.nwrite,toNat_index]
    rcases lt_or_ge k v.stored.length with hkl | hkl
    · rw [getElem?_append_left hkl] at hx
      rw [update_of_ne,hR.data k x hx hk]
      unfold pipeSize at hlt ⊢
      omega
    · have hk' := (List.getElem?_eq_some_iff.mp hx).1
      obtain rfl : k = v.stored.length := by omega
      rw [getElem?_concat_length] at hx
      cases hx
      exact update_self ..
  · change v.taken = ((v.stored++[(c.id,c.addr i)]).take v.taken.length).map snd
    rw [take_append_of_le_length hle]
    exact hR.prefix_taken

lemma next_eq (hr : v.nread ≠ v.nwrite) : ∃ x, v.stored[v.taken.length]? = some x ∧ v.next = x.2 := by
  have hlt : v.taken.length < v.stored.length := lt_of_le_of_ne hR.le (fun h => hr (hR.empty_iff.mpr h))
  refine ⟨_,getElem?_eq_getElem hlt,?_⟩
  have := hR.data _ _ (getElem?_eq_getElem hlt) le_rfl
  unfold Vars.next
  rw [hR.nread,toNat_index]
  exact this

lemma count : (v.nwrite-v.nread).toNat = v.stored.length-v.taken.length := by
  have h1 := hR.le
  have h2 := hR.room
  unfold pipeSize at h2
  rw [hR.nwrite,hR.nread,UInt32.toNat_sub,UInt32.toNat_ofNat',UInt32.toNat_ofNat']
  omega

lemma take (hr : v.nread ≠ v.nwrite) : Ring v.take := by
  obtain ⟨x,hx,hnext⟩ := hR.next_eq hr
  have hlt := (List.getElem?_eq_some_iff.mp hx).1
  have hlen : (v.taken++[v.next]).length = v.taken.length+1 := by rw [length_append,length_singleton]
  have hroom := hR.room
  refine ⟨?_,?_,?_,hR.nwrite,fun k y hy hk => ?_,?_⟩
  · change (v.taken++[v.next]).length ≤ v.stored.length
    omega
  · change v.stored.length ≤ (v.taken++[v.next]).length+pipeSize
    omega
  · change v.nread+1 = ofNat (v.taken++[v.next]).length
    rw [hlen,hR.nread,ofNat_add]
    rfl
  · change (v.taken++[v.next]).length ≤ k at hk
    exact hR.data k y hy (by omega)
  · change v.taken++[v.next] = (v.stored.take (v.taken++[v.next]).length).map snd
    rw [hlen,take_add_one,hx,Option.toList_some,map_append,← hR.prefix_taken,hnext]
    rfl

end Ring

/-- What only the process inside changes. -/
structure Same (v v' : Vars T) : Prop where
  stored : v'.stored = v.stored
  taken : v'.taken = v.taken
  reads : v'.reads = v.reads
  writes : v'.writes = v.writes
  data : v'.data = v.data
  nread : v'.nread = v.nread
  nwrite : v'.nwrite = v.nwrite
  writeopen : v'.writeopen = v.writeopen
  readopen : v'.readopen = v.readopen

lemma Ring.congr {v v' : Vars T} (hR : Ring v) (h : Same v v') : Ring v' := by
  obtain ⟨hs,ht,-,-,hd,hr,hw,-,-⟩ := h
  refine ⟨by rw [hs,ht]; exact hR.le,by rw [hs,ht]; exact hR.room,by rw [hr,ht]; exact hR.nread,by rw [hw,hs]; exact hR.nwrite,
    fun k x hx hk => ?_,by rw [hs,ht]; exact hR.prefix_taken⟩
  rw [hs] at hx
  rw [ht] at hk
  rw [hd]
  exact hR.data k x hx hk

variable [DecidableEq T] {v v' : Vars T} {t : T} {pc pc' : Pc}

lemma same_outside (h : Acts v t pc v' pc') (hp : pc.inside = false) : Same v v' := by
  cases h with
  | acquire | sleepSet | asleep | tidy | reacquire => exact ⟨rfl,rfl,rfl,rfl,rfl,rfl,rfl,rfl,rfl⟩
  | _ => cases hp

lemma acts_ring (hR : Ring v) (h : Acts v t pc v' pc') : Ring v' := by
  cases h with
  | store c i b hi hf => exact hR.store hf c i
  | take n bytes hn hr => exact hR.take hr
  | closeSet w => cases w <;> exact ⟨hR.le,hR.room,hR.nread,hR.nwrite,hR.data,hR.prefix_taken⟩
  | leave r => cases r <;> exact ⟨hR.le,hR.room,hR.nread,hR.nwrite,hR.data,hR.prefix_taken⟩
  | _ => exact ⟨hR.le,hR.room,hR.nread,hR.nwrite,hR.data,hR.prefix_taken⟩

/-- The bytes that a read has taken and not yet returned. -/
def Pc.bytes : Pc → List UInt8
  | .readCopy _ l | .readWake _ l | .leave (.got _ l) => l
  | _ => []

/-- What a read knows: when it has taken nothing, there was nothing to take and no writer. -/
def ReadOk (v : Vars T) : Pc → Prop
  | .readCopy _ [] => ¬(v.nread = v.nwrite ∧ v.writeopen = true)
  | .readWake n [] | .leave (.got n []) => 0 < n → v.nread = v.nwrite ∧ v.writeopen = false
  | _ => True

/-- What the process inside knows about reads. -/
structure Reading (v : Vars T) (pc : Pc) : Prop where
  taken : v.taken = v.reads.flatten++pc.bytes
  ok : ReadOk v pc

omit [DecidableEq T] in
lemma ReadOk.congr (h : Same v v') (hr : ReadOk v pc) : ReadOk v' pc := by
  unfold ReadOk at hr ⊢
  rw [h.nread,h.nwrite,h.writeopen]
  exact hr

lemma acts_reading (hI : Reading v pc) (hp : pc.inside = true) (h : Acts v t pc v' pc') :
    (pc'.inside = true → Reading v' pc') ∧ (pc'.inside = false → v'.taken = v'.reads.flatten) := by
  obtain ⟨ht,hok⟩ := hI
  cases h with
  | acquire | sleepSet | asleep | tidy | reacquire => cases hp
  | readReady n hr => exact ⟨fun _ => ⟨ht,hr⟩,nofun⟩
  | take n bytes hn hr =>
    refine ⟨fun _ => ⟨?_,by cases bytes <;> trivial⟩,nofun⟩
    change v.taken++[v.next] = v.reads.flatten++(bytes++[v.next])
    rw [← append_assoc,← show v.taken = v.reads.flatten++bytes from ht]
  | taken n bytes hr =>
    refine ⟨fun _ => ⟨ht,?_⟩,nofun⟩
    cases bytes with
    | cons => trivial
    | nil =>
      intro hn
      have he : v.nread = v.nwrite := by
        by_contra hne
        exact hr ⟨Int32.lt_iff_toInt_lt.mp hn,hne⟩
      exact ⟨he,by simpa using fun hw => hok ⟨he,hw⟩⟩
  | readWake n bytes hw =>
    refine ⟨fun _ => ⟨ht,?_⟩,nofun⟩
    cases bytes with
    | cons => trivial
    | nil => exact hok
  | closeSet w => cases w <;> exact ⟨fun _ => ⟨ht,trivial⟩,nofun⟩
  | sleepRelease k => exact ⟨nofun,fun _ => by simpa [Pc.bytes] using ht⟩
  | leave r =>
    refine ⟨nofun,fun _ => ?_⟩
    cases r with
    | got n bytes =>
      change v.taken = (v.reads++[bytes]).flatten
      rw [flatten_append,flatten_singleton]
      exact ht
    | _ => simpa [Pc.bytes,Vars.finish] using ht
  | _ => exact ⟨fun _ => ⟨ht,trivial⟩,nofun⟩

/-- Reads have returned what was taken, but for the read in progress. -/
structure ReadInv (s : State T) : Prop where
  inside : ∀ t, (s.pc t).inside = true → Reading s.vars (s.pc t)
  free : s.vars.lock = none → s.vars.taken = s.vars.reads.flatten

lemma reading_enter (h : Acts v t pc v' pc') (hp : pc.inside = false) (hp' : pc'.inside = true)
    (ht : v.lock = none → v.taken = v.reads.flatten) : Reading v' pc' := by
  cases h with
  | acquire j hl =>
    have : v.taken = v.reads.flatten++[] := by rw [ht hl,append_nil]
    cases j <;> exact ⟨this,trivial⟩
  | reacquire k hl =>
    have : v.taken = v.reads.flatten++[] := by rw [ht hl,append_nil]
    cases k <;> exact ⟨this,trivial⟩
  | sleepSet | asleep | tidy => cases hp'
  | _ => cases hp

variable {s s' : State T} {l : Label T}

lemma readInv_step (hL : Locked s) (hI : ReadInv s) (h : Steps s l s') : ReadInv s' := by
  cases h with
  | kill t => exact ⟨fun u hu => ⟨(hI.inside u hu).taken,(hI.inside u hu).ok⟩,hI.free⟩
  | start l t j hi hj =>
    refine ⟨fun u hu => ?_,hI.free⟩
    dsimp only at hu ⊢
    by_cases hut : u = t
    · subst hut
      rw [update_self] at hu
      cases hu
    · rw [update_of_ne hut] at hu ⊢
      exact hI.inside u hu
  | run t v' pc' h =>
    have hL' := locked_step hL (.run t v' pc' h)
    by_cases hp : (s.pc t).inside = true
    · obtain ⟨h1,h2⟩ := acts_reading (hI.inside t hp) hp h
      refine ⟨fun u hu => ?_,fun hl => h2 ?_⟩
      · dsimp only at hu ⊢
        by_cases hut : u = t
        · subst hut
          rw [update_self] at hu ⊢
          exact h1 hu
        · rw [update_of_ne hut] at hu
          exact (hut (hL.unique hu hp)).elim
      · have := hL'.outside hl t
        dsimp only at this
        rwa [update_self] at this
    · rw [Bool.not_eq_true] at hp
      have hsame := same_outside h hp
      refine ⟨fun u hu => ?_,fun hl => ?_⟩
      · dsimp only at hu ⊢
        by_cases hut : u = t
        · subst hut
          rw [update_self] at hu ⊢
          exact reading_enter h hp hu hI.free
        · rw [update_of_ne hut] at hu ⊢
          obtain ⟨h1,h2⟩ := hI.inside u hu
          exact ⟨by rw [hsame.taken,hsame.reads]; exact h1,h2.congr hsame⟩
      · dsimp only at hl ⊢
        rw [hsame.taken,hsame.reads]
        -- A step from outside to a free lock leaves the lock as it is.
        rcases acts_lock h with ⟨hk,-⟩ | ⟨-,hk,-⟩ | ⟨hk,-,-⟩
        · exact hI.free (hk.symm.trans hl)
        · rw [hk] at hl
          cases hl
        · rw [hp] at hk
          cases hk

/-- The number of bytes that a write is asked for. -/
def Write.size (c : Write) : ℕ := c.n.toInt.toNat

/-- The bytes of `c` that are stored are its first `i`, in order. -/
def Wrote (v : Vars T) (c : Write) (i : ℕ) : Prop :=
  (v.stored.filter (fun x => x.1 = c.id)).map Prod.snd = (List.range i).map c.addr

def Wait.progress : Wait → Option (Write × ℕ)
  | .write c i => some (c,i)
  | .read _ => none

/-- The write that a process is in, and the bytes it has stored. -/
def Pc.progress : Pc → Option (Write × ℕ)
  | .acquire (.write c) => some (c,0)
  | .writeTest c i _ | .fullTest c i _ | .fullWake c i => some (c,i)
  | .writeWake c => some (c,c.size)
  | .sleepLock k | .sleepRelease k | .sleepSet k | .asleep k | .tidy k | .reacquire k => k.progress
  | _ => none

/-- A write that returns `r` has stored its first bytes, and all of them if `r` says so. -/
def Returned (v : Vars T) (c : Write) (r : Int32) : Prop := ∃ i, Wrote v c i ∧ i ≤ c.size ∧ (r = c.n → i = c.size)

/-- The write that a process is in or returns from. -/
def Pc.write : Pc → Option Write
  | .leave (.wrote c _) => some c
  | pc => pc.progress.map Prod.fst

structure WriteOk (v : Vars T) (pc : Pc) : Prop where
  busy : ∀ c i, pc.progress = some (c,i) → Wrote v c i ∧ i ≤ c.size
  done : ∀ c r, pc = .leave (.wrote c r) → Returned v c r

variable {c : Write}

omit [DecidableEq T] in
lemma Wrote.store {i : ℕ} (h : Wrote v c i) : Wrote (v.store c i) c (i+1) := by
  unfold Wrote at h ⊢
  change ((v.stored++[(c.id,c.addr i)]).filter (fun x => x.1 = c.id)).map snd = _
  rw [filter_append,map_append,h,range_succ,map_append]
  simp

omit [DecidableEq T] in
lemma Wrote.other {c d : Write} {i k : ℕ} (h : Wrote v d i) (hne : c.id ≠ d.id) : Wrote (v.store c k) d i := by
  unfold Wrote at h ⊢
  change ((v.stored++[(c.id,c.addr k)]).filter (fun x => x.1 = d.id)).map snd = _
  rw [filter_append,map_append,h]
  simp [hne]

lemma acts_stored (h : Acts v t pc v' pc') :
    (v'.stored = v.stored) ∨ ∃ c i b, pc = .writeTest c i b ∧ v' = v.store c i := by
  cases h with
  | store c i b => exact .inr ⟨c,i,b,rfl,rfl⟩
  | closeSet w => cases w <;> exact .inl rfl
  | leave r => cases r <;> exact .inl rfl
  | _ => exact .inl rfl

omit [DecidableEq T] in
lemma WriteOk.congr (h : WriteOk v pc) (hs : v'.stored = v.stored) : WriteOk v' pc := by
  constructor
  · intro c i hc
    unfold Wrote
    rw [hs]
    exact h.busy c i hc
  · intro c r hc
    unfold Returned Wrote
    rw [hs]
    exact h.done c r hc

lemma acts_write (hI : WriteOk v pc) (h : Acts v t pc v' pc') : WriteOk v' pc' := by
  have hnone : pc'.progress = none → (∀ c r, pc' ≠ .leave (.wrote c r)) → WriteOk v' pc' := fun h1 h2 =>
    ⟨fun c i hc => (by rw [h1] at hc; cases hc),fun c r hc => (h2 c r hc).elim⟩
  have hkeep : v'.stored = v.stored → pc'.progress = pc.progress → (∀ c r, pc' ≠ .leave (.wrote c r)) → WriteOk v' pc' := by
    intro hs hp hl
    refine ⟨fun c i hc => ?_,fun c r hc => (hl c r hc).elim⟩
    unfold Wrote
    rw [hs]
    exact hI.busy c i (hp ▸ hc)
  cases h with
  | acquire j => cases j <;> exact hkeep rfl rfl nofun
  | reacquire k => cases k <;> exact hkeep rfl rfl nofun
  | store c i b hi hf =>
    refine ⟨fun d k hd => ?_,nofun⟩
    cases hd
    refine ⟨(hI.busy c i rfl).1.store,?_⟩
    unfold Write.size
    omega
  | written c i b hi =>
    refine ⟨fun d k hd => ?_,nofun⟩
    cases hd
    obtain ⟨h1,h2⟩ := hI.busy c i rfl
    have : i = c.size := by
      unfold Write.size at h2 ⊢
      omega
    rw [this] at h1
    exact ⟨h1,le_rfl⟩
  | giveUp c i b hk =>
    refine ⟨nofun,fun d r hd => ?_⟩
    cases hd
    obtain ⟨h1,h2⟩ := hI.busy c i rfl
    refine ⟨i,h1,h2,fun hn => ?_⟩
    unfold Write.size at h2 ⊢
    rw [← hn] at h2 ⊢
    exact le_zero.mp h2
  | writeWake c hp =>
    refine ⟨nofun,fun d r hd => ?_⟩
    cases hd
    exact ⟨c.size,(hI.busy c _ rfl).1,le_rfl,fun _ => rfl⟩
  | closeSet w => exact hnone rfl nofun
  | leave r => exact hnone rfl nofun
  | _ => exact hkeep rfl rfl nofun

/-- Writes are told apart by their numbers. -/
structure WriteInv (s : State T) : Prop where
  below : ∀ t c, (s.pc t).write = some c → c.id < s.calls
  apart : ∀ t u c d, (s.pc t).write = some c → (s.pc u).write = some d → c.id = d.id → t = u
  past : ∀ c r, (c,r) ∈ s.vars.writes → c.id < s.calls ∧ ∀ t d, (s.pc t).write = some d → d.id ≠ c.id
  stored : ∀ x ∈ s.vars.stored, x.1 < s.calls
  ok : ∀ t, WriteOk s.vars (s.pc t)
  done : ∀ c r, (c,r) ∈ s.vars.writes → Returned s.vars c r

section
omit [DecidableEq T]

lemma write_of_progress {i : ℕ} (h : pc.progress = some (c,i)) : pc.write = some c := by
  cases pc with
  | leave r => cases h
  | _ => exact congrArg (Option.map fst) h

lemma Returned.other {c d : Write} {r : Int32} {k : ℕ} (h : Returned v d r) (hne : c.id ≠ d.id) :
    Returned (v.store c k) d r := by
  obtain ⟨i,h1,h2,h3⟩ := h
  exact ⟨i,h1.other hne,h2,h3⟩

lemma WriteOk.other {k : ℕ} (h : WriteOk v pc) (hne : ∀ d, pc.write = some d → c.id ≠ d.id) :
    WriteOk (v.store c k) pc := by
  refine ⟨fun d i hd => ?_,fun d r hd => ?_⟩
  · obtain ⟨h1,h2⟩ := h.busy d i hd
    exact ⟨h1.other (hne d (write_of_progress hd)),h2⟩
  · exact (h.done d r hd).other (hne d (by rw [hd]; rfl))

end

lemma acts_writes (h : Acts v t pc v' pc') : (v'.writes = v.writes ∧ pc'.write = pc.write) ∨
    ∃ c r, pc = .leave (.wrote c r) ∧ v'.writes = (c,r) :: v.writes ∧ v'.stored = v.stored ∧ pc'.write = none := by
  cases h with
  | acquire j => cases j <;> exact .inl ⟨rfl,rfl⟩
  | reacquire k => cases k <;> exact .inl ⟨rfl,rfl⟩
  | closeSet w => cases w <;> exact .inl ⟨rfl,rfl⟩
  | leave r =>
    cases r with
    | wrote c r => exact .inr ⟨c,r,rfl,rfl,rfl,rfl⟩
    | _ => exact .inl ⟨rfl,rfl⟩
  | _ => exact .inl ⟨rfl,rfl⟩

omit [DecidableEq T] in
lemma Returned.congr {r : Int32} (h : Returned v c r) (hs : v'.stored = v.stored) : Returned v' c r := by
  unfold Returned Wrote
  rw [hs]
  exact h

variable {s : State T}

omit [DecidableEq T] in
lemma wrote_new (hI : WriteInv s) (hc : c.id = s.calls) : Wrote s.vars c 0 := by
  have : s.vars.stored.filter (fun x => x.1 = c.id) = [] := by
    refine filter_eq_nil_iff.mpr fun x hx => ?_
    have := hI.stored x hx
    simp
    omega
  unfold Wrote
  rw [this]
  rfl

lemma writeInv_start (hI : WriteInv s) {t : T} {j : Job} (hj : ∀ c, j = .write c → c.id = s.calls) :
    WriteInv {s with pc := update s.pc t (.acquire j), calls := s.calls+1} := by
  have hnew : ∀ c, (Pc.acquire j).write = some c → c.id = s.calls := by
    intro c hc
    cases j with
    | write d => cases hc; exact hj d rfl
    | _ => cases hc
  have hw : ∀ u c, (update s.pc t (.acquire j) u).write = some c →
      (u = t ∧ c.id = s.calls) ∨ (u ≠ t ∧ (s.pc u).write = some c) := by
    intro u c hc
    by_cases hu : u = t
    · rw [hu,update_self] at hc
      exact .inl ⟨hu,hnew c hc⟩
    · rw [update_of_ne hu] at hc
      exact .inr ⟨hu,hc⟩
  constructor
  · intro u c hc
    rcases hw u c hc with ⟨-,h⟩ | ⟨-,h⟩
    · exact h ▸ lt_succ_self _
    · exact lt_succ_of_lt (hI.below u c h)
  · intro u w c d hc hd he
    rcases hw u c hc with ⟨hu,h⟩ | ⟨hu,h⟩ <;> rcases hw w d hd with ⟨hw',h'⟩ | ⟨hw',h'⟩
    · rw [hu,hw']
    · have := hI.below w d h'
      omega
    · have := hI.below u c h
      omega
    · exact hI.apart u w c d h h' he
  · intro c r hc
    obtain ⟨h1,h2⟩ := hI.past c r hc
    refine ⟨lt_succ_of_lt h1,fun u d hd => ?_⟩
    rcases hw u d hd with ⟨-,h⟩ | ⟨-,h⟩
    · omega
    · exact h2 u d h
  · exact fun x hx => lt_succ_of_lt (hI.stored x hx)
  · intro u
    by_cases hu : u = t
    · rw [hu]
      dsimp only
      rw [update_self]
      refine ⟨fun c i hc => ?_,nofun⟩
      have h0 : i = 0 := by cases j <;> cases hc; rfl
      rw [h0]
      exact ⟨wrote_new hI (hnew c (write_of_progress hc)),zero_le _⟩
    · dsimp only
      rw [update_of_ne hu]
      exact hI.ok u
  · exact hI.done

lemma writeInv_run (hI : WriteInv s) (h : Acts s.vars t (s.pc t) v' pc') :
    WriteInv {s with vars := v', pc := update s.pc t pc'} := by
  have hw : ∀ u c, (update s.pc t pc' u).write = some c → (s.pc u).write = some c := by
    intro u c hc
    by_cases hu : u = t
    · rw [hu,update_self] at hc
      rcases acts_writes h with ⟨-,he⟩ | ⟨-,-,-,-,-,he⟩
      · rw [hu,← he,hc]
      · rw [he] at hc
        cases hc
    · rwa [update_of_ne hu] at hc
  -- The bytes that the step stores are of no other write.
  have hother : ∀ d : Write, (∀ c, (s.pc t).write = some c → c.id ≠ d.id) →
      v'.stored = s.vars.stored ∨ ∃ c k, v' = s.vars.store c k ∧ c.id ≠ d.id := by
    intro d hd
    rcases acts_stored h with hs | ⟨c,i,b,hp,hs⟩
    · exact .inl hs
    · exact .inr ⟨c,i,hs,hd c (by rw [hp]; rfl)⟩
  constructor
  · exact fun u c hc => hI.below u c (hw u c hc)
  · exact fun u w c d hc hd => hI.apart u w c d (hw u c hc) (hw w d hd)
  · intro c r hc
    rcases acts_writes h with ⟨he,-⟩ | ⟨d,r',hp,he,-,hn⟩ <;> dsimp only at hc <;> rw [he] at hc
    · obtain ⟨h1,h2⟩ := hI.past c r hc
      exact ⟨h1,fun u d hd => h2 u d (hw u d hd)⟩
    rcases mem_cons.mp hc with hc | hc
    · have hd : (s.pc t).write = some c := by
        cases hc
        rw [hp]
        rfl
      refine ⟨hI.below t c hd,fun u e hu hid => ?_⟩
      have : u = t := hI.apart u t e c (hw u e hu) hd hid
      rw [this] at hu
      dsimp only at hu
      rw [update_self,hn] at hu
      cases hu
    · obtain ⟨h1,h2⟩ := hI.past c r hc
      exact ⟨h1,fun u d hd => h2 u d (hw u d hd)⟩
  · intro x hx
    rcases acts_stored h with hs | ⟨c,i,b,hp,hs⟩
    · exact hI.stored x (hs ▸ hx)
    · rw [hs] at hx
      rcases mem_append.mp hx with hx | hx
      · exact hI.stored x hx
      · rw [mem_singleton.mp hx]
        exact hI.below t c (by rw [hp]; rfl)
  · intro u
    by_cases hu : u = t
    · rw [hu]
      dsimp only
      rw [update_self]
      exact acts_write (hI.ok t) h
    dsimp only
    rw [update_of_ne hu]
    rcases acts_stored h with hs | ⟨c,i,b,hp,hs⟩
    · exact (hI.ok u).congr hs
    · rw [hs]
      refine (hI.ok u).other fun d hd he => hu ?_
      exact hI.apart u t d c hd (by rw [hp]; rfl) he.symm
  · intro c r hc
    have hold : (c,r) ∈ s.vars.writes → Returned v' c r := by
      intro hc
      rcases hother c (fun d hd => (hI.past c r hc).2 t d hd) with hs | ⟨d,k,hs,hne⟩
      · exact (hI.done c r hc).congr hs
      · rw [hs]
        exact (hI.done c r hc).other hne
    rcases acts_writes h with ⟨he,-⟩ | ⟨d,r',hp,he,hs,-⟩ <;> dsimp only at hc <;> rw [he] at hc
    · exact hold hc
    rcases mem_cons.mp hc with hc | hc
    · cases hc
      exact ((hI.ok t).done c r hp).congr hs
    · exact hold hc

lemma writeInv_step {s s' : State T} {l : Label T} (hI : WriteInv s) (h : Steps s l s') : WriteInv s' := by
  cases h with
  | start l t j hi hj => exact writeInv_start hI hj
  | run t v pc h => exact writeInv_run hI h
  | kill t => exact ⟨hI.below,hI.apart,hI.past,hI.stored,fun u => (hI.ok u).congr rfl,hI.done⟩

lemma ring_step (hR : Ring s.vars) (h : Steps s l s') : Ring s'.vars := by
  cases h with
  | start l t j hi hj => exact hR
  | run t v pc h => exact acts_ring hR h
  | kill t => exact hR.congr ⟨rfl,rfl,rfl,rfl,rfl,rfl,rfl,rfl,rfl⟩

/-- What holds of the pipe and its calls together. -/
structure Channel (s : State T) : Prop where
  locked : Locked s
  ring : Ring s.vars
  reads : ReadInv s
  writes : WriteInv s

omit [DecidableEq T] in
lemma channel_fresh (h : Fresh s) : Channel s := by
  have hpc : ∀ t, (s.pc t).write = none ∧ (s.pc t).progress = none ∧ (s.pc t).inside = false := by
    intro t
    rw [h.idle]
    exact ⟨rfl,rfl,rfl⟩
  refine ⟨locked_fresh h,⟨?_,?_,?_,?_,?_,?_⟩,⟨?_,?_⟩,⟨?_,?_,?_,?_,?_,?_⟩⟩
  · rw [h.taken]
    exact zero_le _
  · rw [h.stored]
    exact zero_le _
  · rw [h.taken,h.nread]
    rfl
  · rw [h.stored,h.nwrite]
    rfl
  · rw [h.stored]
    nofun
  · rw [h.stored,h.taken]
    rfl
  · intro t ht
    rw [(hpc t).2.2] at ht
    cases ht
  · intro _
    rw [h.taken,h.reads]
    rfl
  · intro t c hc
    rw [(hpc t).1] at hc
    cases hc
  · intro t u c d hc
    rw [(hpc t).1] at hc
    cases hc
  · rw [h.writes]
    nofun
  · rw [h.stored]
    nofun
  · intro t
    refine ⟨fun c i hc => ?_,fun c r hc => ?_⟩
    · rw [(hpc t).2.1] at hc
      cases hc
    · rw [h.idle] at hc
      cases hc
  · rw [h.writes]
    nofun

lemma reach_channel {ok : State T → Label T → Prop} (h : (pipe T).ReachWhile ok s) : Channel s :=
  System.ReachWhile.invariant (I := Channel) (fun s (hs : Fresh s) => channel_fresh hs)
    (fun _ _ _ hI _ ht => ⟨locked_step hI.locked (step_cases ht),ring_step hI.ring (step_cases ht),
      readInv_step hI.locked hI.reads (step_cases ht),writeInv_step hI.writes (step_cases ht)⟩) h

/-- A pipe is a lossless first-in-first-out channel: it never holds more than `PIPESIZE` bytes; the
reads that have returned, in the order in which they had the lock, got a prefix of what writes have
stored; of every write the first bytes are stored, in order, and all of them once it returns its
length; a read gets nothing only from an empty pipe without a write end. -/
theorem pipe_fifo (h : (pipe T).Reachable s) : (s.vars.nwrite-s.vars.nread).toNat ≤ pipeSize ∧
    s.vars.reads.flatten <+: s.vars.stored.map Prod.snd ∧
    (∀ t c i, (s.pc t).progress = some (c,i) → Wrote s.vars c i) ∧
    (∀ c r, (c,r) ∈ s.vars.writes → ∃ i, Wrote s.vars c i ∧ i ≤ c.size ∧ (r = c.n → i = c.size)) ∧
    (∀ t n, s.pc t = .leave (.got n []) → 0 < n →
      s.vars.reads.flatten = s.vars.stored.map Prod.snd ∧ s.vars.writeopen = false) := by
  obtain ⟨hL,hR,hr,hw⟩ := reach_channel h
  have htaken : s.vars.taken <+: s.vars.stored.map Prod.snd := by
    rw [hR.prefix_taken,map_take]
    exact take_prefix _ _
  refine ⟨?_,?_,fun t c i hc => ((hw.ok t).busy c i hc).1,hw.done,fun t n ht hn => ?_⟩
  · have := hR.room
    rw [hR.count]
    omega
  · -- Bytes taken by the read that is still inside come after those of the reads that returned.
    by_cases hl : s.vars.lock = none
    · rwa [← hr.free hl]
    · obtain ⟨t,ht⟩ := Option.ne_none_iff_exists'.mp hl
      have := (hr.inside t ((hL t).mp ht)).taken
      exact List.IsPrefix.trans ⟨_,this.symm⟩ htaken
  · obtain ⟨h1,h2⟩ := hr.inside t (by rw [ht]; rfl)
    rw [ht] at h1 h2
    have he := h2 hn
    have hlen := hR.empty_iff.mp he.1
    refine ⟨?_,he.2⟩
    rw [← append_nil s.vars.reads.flatten]
    refine h1.symm.trans (htaken.eq_of_length ?_)
    rw [length_map,hlen]

/-- A pipe that `pipealloc` has just made. -/
def opened : State (Fin 3) where
  vars :=
    {lock := none, data := fun _ => 0, nread := 0, nwrite := 0, readopen := true, writeopen := true
     freed := false, ptableLock := none, killed := fun _ => false, sleeping := fun _ => false
     chan := fun _ => none, stored := [], taken := [], reads := [], writes := []}
  pc := fun _ => .idle
  calls := 0

lemma fresh_opened : (pipe (Fin 3)).init opened := ⟨rfl,rfl,rfl,rfl,rfl,rfl,fun _ => rfl,rfl,rfl,rfl,rfl,fun _ => rfl⟩

open scoped FixedRuns

/-- Process 1 goes to sleep in a read of two bytes and process 0 writes three. -/
def writeAndRead : List (Label (Fin 3)) :=
  System.schedule [(.read 1 2,1),(.run 1,5),(.write 0 (fun i => UInt8.ofNat i+1) 3,1),(.run 0,7),(.run 1,9)]

theorem pipe_fifo_write_and_read : ∃ s, (pipe (Fin 3)).Reachable s ∧ s.vars.reads = [[1,2]] ∧
    s.vars.reads.flatten <+: s.vars.stored.map Prod.snd := by
  obtain ⟨s,hs,hp⟩ := System.reachable_of_exec (M := pipe (Fin 3)) writeAndRead
    (fun s => s.vars.reads = [[1,2]]) fresh_opened (by decide +kernel)
  exact ⟨s,hs,hp,(pipe_fifo hs).2.1⟩

end Xv6Threads.Pipe
