import Xv6Threads.Bio.Model
import Xv6Threads.Foundations.Counting

/-! What a step of the buffer cache can do, and the facts that do not depend on the data: the list, the
reference counts, the locks, and one buffer for each block. -/
namespace Xv6Threads.Bio
open Function Option Or Buf Links Pc
variable {U V : Type}

/-- The buffer that a use has, from `bget` to `brelse`. -/
def Pc.slot : Pc → Option Slot
  | .idle => none
  | .locking b | .check b | .reading b | .holding b _ | .writing b | .releasing b => some b

/-- The buffer whose lock a use holds. -/
def Pc.locked : Pc → Option Slot
  | .check b | .reading b | .holding b _ | .writing b => some b
  | _ => none

/-- The state when the request for `b` is done, before the next one is started. -/
def served (s : State U V) (b : Slot) (q : List Slot) : State U V :=
  {s with queue := q}.put b {s.buf b with
    data := if (s.buf b).dirty then (s.buf b).data else s.disk ((s.buf b).dev%2) (s.buf b).blockno
    valid := true
    dirty := false}

lemma iderw_spec {s t : State U V} {b : Slot} (h : iderw s b = some t) :
    t = {s with queue := s.queue++[b], disk := if s.queue = [] then sent s b else s.disk} := by
  unfold iderw at h
  split at h
  · cases h
  · split at h
    · next hq =>
      unfold idestart at h
      split at h
      · cases h
      · cases h
        rw [hq,if_pos rfl]
        rfl
    · next c q hq =>
      cases h
      rw [hq,if_neg (List.cons_ne_nil _ _)]

lemma ideintr_spec {s t : State U V} (h : ideintr s = some t) :
    t = s ∨ ∃ b q, s.queue = b :: q ∧ t = {served s b q with disk := q.head?.elim s.disk (sent (served s b q))} := by
  unfold ideintr at h
  split at h
  · cases h
    exact inl rfl
  · next b q hq =>
    refine inr ⟨b,q,hq,?_⟩
    cases q with
    | nil =>
      cases h
      rfl
    | cons c q =>
      change idestart (served s b (c :: q)) c = some t at h
      unfold idestart at h
      split at h
      · cases h
      · cases h
        rfl

section
variable (s : State U V) (b : Slot)
include s b

lemma release_buf : (release s b).buf = update s.buf b {s.buf b with refcnt := (s.buf b).refcnt-1} := by
  unfold release
  dsimp only
  split <;> rfl

lemma release_want : (release s b).want = s.want := by
  unfold release
  dsimp only
  split <;> rfl

lemma release_pc : (release s b).pc = s.pc := by
  unfold release
  dsimp only
  split <;> rfl

end

section
variable [DecidableEq U]

/-- One step. -/
inductive Moves (s : State U V) : Label U V → State U V → Prop
  | hit (u : U) (dev blockno : ℕ) (b : Slot) (hu : s.pc u = .idle) (hk : (s.buf b).key = (dev,blockno)) :
      Moves s (.use u (.bread dev blockno)) {(s.put b {s.buf b with refcnt := (s.buf b).refcnt+1}).goto u (.locking b) with
        want := update s.want u (dev,blockno)}
  | recycle (u : U) (dev blockno : ℕ) (b : Slot) (hu : s.pc u = .idle)
      (hnone : Links.scan s.links.next (fun b => (s.buf b).dev = dev ∧ (s.buf b).blockno = blockno) nbuf
        (s.links.next none) = some none)
      (href : (s.buf b).refcnt = 0) (hd : (s.buf b).dirty = false) :
      Moves s (.use u (.bread dev blockno)) {(s.put b {s.buf b with
          dev := dev, blockno := blockno, valid := false, dirty := false, refcnt := 1}).goto u (.locking b) with
        want := update s.want u (dev,blockno)}
  | lock (u : U) (b : Slot) (hu : s.pc u = .locking b) (ho : (s.buf b).owner = none) :
      Moves s (.use u .go) ((s.put b {s.buf b with owner := some u}).goto u (.check b))
  | found (u : U) (b : Slot) (hv : (s.buf b).valid = true)
      (hu : s.pc u = .check b ∨ ((s.pc u = .reading b ∨ s.pc u = .writing b) ∧ (s.buf b).dirty = false)) :
      Moves s (.use u .go) (s.goto u (.holding b false))
  | read (u : U) (b : Slot) (t : State U V) (hu : s.pc u = .check b) (hv : (s.buf b).valid = false)
      (ht : iderw s b = some t) : Moves s (.use u .go) (t.goto u (.reading b))
  | change (u : U) (b : Slot) (m : Bool) (v : V) (hu : s.pc u = .holding b m) :
      Moves s (.use u (.change v)) ((s.put b {s.buf b with data := v}).goto u (.holding b true))
  | logWrite (u : U) (b : Slot) (m : Bool) (hu : s.pc u = .holding b m) :
      Moves s (.use u .logWrite) (((s.put b {s.buf b with dirty := true}).install b).goto u (.holding b false))
  | bwrite (u : U) (b : Slot) (m : Bool) (t : State U V) (hu : s.pc u = .holding b m)
      (ht : iderw ((s.put b {s.buf b with dirty := true}).install b) b = some t) :
      Moves s (.use u .bwrite) (t.goto u (.writing b))
  | unlock (u : U) (b : Slot) (hu : s.pc u = .holding b false) :
      Moves s (.use u .brelse) ((s.put b {s.buf b with owner := none}).goto u (.releasing b))
  | release (u : U) (b : Slot) (hu : s.pc u = .releasing b) :
      Moves s (.use u .go) ((release s b).goto u .idle)
  | intr (t : State U V) (ht : ideintr s = some t) : Moves s .intr t

lemma scan_some {f : Option Slot → Option Slot} {p : Slot → Bool} {k : ℕ} {x : Option Slot} {b : Slot}
    (h : scan f p k x = some (some b)) : p b = true := by
  induction k generalizing x with
  | zero => cases x <;> cases h
  | succ k ih =>
    cases x with
    | none => cases h
    | some y =>
      unfold scan at h
      split at h
      · next hp =>
        cases h
        exact hp
      · exact ih h

variable {s t : State U V}

lemma bread_moves {u : U} {dev blockno : ℕ} (hu : s.pc u = .idle) (h : (bget s dev blockno).map (fun r =>
      {r.2.goto u (.locking r.1) with want := update s.want u (dev,blockno)}) = some t) :
    Moves s (.use u (.bread dev blockno)) t := by
  obtain ⟨r,hr,rfl⟩ := map_eq_some_iff.mp h
  unfold bget at hr
  split at hr
  · next b hb =>
    cases hr
    have hk := of_decide_eq_true (scan_some hb)
    exact .hit u dev blockno b hu (by unfold key; rw [hk.1,hk.2])
  · next hnone =>
    split at hr
    · next b hb =>
      cases hr
      have hf := of_decide_eq_true (scan_some hb)
      exact .recycle u dev blockno b hu hnone hf.1 hf.2
    · cases hr
  · cases hr

lemma step_moves {l : Label U V} (h : step s l = some t) : Moves s l t := by
  cases l with
  | intr => exact .intr t h
  | use u a =>
    unfold step at h
    dsimp only at h
    split at h
    · next hu => exact bread_moves hu h
    · next b hu =>
      split at h
      · next ho =>
        cases h
        exact .lock u b hu (isNone_iff_eq_none.mp ho)
      · cases h
    · next b hu =>
      split at h
      · next hv =>
        cases h
        exact .found u b hv (inl hu)
      · next hv =>
        obtain ⟨t',ht',rfl⟩ := map_eq_some_iff.mp h
        exact .read u b t' hu (Bool.eq_false_iff.mpr hv) ht'
    · next b hu =>
      split at h
      · next hv =>
        cases h
        exact .found u b hv.1 (inr ⟨inl hu,hv.2⟩)
      · cases h
    · next b m v hu =>
      cases h
      exact .change u b m v hu
    · next b m hu =>
      cases h
      exact .logWrite u b m hu
    · next b m hu =>
      obtain ⟨t',ht',rfl⟩ := map_eq_some_iff.mp h
      exact .bwrite u b m t' hu ht'
    · next b hu =>
      split at h
      · next hv =>
        cases h
        exact .found u b hv.1 (inr ⟨inr hu,hv.2⟩)
      · cases h
    · next b hu =>
      cases h
      exact .unlock u b hu
    · next b hu =>
      cases h
      exact .release u b hu
    · cases h

/-- A step that is no `bget` and no `brelse` leaves who uses which block. -/
structure Kept (s t : State U V) : Prop where
  slot : ∀ v, (t.pc v).slot = (s.pc v).slot
  key : ∀ c, (t.buf c).key = (s.buf c).key
  refcnt : ∀ c, (t.buf c).refcnt = (s.buf c).refcnt
  want : t.want = s.want
  links : t.links = s.links

lemma update_field {β γ : Type} {f : Slot → β} {b : Slot} {y : β} (g : β → γ) (h : g y = g (f b)) (c : Slot) :
    g (update f b y c) = g (f c) := by
  by_cases hc : c = b
  · rw [hc,update_self,h]
  · rw [update_of_ne hc]

lemma update_pc {γ : Type} {f : U → Pc} {u : U} {x : Pc} (g : Pc → γ) (h : g x = g (f u)) (v : U) :
    g (update f u x v) = g (f v) := by
  by_cases hv : v = u
  · rw [hv,update_self,h]
  · rw [update_of_ne hv]

/-- The three kinds of steps. -/
inductive Kind (s t : State U V) : Label U V → Prop
  | get {u : U} {dev blockno : ℕ} (b : Slot) (x : Buf U V) (hu : s.pc u = .idle)
      (hpc : t.pc = update s.pc u (.locking b)) (hwant : t.want = update s.want u (dev,blockno))
      (hlinks : t.links = s.links) (hbuf : t.buf = update s.buf b x) (hkey : x.key = (dev,blockno))
      (howner : x.owner = (s.buf b).owner) (href : x.refcnt = (s.buf b).refcnt+1)
      (hold : (s.buf b).key = (dev,blockno) ∨ ((s.buf b).refcnt = 0 ∧ (s.buf b).dirty = false ∧
        Links.scan s.links.next (fun b => (s.buf b).dev = dev ∧ (s.buf b).blockno = blockno) nbuf
          (s.links.next none) = some none)) : Kind s t (.use u (.bread dev blockno))
  | put {u : U} {b : Slot} (hu : s.pc u = .releasing b) (ht : t = (release s b).goto u .idle) : Kind s t (.use u .go)
  | kept {l : Label U V} (h : Kept s t) : Kind s t l

lemma Moves.kind {l : Label U V} (h : Moves s l t) : Kind s t l := by
  cases h with
  | hit u dev blockno b hu hk =>
    exact .get b _ hu rfl rfl rfl rfl hk rfl rfl (inl hk)
  | recycle u dev blockno b hu hnone href hd =>
    exact .get b _ hu rfl rfl rfl rfl rfl rfl (by rw [href]) (inr ⟨href,hd,hnone⟩)
  | lock u b hu ho | change u b m v hu | logWrite u b m hu | unlock u b hu =>
    exact .kept ⟨update_pc slot (hu ▸ rfl),update_field key rfl,update_field refcnt rfl,rfl,rfl⟩
  | found u b hv hu =>
    refine .kept ⟨update_pc slot ?_,fun _ => rfl,fun _ => rfl,rfl,rfl⟩
    rcases hu with hu | ⟨hu | hu,_⟩ <;> rw [hu] <;> rfl
  | read u b t hu hv ht =>
    obtain rfl := iderw_spec ht
    exact .kept ⟨update_pc slot (hu ▸ rfl),fun _ => rfl,fun _ => rfl,rfl,rfl⟩
  | bwrite u b m t hu ht =>
    obtain rfl := iderw_spec ht
    exact .kept ⟨update_pc slot (hu ▸ rfl),update_field key rfl,update_field refcnt rfl,rfl,rfl⟩
  | release u b hu => exact .put hu rfl
  | intr t ht =>
    rcases ideintr_spec ht with rfl | ⟨b,q,_,rfl⟩
    · exact .kept ⟨fun _ => rfl,fun _ => rfl,fun _ => rfl,rfl,rfl⟩
    · exact .kept ⟨fun _ => rfl,update_field key rfl,update_field refcnt rfl,rfl,rfl⟩

end

end Xv6Threads.Bio
