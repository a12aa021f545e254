import Xv6Threads.Foundations.Loop
import Xv6Threads.Uaccess.Model

/-! What a call has validated stays valid until it is used, as long as the threads that share its memory leave it
alone: nobody calls `sbrk` while another shares the page table, and nobody stores over the end of a validated string.
Otherwise it does not. -/
namespace Xv6Threads.Uaccess
open Function List Option State
variable {T : Type}

/-- The string at `p` ends at `a`. -/
def EndsAt (m : Space) (p a : ℕ) : Prop := p ≤ a ∧ m.mem a = 0 ∧ ∀ b, p ≤ b → b < a → m.mem b ≠ 0

/-- Who calls `sbrk` has the page table for itself and does not give up its whole memory, and a store does not hit
the end of a string that a call of another thread has validated. -/
def careful (s : State T) : Label T → Prop
  | .sbrk t n _ => ∀ p, s.proc t = some p → p.sz+n ≠ 0 ∧ ∀ u q, u ≠ t → s.proc u = some q → q.dir ≠ p.dir
  | .store t a x => x = 0 ∨ ∀ p, s.proc t = some p → ∀ u q f b, s.proc u = some q → q.dir = p.dir →
      q.frame = some f → .str b ∈ f.valid → ¬EndsAt (s.space p.dir) b a
  | _ => True

/-- What the kernel may do with a validated argument: it stays below `sz`, in mapped pages, and a string has an end
there. -/
def Arg.Safe (m : Space) (sz : ℕ) : Arg → Prop
  | .str p => ∃ a, p ≤ a ∧ a < sz ∧ m.mem a = 0 ∧ ∀ b, p ≤ b → b ≤ a → m.mapped (page b) = true
  | .buf p n => ∀ b, p ≤ b → b < p+n → b < sz ∧ m.mapped (page b) = true

/-- What has been validated, without the pages. -/
def Arg.Inside (m : Space) (sz : ℕ) : Arg → Prop
  | .str p => ∃ a, p ≤ a ∧ a < sz ∧ m.mem a = 0
  | .buf p n => p+n ≤ sz

structure Frame.Ok (m : Space) (sz : ℕ) (f : Frame) : Prop where
  valid : ∀ a ∈ f.valid, a.Inside m sz
  scan : ∀ {p s ep}, f.scan = some (p,s,ep) → p ≤ s ∧ ep = sz

structure Valid (s : State T) : Prop where
  covered : ∀ {t p}, s.proc t = some p → ∀ a, a < p.sz → (s.space p.dir).mapped (page a) = true
  fresh : ∀ {t p}, s.proc t = some p → p.dir < s.nextdir
  below : ∀ {t p}, s.proc t = some p → p.sz ≤ 2^31
  frame : ∀ {t p f}, s.proc t = some p → p.frame = some f → f.Ok (s.space p.dir) p.sz

lemma Arg.Inside.safe {m : Space} {sz : ℕ} {a : Arg} (h : a.Inside m sz)
    (hm : ∀ b, b < sz → m.mapped (page b) = true) : a.Safe m sz := by
  cases a with
  | str p =>
    obtain ⟨a,h1,h2,h3⟩ := h
    exact ⟨a,h1,h2,h3,fun b _ hb => hm b (by omega)⟩
  | buf p n =>
    have h : p+n ≤ sz := h
    exact fun b _ hb => ⟨by omega,hm b (by omega)⟩

lemma Arg.Inside.store {m : Space} {sz a : ℕ} {x : UInt8} {b : Arg} (h : b.Inside m sz)
    (hx : x = 0 ∨ ∀ p, b = .str p → ¬EndsAt m p a) : b.Inside {m with mem := update m.mem a x} sz := by
  cases b with
  | buf p n => exact h
  | str p =>
    obtain ⟨c,h1,h2,h3⟩ := h
    classical
    -- the first zero
    have hex : ∃ c, p ≤ c ∧ m.mem c = 0 := ⟨c,h1,h3⟩
    obtain ⟨h4,h5⟩ := Nat.find_spec hex
    have hle : Nat.find hex ≤ c := Nat.find_min' hex ⟨h1,h3⟩
    refine ⟨Nat.find hex,h4,by omega,?_⟩
    by_cases ha : Nat.find hex = a
    · rcases hx with rfl | hx
      · simp [ha]
      · refine absurd ⟨ha ▸ h4,ha ▸ h5,fun b hb hba hz => ?_⟩ (hx p rfl)
        have := Nat.find_min' hex ⟨hb,hz⟩
        omega
    · simp [update_of_ne ha,h5]

section
variable {m : Space} {sz : ℕ} {f f' : Frame}

lemma argptr_inside {esp n size : ℕ} {a : Arg} (hsz : sz ≤ 2^31) (h : argptr m sz esp n size = .ok a) : a.Inside m sz := by
  obtain ⟨i,-,h⟩ := ok_of_bind h
  split_ifs at h with hi
  cases h
  change i+size ≤ sz
  omega

lemma Frame.Ok.push (h : f.Ok m sz) {a : Arg} (ha : a.Inside m sz) : Frame.Ok m sz {f with valid := f.valid++[a]} := by
  refine ⟨fun b hb => ?_,h.scan⟩
  rcases mem_append.mp hb with hb | hb
  · exact h.valid b hb
  · rw [mem_singleton.mp hb]
    exact ha

lemma fetchstr_ok {addr : ℕ} (h : f.Ok m sz) (hf : fetchstr sz f addr = .ok f') : f'.Ok m sz := by
  unfold fetchstr at hf
  split_ifs at hf
  cases hf
  refine ⟨h.valid,fun hs => ?_⟩
  cases hs
  exact ⟨le_rfl,rfl⟩

lemma check_ok {c : Check} (hsz : sz ≤ 2^31) (h : f.Ok m sz) (hf : check m sz f c = .ok f') : f'.Ok m sz := by
  cases c with
  | int n =>
    obtain ⟨i,-,hf⟩ := ok_of_bind hf
    cases hf
    exact h
  | str n =>
    obtain ⟨i,-,hf⟩ := ok_of_bind hf
    exact fetchstr_ok h hf
  | buf n size =>
    obtain ⟨a,ha,hf⟩ := ok_of_bind hf
    cases hf
    exact h.push (argptr_inside hsz ha)
  | bufOf n _ | argv n =>
    obtain ⟨i,-,hf⟩ := ok_of_bind hf
    cases hf
    exact ⟨h.valid,h.scan⟩
  | argvAt uargv i =>
    simp only [check] at hf
    split_ifs at hf
    obtain ⟨uarg,-,hf⟩ := ok_of_bind hf
    split_ifs at hf
    · cases hf
      exact h
    · exact fetchstr_ok (f := {f with todo := .argvAt uargv (i+1) :: f.todo}) ⟨h.valid,h.scan⟩ hf

lemma scanByte_ok {p s ep : ℕ} (h : f.Ok m sz) (hs : f.scan = some (p,s,ep)) (hf : scanByte m f p s ep = .ok f') :
    f'.Ok m sz := by
  obtain ⟨h1,h2⟩ := h.scan hs
  unfold scanByte at hf
  split at hf
  · cases hf
  split at hf
  · cases hf
    split_ifs with h0
    · refine ⟨fun a ha => ?_,nofun⟩
      rcases mem_append.mp ha with ha | ha
      · exact h.valid a ha
      · rw [mem_singleton.mp ha]
        exact ⟨s,h1,by omega,h0⟩
    · refine ⟨h.valid,fun hs => ?_⟩
      cases hs
      exact ⟨by omega,h2⟩
  · cases hf

lemma next_ok (hsz : sz ≤ 2^31) (h : f.Ok m sz) (hf : f.next m sz = some (.ok f')) : f'.Ok m sz := by
  unfold Frame.next at hf
  split at hf
  case h_1 p s ep _ hs =>
    exact scanByte_ok h hs (some.inj hf)
  case h_2 c cs hs _ =>
    exact check_ok (f := {f with todo := cs}) hsz ⟨h.valid,h.scan⟩ (some.inj hf)
  · cases hf

end

section
variable {m m' : Space}

lemma allocLoop_mapped {qs : List ℕ} {k : ℕ} {b : Bool} (h : allocLoop qs k m = some (b,m')) :
    (∀ q, m.mapped q = true → m'.mapped q = true) ∧ (b = true → ∀ q ∈ qs, m'.mapped q = true) := by
  induction qs generalizing k m with
  | nil =>
    cases h
    exact ⟨fun _ => id,nofun⟩
  | cons q qs ih =>
    cases k with
    | zero =>
      cases h
      exact ⟨fun _ => id,nofun⟩
    | succ k =>
      unfold allocLoop at h
      split_ifs at h with hq
      obtain ⟨h1,h2⟩ := ih h
      have hself : m'.mapped q = true := h1 q (by simp)
      refine ⟨fun r hr => h1 r ?_,fun hb r hr => ?_⟩
      · by_cases hrq : r = q
        · simp [hrq]
        · simp [hrq,hr]
      · rcases mem_cons.mp hr with rfl | hr
        · exact hself
        · exact h2 hb r hr

lemma growproc_covers {sz sz' k : ℕ} {n : ℤ} (hm : ∀ a, a < sz → m.mapped (page a) = true) (hsz : sz ≤ 2^31)
    (hn : sz+n ≠ 0) (hint : -2^31 ≤ n) (h : growproc m sz n k = some (m',sz')) :
    (∀ a, a < sz' → m'.mapped (page a) = true) ∧ sz' ≤ 2^31 := by
  unfold growproc at h
  split at h
  · dsimp only at h
    split at h
    · cases h
      exact ⟨hm,hsz⟩
    · split at h
      · cases h
      case h_2 m₁ hloop =>
        cases h
        obtain ⟨h1,h2⟩ := allocLoop_mapped hloop
        refine ⟨fun a ha => ?_,by omega⟩
        by_cases hlow : a < pgroundup sz*4096
        · refine h1 _ ?_
          have : page a = page (min a (sz-1)) := by
            unfold page pgroundup at *
            omega
          rw [this]
          refine hm _ ?_
          unfold pgroundup at hlow
          omega
        · refine h2 rfl _ (mem_range'_1.mpr ?_)
          unfold page pgroundup at *
          omega
      case h_3 m₁ hloop =>
        cases h
        obtain ⟨h1,-⟩ := allocLoop_mapped hloop
        refine ⟨fun a ha => ?_,hsz⟩
        have hlow : ¬(pgroundup sz ≤ page a) := by
          unfold page pgroundup
          omega
        simp [deallocuvm,h1 _ (hm a ha),hlow]
  · dsimp only at h
    have h0 : ((sz+n)%2^32).toNat ≠ 0 := by omega
    generalize ((sz+n)%2^32).toNat = newsz at h h0
    split at h
    · cases h
      exact ⟨hm,hsz⟩
    · cases h
      refine ⟨fun a ha => ?_,by omega⟩
      have hlow : ¬(pgroundup sz' ≤ page a) := by
        unfold page pgroundup
        omega
      simp [deallocuvm,hm a (by omega),hlow]

end

section
variable [DecidableEq T] {s s' : State T} {t : T}

lemma Valid.setProc {p : Proc} (hV : Valid s) (hdir : p.dir < s.nextdir) (hsz : p.sz ≤ 2^31)
    (hm : ∀ a, a < p.sz → (s.space p.dir).mapped (page a) = true)
    (hf : ∀ f, p.frame = some f → f.Ok (s.space p.dir) p.sz) : Valid (s.setProc t (some p)) := by
  have hother : ∀ {u q}, (s.setProc t (some p)).proc u = some q → q = p ∨ s.proc u = some q := fun {u q} hu => by
    by_cases hut : u = t
    · simp only [State.setProc,hut,update_self] at hu
      exact .inl (some.inj hu).symm
    · simp only [State.setProc,update_of_ne hut] at hu
      exact .inr hu
  refine ⟨fun {u q} hu => ?_,fun {u q} hu => ?_,fun {u q} hu => ?_,fun {u q f} hu hq => ?_⟩
  · rcases hother hu with rfl | hu
    · exact hm
    · exact hV.covered hu
  · rcases hother hu with rfl | hu
    · exact hdir
    · exact hV.fresh hu
  · rcases hother hu with rfl | hu
    · exact hsz
    · exact hV.below hu
  · rcases hother hu with rfl | hu
    · exact hf f hq
    · exact hV.frame hu hq

lemma Valid.setFrame {d sz : ℕ} {o o' : Option Frame} (hV : Valid s) (ht : s.proc t = some ⟨d,sz,o⟩)
    (hf : ∀ f, o' = some f → f.Ok (s.space d) sz) : Valid (s.setProc t (some ⟨d,sz,o'⟩)) := by
  have h1 := hV.fresh ht
  have h2 := hV.below ht
  have h3 := hV.covered ht
  exact hV.setProc h1 h2 h3 hf

omit [DecidableEq T] in
lemma Valid.setSpace {d : ℕ} {m : Space} (hV : Valid s)
    (hm : ∀ u q, s.proc u = some q → q.dir = d → (∀ a, a < q.sz → m.mapped (page a) = true) ∧
      ∀ f, q.frame = some f → f.Ok m q.sz) : Valid (s.setSpace d m) := by
  have hspace : ∀ e, e ≠ d → (s.setSpace d m).space e = s.space e := fun e he => update_of_ne he ..
  have hself : (s.setSpace d m).space d = m := update_self ..
  refine ⟨fun {u q} hu => ?_,hV.fresh,hV.below,fun {u q f} hu hq => ?_⟩
  · by_cases hd : q.dir = d
    · rw [hd,hself]
      exact (hm u q hu hd).1
    · rw [hspace _ hd]
      exact hV.covered hu
  · by_cases hd : q.dir = d
    · rw [hd,hself]
      exact (hm u q hu hd).2 f hq
    · rw [hspace _ hd]
      exact hV.frame hu hq

omit [DecidableEq T] in
lemma valid_store {p : Proc} {a : ℕ} {x : UInt8} (hV : Valid s) (ht : s.proc t = some p) (hok : careful s (.store t a x)) :
    Valid (s.setSpace p.dir {s.space p.dir with mem := update (s.space p.dir).mem a x}) := by
  refine hV.setSpace fun u q hu hd => ⟨?_,fun f hf => ⟨fun b hb => ?_,(hV.frame hu hf).scan⟩⟩
  · rw [← hd]
    exact hV.covered hu
  · have hin := (hV.frame hu hf).valid b hb
    rw [hd] at hin
    refine hin.store (hok.imp_right fun h y hy => ?_)
    rw [hy] at hb
    exact h p ht u q f y hu hd hf hb

lemma valid_sbrk {d sz k sz' : ℕ} {n : ℤ} {m : Space} (hV : Valid s) (ht : s.proc t = some ⟨d,sz,none⟩)
    (hok : careful s (.sbrk t n k)) (hint : -2^31 ≤ n) (h : growproc (s.space d) sz n k = some (m,sz')) :
    Valid ((s.setSpace d m).setProc t (some ⟨d,sz',none⟩)) := by
  obtain ⟨hn,halone⟩ := hok _ ht
  have hdir : d < s.nextdir := hV.fresh ht
  obtain ⟨hm,hsz⟩ := growproc_covers (hV.covered ht) (hV.below ht) hn hint h
  have hself : (s.setSpace d m).space d = m := update_self ..
  have hspace : ∀ e, e ≠ d → (s.setSpace d m).space e = s.space e := fun e he => update_of_ne he ..
  have hother : ∀ {u q}, ((s.setSpace d m).setProc t (some ⟨d,sz',none⟩)).proc u = some q →
      q = ⟨d,sz',none⟩ ∨ s.proc u = some q ∧ q.dir ≠ d := fun {u q} hu => by
    by_cases hut : u = t
    · simp only [setProc,hut,update_self] at hu
      exact .inl (some.inj hu).symm
    · simp only [setProc,update_of_ne hut] at hu
      exact .inr ⟨hu,halone u q hut hu⟩
  refine ⟨fun {u q} hu => ?_,fun {u q} hu => ?_,fun {u q} hu => ?_,fun {u q f} hu hq => ?_⟩
  · rcases hother hu with rfl | ⟨hu,hd⟩
    · change ∀ a, a < sz' → ((s.setSpace d m).space d).mapped (page a) = true
      rw [hself]
      exact hm
    · change ∀ a, a < q.sz → ((s.setSpace d m).space q.dir).mapped (page a) = true
      rw [hspace _ hd]
      exact hV.covered hu
  · rcases hother hu with rfl | ⟨hu,-⟩
    · exact hdir
    · exact hV.fresh hu
  · rcases hother hu with rfl | ⟨hu,-⟩
    · exact hsz
    · exact hV.below hu
  · rcases hother hu with rfl | ⟨hu,hd⟩
    · cases hq
    · change f.Ok ((s.setSpace d m).space q.dir) q.sz
      rw [hspace _ hd]
      exact hV.frame hu hq

lemma valid_fork {u : T} {d sz : ℕ} (hV : Valid s) (ht : s.proc t = some ⟨d,sz,none⟩) :
    Valid {(s.setSpace s.nextdir {s.space d with mapped := fun q => decide (q < pgroundup sz)}).setProc u
      (some ⟨s.nextdir,sz,none⟩) with nextdir := s.nextdir+1} := by
  have hnew := hV.setSpace (d := s.nextdir) (m := {s.space d with mapped := fun q => decide (q < pgroundup sz)})
    fun v q hv hq => absurd hq (Nat.ne_of_lt (hV.fresh hv))
  have hgrown : Valid {s.setSpace s.nextdir {s.space d with mapped := fun q => decide (q < pgroundup sz)} with
      nextdir := s.nextdir+1} := ⟨hnew.covered,fun hv => Nat.lt_succ_of_lt (hV.fresh hv),hnew.below,hnew.frame⟩
  have hsz : sz ≤ 2^31 := hV.below ht
  refine hgrown.setProc (p := ⟨s.nextdir,sz,none⟩) (Nat.lt_succ_self _) hsz (fun a ha => ?_) nofun
  have : page a < pgroundup sz := by
    unfold page pgroundup
    change a < sz at ha
    omega
  simp [setSpace,this]

lemma valid_step {l : Label T} (hV : Valid s) (hok : careful s l) (h : s.step l = some s') : Valid s' := by
  cases l with
  | call t c esp =>
    simp only [step] at h
    split at h
    case h_1 d sz ht =>
      cases h
      refine hV.setFrame ht fun f hf => ?_
      cases hf
      exact ⟨nofun,nofun⟩
    · cases h
  | run t =>
    simp only [step] at h
    split at h
    case h_1 d sz f ht =>
      split at h
      case h_1 f' hf =>
        cases h
        refine hV.setFrame ht fun g hg => ?_
        cases hg
        exact next_ok (hV.below ht) (hV.frame ht rfl) hf
      · cases h
        exact hV.setFrame ht nofun
      · cases h
    · cases h
  | ret t =>
    simp only [step] at h
    split at h
    case h_1 d sz f ht =>
      cases h
      exact hV.setFrame ht nofun
    · cases h
  | store t a x =>
    simp only [step] at h
    split at h
    case h_1 p ht =>
      split_ifs at h
      cases h
      exact valid_store hV ht hok
    · cases h
  | sbrk t n k =>
    simp only [step] at h
    split at h
    case h_1 d sz ht =>
      split_ifs at h with hint
      obtain ⟨r,hr,rfl⟩ := map_eq_some_iff.mp h
      exact valid_sbrk hV ht hok hint.1 hr
    · cases h
  | clone t u =>
    simp only [step] at h
    split at h
    case h_1 d sz ht _ =>
      cases h
      exact hV.setProc (hV.fresh ht) (hV.below ht) (hV.covered ht) nofun
    · cases h
  | fork t u =>
    simp only [step] at h
    split at h
    case h_1 d sz ht _ =>
      cases h
      exact valid_fork hV ht
    · cases h
  | exit t =>
    simp only [step] at h
    split at h
    · cases h
      have hother : ∀ {u q}, (s.setProc t none).proc u = some q → s.proc u = some q := fun {u q} hu => by
        by_cases hut : u = t
        · simp [setProc,hut] at hu
        · simpa only [setProc,update_of_ne hut] using hu
      exact ⟨fun hu => hV.covered (hother hu),fun hu => hV.fresh (hother hu),fun hu => hV.below (hother hu),
        fun hu => hV.frame (hother hu)⟩
    · cases h

end

variable [DecidableEq T]

lemma reach_valid {s : State T} (h : (threads T).ReachWhile careful s) : Valid s := by
  refine System.ReachWhile.invariant (I := Valid) (fun s h0 => ?_) (fun s l s' hV hok h => valid_step hV hok h) h
  refine ⟨fun hp => (h0.proc _ _ hp).2.2.2,fun hp => (h0.proc _ _ hp).2.1,fun hp => (h0.proc _ _ hp).2.2.1,fun hp hf => ?_⟩
  rw [(h0.proc _ _ hp).1] at hf
  cases hf

open scoped FixedRuns

/-- One process with a page of memory: the word at 4 points to the last byte, which is 0, and all other bytes are 1. -/
def booted : State (Fin 2) where
  space _ := ⟨fun q => q == 0,fun a => if a = 4 then 255 else if a = 5 then 15 else if a = 6 ∨ a = 7 ∨ a = 4095 then 0 else 1⟩
  proc t := if t = 0 then some ⟨0,4096,none⟩ else none
  nextdir := 1

lemma booted_start : Start booted := by
  refine ⟨fun t p hp => ?_,fun t u p q hp hq => ?_⟩
  · simp only [booted] at hp
    split_ifs at hp
    cases hp
    refine ⟨rfl,by decide,by decide,fun a ha => ?_⟩
    have : page a = 0 := by
      unfold page
      change a < 4096 at ha
      omega
    simp [booted,this]
  · simp only [booted] at hp hq
    split_ifs at hp hq with h1 h2
    rw [h1,h2]

/-- Two threads, one in `unlink` with its path validated. -/
def unlinking : List (Label (Fin 2)) := [.clone 0 1,.call 0 .unlink 0,.run 0,.run 0]

end Xv6Threads.Uaccess
