import Xv6Threads.Files.Counts

/-! The life of a pipe. Each of its ends belongs to one open file, or to the `pipeclose` that its last
`fileclose` calls, until that has been done; the page is freed by the second of the two. -/
namespace Xv6Threads.Files
open Function Nat State Pc
variable {P F : Type}

def Ftype.has (e : End) (y : Ftype) : ℕ := if y = .pipe e then 1 else 0

/-- The process is about to call `pipeclose` for this end. -/
def Pc.closes (e : End) : Pc P F → ℕ
  | .tail ff _ => ff.has e
  | _ => 0

/-- The process is about to free this pipe. -/
def Pc.frees (p : ℕ) : Pc P F → ℕ
  | .kfree p' _ => if p' = p then 1 else 0
  | _ => 0

section
variable [Fintype P] [Fintype F]

/-- The open files of an end, and the calls of `pipeclose` for it that are to come. -/
def holders (s : State P F) (e : End) : ℕ :=
  total (fun _ (y : File) => y.type.has e) s.file+total (fun _ (x : Proc P F) => x.pc.closes e) s.proc

/-- The calls of `kfree` for a pipe that are to come. -/
def freers (s : State P F) (p : ℕ) : ℕ := total (fun _ (x : Proc P F) => x.pc.frees p) s.proc

end

/-- What holds of pipes, given the holders of their ends and the calls of `kfree` to come. -/
structure Sound (H : End → ℕ) (K : ℕ → ℕ) (pipe : ℕ → Pipe) (pipes : ℕ) : Prop where
  ends : ∀ e : End, e.pipe < pipes → H e+(pipe e.pipe).closes e.writable = 1
  none : ∀ e : End, pipes ≤ e.pipe → H e = 0
  new : ∀ p, pipes ≤ p → pipe p = newPipe
  opened : ∀ p w, (pipe p).opened w = decide ((pipe p).closes w = 0)
  frees : ∀ p, (pipe p).frees+K p = (pipe p).closes false*(pipe p).closes true

section
variable {H H' : End → ℕ} {K K' : ℕ → ℕ} {pipe : ℕ → Pipe} {pipes : ℕ}

lemma Sound.add (h : Sound H K pipe pipes)
    (hH : ∀ e, H' e = H e+(if e = ⟨pipes,false⟩ then 1 else 0)+(if e = ⟨pipes,true⟩ then 1 else 0)) :
    Sound H' K (update pipe pipes newPipe) (pipes+1) := by
  have hold : ∀ e : End, e.pipe ≠ pipes → H' e = H e := by
    intro e he
    rw [hH,if_neg fun h => he (by rw [h]),if_neg fun h => he (by rw [h])]
    rfl
  have hpipe : update pipe pipes newPipe = pipe := by rw [← h.new pipes le_rfl,update_eq_self]
  rw [hpipe]
  refine ⟨fun e he => ?_,fun e he => ?_,fun p hp => h.new p (by omega),h.opened,h.frees⟩
  · by_cases hp : e.pipe = pipes
    · obtain ⟨p,w⟩ := e
      dsimp only at hp
      subst hp
      rw [hH,h.none _ le_rfl,h.new _ le_rfl]
      cases w <;> simp [newPipe]
    · rw [hold e hp]
      exact h.ends e (by omega)
  · rw [hold e (by omega)]
    exact h.none e (by omega)

section
variable {e : End} (h : Sound H K pipe pipes) (he : 0 < H e)
include h he

lemma Sound.held : e.pipe < pipes ∧ H e = 1 ∧ (pipe e.pipe).closes e.writable = 0 := by
  have hlt : e.pipe < pipes := by
    by_contra hn
    have := h.none e (by omega)
    omega
  have := h.ends e hlt
  exact ⟨hlt,by omega,by omega⟩

lemma Sound.close
    (hH : ∀ e', H' e'+(if e' = e then 1 else 0) = H e')
    (hK : ∀ p, K' p = K p+(if p = e.pipe ∧ (pipe e.pipe).closes (!e.writable) ≠ 0 then 1 else 0)) :
    Sound H' K' (update pipe e.pipe ((pipe e.pipe).close e.writable)) pipes := by
  obtain ⟨hlt,hone,hzero⟩ := h.held he
  have hclose : ∀ w, ((pipe e.pipe).close e.writable).closes w = if w = e.writable then 1 else (pipe e.pipe).closes w := by
    intro w
    unfold Pipe.close
    by_cases hw : w = e.writable
    · rw [if_pos hw,hw]
      dsimp only
      rw [update_self,hzero]
    · rw [if_neg hw]
      dsimp only
      rw [update_of_ne hw]
  refine ⟨fun e' he' => ?_,fun e' he' => ?_,fun p hp => ?_,fun p w => ?_,fun p => ?_⟩
  · have h1 := h.ends e' he'
    have h2 := hH e'
    by_cases hp : e'.pipe = e.pipe
    · rw [hp,update_self,hclose]
      rw [hp] at h1
      by_cases hw : e'.writable = e.writable
      · have hee : e' = e := by
          cases e'
          cases e
          dsimp only at hp hw
          rw [hp,hw]
        rw [if_pos hee] at h2
        rw [if_pos hw]
        rw [hee] at h2 ⊢
        omega
      · rw [if_neg fun hc => hw (by rw [hc])] at h2
        rw [if_neg hw]
        omega
    · rw [if_neg fun hc => hp (by rw [hc])] at h2
      rw [update_of_ne hp]
      omega
  · have h1 := h.none e' he'
    have h2 := hH e'
    omega
  · rw [update_of_ne (by omega)]
    exact h.new p hp
  · by_cases hp : p = e.pipe
    · rw [hp,update_self,hclose]
      unfold Pipe.close
      by_cases hw : w = e.writable
      · rw [hw]
        dsimp only
        rw [update_self,if_pos rfl]
        rfl
      · dsimp only
        rw [update_of_ne hw,if_neg hw]
        exact h.opened _ _
    · rw [update_of_ne hp]
      exact h.opened p w
  · have h1 := h.frees p
    have h2 := hK p
    by_cases hp : p = e.pipe
    · rw [hp] at h1 h2 ⊢
      have hother := h.ends ⟨e.pipe,!e.writable⟩ hlt
      rw [update_self,hclose,hclose]
      change (pipe e.pipe).frees+_ = _
      dsimp only at hother
      cases hw : e.writable with
      | false =>
        rw [hw] at hzero h2 hother
        simp only [Bool.not_false,true_and] at h2 hother
        rw [hzero,zero_mul] at h1
        simp only [if_true,reduceCtorEq,if_false,one_mul]
        split_ifs at h2 <;> omega
      | true =>
        rw [hw] at hzero h2 hother
        simp only [Bool.not_true,true_and] at h2 hother
        rw [hzero,mul_zero] at h1
        simp only [if_true,reduceCtorEq,if_false,mul_one]
        split_ifs at h2 <;> omega
    · rw [if_neg fun hc => hp hc.1] at h2
      rw [update_of_ne hp]
      omega

end

lemma Sound.free {p : ℕ} (h : Sound H K pipe pipes) (hK : ∀ p', K' p'+(if p' = p then 1 else 0) = K p') :
    Sound H K' (update pipe p {pipe p with frees := (pipe p).frees+1}) pipes := by
  have hp : p < pipes := by
    by_contra hn
    have h1 := h.frees p
    have h2 := hK p
    rw [h.new p (by omega)] at h1
    rw [if_pos rfl] at h2
    simp [newPipe] at h1
    omega
  have hcloses : ∀ p', (update pipe p {pipe p with frees := (pipe p).frees+1} p').closes = (pipe p').closes := by
    intro p'
    by_cases h : p' = p
    · rw [h,update_self]
    · rw [update_of_ne h]
  refine ⟨fun e he => ?_,h.none,fun q hq => ?_,fun q w => ?_,fun q => ?_⟩
  · rw [hcloses]
    exact h.ends e he
  · rw [update_of_ne (by omega)]
    exact h.new q hq
  · rw [hcloses]
    by_cases hqp : q = p
    · rw [hqp,update_self]
      exact h.opened p w
    · rw [update_of_ne hqp]
      exact h.opened q w
  · have h1 := h.frees q
    have h2 := hK q
    rw [hcloses]
    by_cases hqp : q = p
    · rw [hqp,update_self]
      rw [hqp] at h1 h2
      rw [if_pos rfl] at h2
      dsimp only
      omega
    · rw [update_of_ne hqp]
      rw [if_neg hqp] at h2
      omega

end

variable [Fintype P] [Fintype F] [DecidableEq F] {s s' : State P F}

/-- What holds of the pipes of a state. -/
def Piped (s : State P F) : Prop := Sound (holders s) (freers s) s.pipe s.pipes

omit [Fintype P] [Fintype F] in
lemma setRef_type (f g : F) (r : ℕ) : ((s.setRef f r).file g).type = (s.file g).type := by
  unfold setRef
  by_cases h : g = f
  · rw [h]
    dsimp only
    rw [update_self]
  · dsimp only
    rw [update_of_ne h]

/-- Neither kind of process weight. -/
def Pc.plain : Pc P F → Bool
  | .tail _ _ | .kfree _ _ => false
  | _ => true

section
omit [Fintype P] [Fintype F] [DecidableEq F]

variable {pc : Pc P F} (h : pc.plain = true)
include h

lemma closes_plain (e : End) : pc.closes e = 0 := by
  cases pc with
  | tail => cases h
  | _ => rfl

lemma frees_plain (p : ℕ) : pc.frees p = 0 := by
  cases pc with
  | kfree => cases h
  | _ => rfl

end

lemma pipe_has (e e' : End) : (Ftype.pipe e).has e' = if e' = e then 1 else 0 := by
  unfold Ftype.has
  simp only [Ftype.pipe.injEq,eq_comm]

omit [Fintype P] [Fintype F] [DecidableEq F] in
lemma has_self (k : After F) (o : ℕ → Option F) (e : End) :
    (⟨.tail (.pipe e) k,o⟩ : Proc P F).pc.closes e = 1 := if_pos rfl

lemma close_opened (p : Pipe) (w : Bool) :
    ((p.close w).opened false = false ∧ (p.close w).opened true = false) ↔ p.opened (!w) = false := by
  cases w <;> simp [Pipe.close,update]

omit [Fintype P] [Fintype F] [DecidableEq F] in
lemma back_plain (k : After F) (o : ℕ → Option F) : (k.back o : Proc P F).pc.plain = true := by cases k <;> rfl

variable [DecidableEq P] {t : P} {s1 : State P F} {x : Proc P F}

omit [DecidableEq F] in
lemma holders_set (hproc : s1.proc = s.proc) (e : End) :
    holders (s1.set t x) e+(s.proc t).pc.closes e+total (fun _ (y : File) => y.type.has e) s.file =
      holders s e+x.pc.closes e+total (fun _ (y : File) => y.type.has e) s1.file := by
  have h := total_update (fun _ (x : Proc P F) => x.pc.closes e) s.proc t x
  unfold holders State.set
  rw [hproc]
  dsimp only at h ⊢
  omega

omit [Fintype F] [DecidableEq F] in
lemma freers_set (hproc : s1.proc = s.proc) (p : ℕ) :
    freers (s1.set t x) p+(s.proc t).pc.frees p = freers s p+x.pc.frees p := by
  have h := total_update (fun _ (x : Proc P F) => x.pc.frees p) s.proc t x
  unfold freers State.set
  rw [hproc]
  exact h

omit [DecidableEq F] in
lemma piped_same (hI : Piped s) (hproc : s1.proc = s.proc) (hpipe : s1.pipe = s.pipe) (hpipes : s1.pipes = s.pipes)
    (htype : ∀ e g, ((s1.file g).type).has e = ((s.file g).type).has e)
    (hcl : ∀ e, x.pc.closes e = (s.proc t).pc.closes e) (hfr : ∀ p, x.pc.frees p = (s.proc t).pc.frees p) :
    Piped (s1.set t x) := by
  have hH : holders (s1.set t x) = holders s := by
    funext e
    have := holders_set (t := t) (x := x) hproc e
    rw [total_congr (w := fun _ (y : File) => y.type.has e) (f := s1.file) (g := s.file) (htype e), hcl] at this
    omega
  have hK : freers (s1.set t x) = freers s := by
    funext p
    have := freers_set (t := t) (x := x) hproc p
    rw [hfr] at this
    omega
  unfold Piped
  rw [hH,hK]
  change Sound (holders s) (freers s) s1.pipe s1.pipes
  rw [hpipe,hpipes]
  exact hI

omit [Fintype P] [DecidableEq P] in
lemma addPipe_has (hne : f0 ≠ f1) (h0 : (s.file f0).type = .none) (h1 : (s.file f1).type = .none) (e : End) :
    total (fun _ (y : File) => y.type.has e) (s.addPipe f0 f1).file =
      total (fun _ (y : File) => y.type.has e) s.file+(if e = ⟨s.pipes,false⟩ then 1 else 0)+
        (if e = ⟨s.pipes,true⟩ then 1 else 0) := by
  have hhas := fun e' => pipe_has e' e
  have hnone : Ftype.none.has e = 0 := rfl
  have t0 := total_update (fun _ (y : File) => y.type.has e) s.file f0 ⟨(s.file f0).ref,.pipe ⟨s.pipes,false⟩⟩
  have t1 := total_update (fun _ (y : File) => y.type.has e) (s.setType f0 (.pipe ⟨s.pipes,false⟩)).file f1
    ⟨((s.setType f0 (.pipe ⟨s.pipes,false⟩)).file f1).ref,.pipe ⟨s.pipes,true⟩⟩
  have hf1 : (s.setType f0 (.pipe ⟨s.pipes,false⟩)).file f1 = s.file f1 := update_of_ne (Ne.symm hne) ..
  rw [hf1] at t1
  dsimp only at t0 t1
  rw [h0,hhas,hnone] at t0
  rw [h1,hhas,hnone] at t1
  have hadd : (s.addPipe f0 f1).file = update (s.setType f0 (.pipe ⟨s.pipes,false⟩)).file f1
      ⟨(s.file f1).ref,.pipe ⟨s.pipes,true⟩⟩ := by
    rw [← hf1]
    rfl
  have hset : (s.setType f0 (.pipe ⟨s.pipes,false⟩)).file =
      update s.file f0 ⟨(s.file f0).ref,.pipe ⟨s.pipes,false⟩⟩ := rfl
  rw [hadd]
  rw [hset] at t1 ⊢
  omega

lemma piped_move (hC : Counted s) (hI : Piped s) (h : Acts s (s.proc t) s1 x) : Piped (s1.set t x) := by
  have hproc := acts_proc h
  have hH := fun e => holders_set (t := t) (x := x) hproc e
  have hK := fun p => freers_set (t := t) (x := x) hproc p
  have hfresh := hC.fresh t
  have hlive := fun f => weight_le_total (fun _ (x : Proc P F) => x.live f) s.proc t
  have hclose := fun e => weight_le_total (fun _ (x : Proc P F) => x.pc.closes e) s.proc t
  generalize hy : s.proc t = y at h hH hK hfresh hlive hclose
  cases h with
  | dup => exact piped_same hI rfl rfl rfl (fun e g => by rw [setRef_type]) (fun e => by rw [hy]) (fun p => by rw [hy])
  | openAlloc | pipe0 | pipe1 =>
    exact piped_same hI rfl rfl rfl (fun e g => by rw [setRef_type]) (fun e => by rw [hy]; rfl) (fun p => by rw [hy]; rfl)
  | drop o f k hr =>
    exact piped_same hI rfl rfl rfl (fun e g => by rw [setRef_type])
      (fun e => by rw [hy]; exact closes_plain (back_plain k o) e) (fun p => by rw [hy]; exact frees_plain (back_plain k o) p)
  | openSet o f =>
    refine piped_same hI rfl rfl rfl (fun e g => ?_) (fun e => by rw [hy]; rfl) (fun p => by rw [hy]; rfl)
    by_cases hg : g = f
    · have h0 : s.file f = ⟨1,.none⟩ := hfresh f (List.mem_singleton_self f)
      have h1 : (s.setType f .inode).file f = ⟨(s.file f).ref,.inode⟩ := update_self ..
      rw [hg,h0,h1]
      rfl
    · have h1 : (s.setType f .inode).file g = s.file g := update_of_ne hg ..
      rw [h1]
  | pipe2 o f0 f1 =>
    have h0 : s.file f0 = ⟨1,.none⟩ := hfresh f0 (by simp [fresh])
    have h1 : s.file f1 = ⟨1,.none⟩ := hfresh f1 (by simp [fresh])
    have hne : f0 ≠ f1 := by
      intro he
      have hl := hlive f0
      have hr := hC.refs f0
      have hcount : (⟨.pipe2 f0 f1,o⟩ : Proc P F).live f0 = among o f0+2 := by
        change among o f0+[f0,f1].count f0 = _
        rw [count_two,← he,if_pos rfl]
      rw [hcount] at hl
      rw [h0] at hr
      dsimp only at hr
      omega
    have hsum : ∀ e, holders ((s.addPipe f0 f1).set t ⟨.pipeFd f0 f1,o⟩) e =
        holders s e+(if e = ⟨s.pipes,false⟩ then 1 else 0)+(if e = ⟨s.pipes,true⟩ then 1 else 0) := by
      intro e
      have h2 := hH e
      have h3 := addPipe_has hne (by rw [h0]) (by rw [h1]) e
      rw [closes_plain rfl,closes_plain rfl] at h2
      omega
    have hfr : freers ((s.addPipe f0 f1).set t ⟨.pipeFd f0 f1,o⟩) = freers s := by
      funext p
      have h2 := hK p
      rw [frees_plain rfl,frees_plain rfl] at h2
      omega
    unfold Piped
    rw [hfr]
    exact Sound.add hI hsum
  | last o f k hr =>
    have hsame : holders ((s.clear f).set t ⟨.tail (s.file f).type k,o⟩) = holders s := by
      funext e
      have h2 := hH e
      have h3 := total_update (fun _ (y : File) => y.type.has e) s.file f ⟨0,.none⟩
      have h4 : (s.clear f).file = update s.file f ⟨0,.none⟩ := rfl
      have h5 : Ftype.none.has e = 0 := rfl
      have h6 : (tail (s.file f).type k : Pc P F).closes e = (s.file f).type.has e := rfl
      have h7 : (drop f k : Pc P F).closes e = 0 := rfl
      rw [h4] at h2
      dsimp only at h2 h3
      omega
    have hfr : freers ((s.clear f).set t ⟨.tail (s.file f).type k,o⟩) = freers s := by
      funext p
      exact hK p
    unfold Piped
    rw [hsame,hfr]
    exact hI
  | pipeclose o e k hw =>
    have hheld : 0 < holders s e := Nat.lt_add_left _ (Nat.lt_of_lt_of_le (by rw [has_self]; exact Nat.one_pos) (hclose e))
    refine Sound.close hI hheld (fun e' => ?_) (fun p => ?_)
    · have h2 := hH e'
      rw [closes_plain (back_plain k o)] at h2
      change _+(Ftype.pipe e).has e'+_ = _ at h2
      rw [pipe_has] at h2
      dsimp only [setPipe] at h2 ⊢
      omega
    · have h2 := hK p
      rw [frees_plain (back_plain k o)] at h2
      rw [if_neg fun hc => hw ((close_opened _ _).mpr ?_)]
      · exact h2
      · rw [hI.opened]
        exact decide_eq_false hc.2
  | pipelast o e k hw =>
    have hheld : 0 < holders s e := Nat.lt_add_left _ (Nat.lt_of_lt_of_le (by rw [has_self]; exact Nat.one_pos) (hclose e))
    have hother := (close_opened _ _).mp hw
    rw [hI.opened] at hother
    refine Sound.close hI hheld (fun e' => ?_) (fun p => ?_)
    · have h2 := hH e'
      change _+(Ftype.pipe e).has e'+_ = _+0+_ at h2
      rw [pipe_has] at h2
      dsimp only [setPipe] at h2 ⊢
      omega
    · have h2 := hK p
      change _+0 = _+(if e.pipe = p then 1 else 0) at h2
      rw [add_zero] at h2
      rw [h2]
      congr 1
      exact if_congr ⟨fun h => ⟨h.symm,of_decide_eq_false hother⟩,fun h => h.1.symm⟩ rfl rfl
  | closed o ff k hff =>
    refine piped_same hI rfl rfl rfl (fun e g => rfl) (fun e => ?_) (fun p => ?_)
    · rw [hy,closes_plain (back_plain k o)]
      exact (if_neg (hff e)).symm
    · rw [hy,frees_plain (back_plain k o)]
      rfl
  | kfree o p k =>
    have hsame : holders ((s.setPipe p {s.pipe p with frees := (s.pipe p).frees+1}).set t (k.back o)) = holders s := by
      funext e
      have h2 := hH e
      rw [closes_plain (back_plain k o)] at h2
      change _+0+_ = _+0+_ at h2
      dsimp only [setPipe] at h2 ⊢
      omega
    unfold Piped
    rw [hsame]
    refine Sound.free hI (fun p' => ?_)
    have h2 := hK p'
    rw [frees_plain (back_plain k o)] at h2
    change _+(if p = p' then 1 else 0) = _+0 at h2
    rw [← add_zero (freers s p'),← h2]
    congr 1
    exact if_congr eq_comm rfl rfl
  | _ => exact piped_same hI rfl rfl rfl (fun e g => rfl) (fun e => by rw [hy]; rfl) (fun p => by rw [hy]; rfl)

omit [DecidableEq F] in
lemma piped_pair {q : P} {y : Proc P F} (hI : Piped s) (htq : t ≠ q) (hproc : s1.proc = s.proc)
    (hpipe : s1.pipe = s.pipe) (hpipes : s1.pipes = s.pipes)
    (htype : ∀ e g, ((s1.file g).type).has e = ((s.file g).type).has e) (ht : (s.proc t).pc.plain = true)
    (hq : (s.proc q).pc.plain = true) (hx : x.pc.plain = true) (hy : y.pc.plain = true) :
    Piped ((s1.set q y).set t x) := by
  have hchild : Piped (s1.set q y) :=
    piped_same hI hproc hpipe hpipes htype (fun e => by rw [closes_plain hy,closes_plain hq])
      (fun p => by rw [frees_plain hy,frees_plain hq])
  have htt : ((s1.set q y).proc t).pc.plain = true := by
    unfold State.set
    dsimp only
    rw [update_of_ne htq,hproc]
    exact ht
  exact piped_same hchild rfl rfl rfl (fun _ _ => rfl) (fun e => by rw [closes_plain hx,closes_plain htt])
    (fun p => by rw [frees_plain hx,frees_plain htt])

lemma piped_step (hC : Counted s) (hI : Piped s) (h : Steps s s') : Piped s' := by
  cases h with
  | refl => exact hI
  | move t s1 x h => exact piped_move hC hI h
  | fork t q o o' ht hq =>
    have htq : t ≠ q := fun h => by rw [h,hq] at ht; cases ht
    exact piped_pair hI htq rfl rfl rfl (fun _ _ => rfl) (by rw [ht]; rfl) (by rw [hq]; rfl) rfl rfl
  | undo t q o ht =>
    obtain ⟨he,-⟩ := hC.child t q 0 (by rw [ht]; rfl)
    have htq : t ≠ q := fun h => by rw [← h,ht] at he; cases he
    exact piped_pair hI htq rfl rfl rfl (fun _ _ => rfl) (by rw [ht]; rfl) (by rw [he]; rfl) rfl rfl
  | copy t q i f o ht hi ho hr =>
    obtain ⟨he,-⟩ := hC.child t q i (by rw [ht]; rfl)
    have htq : t ≠ q := fun h => by rw [← h,ht] at he; cases he
    exact piped_pair hI htq rfl rfl rfl (fun e g => by rw [setRef_type]) (by rw [ht]; rfl) (by rw [he]; rfl) rfl
      (by rw [he]; rfl)
  | finish t q i o ht hi =>
    obtain ⟨he,-⟩ := hC.child t q i (by rw [ht]; rfl)
    have htq : t ≠ q := fun h => by rw [← h,ht] at he; cases he
    exact piped_pair hI htq rfl rfl rfl (fun _ _ => rfl) (by rw [ht]; rfl) (by rw [he]; rfl) rfl rfl

omit [Fintype F] [DecidableEq P] in
lemma counted_boot (h : Boot s) : Counted s := by
  have hpc : ∀ t, (s.proc t).pc.locals = [] ∧ (s.proc t).slots = (s.proc t).ofile ∧ (s.proc t).pc.fresh = [] ∧
      (s.proc t).pc.child = none := by
    intro t
    unfold Proc.slots
    rcases h.quiet t with hq | hq <;> rw [hq] <;> exact ⟨rfl,rfl,rfl,rfl⟩
  refine ⟨fun t => ⟨fun fd _ => h.closed t fd,fun _ => h.closed t,fun fd _ i _ => h.closed t i,fun fd f hf => ?_,
    fun f hf => ?_⟩,fun f => ?_,fun t q i hc => ?_,fun t u q i j hc => ?_,fun t f hf => ?_,fun f _ => ?_⟩
  · rcases h.quiet t with hq | hq <;> rw [hq] at hf <;> cases hf
  · rcases h.quiet t with hq | hq <;> rw [hq] at hf <;> cases hf
  · rw [h.file]
    refine (total_eq_zero fun t => ?_).symm
    obtain ⟨h1,h2,-,-⟩ := hpc t
    unfold Proc.live among
    rw [h1,h2]
    refine Nat.add_eq_zero_iff.mpr ⟨List.countP_eq_zero.mpr fun fd _ => ?_,rfl⟩
    rw [h.closed]
    simp
  · rw [(hpc t).2.2.2] at hc
    cases hc
  · rw [(hpc t).2.2.2] at hc
    cases hc
  · rw [(hpc t).2.2.1] at hf
    cases hf
  · rw [h.file]

omit [DecidableEq F] [DecidableEq P] in
lemma piped_boot (h : Boot s) : Piped s := by
  have hplain : ∀ t, (s.proc t).pc.plain = true := by
    intro t
    rcases h.quiet t with hq | hq <;> rw [hq] <;> rfl
  have hH : ∀ e, holders s e = 0 := by
    intro e
    refine Nat.add_eq_zero_iff.mpr ⟨total_eq_zero fun f => ?_,total_eq_zero fun t => closes_plain (hplain t) e⟩
    rw [h.file]
    rfl
  refine ⟨fun e he => ?_,fun e _ => hH e,fun p _ => h.pipe p,fun p w => ?_,fun p => ?_⟩
  · rw [h.pipes] at he
    exact (not_lt_zero _ he).elim
  · rw [h.pipe]
    rfl
  · have hK : freers s p = 0 :=
      total_eq_zero (w := fun _ (x : Proc P F) => x.pc.frees p) fun t => frees_plain (hplain t) p
    rw [h.pipe,hK]
    rfl

lemma reach_piped {ok : State P F → Label P F → Prop} (h : (files P F).ReachWhile ok s) : Counted s ∧ Piped s :=
  System.ReachWhile.invariant (I := fun s => Counted s ∧ Piped s)
    (fun s (hs : Boot s) => ⟨counted_boot hs,piped_boot hs⟩)
    (fun _ _ _ hI _ ht => ⟨counted_step hI.1 (step_cases ht),piped_step hI.1 hI.2 (step_cases ht)⟩) h

omit [Fintype F] [DecidableEq P] in
lemma Counted.ref_pos (hI : Counted s) {f : F} (h : 0 < (s.proc t).live f) : 1 ≤ (s.file f).ref := by
  have := weight_le_total (fun _ (x : Proc P F) => x.live f) s.proc t
  rw [hI.refs]
  omega

/-- The references to open files are counted exactly, processes that are gone have no descriptors,
`fileclose` and `filedup` do not panic, each end of a pipe is closed once, when its file is, and its page
is freed once, after both ends and while no descriptor leads to it. -/
theorem open_files_exact (h : (files P F).Reachable s) :
    (∀ f, (s.file f).ref = total (fun _ (x : Proc P F) => among x.slots f+x.pc.locals.count f) s.proc) ∧
    (∀ t, (s.proc t).pc.absent = true → ∀ fd, (s.proc t).ofile fd = none) ∧
    (∀ t f k, (s.proc t).pc = .drop f k → 1 ≤ (s.file f).ref) ∧
    (∀ t fd f, (s.proc t).pc.exiting = none → fd < nofile → (s.proc t).ofile fd = some f → 1 ≤ (s.file f).ref) ∧
    (∀ e : End, e.pipe < s.pipes → holders s e+(s.pipe e.pipe).closes e.writable = 1) ∧
    (∀ p, (s.pipe p).frees+freers s p = (s.pipe p).closes false*(s.pipe p).closes true) ∧
    (∀ p, (s.pipe p).frees ≤ 1 ∧ (0 < (s.pipe p).frees+freers s p →
      ∀ t fd f w, (s.proc t).ofile fd = some f → (s.file f).type ≠ .pipe ⟨p,w⟩)) := by
  obtain ⟨hC,hP⟩ := reach_piped h
  have hle : ∀ p w, (s.pipe p).closes w ≤ 1 := by
    intro p w
    by_cases hp : p < s.pipes
    · have := hP.ends ⟨p,w⟩ hp
      dsimp only at this
      omega
    · rw [hP.new p (by omega)]
      exact Nat.zero_le _
  refine ⟨hC.refs,fun t => (hC.own t).gone,fun t f k hd => ?_,fun t fd f he hfd ho => ?_,hP.ends,hP.frees,
    fun p => ⟨?_,fun hfree t fd f w ho hty => ?_⟩⟩
  · refine hC.ref_pos (t := t) ?_
    have hO := hC.own t
    generalize s.proc t = x at hd hO
    obtain ⟨pc,o⟩ := x
    dsimp only at hd
    subst hd
    have := back_live hO f
    rw [if_pos rfl] at this
    omega
  · refine hC.ref_pos (t := t) (Nat.lt_add_right _ ?_)
    have hslots : (s.proc t).slots = (s.proc t).ofile := by
      unfold Proc.slots
      split
      · next h => rw [h] at he; cases he
      · next h => rw [h] at he; cases he
      · rfl
    rw [hslots]
    exact among_pos hfd ho
  · have h1 := hP.frees p
    have h2 := Nat.mul_le_mul (hle p false) (hle p true)
    omega
  · -- The file of an open end holds it, so that end is not closed and the product is 0.
    have hheld : 0 < holders s ⟨p,w⟩ := by
      have h1 := weight_le_total (fun _ (y : File) => y.type.has ⟨p,w⟩) s.file f
      have h2 : (s.file f).type.has ⟨p,w⟩ = 1 := if_pos hty
      unfold holders
      omega
    have h0 := (Sound.held hP hheld).2.2
    have hprod : (s.pipe p).closes false*(s.pipe p).closes true = 0 := by
      dsimp only at h0
      cases w with
      | false => rw [h0,Nat.zero_mul]
      | true => rw [h0,Nat.mul_zero]
    rw [hP.frees,hprod] at hfree
    exact Nat.lt_irrefl _ hfree

/-- Two processes, the second not yet there, and four files. -/
def booted : State (Fin 2) (Fin 4) where
  proc t := ⟨if t = 0 then .idle else .unused,fun _ => none⟩
  file _ := ⟨0,.none⟩
  pipe _ := newPipe
  pipes := 0

lemma booted_boot : (files (Fin 2) (Fin 4)).init booted := by
  refine ⟨fun t => ?_,fun _ _ => rfl,fun _ => rfl,rfl,fun _ => rfl⟩
  by_cases ht : t = 0
  · exact .inr (if_pos ht)
  · exact .inl (if_neg ht)

/-- A pipe is made and its two ends are closed. -/
def makeAndClose : List (Label (Fin 2) (Fin 4)) :=
  [.call 0 .pipe,.run 0 (some 0) true,.run 0 (some 1) true,.run 0 none true,.run 0 none true,
   .call 0 (.close 0),.run 0 none true,.run 0 none true,.call 0 (.close 1),.run 0 none true,.run 0 none true,
   .run 0 none true]

theorem open_files_exact_pipe : ∃ s, (files (Fin 2) (Fin 4)).Reachable s ∧ (s.pipe 0).frees = 1 ∧
    (s.pipe 0).frees+freers s 0 = (s.pipe 0).closes false*(s.pipe 0).closes true := by
  obtain ⟨s,hs,hp⟩ := System.reachable_of_exec (M := files (Fin 2) (Fin 4)) makeAndClose
    (fun s => (s.pipe 0).frees = 1) booted_boot (by decide +kernel)
  exact ⟨s,hs,hp,(open_files_exact hs).2.2.2.2.2.1 0⟩

end Xv6Threads.Files
