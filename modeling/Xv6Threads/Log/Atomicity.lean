import Xv6Threads.Log.Recovery

/-! Crash atomicity: after a crash at any point, recovery leaves the home blocks as after the
groups whose header had been written, and every operation is in one group as a whole. -/
namespace Xv6Threads.Log
open Function List State
variable {n : ℕ} {α : Type}

/-- The updates of one operation. -/
def byOp (o : Fin n) (us : List (Update n α)) : List (Update n α) := us.filter (fun u => u.op = o)

lemma byOp_append (o : Fin n) (us vs : List (Update n α)) : byOp o (us++vs) = byOp o us++byOp o vs := filter_append ..

lemma byOp_eq_nil {o : Fin n} {us : List (Update n α)} : byOp o us = [] ↔ ∀ u ∈ us, u.op ≠ o := by
  simp [byOp,filter_eq_nil_iff]

def OpPc.over : OpPc → Bool
  | .ended | .dead => true
  | _ => false

/-- Where the updates of every operation are: all of them in the current group, all of them in
one written group, or none of them in either. -/
structure GhostAt (s : State n α) : Prop where
  ended : ∀ u ∈ s.groups.flatten, s.op u.op = .ended
  begun : ∀ u ∈ s.cur, s.op u.op ≠ .fresh ∧ s.op u.op ≠ .dead
  live : ∀ o, (s.op o).over = false → byOp o s.groups.flatten = [] ∧ byOp o s.cur = byOp o s.made
  whole : ∀ o, (byOp o s.groups.flatten = [] ∧ (byOp o s.cur = byOp o s.made ∨ byOp o s.cur = [])) ∨
    (byOp o s.groups.flatten = byOp o s.made ∧ byOp o s.cur = [])
  flight : s.phase.committing = true →
    if s.phase.gathering then s.flight = s.cur else s.flight = [] ∨ s.flight ∈ s.groups
  returned : ∀ g ∈ s.returned, g = [] ∨ g ∈ s.groups

section
variable {s s' : State n α}

lemma ghost_move {o : Fin n} {c : OpPc} (hG : GhostAt s) (ho : s'.op = update s.op o c)
    (hg : s'.groups = s.groups) (hc : s'.cur = s.cur) (hm : s'.made = s.made)
    (hret : s'.returned = s.returned) (hold : s.op o ≠ .ended) (hf : c ≠ .fresh) (hd : c ≠ .dead)
    (hover : c.over = false → (s.op o).over = false) (hfl : s'.phase.committing = true →
      if s'.phase.gathering then s'.flight = s'.cur else s'.flight = [] ∨ s'.flight ∈ s'.groups) : GhostAt s' := by
  have hop : ∀ q, q ≠ o → s'.op q = s.op q := fun q hq => by rw [ho,update_of_ne hq]
  have hself : s'.op o = c := by rw [ho,update_self]
  refine ⟨fun u hu => ?_,fun u hu => ?_,fun q hq => ?_,by rw [hg,hc,hm]; exact hG.whole,hfl,by
    rw [hret,hg]; exact hG.returned⟩
  · rw [hg] at hu
    have hu' := hG.ended u hu
    rw [hop u.op (by rintro rfl; exact hold hu')]
    exact hu'
  · rw [hc] at hu
    by_cases hq : u.op = o
    · rw [hq,hself]; exact ⟨hf,hd⟩
    · rw [hop _ hq]; exact hG.begun u hu
  · rw [hg,hc,hm]
    by_cases hqo : q = o
    · subst hqo
      rw [hself] at hq
      exact hG.live q (hover hq)
    · rw [hop q hqo] at hq
      exact hG.live q hq

lemma ghost_keep (hG : GhostAt s) (ho : s'.op = s.op) (hg : s'.groups = s.groups) (hc : s'.cur = s.cur)
    (hm : s'.made = s.made) (hret : ∀ g ∈ s'.returned, g = [] ∨ g ∈ s.groups) (hfl : s'.phase.committing = true →
      if s'.phase.gathering then s'.flight = s'.cur else s'.flight = [] ∨ s'.flight ∈ s'.groups) : GhostAt s' :=
  ⟨by rw [ho,hg]; exact hG.ended,by rw [ho,hc]; exact hG.begun,by rw [ho,hg,hc,hm]; exact hG.live,by
    rw [hg,hc,hm]; exact hG.whole,hfl,by rw [hg]; exact hret⟩

lemma ghost_modify {o : Fin n} {b : Block} {x : α} (hG : GhostAt s) (hr : s.op o = .running)
    (hp : s.phase = .normal) : GhostAt (s.modify o b x) := by
  have hop : ∀ q, q ≠ o → (s.modify o b x).op q = s.op q := fun q hq => update_of_ne hq _ _
  have hself : (s.modify o b x).op o = .modified b := update_self ..
  have hother : ∀ q, q ≠ o → ∀ us : List (Update n α), byOp q (us++[⟨o,b,x⟩]) = byOp q us := by
    intro q hq us
    have hz : byOp q [(⟨o,b,x⟩ : Update n α)] = [] := byOp_eq_nil.mpr (by simpa using Ne.symm hq)
    rw [byOp_append,hz,append_nil]
  obtain ⟨h1,h2⟩ := hG.live o (by rw [hr]; rfl)
  have h2' : byOp o (s.cur++[⟨o,b,x⟩]) = byOp o (s.made++[⟨o,b,x⟩]) := by rw [byOp_append,byOp_append,h2]
  refine ⟨fun u hu => ?_,fun u hu => ?_,fun q hq => ?_,fun q => ?_,fun h => ?_,hG.returned⟩
  · have hu' := hG.ended u hu
    rw [hop u.op (by rintro he; rw [he,hr] at hu'; cases hu')]
    exact hu'
  · by_cases hq : u.op = o
    · rw [hq,hself]; exact ⟨nofun,nofun⟩
    · rw [hop _ hq]
      rcases mem_append.mp hu with hu | hu
      · exact hG.begun u hu
      · rw [mem_singleton.mp hu] at hq
        exact (hq rfl).elim
  · by_cases hqo : q = o
    · subst hqo; exact ⟨h1,h2'⟩
    · rw [hop q hqo] at hq
      change byOp q s.groups.flatten = [] ∧ byOp q (s.cur++[_]) = byOp q (s.made++[_])
      rw [hother q hqo,hother q hqo]
      exact hG.live q hq
  · by_cases hqo : q = o
    · subst hqo; exact .inl ⟨h1,.inl h2'⟩
    · change (byOp q s.groups.flatten = [] ∧ (byOp q (s.cur++[_]) = byOp q (s.made++[_]) ∨ byOp q (s.cur++[_]) = [])) ∨
        (byOp q s.groups.flatten = byOp q (s.made++[_]) ∧ byOp q (s.cur++[_]) = [])
      rw [hother q hqo,hother q hqo]
      exact hG.whole q
  · rw [show (s.modify o b x).phase = .normal from hp] at h
    cases h

lemma ghost_writeHead (hG : GhostAt s) (hin : ∀ o, (s.op o).active = 0) (hp : s.phase = .writeHead) :
    GhostAt s.writeHead := by
  have hflat : s.writeHead.groups.flatten = s.groups.flatten++s.cur := by
    change (s.groups++[s.cur]).flatten = _
    rw [flatten_append,flatten_cons,flatten_nil,append_nil]
  have hmem : ∀ g, g ∈ s.groups → g ∈ s.writeHead.groups := fun g hg => mem_append_left _ hg
  have hover : ∀ u ∈ s.cur, s.op u.op = .ended := by
    intro u hu
    obtain ⟨h1,h2⟩ := hG.begun u hu
    have h3 := hin u.op
    cases hc : s.op u.op with
    | ended => rfl
    | fresh => exact (h1 hc).elim
    | dead => exact (h2 hc).elim
    | _ => rw [hc] at h3; cases h3
  refine ⟨fun u hu => ?_,nofun,fun o ho => ?_,fun o => ?_,fun _ => ?_,fun g hg => (hG.returned g hg).imp_right (hmem g)⟩
  · rw [hflat] at hu
    rcases mem_append.mp hu with hu | hu
    · exact hG.ended u hu
    · exact hover u hu
  · obtain ⟨h1,h2⟩ := hG.live o ho
    have hcur : byOp o s.cur = [] := byOp_eq_nil.mpr (fun u hu he => by
      have := hover u hu
      change (s.op o).over = false at ho
      rw [← he,this] at ho
      cases ho)
    rw [hflat,byOp_append,h1,hcur]
    exact ⟨rfl,hcur.symm.trans h2⟩
  · rw [hflat,byOp_append]
    rcases hG.whole o with ⟨h1,h2 | h2⟩ | ⟨h1,h2⟩
    · exact .inr ⟨by rw [h1,h2]; rfl,rfl⟩
    · exact .inl ⟨by rw [h1,h2]; rfl,.inr rfl⟩
    · exact .inr ⟨by rw [h1,h2,append_nil]; rfl,rfl⟩
  · have hfl := hG.flight (by rw [hp]; rfl)
    rw [hp] at hfl
    exact .inr (mem_append_right _ (mem_singleton.mpr hfl))

lemma ghost_crash (hG : GhostAt s) : GhostAt s.crash := by
  have hop : ∀ o, s.crash.op o = if s.op o = .fresh ∨ s.op o = .ended then s.op o else .dead := fun _ => rfl
  refine ⟨fun u hu => ?_,nofun,fun o ho => ?_,fun o => ?_,nofun,hG.returned⟩
  · have := hG.ended u hu
    rw [hop,if_pos (.inr this)]
    exact this
  · -- Only an operation that has not begun is not over, and it has made no update.
    have hf : s.op o = .fresh := by
      rw [hop] at ho
      split_ifs at ho with h
      · rcases h with h | h
        · exact h
        · rw [h] at ho; cases ho
      · cases ho
    obtain ⟨h1,h2⟩ := hG.live o (by rw [hf]; rfl)
    have hcur : byOp o s.cur = [] := byOp_eq_nil.mpr (fun u hu he => (hG.begun u hu).1 (by rw [he]; exact hf))
    exact ⟨h1,hcur.symm.trans h2⟩
  · rcases hG.whole o with ⟨h1,-⟩ | ⟨h1,-⟩
    · exact .inl ⟨h1,.inr rfl⟩
    · exact .inr ⟨h1,rfl⟩

end

lemma ghost_step {L : Layout} {s s' : State n α} {l : Label n α} (hO : OpsAt s) (hI : LhAt L s')
    (hG : GhostAt s) (h : Steps L s l s') : GhostAt s' := by
  have hF := hG.flight
  cases h with
  | beginOp o hf => exact ghost_move hG rfl rfl rfl rfl rfl (by rw [hf]; nofun) nofun nofun (fun _ => by rw [hf]; rfl) hF
  | modify o b x hr => exact ghost_modify hG hr (hO.normal (o := o) (by rw [hr]; rfl))
  | check o b hm => exact ghost_move hG rfl rfl rfl rfl rfl (by rw [hm]; nofun) nofun nofun (fun _ => by rw [hm]; rfl) hF
  | append o b hc => exact ghost_move hG rfl rfl rfl rfl rfl (by rw [hc]; nofun) nofun nofun (fun _ => by rw [hc]; rfl) hF
  | endOp o hr => exact ghost_move hG rfl rfl rfl rfl rfl (by rw [hr]; nofun) nofun nofun nofun hF
  | endLast o p hr _ ho hp =>
    refine ghost_move hG rfl rfl rfl rfl rfl (by rw [hr]; nofun) nofun nofun nofun (fun _ => ?_)
    split_ifs with hg
    · rfl
    · exact .inl (hI.empty (by simpa using hg))
  | load | evict => exact ghost_keep hG rfl rfl rfl rfl hG.returned hF
  | readHead hp => exact ghost_keep hG rfl rfl rfl rfl hG.returned nofun
  | writeLog i b hp hb | logged i hp hi =>
    rw [hp] at hF
    exact ghost_keep hG rfl rfl rfl rfl hG.returned hF
  | writeHead hp => exact ghost_writeHead hG (hO.inactive (hO.quiet (by rw [hp]; nofun))) hp
  | install r i b hp hb | installed r i hp hi =>
    rw [hp] at hF
    cases r <;> exact ghost_keep hG rfl rfl rfl rfl hG.returned hF
  | clearHead r hp =>
    rw [hp] at hF
    cases r with
    | true => exact ghost_keep hG rfl rfl rfl rfl hG.returned nofun
    | false => exact ghost_keep hG rfl rfl rfl rfl hG.returned hF
  | finish hp =>
    rw [hp] at hF
    refine ghost_keep hG rfl rfl rfl rfl (fun g hg => ?_) nofun
    rcases mem_cons.mp hg with rfl | hg
    · exact hF rfl
    · exact hG.returned g hg
  | crash => exact ghost_crash hG

/-- What holds in every state of a run. -/
structure LogAt (L : Layout) (d : Block → α) (s : State n α) : Prop where
  ops : OpsAt s
  bufs : BufsAt s
  lh : LhAt L s
  data : DataAt L d s
  ghost : GhostAt s

section
variable {L : Layout} {d : Block → α} {s s' : State n α} (hL : L.size = logSize)
include hL

lemma logAt_initial : LogAt L d (initial d : State n α) := by
  have hpos : 0 < L.size := by rw [hL]; decide
  exact ⟨⟨(total_eq_zero (fun _ => rfl)).symm,fun b o => ⟨nofun,nofun⟩,fun _ => rfl,rfl⟩,
    ⟨nodup_nil,Nat.zero_le _,fun b hb => (hb rfl).elim⟩,lh_over (.nil L) (.nil L) hpos hpos rfl (fun _ => rfl),
    ⟨Redo.nil_iff.mpr (fun _ _ => rfl),nofun,nofun,fun b h => (h rfl).elim,trivial⟩,
    ⟨nofun,nofun,fun o _ => ⟨rfl,rfl⟩,fun o => .inr ⟨rfl,rfl⟩,nofun,nofun⟩⟩

lemma logAt_step {l : Label n α} (h : LogAt L d s) (hs : s.step L l = some s') : LogAt L d s' := by
  have hs := step_cases hs
  have hO := ops_step h.ops hs
  have hB := bufs_step h.bufs h.data.held h.ops hs
  have hI := lh_step hL h.ops hO hB (fun i hp => h.data.pinned_bufs h.bufs hp) h.lh hs
  exact ⟨hO,hB,hI,data_step hL h.ops h.bufs hB h.lh h.data hs,ghost_step h.ops hI h.ghost hs⟩

lemma reach_logAt (h : (system L n d).Reachable s) : LogAt L d s :=
  System.Reachable.invariant (I := LogAt L d) (fun s (hs : s = initial d) => hs ▸ logAt_initial hL)
    (fun _ _ _ hI hs => logAt_step hL hI hs) h

end

/-- `recover_from_log` after `read_head`: the buffers of each round are recycled after it. -/
def recovery (L : Layout) : ℕ → List Block → List (Label n α)
  | _,[] => [.sys,.sys]
  | i,b :: bs => .sys :: .evict (L.logBlock i) :: .evict b :: recovery L (i+1) bs

section
variable {L : Layout} {d : Block → α} {s : State n α}

lemma step_evict {b : Block} {x : α} (hx : s.cache b = some ⟨x,false⟩) (hl : s.lock b = none) :
    s.step L (.evict b) = some (s.evict b) := by
  simp only [step,hx,hl]

lemma exec_cons {l : Label n α} {ls : List (Label n α)} {t u : State n α} (ht : s.step L l = some t)
    (hu : (system L n d).exec (fun _ _ => true) t ls = some u) :
    (system L n d).exec (fun _ _ => true) s (l :: ls) = some u := Option.bind_eq_some_iff.mpr ⟨t,ht,hu⟩

/-- One round of `install_trans` from an empty cache, and the recycling of its two buffers. -/
lemma recovery_round {i : ℕ} {b : Block} (h : LogAt L d s) (hp : s.phase = .install true i) (hb : s.lh[i]? = some b)
    (hbufs : s.bufs = []) (hcache : s.cache = fun _ => none) :
    ∃ t, (system L n d).exec (fun _ _ => true) s [.sys,.evict (L.logBlock i),.evict b] = some t ∧
      t.phase = .install true (i+1) ∧ t.lh = s.lh ∧ t.groups = s.groups ∧ t.bufs = [] ∧ t.cache = fun _ => none := by
  have hlock := h.ops.unlocked (h.ops.quiet (by rw [hp]; nofun))
  have hfits := h.lh.fits (by rw [hp]; nofun) (by rw [hp]; nofun)
  have hne : L.logBlock i ≠ b := fun he =>
    logBlock_not_home hfits (List.getElem?_eq_some_iff.mp hb).1 (he ▸ h.lh.lh.home b (mem_of_getElem? hb))
  have hnew : (s.install L true i b).bufs = [b,L.logBlock i] := by
    change (s.bufs.insert (L.logBlock i)).insert b = _
    rw [hbufs,insert_nil,insert_of_not_mem (by simpa using hne.symm)]
  have h1 : s.step L .sys = some (s.install L true i b) := by
    simp only [step,sys,hp,hb]
    exact bounded_eq_some.mpr ⟨by rw [hnew]; exact (by decide : 2 ≤ nbuf),rfl⟩
  have h2 : (s.install L true i b).step L (.evict (L.logBlock i)) =
      some ((s.install L true i b).evict (L.logBlock i)) := by
    refine step_evict (x := s.disk.blocks (L.logBlock i)) ?_ (hlock _)
    change update (update s.cache (L.logBlock i) (some (s.bread (L.logBlock i)))) b _ (L.logBlock i) = _
    rw [update_of_ne hne,update_self,bread,hcache]
    rfl
  have h3 : ((s.install L true i b).evict (L.logBlock i)).step L (.evict b) =
      some (((s.install L true i b).evict (L.logBlock i)).evict b) := by
    refine step_evict (x := (s.bread (L.logBlock i)).data) ?_ (hlock _)
    change update (update (update s.cache (L.logBlock i) _) b _) (L.logBlock i) none b = _
    rw [update_of_ne hne.symm,update_self]
  refine ⟨((s.install L true i b).evict (L.logBlock i)).evict b,?_,rfl,rfl,rfl,?_,?_⟩
  · exact exec_cons h1 (exec_cons h2 (exec_cons h3 rfl))
  · change ((s.install L true i b).bufs.erase (L.logBlock i)).erase b = []
    rw [hnew,erase_cons_tail (by simpa using hne.symm),erase_cons_head,erase_cons_head]
  · change update (update (update (update s.cache (L.logBlock i) _) b _) (L.logBlock i) none) b none = _
    funext a
    by_cases hab : a = b
    · rw [hab,update_self]
    by_cases hai : a = L.logBlock i
    · rw [update_of_ne hab,hai,update_self]
    · rw [update_of_ne hab,update_of_ne hai,update_of_ne hab,update_of_ne hai,hcache]

lemma exec_logAt (hL : L.size = logSize) {t : State n α} {ls : List (Label n α)} (h : LogAt L d s)
    (ht : (system L n d).exec (fun _ _ => true) s ls = some t) : LogAt L d t := by
  induction ls generalizing s with
  | nil => cases ht; exact h
  | cons l ls ih =>
    obtain ⟨s',hs,ht⟩ := Option.bind_eq_some_iff.mp ht
    exact ih (logAt_step hL h hs) ht

lemma exec_append {ls ls' : List (Label n α)} {t u : State n α}
    (ht : (system L n d).exec (fun _ _ => true) s ls = some t)
    (hu : (system L n d).exec (fun _ _ => true) t ls' = some u) :
    (system L n d).exec (fun _ _ => true) s (ls++ls') = some u := by
  induction ls generalizing s with
  | nil => cases ht; exact hu
  | cons l ls ih =>
    obtain ⟨s',hs,ht⟩ := Option.bind_eq_some_iff.mp ht
    exact exec_cons hs (ih ht)

lemma recovery_run (hL : L.size = logSize) {bs : List Block} {i : ℕ} (h : LogAt L d s) (hp : s.phase = .install true i)
    (hi : i ≤ s.lh.length) (hk : s.lh.drop i = bs) (hbufs : s.bufs = []) (hcache : s.cache = fun _ => none) :
    ∃ t, (system L n d).exec (fun _ _ => true) s (recovery L i bs) = some t ∧ t.phase = .normal ∧
      t.groups = s.groups := by
  induction bs generalizing s i with
  | nil =>
    have hnone : s.lh[i]? = none := getElem?_eq_none_iff.mpr (drop_eq_nil_iff.mp hk)
    have h1 : s.step L .sys = some {s with lh := [], phase := .clear true} := by simp only [step,sys,hp,hnone]
    refine ⟨clearHead {s with lh := [], phase := .clear true} true,?_,rfl,rfl⟩
    exact exec_cons h1 rfl
  | cons b bs ih =>
    have hb : s.lh[i]? = some b := by
      rw [← Nat.add_zero i,← getElem?_drop,hk]
      rfl
    have hlt := (List.getElem?_eq_some_iff.mp hb).1
    obtain ⟨t,ht,htp,htl,htg,htb,htc⟩ := recovery_round h hp hb hbufs hcache
    have hdrop : t.lh.drop (i+1) = bs := by rw [htl,← drop_drop,hk,drop_one,tail_cons]
    obtain ⟨u,hu,hup,hug⟩ := ih (exec_logAt hL h ht) htp (by rw [htl]; exact hlt) hdrop htb htc
    exact ⟨u,exec_append ht hu,hup,hug.trans htg⟩

lemma crash_run (hL : L.size = logSize) (h : LogAt L d s) :
    ∃ t, (system L n d).exec (fun _ _ => true) s (.crash :: .sys :: recovery L 0 s.disk.head) = some t ∧
      t.phase = .normal ∧ t.groups = s.groups ∧ LogAt L d t := by
  have h1 : s.step L .crash = some s.crash := rfl
  have h2 : s.crash.step L .sys = some s.crash.readHead := rfl
  have hI := logAt_step hL (logAt_step hL h h1) h2
  obtain ⟨t,ht,hn,hg⟩ := recovery_run hL hI rfl (Nat.zero_le _) rfl rfl rfl
  exact ⟨t,ht,hn,hg,exec_logAt hL hI ht⟩

end

/-- Crash atomicity, for any number of operations, any interleaving and any earlier crashes, on a log of
`LOGSIZE` blocks. A crash and a complete recovery leave the home blocks
as after the groups whose header has been written. Each operation has all of its updates in
these groups or none, and all only if it has reached `end_op`; a group whose `commit` has
returned is one of them. -/
theorem crash_atomicity {L : Layout} (hL : L.size = logSize) (d : Block → α) {s : State n α}
    (h : (system L n d).Reachable s) :
    (∃ t, (system L n d).exec (fun _ _ => true) s (.crash :: .sys :: recovery L 0 s.disk.head) = some t ∧
      t.phase = .normal ∧ ∀ b, L.Home b → t.disk.blocks b = store (s.groups.flatten.map Update.write) d b) ∧
    (∀ o, byOp o s.groups.flatten = byOp o s.made ∨ byOp o s.groups.flatten = []) ∧
    (∀ u ∈ s.groups.flatten, s.op u.op = .ended) ∧ (∀ g ∈ s.returned, g = [] ∨ g ∈ s.groups) := by
  have hI := reach_logAt hL h
  refine ⟨?_,fun o => ?_,hI.ghost.ended,hI.ghost.returned⟩
  · obtain ⟨t,ht,hn,hg,hI'⟩ := crash_run hL hI
    have hP := hI'.data.phase
    rw [hn] at hP
    refine ⟨t,ht,hn,fun b hb => ?_⟩
    rw [hI'.data.settled hP hb,State.durable,hg]
  · rcases hI.ghost.whole o with ⟨h,-⟩ | ⟨h,-⟩
    · exact .inr h
    · exact .inl h

/-- One operation has written block 40, and the header of its group is on the disk. -/
theorem crash_atomicity_one_block : ∃ s t : State 1 ℕ,
    (system mkfsLayout 1 (fun _ => 0)).Reachable s ∧ s.disk.blocks 40 = 0 ∧
    (system mkfsLayout 1 (fun _ => 0)).exec (fun _ _ => true) s (.crash :: .sys :: recovery mkfsLayout 0 [40]) = some t ∧
    t.disk.blocks 40 = 7 := by
  obtain ⟨s,hs,h1,h2,h3⟩ := System.reachable_of_exec (M := system mkfsLayout 1 (fun _ => 0)) (System.schedule
      [(.sys,3),(.beginOp 0,1),(.modify 0 40 7,1),(.check 0,1),(.append 0,1),(.endOp 0,1),(.sys,3)])
    (fun s => s.disk.blocks 40 = 0 ∧ s.disk.head = [40] ∧ s.groups = [[⟨0,40,7⟩]]) rfl
    (by decide +kernel)
  obtain ⟨⟨t,ht,-,hb⟩,-⟩ := crash_atomicity rfl (fun _ => 0) hs
  rw [h2] at ht
  exact ⟨s,t,hs,h1,ht,by rw [hb 40 (by decide),h3]; rfl⟩

end Xv6Threads.Log
