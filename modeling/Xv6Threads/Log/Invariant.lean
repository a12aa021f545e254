import Xv6Threads.Foundations.Counting
import Xv6Threads.Log.Model

/-! The steps of the log with what they found, which operations are active, and which blocks the
log header in memory lists. A listed block keeps its buffer, and `write_log` needs one more for a log block: so
the list is shorter than the log. -/
namespace Xv6Threads.Log
open Function List State OpPc Ne
variable {n : ℕ} {α : Type}

/-- Every step. -/
inductive Steps (L : Layout) (s : State n α) : Label n α → State n α → Prop
  | beginOp (o) (hf : s.op o = .fresh) (hr : s.phase.recovering = false) (hc : s.committing = false)
      (hroom : s.lh.length+(s.outstanding+1)*maxOpBlocks ≤ logSize) : Steps L s (.beginOp o) (s.beginOp o)
  | modify (o b x) (hr : s.op o = .running) (hl : s.lock b = none) (hb : L.Home b)
      (hn : (s.modify o b x).bufs.length ≤ nbuf) :
      Steps L s (.modify o b x) (s.modify o b x)
  | check (o b) (hm : s.op o = .modified b) : Steps L s (.check o) (s.setOp o (.checked b))
  | append (o b) (hc : s.op o = .checked b) : Steps L s (.append o) (s.append o b)
  | endOp (o) (hr : s.op o = .running) (hc : s.committing = false) (ho : s.outstanding-1 ≠ 0) :
      Steps L s (.endOp o) {s.setOp o .ended with outstanding := s.outstanding-1}
  | endLast (o p) (hr : s.op o = .running) (hc : s.committing = false) (ho : s.outstanding-1 = 0)
      (hp : p = if 0 < s.lh.length then .writeLog 0 else .finish) :
      Steps L s (.endOp o) {s.setOp o .ended with
        outstanding := s.outstanding-1
        committing := true
        phase := p
        flight := s.cur}
  | load (b) (hc : s.cache b = none) (hr : s.phase.recovering = false) (hn : (s.fetch b).bufs.length ≤ nbuf) :
      Steps L s (.load b) (s.fetch b)
  | evict (b x) (hx : s.cache b = some ⟨x,false⟩) (hl : s.lock b = none) : Steps L s (.evict b) (s.evict b)
  | readHead (hp : s.phase = .boot) : Steps L s .sys s.readHead
  | writeLog (i b) (hp : s.phase = .writeLog i) (hb : s.lh[i]? = some b)
      (hn : (s.writeLog L i b).bufs.length ≤ nbuf) :
      Steps L s .sys (s.writeLog L i b)
  | logged (i) (hp : s.phase = .writeLog i) (hi : s.lh.length ≤ i) :
      Steps L s .sys {s with phase := .writeHead}
  | writeHead (hp : s.phase = .writeHead) : Steps L s .sys s.writeHead
  | install (r i b) (hp : s.phase = .install r i) (hb : s.lh[i]? = some b)
      (hn : (s.install L r i b).bufs.length ≤ nbuf) :
      Steps L s .sys (s.install L r i b)
  | installed (r i) (hp : s.phase = .install r i) (hi : s.lh.length ≤ i) :
      Steps L s .sys {s with lh := [], phase := .clear r}
  | clearHead (r) (hp : s.phase = .clear r) : Steps L s .sys (s.clearHead r)
  | finish (hp : s.phase = .finish) : Steps L s .sys s.finish
  | crash : Steps L s .crash s.crash

variable {L : Layout} {s s' : State n α}

lemma bounded_eq_some : s.bounded = some s' ↔ s.bufs.length ≤ nbuf ∧ s = s' := by
  unfold bounded
  split_ifs with h <;> simp [h]

lemma sys_cases (h : s.sys L = some s') : Steps L s .sys s' := by
  unfold sys at h
  split at h
  · next hp => cases h; exact .readHead hp
  · cases h
  · next i hp =>
    split at h
    · next b hb =>
      obtain ⟨hn,rfl⟩ := bounded_eq_some.mp h
      exact .writeLog i b hp hb hn
    · next hb => cases h; exact .logged i hp (List.getElem?_eq_none_iff.mp hb)
  · next hp => cases h; exact .writeHead hp
  · next r i hp =>
    split at h
    · next b hb =>
      obtain ⟨hn,rfl⟩ := bounded_eq_some.mp h
      exact .install r i b hp hb hn
    · next hb => cases h; exact .installed r i hp (List.getElem?_eq_none_iff.mp hb)
  · next r hp => cases h; exact .clearHead r hp
  · next hp => cases h; exact .finish hp

variable {l : Label n α}

lemma step_cases (h : s.step L l = some s') : Steps L s l s' := by
  cases l with
  | beginOp o =>
    simp only [step] at h
    split_ifs at h with hg
    cases h
    exact .beginOp o hg.1 hg.2.1 hg.2.2.1 hg.2.2.2
  | modify o b x =>
    simp only [step] at h
    split_ifs at h with hg
    obtain ⟨hn,rfl⟩ := bounded_eq_some.mp h
    exact .modify o b x hg.1 hg.2.1 hg.2.2 hn
  | check o =>
    simp only [step] at h
    split at h
    · next b hb =>
      split_ifs at h
      cases h
      exact .check o b hb
    · cases h
  | append o =>
    simp only [step] at h
    split at h
    · next b hb => cases h; exact .append o b hb
    · cases h
  | endOp o =>
    simp only [step] at h
    split_ifs at h with hg
    cases h
    by_cases ho : s.outstanding-1 = 0
    · rw [endOp,if_pos ho]; exact .endLast o _ hg.1 hg.2 ho rfl
    · rw [endOp,if_neg ho]; exact .endOp o hg.1 hg.2 ho
  | load b =>
    simp only [step] at h
    split at h
    · next hc =>
      split_ifs at h with hr
      obtain ⟨hn,rfl⟩ := bounded_eq_some.mp h
      exact .load b hc (by simpa using hr) hn
    · cases h
  | evict b =>
    simp only [step] at h
    split at h
    · next x hx hl => cases h; exact .evict b x hx hl
    · cases h
  | sys => exact sys_cases h
  | crash => cases h; exact .crash

/-- Between `begin_op` and `end_op`. -/
def OpPc.active : OpPc → ℕ
  | .running | .modified _ | .checked _ => 1
  | _ => 0

/-- The buffer that an operation has locked. -/
def OpPc.block : OpPc → Option Block
  | .modified b | .checked b => some b
  | _ => none

def Phase.committing : Phase → Bool
  | .writeLog _ | .writeHead | .install false _ | .clear false | .finish => true
  | _ => false

structure OpsAt (s : State n α) : Prop where
  count : s.outstanding = total (fun _ => OpPc.active) s.op
  lock : ∀ b o, s.lock b = some o ↔ (s.op o).block = some b
  quiet : s.phase ≠ .normal → s.outstanding = 0
  commit : s.committing = s.phase.committing

section
variable {o : Fin n}

lemma OpsAt.normal (hO : OpsAt s) (ho : (s.op o).active = 1) : s.phase = .normal := by
  by_contra hp
  have h1 := hO.quiet hp
  have h2 := weight_le_total (fun _ => active) s.op o
  have h3 := hO.count
  omega

lemma OpsAt.inactive (hO : OpsAt s) (h : s.outstanding = 0) (o : Fin n) : (s.op o).active = 0 :=
  weight_eq_zero_of_total (w := fun _ => active) (by rw [← hO.count]; exact h) o

variable {b : Block}

lemma active_of_block {c : OpPc} (h : c.block = some b) : c.active = 1 := by
  cases c with
  | modified | checked => rfl
  | _ => cases h

lemma OpsAt.unlocked (hO : OpsAt s) (h : s.outstanding = 0) (b : Block) : s.lock b = none := by
  cases hb : s.lock b with
  | none => rfl
  | some o =>
    have h1 := active_of_block ((hO.lock b o).mp hb)
    have h2 := hO.inactive h o
    omega

lemma ops_move {c : OpPc} {k : ℕ} (hO : OpsAt s) (ho : s'.op = update s.op o c)
    (hl : s'.lock = s.lock) (hb : c.block = (s.op o).block) (hout : s'.outstanding = k)
    (hk : k+(s.op o).active = s.outstanding+c.active) (hq : s'.phase ≠ .normal → k = 0)
    (hc : s'.committing = s'.phase.committing) : OpsAt s' := by
  refine ⟨?_,fun b q => ?_,fun h => by rw [hout]; exact hq h,hc⟩
  · have := total_update (fun _ => active) s.op o c
    have := hO.count
    rw [ho,hout]
    omega
  · rw [hl,hO.lock,ho]
    by_cases hqo : q = o
    · rw [hqo,update_self,hb]
    · rw [update_of_ne hqo]

lemma ops_keep (hO : OpsAt s) (ho : s'.op = s.op) (hl : s'.lock = s.lock)
    (hout : s'.outstanding = s.outstanding) (hq : s'.phase ≠ .normal → s.phase ≠ .normal)
    (hc : s'.committing = s'.phase.committing) : OpsAt s' :=
  ⟨by rw [hout,ho]; exact hO.count,by rw [hl,ho]; exact hO.lock, fun h => by rw [hout]; exact hO.quiet (hq h),hc⟩

lemma commit_of_not_recovering {p : Phase} (hr : p.recovering = false) (hc : p.committing = false) : p = .normal := by
  cases p with
  | install r i | clear r => cases r <;> simp [Phase.recovering,Phase.committing] at hr hc
  | _ => simp [Phase.recovering,Phase.committing] at hr hc ⊢

lemma ops_modify {x : α} (hO : OpsAt s) (hr : s.op o = .running)
    (hl : s.lock b = none) : OpsAt (s.modify o b x) := by
  have hp := hO.normal (o := o) (by rw [hr]; rfl)
  refine ⟨?_,fun b' q => ?_,fun h => (h hp).elim,hO.commit⟩
  · rw [show (s.modify o b x).op = update s.op o (.modified b) from rfl, total_update_of_eq (by rw [hr]; rfl)]
    exact hO.count
  · change update s.lock b (some o) b' = some q ↔ (update s.op o (.modified b) q).block = some b'
    by_cases hb : b' = b <;> by_cases hq : q = o
    · simp [hb,hq,block]
    · rw [hb,update_self,update_of_ne hq,← hO.lock,hl]
      simp [symm hq]
    · rw [hq,update_self,update_of_ne hb,hO.lock,hr]
      simp [block,symm hb]
    · rw [update_of_ne hb,update_of_ne hq,hO.lock]

lemma ops_append (hO : OpsAt s) (hc : s.op o = .checked b) : OpsAt (s.append o b) := by
  have hp := hO.normal (o := o) (by rw [hc]; rfl)
  refine ⟨?_,fun b' q => ?_,fun h => (h hp).elim,hO.commit⟩
  · rw [show (s.append o b).op = update s.op o .running from rfl, total_update_of_eq (by rw [hc]; rfl)]
    exact hO.count
  · change update s.lock b none b' = some q ↔ (update s.op o .running q).block = some b'
    have hb : s.lock b = some o := (hO.lock b o).mpr (by rw [hc]; rfl)
    by_cases hb' : b' = b <;> by_cases hq : q = o
    · simp [hb',hq,block]
    · rw [hb',update_self,update_of_ne hq,← hO.lock,hb]
      simp [symm hq]
    · rw [hq,update_self,update_of_ne hb',hO.lock,hc]
      simp [block,symm hb']
    · rw [update_of_ne hb',update_of_ne hq,hO.lock]

end

lemma ops_step (hO : OpsAt s) (h : Steps L s l s') : OpsAt s' := by
  have hC := hO.commit
  cases h with
  | beginOp o hf hr hc =>
    have hp := commit_of_not_recovering hr (by rw [← hO.commit]; exact hc)
    exact ops_move hO rfl rfl (by rw [hf]; rfl) rfl (by rw [hf]; rfl) (fun h => (h hp).elim) hC
  | modify o b x hr hl => exact ops_modify hO hr hl
  | check o b hm => exact ops_move hO rfl rfl (by rw [hm]; rfl) rfl (by rw [hm]; rfl) hO.quiet hC
  | append o b hc => exact ops_append hO hc
  | endOp o hr _ ho =>
    have hp := hO.normal (o := o) (by rw [hr]; rfl)
    have ha : (s.op o).active = 1 := by rw [hr]; rfl
    refine ops_move (k := s.outstanding-1) hO rfl rfl (by rw [hr]; rfl) rfl ?_ (fun h => (h hp).elim) hC
    have he : ended.active = 0 := rfl
    omega
  | endLast o p hr _ ho hp =>
    have ha : (s.op o).active = 1 := by rw [hr]; rfl
    have hle := weight_le_total (fun _ => active) s.op o
    have hct := hO.count
    refine ops_move (k := s.outstanding-1) hO rfl rfl (by rw [hr]; rfl) rfl ?_ (fun _ => ho) ?_
    · have he : ended.active = 0 := rfl
      omega
    · rw [hp]
      split_ifs <;> rfl
  | load | evict => exact ops_keep hO rfl rfl rfl (fun h => h) hC
  | readHead hp | writeHead hp | writeLog i b hp hb | logged i hp hi =>
    rw [hp] at hC
    exact ops_keep hO rfl rfl rfl (fun _ => by rw [hp]; nofun) hC
  | finish hp => exact ops_keep hO rfl rfl rfl (fun h => (h rfl).elim) rfl
  | install r i b hp hb | installed r i hp hi | clearHead r hp =>
    rw [hp] at hC
    cases r <;> exact ops_keep hO rfl rfl rfl (fun _ => by rw [hp]; nofun) hC
  | crash =>
    have hz : ∀ o, (s.crash.op o).active = 0 ∧ (s.crash.op o).block = none := by
      intro o
      change (if s.op o = .fresh ∨ s.op o = .ended then s.op o else .dead).active = 0 ∧
        (if s.op o = .fresh ∨ s.op o = .ended then s.op o else .dead).block = none
      split_ifs with h
      · rcases h with h | h <;> (rw [h]; exact ⟨rfl,rfl⟩)
      · exact ⟨rfl,rfl⟩
    refine ⟨(total_eq_zero (fun o => (hz o).1)).symm,fun b o => ?_,fun _ => rfl,rfl⟩
    rw [(hz o).2]
    exact ⟨nofun,nofun⟩

/-- Block numbers that a log header can list. -/
structure Listed (L : Layout) (l : List Block) : Prop where
  home : ∀ b ∈ l, L.Home b
  nodup : l.Nodup

lemma Listed.nil (L : Layout) : Listed L [] := ⟨by simp,by simp⟩

/-- The buffers of the cache. -/
structure BufsAt (s : State n α) : Prop where
  nodup : s.bufs.Nodup
  few : s.bufs.length ≤ nbuf
  cached : ∀ b, s.cache b ≠ none → b ∈ s.bufs

lemma BufsAt.insert {b : Block} {x : Option (Buf α)} (hB : BufsAt s) (hc : s'.cache = update s.cache b x)
    (hb : s'.bufs = s.bufs.insert b) (hn : s'.bufs.length ≤ nbuf) : BufsAt s' := by
  refine ⟨by rw [hb]; exact hB.nodup.insert,hn,fun a ha => ?_⟩
  rw [hb,mem_insert_iff]
  rw [hc] at ha
  by_cases hab : a = b
  · exact .inl hab
  · rw [update_of_ne hab] at ha
    exact .inr (hB.cached a ha)

lemma BufsAt.keep (hB : BufsAt s) (hc : s'.cache = s.cache) (hb : s'.bufs = s.bufs) : BufsAt s' :=
  ⟨by rw [hb]; exact hB.nodup,by rw [hb]; exact hB.few,by rw [hb,hc]; exact hB.cached⟩

/-- Blocks that have buffers besides another one are fewer than the buffers. -/
lemma BufsAt.length_lt (hB : BufsAt s) {l : List Block} {x : Block} (hl : l.Nodup) (hsub : l ⊆ s.bufs)
    (hx : x ∈ s.bufs) (hn : x ∉ l) : l.length < nbuf := by
  have hle := (subperm_of_subset (nodup_cons.mpr ⟨hn,hl⟩) (cons_subset.mpr ⟨hx,hsub⟩)).length_le
  exact hle.trans hB.few

lemma length_insert_le (l : List Block) (b : Block) : l.length ≤ (l.insert b).length := by
  unfold List.insert
  split_ifs
  · exact le_rfl
  · exact Nat.le_succ _

lemma bufs_step (hB : BufsAt s) (hheld : ∀ b, s.lock b ≠ none → s.cache b ≠ none)
    (hO : OpsAt s) (h : Steps L s l s') : BufsAt s' := by
  cases h with
  | modify o b x hr hl hb hn => exact hB.insert rfl rfl hn
  | load b hc hr hn => exact hB.insert rfl rfl hn
  | append o b hc =>
    have hb := hB.cached b (hheld b (by rw [(hO.lock b o).mpr (by rw [hc]; rfl)]; nofun))
    refine ⟨hB.nodup,hB.few,fun a ha => ?_⟩
    change update s.cache b _ a ≠ none at ha
    by_cases hab : a = b
    · rw [hab]; exact hb
    · rw [update_of_ne hab] at ha
      exact hB.cached a ha
  | evict b x hx hl =>
    refine ⟨hB.nodup.erase b,(length_erase_le ..).trans hB.few,fun a ha => ?_⟩
    change update s.cache b none a ≠ none at ha
    have hab : a ≠ b := by
      rintro rfl
      exact ha (update_self ..)
    rw [update_of_ne hab] at ha
    exact (mem_erase_of_ne hab).mpr (hB.cached a ha)
  | writeLog i b hp hb hn =>
    have h1 : BufsAt (s.fetch b) := hB.insert rfl rfl ((length_insert_le _ _).trans hn)
    exact h1.insert rfl rfl hn
  | install r i b hp hb hn =>
    have h1 : BufsAt (s.fetch (L.logBlock i)) := hB.insert rfl rfl ((length_insert_le _ _).trans hn)
    exact h1.insert rfl rfl hn
  | crash => exact ⟨nodup_nil,Nat.zero_le _,fun b hb => (hb rfl).elim⟩
  | _ => exact hB.keep rfl rfl

/-- Before the header is written the current group is not empty. -/
def Phase.gathering : Phase → Bool
  | .normal | .writeLog _ | .writeHead => true
  | _ => false

structure LhAt (L : Layout) (s : State n α) : Prop where
  lh : Listed L s.lh
  head : Listed L s.disk.head
  /-- `write_log` gets a buffer for a log block only if the listed blocks leave one. -/
  fits : s.phase ≠ .normal → s.phase ≠ .writeLog 0 → s.lh.length < L.size
  stored : s.disk.head.length < L.size
  touched : ∀ u ∈ s.cur, u.block ∈ s.lh ∨ s.lock u.block ≠ none
  locked : ∀ b, s.lock b ≠ none → L.Home b
  empty : s.phase.gathering = false → s.cur = []

section

lemma logBlock_not_home {j k : ℕ} (hk : k < L.size) (hj : j < k) : ¬L.Home (L.logBlock j) := by
  unfold Layout.Home Layout.logBlock
  omega

lemma lh_keep (hI : LhAt L s) (hlh : s'.lh = s.lh) (hd : s'.disk.head = s.disk.head) (hc : s'.cur = s.cur)
    (hl : s'.lock = s.lock) (hp : s'.phase.gathering = false → s.phase.gathering = false)
    (hf : s'.phase ≠ .normal → s'.phase ≠ .writeLog 0 → s.lh.length < L.size) : LhAt L s' :=
  ⟨by rw [hlh]; exact hI.lh,by rw [hd]; exact hI.head,by rw [hlh]; exact hf,by rw [hd]; exact hI.stored,
    by rw [hlh,hc,hl]; exact hI.touched,by rw [hl]; exact hI.locked,fun h => by rw [hc]; exact hI.empty (hp h)⟩

lemma lh_over (hl : Listed L s'.lh) (hd : Listed L s'.disk.head) (hf : s'.lh.length < L.size)
    (hs : s'.disk.head.length < L.size) (hc : s'.cur = []) (hk : ∀ b, s'.lock b = none) : LhAt L s' :=
  ⟨hl,hd,fun _ _ => hf,hs,by rw [hc]; simp,fun b hb => (hb (hk b)).elim,fun _ => hc⟩

variable {b : Block}

lemma lh_modify {o : Fin n} {x : α} (hI : LhAt L s) (hp : s.phase = .normal) (hb : L.Home b) :
    LhAt L (s.modify o b x) := by
  refine ⟨hI.lh,hI.head,fun h => (h hp).elim,hI.stored,fun u hu => ?_,fun a ha => ?_,fun h => ?_⟩
  · rcases mem_append.mp hu with hu | hu
    · refine (hI.touched u hu).imp_right (fun h => ?_)
      by_cases hub : u.block = b
      · simp [State.modify,hub]
      · simpa [State.modify,State.setOp,hub] using h
    · rw [mem_singleton.mp hu]
      exact .inr (by simp [State.modify])
  · by_cases hab : a = b
    · rwa [hab]
    · exact hI.locked a (by simpa [State.modify,State.setOp,hab] using ha)
  · rw [show (s.modify o b x).phase = s.phase from rfl,hp] at h
    cases h

lemma listed_append {l : List Block} (hl : Listed L l) (hb : L.Home b) : Listed L (if b ∈ l then l else l++[b]) := by
  split_ifs with h
  · exact hl
  · refine ⟨fun a ha => ?_,concat_eq_append ▸ hl.nodup.concat h⟩
    rcases mem_append.mp ha with ha | ha
    · exact hl.home a ha
    · rwa [mem_singleton.mp ha]

lemma lh_append {o : Fin n} (hI : LhAt L s) (hp : s.phase = .normal)
    (hb : s.lock b = some o) : LhAt L (s.append o b) := by
  have hmem : ∀ a, a ∈ s.lh ∨ a = b → a ∈ (if b ∈ s.lh then s.lh else s.lh++[b]) := by
    rintro a ha
    split_ifs with h
    · rcases ha with ha | rfl
      · exact ha
      · exact h
    · simpa using ha
  refine ⟨listed_append hI.lh (hI.locked b (by rw [hb]; nofun)),hI.head,fun h => (h hp).elim,hI.stored,fun u hu => ?_,
    fun a ha => ?_,fun h => ?_⟩
  · by_cases hub : u.block = b
    · exact .inl (hmem _ (.inr hub))
    · refine (hI.touched u hu).imp (fun h => hmem _ (.inl h)) (fun h => ?_)
      simpa [append,setOp,hub] using h
  · by_cases hab : a = b
    · simp [append,hab] at ha
    · exact hI.locked a (by simpa [append,setOp,hab] using ha)
  · rw [show (s.append o b).phase = s.phase from rfl,hp] at h
    cases h

end

/-- The first round of `write_log` shows that a buffer is left for the log block. -/
lemma lh_writeLog {i : ℕ} {b : Block} (hL : L.size = logSize) (hI : LhAt L s) (hB : BufsAt (s.writeLog L i b))
    (hpin : ∀ a ∈ s.lh, a ∈ s.bufs) (hp : s.phase = .writeLog i) : s.lh.length < L.size := by
  by_cases hi : i = 0
  · subst hi
    have h0 : ¬L.Home (L.logBlock 0) := logBlock_not_home (k := 1) (by rw [hL]; decide) Nat.one_pos
    have hlt := hB.length_lt (x := L.logBlock 0) hI.lh.nodup (fun a ha => ?_) ?_ fun h => h0 (hI.lh.home _ h)
    · rw [hL]
      exact hlt
    · exact mem_insert_of_mem (mem_insert_of_mem (hpin a ha))
    · exact mem_insert_self
  · exact hI.fits (by rw [hp]; nofun) (by rw [hp]; simpa using hi)

lemma lh_step (hL : L.size = logSize) (hO : OpsAt s) (hO' : OpsAt s') (hB' : BufsAt s')
    (hpin : ∀ i, s.phase = .writeLog i → ∀ a ∈ s.lh, a ∈ s.bufs) (hI : LhAt L s) (h : Steps L s l s') : LhAt L s' := by
  have hpos : 0 < L.size := by rw [hL]; decide
  cases h with
  | beginOp | check | endOp | load | evict => exact lh_keep hI rfl rfl rfl rfl (fun h => h) hI.fits
  | modify o b x hr _ hb => exact lh_modify hI (hO.normal (o := o) (by rw [hr]; rfl)) hb
  | append o b hc =>
    exact lh_append hI (hO.normal (o := o) (by rw [hc]; rfl)) ((hO.lock b o).mpr (by rw [hc]; rfl))
  | endLast o p hr _ ho hp =>
    by_cases hlh : 0 < s.lh.length
    · rw [if_pos hlh] at hp
      exact lh_keep hI rfl rfl rfl rfl (fun h => by rw [hp] at h; cases h) fun _ h => (h hp).elim
    · -- No block is in the log and none is locked any more, so nothing has been modified.
      have hunl : ∀ b, s.lock b = none := hO'.unlocked ho
      have hnil : s.lh = [] := eq_nil_of_length_eq_zero (by omega)
      refine lh_over hI.lh hI.head (lt_of_le_of_lt (Nat.le_of_not_lt hlh) hpos) hI.stored
        (eq_nil_iff_forall_not_mem.mpr (fun u hu => ?_)) hunl
      rcases hI.touched u hu with h | h
      · rw [hnil] at h; cases h
      · exact h (hunl u.block)
  | readHead hp =>
    exact lh_over hI.head hI.head hI.stored hI.stored (hI.empty (by rw [hp]; rfl))
      (hO.unlocked (hO.quiet (by rw [hp]; nofun)))
  | writeLog i b hp =>
    have hlt := lh_writeLog hL hI hB' (hpin i hp) hp
    exact lh_keep hI rfl rfl rfl rfl nofun fun _ _ => hlt
  | logged i hp hi =>
    refine lh_keep hI rfl rfl rfl rfl nofun fun _ _ => ?_
    by_cases h0 : i = 0
    · omega
    · exact hI.fits (by rw [hp]; nofun) (by rw [hp]; simpa using h0)
  | writeHead hp =>
    have hlt := hI.fits (by rw [hp]; nofun) (by rw [hp]; nofun)
    exact lh_over hI.lh hI.lh hlt hlt rfl (hO.unlocked (hO.quiet (by rw [hp]; nofun)))
  | install r i b hp hb =>
    exact lh_keep hI rfl rfl rfl rfl (fun _ => by rw [hp]; rfl)
      fun _ _ => hI.fits (by rw [hp]; nofun) (by rw [hp]; nofun)
  | installed r i hp hi =>
    exact lh_over (.nil L) hI.head hpos hI.stored (hI.empty (by rw [hp]; rfl))
      (hO.unlocked (hO.quiet (by rw [hp]; nofun)))
  | clearHead r hp =>
    exact lh_over hI.lh (.nil L) (hI.fits (by rw [hp]; nofun) (by rw [hp]; nofun)) hpos (hI.empty (by rw [hp]; rfl))
      (hO.unlocked (hO.quiet (by rw [hp]; nofun)))
  | finish hp =>
    exact lh_over hI.lh hI.head (hI.fits (by rw [hp]; nofun) (by rw [hp]; nofun)) hI.stored
      (hI.empty (by rw [hp]; rfl)) (hO.unlocked (hO.quiet (by rw [hp]; nofun)))
  | crash => exact lh_over (.nil L) hI.head hpos hI.stored rfl (fun _ => rfl)

end Xv6Threads.Log
