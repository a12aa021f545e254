import Xv6Threads.Log.Atomicity

/-! The reservations of `begin_op` against the tests of `log_write`. The header takes one of the
`nlog` blocks, which the reservations do not know of: they are enough for operations that write one
block less than `MAXOPBLOCKS`. -/
namespace Xv6Threads.Log
open Function List Nat OpPc State List.Subset
variable {n : ℕ} {α : Type}

/-- The blocks that operation `o` has written. -/
def opBlocks (us : List (Update n α)) (o : Fin n) : Finset Block := ((byOp o us).map Update.block).toFinset

/-- No operation writes more than `k` blocks. -/
def writesAtMost (k : ℕ) (s : State n α) : Label n α → Bool
  | .modify o b x => decide ((opBlocks (s.made++[⟨o,b,x⟩]) o).card ≤ k)
  | _ => true

/-- What is left of the reservation of operation `o`, which is at `c`. -/
def spare (us : List (Update n α)) (lh : List Block) (o : Fin n) (c : OpPc) : ℕ :=
  if c.active = 1 then maxOpBlocks-1-(opBlocks us o ∩ lh.toFinset).card else 0

/-- Where the log in memory is empty when no operation is outstanding. -/
def Phase.emptied : Phase → Bool
  | .normal | .clear _ | .finish => true
  | _ => false

structure Room (s : State n α) : Prop where
  few : ∀ o, (opBlocks s.made o).card ≤ maxOpBlocks-1
  pending : ∀ {o b}, (s.op o).block = some b → b ∈ opBlocks s.made o
  normal : s.phase = .normal → s.lh.length+total (spare s.made s.lh) s.op ≤ logSize-2
  idle : s.outstanding = 0 → s.phase.emptied = true → s.lh = []
  lh : s.lh.length ≤ logSize-2
  head : s.disk.head.length ≤ logSize-2

section
variable {us vs : List (Update n α)} {l m : List Block} {o : Fin n} {c : OpPc}

lemma opBlocks_append : opBlocks (us++vs) o = opBlocks us o ∪ opBlocks vs o := by simp [opBlocks,byOp_append]

lemma opBlocks_concat_of_ne {u : Update n α} (h : u.op ≠ o) : opBlocks (us++[u]) o = opBlocks us o := by
  have : byOp o [u] = [] := byOp_eq_nil.mpr (by simpa using h)
  simp [opBlocks,byOp_append,this]

lemma mem_opBlocks_concat {b : Block} {x : α} : b ∈ opBlocks (us++[⟨o,b,x⟩]) o := by simp [opBlocks,byOp]

lemma spare_le (us : List (Update n α)) (l : List Block) (o : Fin n) (c : OpPc) :
    spare us l o c ≤ (maxOpBlocks-1)*c.active := by
  unfold spare
  split_ifs with h
  · rw [h]
    omega
  · omega

lemma spare_congr {d : OpPc} (h : c.active = d.active) : spare us l o c = spare us l o d := by
  unfold spare
  rw [h]

lemma spare_mono (hu : opBlocks us o ⊆ opBlocks vs o) (hl : l ⊆ m) : spare vs m o c ≤ spare us l o c := by
  unfold spare
  split_ifs
  · have : (opBlocks us o ∩ l.toFinset).card ≤ (opBlocks vs o ∩ m.toFinset).card :=
      Finset.card_le_card (Finset.inter_subset_inter hu (fun b hb => by
        rw [mem_toFinset] at hb ⊢
        exact hl hb))
    omega
  · rfl

lemma spare_append {b : Block} (hc : c.active = 1) (hb : b ∈ opBlocks us o) (hn : b ∉ l)
    (hfew : (opBlocks us o).card ≤ maxOpBlocks-1) : spare us (l++[b]) o c < spare us l o c := by
  have hlt : (opBlocks us o ∩ l.toFinset).card < (opBlocks us o ∩ (l++[b]).toFinset).card := by
    refine Finset.card_lt_card (Finset.ssubset_iff_of_subset ?_ |>.mpr ⟨b,?_,?_⟩)
    · refine Finset.inter_subset_inter (Finset.Subset.refl _) (fun a ha => ?_)
      rw [mem_toFinset] at ha ⊢
      exact mem_append_left _ ha
    · simp [hb]
    · simp [hn]
  have hle : (opBlocks us o ∩ (l++[b]).toFinset).card ≤ (opBlocks us o).card :=
    Finset.card_le_card Finset.inter_subset_left
  unfold spare
  rw [if_pos hc,if_pos hc]
  omega

end

section
variable {L : Layout} {s s' : State n α}

variable {o : Fin n}

lemma room_move {c : OpPc} (hR : Room s) (ho : s'.op = update s.op o c) (hm : s'.made = s.made)
    (hl : s'.lh = s.lh) (hh : s'.disk.head = s.disk.head) (hb : c.block = (s.op o).block ∨ c.block = none)
    (ha : c.active = (s.op o).active ∨ c.active = 0) (hp : s'.phase = .normal → s.phase = .normal)
    (hi : s'.outstanding = 0 → s'.phase.emptied = true → s.lh = []) : Room s' := by
  refine ⟨by rw [hm]; exact hR.few,fun {q b} hq => ?_,fun h => ?_,fun h1 h2 => by rw [hl]; exact hi h1 h2,
    by rw [hl]; exact hR.lh,by rw [hh]; exact hR.head⟩
  · rw [ho] at hq
    rw [hm]
    by_cases hqo : q = o
    · rw [hqo,update_self] at hq
      rw [hqo]
      rcases hb with h | h <;> rw [h] at hq
      · exact hR.pending hq
      · cases hq
    · rw [update_of_ne hqo] at hq
      exact hR.pending hq
  · have hle : total (spare s.made s.lh) (update s.op o c) ≤ total (spare s.made s.lh) s.op := by
      refine total_le_total (fun q => ?_)
      by_cases hqo : q = o
      · rw [hqo,update_self]
        rcases ha with h | h
        · rw [spare_congr h]
        · unfold spare
          rw [h,if_neg (by decide)]
          exact zero_le _
      · rw [update_of_ne hqo]
    rw [hm,hl,ho]
    exact (Nat.add_le_add_left hle _).trans (hR.normal (hp h))

lemma room_keep (hR : Room s) (ho : s'.op = s.op) (hm : s'.made = s.made) (hl : s'.lh = s.lh)
    (hh : s'.disk.head = s.disk.head) (hp : s'.phase = s.phase) (hout : s'.outstanding = s.outstanding) : Room s' :=
  ⟨by rw [hm]; exact hR.few,by rw [ho,hm]; exact hR.pending,by rw [ho,hm,hl,hp]; exact hR.normal,
    by rw [hout,hp,hl]; exact hR.idle,by rw [hl]; exact hR.lh,by rw [hh]; exact hR.head⟩

lemma room_beginOp (hO : OpsAt s) (hR : Room s) (hf : s.op o = .fresh)
    (hp : s.phase = .normal) (hroom : s.lh.length+(s.outstanding+1)*maxOpBlocks ≤ logSize) : Room (s.beginOp o) := by
  refine ⟨hR.few,fun {q b} hq => ?_,fun _ => ?_,fun h => (succ_ne_zero _ h).elim,hR.lh,hR.head⟩
  · by_cases hqo : q = o
    · subst hqo
      simp [beginOp,setOp,block] at hq
    · exact hR.pending (by simpa [beginOp,setOp,hqo] using hq)
  · have h1 : total (spare s.made s.lh) (update s.op o .running) ≤
        total (fun _ c => (maxOpBlocks-1)*c.active) (update s.op o .running) :=
      total_le_total (fun q => spare_le _ _ _ _)
    have h2 : total (fun _ c => (maxOpBlocks-1)*c.active) (update s.op o running) =
        (maxOpBlocks-1)*total (fun _ => active) (update s.op o .running) := total_mul ..
    have h3 := total_update (fun _ => active) s.op o .running
    rw [hf,← hO.count] at h3
    have h4 : total (fun _ => active) (update s.op o .running) = s.outstanding+1 := h3
    rw [h2,h4] at h1
    change s.lh.length+total (spare s.made s.lh) (update s.op o .running) ≤ _
    by_cases h0 : s.outstanding = 0
    · have : s.lh.length = 0 := by rw [hR.idle h0 (by rw [hp]; rfl)]; rfl
      rw [h0] at h1
      unfold maxOpBlocks at h1
      unfold logSize maxOpBlocks
      omega
    · unfold maxOpBlocks at h1 hroom
      unfold logSize maxOpBlocks at *
      omega

lemma room_modify {b : Block} {x : α} (hO : OpsAt s) (hR : Room s) (hr : s.op o = .running)
    (hok : (opBlocks (s.made++[⟨o,b,x⟩]) o).card ≤ maxOpBlocks-1) : Room (s.modify o b x) := by
  have hp := hO.normal (o := o) (by rw [hr]; rfl)
  have hsub : ∀ q, opBlocks s.made q ⊆ opBlocks (s.made++[⟨o,b,x⟩]) q := fun q => by
    rw [opBlocks_append]
    exact Finset.subset_union_left
  refine ⟨fun q => ?_,fun {q a} hq => ?_,fun _ => ?_,fun h => hR.idle h,hR.lh,hR.head⟩
  · by_cases hqo : q = o
    · rw [hqo]
      exact hok
    · change (opBlocks (s.made++[⟨o,b,x⟩]) q).card ≤ _
      rw [opBlocks_concat_of_ne (Ne.symm hqo)]
      exact hR.few q
  · change (update s.op o (.modified b) q).block = some a at hq
    by_cases hqo : q = o
    · rw [hqo,update_self] at hq
      cases hq
      rw [hqo]
      exact mem_opBlocks_concat
    · rw [update_of_ne hqo] at hq
      exact hsub q (hR.pending hq)
  · have hle : total (spare (s.made++[⟨o,b,x⟩]) s.lh) (update s.op o (.modified b)) ≤
        total (spare s.made s.lh) s.op := by
      refine total_le_total (fun q => ?_)
      by_cases hqo : q = o
      · rw [hqo,update_self,hr]
        exact (spare_congr rfl).trans_le (spare_mono (c := .running) (hsub o) (refl _))
      · rw [update_of_ne hqo]
        exact spare_mono (hsub q) (refl _)
    have hn := hR.normal hp
    exact (Nat.add_le_add_left hle _).trans hn

lemma room_append {b : Block} (hO : OpsAt s) (hR : Room s) (hc : s.op o = .checked b) : Room (s.append o b) := by
  have hp := hO.normal (o := o) (by rw [hc]; rfl)
  have hlog : (if b ∈ s.lh then s.lh else s.lh++[b]).length+
      total (spare s.made (if b ∈ s.lh then s.lh else s.lh++[b])) (update s.op o .running) ≤ logSize-2 := by
    have hn := hR.normal hp
    have hsame : ∀ l, total (spare s.made l) (update s.op o .running) = total (spare s.made l) s.op :=
      fun l => total_update_of_eq (spare_congr (by rw [hc]; rfl))
    split_ifs with hb
    · rw [hsame]
      exact hn
    · rw [hsame,length_append,length_singleton]
      have hlt : total (spare s.made (s.lh++[b])) s.op < total (spare s.made s.lh) s.op :=
        total_lt_total (fun q => spare_mono (Finset.Subset.refl _) (subset_append_left _ _)) (a := o)
          (spare_append (by rw [hc]; rfl) (hR.pending (by rw [hc]; rfl)) hb (hR.few o))
      omega
  refine ⟨hR.few,fun {q a} hq => ?_,fun _ => hlog,fun h => ?_,?_,hR.head⟩
  · change (update s.op o .running q).block = some a at hq
    by_cases hqo : q = o
    · rw [hqo,update_self] at hq
      cases hq
    · rw [update_of_ne hqo] at hq
      exact hR.pending hq
  · have h1 := weight_le_total (fun _ => active) s.op o
    have h2 := hO.count
    have h3 : s.outstanding = 0 := h
    rw [hc] at h1
    simp only [active] at h1
    omega
  · exact (le_add_right _ _).trans hlog

lemma room_sys (hR : Room s) (hm : s'.made = s.made) (ho : s'.op = s.op) (hp : s'.phase = .normal → s'.lh = [])
    (hi : s'.phase.emptied = true → s'.lh = []) (hl : s'.lh.length ≤ logSize-2)
    (hh : s'.disk.head.length ≤ logSize-2) (hin : ∀ o, (s'.op o).active = 0) : Room s' := by
  refine ⟨by rw [hm]; exact hR.few,fun {o b} h => by rw [hm]; exact hR.pending (by rw [← ho]; exact h),fun h => ?_,
    fun _ => hi,hl,hh⟩
  have hz : total (spare s'.made s'.lh) s'.op = 0 := total_eq_zero (fun o => by
    unfold spare
    rw [hin o,if_neg (by decide)])
  rw [hz,hp h]
  exact zero_le _

end

lemma room_step {L : Layout} {s s' : State n α} {l : Label n α} (hO : OpsAt s) (hR : Room s)
    (hok : writesAtMost (maxOpBlocks-1) s l = true) (h : Steps L s l s') : Room s' := by
  have hin : s.phase ≠ .normal → ∀ o, (s.op o).active = 0 := fun hp o => hO.inactive (hO.quiet hp) o
  have hempty : ∀ p, p ≠ .normal → s.phase = p → p.emptied = true → s.lh = [] := fun p hn hp he =>
    hR.idle (hO.quiet (by rw [hp]; exact hn)) (by rw [hp]; exact he)
  cases h with
  | beginOp o hf hr hc hroom =>
    exact room_beginOp hO hR hf (commit_of_not_recovering hr (by rw [← hO.commit]; exact hc)) hroom
  | modify o b x hr => exact room_modify hO hR hr (of_decide_eq_true hok)
  | check o b hm =>
    exact room_move hR rfl rfl rfl rfl (.inl (by rw [hm]; rfl)) (.inl (by rw [hm]; rfl)) (fun h => h) hR.idle
  | append o b hc => exact room_append hO hR hc
  | endOp o hr _ ho => exact room_move hR rfl rfl rfl rfl (.inr rfl) (.inr rfl) (fun h => h) (fun h => (ho h).elim)
  | endLast o p hr _ ho hp =>
    have hnorm := hO.normal (o := o) (by rw [hr]; rfl)
    refine room_move hR rfl rfl rfl rfl (.inr rfl) (.inr rfl) (fun _ => hnorm) (fun _ he => ?_)
    -- `commit` is called on an empty log, or begins with `write_log`.
    have he : p.emptied = true := he
    by_cases hlh : 0 < s.lh.length
    · rw [hp,if_pos hlh] at he
      cases he
    · exact eq_nil_of_length_eq_zero (by omega)
  | load | evict => exact room_keep hR rfl rfl rfl rfl rfl rfl
  | readHead hp => exact room_sys hR rfl rfl nofun nofun hR.head hR.head (hin (by rw [hp]; nofun))
  | writeLog i b hp | logged i hp | install r i b hp =>
    exact room_sys hR rfl rfl nofun nofun hR.lh hR.head (hin (by rw [hp]; nofun))
  | writeHead hp => exact room_sys hR rfl rfl nofun nofun hR.lh hR.lh (hin (by rw [hp]; nofun))
  | installed r i hp =>
    exact room_sys hR rfl rfl (fun _ => rfl) (fun _ => rfl) (zero_le _) hR.head (hin (by rw [hp]; nofun))
  | clearHead r hp =>
    have hl := hempty (.clear r) nofun hp rfl
    exact room_sys hR rfl rfl (fun _ => hl) (fun _ => hl) hR.lh (zero_le _) (hin (by rw [hp]; nofun))
  | finish hp =>
    have hl := hempty .finish nofun hp rfl
    exact room_sys hR rfl rfl (fun _ => hl) (fun _ => hl) hR.lh hR.head (hin (by rw [hp]; nofun))
  | crash =>
    refine ⟨hR.few,fun {o b} h => ?_,nofun,fun _ _ => rfl,zero_le _,hR.head⟩
    have hc : s.crash.op o = s.op o ∨ s.crash.op o = .dead := ite_eq_or_eq ..
    rcases hc with hc | hc <;> rw [hc] at h
    · exact hR.pending h
    · cases h

lemma room_initial {d : Block → α} : Room (initial d : State n α) :=
  ⟨fun _ => zero_le _,nofun,nofun,nofun,zero_le _,zero_le _⟩

lemma reach_room {L : Layout} {d : Block → α} {s : State n α}
    (h : (system L n d).ReachWhile (fun s l => writesAtMost (maxOpBlocks-1) s l = true) s) : OpsAt s ∧ Room s := by
  refine System.ReachWhile.invariant (I := fun s => OpsAt s ∧ Room s) ?_ ?_ h
  · rintro s (rfl : s = initial d)
    exact ⟨⟨(total_eq_zero (fun _ => rfl)).symm,fun _ _ => ⟨nofun,nofun⟩,fun _ => rfl,rfl⟩,room_initial⟩
  · rintro s l t ⟨hO,hR⟩ hok hs
    have hs := step_cases hs
    exact ⟨ops_step hO hs,room_step hO hR hok hs⟩

/-- In every run in which no operation writes more than `MAXOPBLOCKS-1` distinct blocks, on a log of
`LOGSIZE` blocks with its header: a call of `log_write` passes its tests, `log.lh.n` is within
`lh.block`, and `write_log` and `install_trans` use only blocks of the log. -/
theorem admission_sound {L : Layout} (hL : L.size = logSize) (d : Block → α) {s : State n α}
    (h : (system L n d).ReachWhile (fun s l => writesAtMost (maxOpBlocks-1) s l = true) s) :
    (∀ o b, s.op o = .modified b → s.step L (.check o) = some (s.setOp o (.checked b))) ∧ s.lh.length ≤ logSize ∧
    (∀ o b, s.op o = .checked b → s.lh.length < logSize) ∧
    ∀ i < s.lh.length, L.start ≤ L.logBlock i ∧ L.logBlock i < L.start+L.size := by
  obtain ⟨hO,hR⟩ := reach_room h
  have hlh := hR.lh
  have hlog : logSize = 30 := rfl
  refine ⟨fun o b ho => ?_,by omega,fun _ _ _ => by omega,fun i hi => ?_⟩
  · have hout : 1 ≤ s.outstanding := by
      have h1 := weight_le_total (fun _ => OpPc.active) s.op o
      rw [ho,← hO.count] at h1
      exact h1
    simp only [State.step,ho]
    rw [if_pos ⟨by omega,by omega,hout⟩]
  · unfold Layout.logBlock
    omega

/-- A test for `writesAtMost` that counts the writes. -/
def fewWrites (k : ℕ) (s : State n α) : Label n α → Bool
  | .modify o b x => decide ((byOp o (s.made++[⟨o,b,x⟩])).length ≤ k)
  | _ => true

lemma writesAtMost_of_fewWrites {k : ℕ} (s : State n α) (l : Label n α) (h : fewWrites k s l = true) :
    writesAtMost k s l = true := by
  cases l with
  | modify o b x =>
    have hle := toFinset_card_le ((byOp o (s.made++[⟨o,b,x⟩])).map Update.block)
    rw [length_map] at hle
    exact decide_eq_true (hle.trans (of_decide_eq_true h))
  | _ => rfl

/-- Operation `o` logs the `k` blocks from `b` on. -/
def logRun (o : Fin n) (b k : ℕ) : List (Label n ℕ) :=
  (List.range k).flatMap (fun i => [.modify o (b+i) 7,.check o,.append o])

def nineBlocks : List (Label 1 ℕ) :=
  List.flatten [List.replicate 3 .sys,[.beginOp 0],logRun 0 40 8,[.modify 0 48 7]]

open scoped FixedRuns

def thirtyBlocks : List (Label 3 ℕ) :=
  List.flatten
    [List.replicate 3 .sys,[.beginOp 0,.beginOp 1,.beginOp 2],logRun 0 40 10,logRun 1 50 10,logRun 2 60 9,
     [.modify 2 69 7]]

/-- One operation is about to log its ninth block. -/
theorem admission_sound_ninth_block : ∃ s : State 1 ℕ,
    (system mkfsLayout 1 (fun _ => 0)).ReachWhile (fun s l => writesAtMost (maxOpBlocks-1) s l = true) s ∧
    s.op 0 = .modified 48 ∧ s.step mkfsLayout (.check 0) = some (s.setOp 0 (.checked 48)) := by
  obtain ⟨s,hs,ho⟩ := System.reachWhile_of_exec (M := system mkfsLayout 1 (fun _ => 0))
    (fewWrites (maxOpBlocks-1)) writesAtMost_of_fewWrites nineBlocks
    (fun s => s.op 0 = .modified 48) rfl (by decide +kernel)
  exact ⟨s,hs,ho,(admission_sound rfl (fun _ => 0) hs).1 0 48 ho⟩

/-- Three operations that `begin_op` admits together log ten blocks each. The thirtieth call of
`log_write` finds the log full. -/
theorem header_block_not_reserved : ∃ s : State 3 ℕ,
    (system mkfsLayout 3 (fun _ => 0)).ReachWhile (fun s l => writesAtMost maxOpBlocks s l = true) s ∧
      s.op 2 = .modified 69 ∧ ¬s.lh.length < mkfsLayout.size-1 :=
  System.reachWhile_of_exec (M := system mkfsLayout 3 (fun _ => 0)) (fewWrites maxOpBlocks) writesAtMost_of_fewWrites
    thirtyBlocks _ rfl (by decide +kernel)

end Xv6Threads.Log
