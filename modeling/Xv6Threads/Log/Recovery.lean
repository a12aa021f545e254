import Xv6Threads.Log.Invariant

/-! What the disk, the log and the cache hold at every moment of a run: the disk with its log
always stands for the contents after the groups whose header has been written. -/
namespace Xv6Threads.Log
open Function List Option Update Redo
variable {n : ℕ} {α : Type}

namespace State

/-- The contents after the groups whose header has been written. -/
def durable (s : State n α) (d : Block → α) : Block → α := store (s.groups.flatten.map Update.write) d

/-- The contents as the operations see them. -/
def view (s : State n α) (d : Block → α) : Block → α := store (s.cur.map Update.write) (s.durable d)

end State

/-- What is special to the phase that a commit or a recovery is in. -/
def PhaseAt (L : Layout) (d : Block → α) (s : State n α) : Phase → Prop
  | .boot => True
  | .normal => s.disk.head = []
  | .writeLog i => s.disk.head = [] ∧
      ∀ j b, j < i → s.lh[j]? = some b → s.disk.blocks (L.logBlock j) = s.view d b
  | .writeHead => s.disk.head = [] ∧ ∀ j b, s.lh[j]? = some b → s.disk.blocks (L.logBlock j) = s.view d b
  | .install _ i => s.lh = s.disk.head ∧ ∀ j b, j < i → s.lh[j]? = some b → s.disk.blocks b = s.durable d b
  | .clear _ => s.lh = [] ∧ ∀ b, L.Home b → s.disk.blocks b = s.durable d b
  | .finish => s.lh = [] ∧ s.disk.head = []

/-- The listed blocks that have not been installed by `commit` yet. -/
def State.pinned (s : State n α) : List Block :=
  match s.phase with
  | .normal | .writeLog _ | .writeHead => s.lh
  | .install false i => s.lh.drop i
  | _ => []

structure DataAt (L : Layout) (d : Block → α) (s : State n α) : Prop where
  redo : Redo L.logBlock L.Home s.disk.head s.disk.blocks (s.durable d)
  cached : ∀ b x, s.cache b = some x → x.data = if L.Home b then s.view d b else s.disk.blocks b
  pinned : ∀ b ∈ s.pinned, ∃ x, s.cache b = some ⟨x,true⟩
  held : ∀ b, s.lock b ≠ none → s.cache b ≠ none
  phase : PhaseAt L d s s.phase

section
variable {L : Layout} {d : Block → α} {s s' : State n α}

lemma bread_fetch (b : Block) : (s.fetch b).bread b = s.bread b := by
  change (update s.cache b (some (s.bread b)) b).getD _ = _
  rw [update_self]
  rfl

lemma view_of_over (h : s.cur = []) : s.view d = s.durable d := by
  rw [State.view,h]
  rfl

variable {b : Block}

lemma view_of_not_touched (h : ∀ u ∈ s.cur, u.block ≠ b) : s.view d b = s.durable d b := by
  refine store_of_not_mem _ (fun w hw => ?_)
  obtain ⟨u,hu,rfl⟩ := mem_map.mp hw
  exact h u hu

lemma view_modify (o : Fin n) (b : Block) (x : α) : (s.modify o b x).view d = update (s.view d) b x := by
  change store ((s.cur++[mk o b x]).map write) (s.durable d) = _
  rw [map_append]
  exact store_concat ..

lemma durable_writeHead : s.writeHead.durable d = s.view d := by
  change store ((s.groups++[s.cur]).flatten.map write) d = _
  rw [flatten_append,map_append,store_append,flatten_cons,flatten_nil,append_nil]
  rfl

lemma view_writeHead : s.writeHead.view d = s.view d := (view_of_over rfl).trans durable_writeHead

section
variable (hD : DataAt L d s)
include hD

lemma DataAt.settled (hh : s.disk.head = []) (hb : L.Home b) : s.disk.blocks b = s.durable d b :=
  hD.redo.rest b hb (by rw [hh]; simp)

lemma DataAt.bread_log (hb : ¬L.Home b) : (s.bread b).data = s.disk.blocks b := by
  unfold State.bread
  cases hc : s.cache b with
  | none => rfl
  | some x => rw [getD_some,hD.cached b x hc,if_neg hb]

lemma DataAt.bread_pinned (hb : b ∈ s.pinned) (hh : L.Home b) : (s.bread b).data = s.view d b := by
  obtain ⟨x,hx⟩ := hD.pinned b hb
  have := hD.cached b _ hx
  rw [if_pos hh] at this
  rw [State.bread,hx]
  exact this

lemma DataAt.missing (hI : LhAt L s) (hr : s.phase.recovering = false)
    (hb : L.Home b) (hn : s.cache b = none) : s.disk.blocks b = s.view d b := by
  have hnp : b ∉ s.pinned := fun h => by
    obtain ⟨x,hx⟩ := hD.pinned b h
    rw [hn] at hx
    cases hx
  have hP := hD.phase
  have hopen : s.disk.head = [] → b ∉ s.lh → s.disk.blocks b = s.view d b := by
    intro hh hlh
    rw [hD.settled hh hb,view_of_not_touched]
    rintro u hu rfl
    rcases hI.touched u hu with h | h
    · exact hlh h
    · exact hD.held _ h hn
  unfold State.pinned at hnp
  cases hp : s.phase with
  | boot => rw [hp] at hr; cases hr
  | normal =>
    rw [hp] at hP hnp
    exact hopen hP hnp
  | writeLog i | writeHead =>
    rw [hp] at hP hnp
    exact hopen hP.1 hnp
  | install r i =>
    rw [hp] at hP hnp hr
    cases r with
    | true => cases hr
    | false =>
      rw [view_of_over (hI.empty (by rw [hp]; rfl))]
      by_cases hlh : b ∈ s.lh
      · obtain ⟨j,hj⟩ := mem_iff_getElem?.mp hlh
        refine hP.2 j b ?_ hj
        by_contra hij
        refine hnp (mem_iff_getElem?.mpr ⟨j-i,?_⟩)
        rw [getElem?_drop,Nat.add_sub_cancel' (Nat.le_of_not_lt hij)]
        exact hj
      · exact hD.redo.rest b hb (by rw [← hP.1]; exact hlh)
  | clear r =>
    rw [hp] at hP
    rw [view_of_over (hI.empty (by rw [hp]; rfl))]
    exact hP.2 b hb
  | finish =>
    rw [hp] at hP
    rw [view_of_over (hI.empty (by rw [hp]; rfl))]
    exact hD.settled hP.2 hb

lemma data_keep (hdk : s'.disk = s.disk) (hc : s'.cache = s.cache)
    (hg : s'.groups = s.groups) (hu : s'.cur = s.cur) (hl : s'.lock = s.lock)
    (hpin : ∀ b ∈ s'.pinned, b ∈ s.pinned) (hp : PhaseAt L d s' s'.phase) : DataAt L d s' := by
  have hdur : s'.durable d = s.durable d := by rw [State.durable,hg]; rfl
  have hview : s'.view d = s.view d := by rw [State.view,hdur,hu]; rfl
  refine ⟨by rw [hdk,hdur]; exact hD.redo,?_,fun b hb => ?_,by rw [hl,hc]; exact hD.held,hp⟩
  · rw [hc,hdk,hview]; exact hD.cached
  · rw [hc]; exact hD.pinned b (hpin b hb)

end

lemma pinned_normal (h : s.phase = .normal) : s.pinned = s.lh := by rw [State.pinned,h]

section
variable (hD : DataAt L d s)
include hD

lemma data_cache {y : Option (Buf α)}
    (hc : s'.cache = update s.cache b y) (hdk : s'.disk = s.disk) (hg : s'.groups = s.groups)
    (hv : ∀ a, a ≠ b → s'.view d a = s.view d a)
    (hy : ∀ z, y = some z → z.data = if L.Home b then s'.view d b else s.disk.blocks b)
    (hpin : ∀ a ∈ s'.pinned, a ≠ b → a ∈ s.pinned) (hpb : b ∈ s'.pinned → ∃ x, y = some ⟨x,true⟩)
    (hl : ∀ a, a ≠ b → s'.lock a ≠ none → s.lock a ≠ none) (hlb : s'.lock b ≠ none → y ≠ none)
    (hp : PhaseAt L d s' s'.phase) : DataAt L d s' := by
  have hdur : s'.durable d = s.durable d := by rw [State.durable,hg]; rfl
  refine ⟨by rw [hdk,hdur]; exact hD.redo,fun a z hz => ?_,fun a ha => ?_,fun a ha => ?_,hp⟩
  · rw [hdk]
    rw [hc] at hz
    by_cases hab : a = b
    · subst hab
      rw [update_self] at hz
      exact hy z hz
    · rw [update_of_ne hab] at hz
      rw [hv a hab]
      exact hD.cached a z hz
  · rw [hc]
    by_cases hab : a = b
    · subst hab
      rw [update_self]
      exact hpb ha
    · rw [update_of_ne hab]
      exact hD.pinned a (hpin a ha hab)
  · rw [hc]
    by_cases hab : a = b
    · subst hab
      rw [update_self]
      exact hlb ha
    · rw [update_of_ne hab]
      exact hD.held a (hl a hab ha)

lemma data_modify {o : Fin n} {x : α} (hp : s.phase = .normal) (hb : L.Home b) : DataAt L d (s.modify o b x) := by
  have hP := hD.phase
  have hp' : (s.modify o b x).phase = .normal := hp
  refine data_cache hD rfl rfl rfl (fun a hab => ?_) (fun z hz => ?_) (fun a ha _ => ?_) (fun hpb => ?_)
    (fun a hab ha => ?_) (fun _ => nofun) ?_
  · rw [view_modify,update_of_ne hab]
  · cases hz
    rw [if_pos hb,view_modify,update_self]
  · rw [pinned_normal hp'] at ha
    rw [pinned_normal hp]
    exact ha
  · rw [pinned_normal hp'] at hpb
    obtain ⟨y,hy⟩ := hD.pinned b (by rw [pinned_normal hp]; exact hpb)
    exact ⟨x,by rw [State.bread,hy]; rfl⟩
  · simpa [State.modify,State.setOp,hab] using ha
  · rw [hp']
    rw [hp] at hP
    exact hP

lemma data_append {o : Fin n} (hp : s.phase = .normal) (hl : s.lock b = some o) : DataAt L d (s.append o b) := by
  have hP := hD.phase
  have hp' : (s.append o b).phase = .normal := hp
  obtain ⟨z,hz⟩ := ne_none_iff_exists'.mp (hD.held b (by rw [hl]; nofun))
  have hbr : s.bread b = z := by rw [State.bread,hz]; rfl
  refine data_cache hD rfl rfl rfl (fun _ _ => rfl) (fun y hy => ?_) (fun a ha hab => ?_) (fun _ => ⟨_,rfl⟩)
    (fun a hab ha => ?_) (fun _ => nofun) ?_
  · cases hy
    rw [hbr]
    exact hD.cached b z hz
  · rw [pinned_normal hp'] at ha
    rw [pinned_normal hp]
    change a ∈ (if b ∈ s.lh then s.lh else s.lh++[b]) at ha
    split_ifs at ha
    · exact ha
    · simpa [hab] using ha
  · simpa [State.append,State.setOp,hab] using ha
  · rw [hp']
    rw [hp] at hP
    exact hP

/-- `bread` changes nothing for a block that is cached already, and outside the home blocks. -/
lemma data_fetch (hb : ¬L.Home b ∨ s.cache b ≠ none) : DataAt L d (s.fetch b) := by
  refine data_cache hD rfl rfl rfl (fun _ _ => rfl) (fun y hy => ?_) (fun a ha _ => ha) (fun hpb => ?_)
    (fun _ _ h => h) (fun _ => nofun) hD.phase
  · cases hy
    cases hc : s.cache b with
    | none =>
      rw [if_neg (hb.resolve_right fun h => h hc),State.bread,hc]
      rfl
    | some x =>
      rw [State.bread,hc]
      exact hD.cached b x hc
  · obtain ⟨y,hy⟩ := hD.pinned b hpb
    exact ⟨y,by rw [State.bread,hy]; rfl⟩

lemma data_load (hI : LhAt L s) (hr : s.phase.recovering = false)
    (hn : s.cache b = none) : DataAt L d (s.fetch b) := by
  refine data_cache hD rfl rfl rfl (fun _ _ => rfl) (fun y hy => ?_) (fun a ha _ => ha) (fun hpb => ?_)
    (fun _ _ h => h) (fun _ => nofun) hD.phase
  · cases hy
    rw [State.bread,hn]
    split_ifs with hh
    · exact hD.missing hI hr hh hn
    · rfl
  · obtain ⟨y,hy⟩ := hD.pinned b hpb
    rw [hn] at hy
    cases hy

lemma data_evict {x : α} (hx : s.cache b = some ⟨x,false⟩) (hl : s.lock b = none) : DataAt L d (s.evict b) := by
  refine data_cache hD rfl rfl rfl (fun _ _ => rfl) nofun (fun a ha _ => ha) (fun hpb => ?_)
    (fun _ _ h => h) (fun h => (h hl).elim) hD.phase
  obtain ⟨y,hy⟩ := hD.pinned b hpb
  rw [hx] at hy
  cases hy

lemma data_logged {i : ℕ} (hI : LhAt L s) (hp : s.phase = .writeLog i) (hb : s.lh[i]? = some b)
    (hlog : ¬L.Home (L.logBlock i)) :
    DataAt L d {s.bwrite (L.logBlock i) (s.bread b).data with phase := .writeLog (i+1)} := by
  have hP := hD.phase
  rw [hp] at hP
  have hmem : b ∈ s.lh := mem_of_getElem? hb
  have hx : (s.bread b).data = s.view d b := hD.bread_pinned (by rw [State.pinned,hp]; exact hmem) (hI.lh.home b hmem)
  have hne : ∀ {a}, L.Home a → a ≠ L.logBlock i := by rintro a ha rfl; exact hlog ha
  refine ⟨?_,fun a z hz => ?_,fun a ha => ?_,fun a ha => ?_,hP.1,fun j a hj ha => ?_⟩
  · change Redo L.logBlock L.Home s.disk.head (update s.disk.blocks (L.logBlock i) _) (s.durable d)
    rw [hP.1,nil_iff]
    intro a ha
    rw [update_of_ne (hne ha)]
    exact hD.settled hP.1 ha
  · change update s.cache (L.logBlock i) _ a = some z at hz
    change z.data = if L.Home a then s.view d a else update s.disk.blocks (L.logBlock i) _ a
    by_cases hai : a = L.logBlock i
    · subst hai
      rw [update_self] at hz ⊢
      cases hz
      rw [if_neg hlog]
    · rw [update_of_ne hai] at hz ⊢
      exact hD.cached a z hz
  · obtain ⟨y,hy⟩ := hD.pinned a (by rw [State.pinned,hp]; exact ha)
    refine ⟨y,?_⟩
    change update s.cache (L.logBlock i) _ a = _
    rw [update_of_ne (hne (hI.lh.home a ha))]
    exact hy
  · change update s.cache (L.logBlock i) _ a ≠ none
    rw [update_of_ne (hne (hI.locked a ha))]
    exact hD.held a ha
  · change update s.disk.blocks (L.logBlock i) _ (L.logBlock j) = s.view d a
    by_cases hji : j = i
    · subst hji
      rw [update_self,hx]
      rw [show s.lh[j]? = some a from ha] at hb
      rw [some.inj hb]
    · rw [update_of_ne (by simpa [Layout.logBlock] using hji)]
      exact hP.2 j a (by omega) ha

lemma data_writeLog {i : ℕ} (hI : LhAt L s) (hp : s.phase = .writeLog i) (hb : s.lh[i]? = some b)
    (hlog : ¬L.Home (L.logBlock i)) : DataAt L d (s.writeLog L i b) := by
  obtain ⟨x,hx⟩ := hD.pinned b (by rw [State.pinned,hp]; exact mem_of_getElem? hb)
  have hF : DataAt L d (s.fetch b) := data_fetch hD (.inr (by rw [hx]; nofun))
  have h := data_logged hF (lh_keep hI rfl rfl rfl rfl (fun h => h) hI.fits) hp hb hlog
  rwa [bread_fetch] at h

lemma data_writeHead (hI : LhAt L s) (hunl : ∀ b, s.lock b = none)
    (hp : s.phase = .writeHead) : DataAt L d s.writeHead := by
  have hP := hD.phase
  rw [hp] at hP
  refine ⟨?_,?_,fun a ha => ?_,hD.held,rfl,fun j a hj => by omega⟩
  · rw [durable_writeHead]
    refine commit (D := s.durable d) (fun a ha => hD.settled hP.1 ha) hI.lh.nodup hI.lh.home
      (fun j => logBlock_not_home (hI.fits (by rw [hp]; nofun) (by rw [hp]; nofun))) hP.2 (fun a ha => view_of_not_touched ?_)
    rintro u hu rfl
    rcases hI.touched u hu with h | h
    · exact ha h
    · exact h (hunl _)
  · rw [view_writeHead]
    exact hD.cached
  · exact hD.pinned a (by rw [State.pinned,hp]; exact ha)

lemma data_installed {r : Bool} {i : ℕ} (hI : LhAt L s)
    (hp : s.phase = .install r i) (hb : s.lh[i]? = some b) (hlog : ¬L.Home (L.logBlock i)) :
    DataAt L d {s.bwrite b (s.bread (L.logBlock i)).data with phase := .install r (i+1)} := by
  have hP := hD.phase
  rw [hp] at hP
  have hhome : L.Home b := hI.lh.home b (mem_of_getElem? hb)
  have hx : (s.bread (L.logBlock i)).data = s.disk.blocks (L.logBlock i) := hD.bread_log hlog
  have hbd : s.disk.blocks (L.logBlock i) = s.durable d b := hD.redo.copy i b (by rw [← hP.1]; exact hb)
  have hview : s.view d = s.durable d := view_of_over (hI.empty (by rw [hp]; rfl))
  refine ⟨?_,fun a z hz => ?_,fun a ha => ?_,fun a ha => ?_,hP.1,fun j a hj ha => ?_⟩
  · change Redo L.logBlock L.Home s.disk.head (update s.disk.blocks b _) (s.durable d)
    rw [hx]
    exact hD.redo.install (by rw [← hP.1]; exact hb)
  · change update s.cache b _ a = some z at hz
    change z.data = if L.Home a then s.view d a else update s.disk.blocks b _ a
    by_cases hab : a = b
    · subst hab
      rw [update_self] at hz
      cases hz
      rw [if_pos hhome,hview,hx,hbd]
    · rw [update_of_ne hab] at hz ⊢
      exact hD.cached a z hz
  · have hnb : a ≠ b ∧ a ∈ s.pinned := by
      cases r with
      | true => cases ha
      | false =>
        change a ∈ s.lh.drop (i+1) at ha
        have hdrop : s.lh.drop i = b :: s.lh.drop (i+1) := by
          obtain ⟨h,rfl⟩ := List.getElem?_eq_some_iff.mp hb
          exact drop_eq_getElem_cons h
        have hnd : (s.lh.drop i).Nodup := hI.lh.nodup.sublist (drop_sublist i s.lh)
        rw [State.pinned,hp]
        change a ≠ b ∧ a ∈ s.lh.drop i
        rw [hdrop] at hnd ⊢
        exact ⟨by rintro rfl; exact (nodup_cons.mp hnd).1 ha,mem_cons_of_mem b ha⟩
    obtain ⟨y,hy⟩ := hD.pinned a hnb.2
    refine ⟨y,?_⟩
    change update s.cache b _ a = _
    rw [update_of_ne hnb.1]
    exact hy
  · change update s.cache b _ a ≠ none
    by_cases hab : a = b
    · rw [hab,update_self]; nofun
    · rw [update_of_ne hab]; exact hD.held a ha
  · change update s.disk.blocks b _ a = s.durable d a
    by_cases hab : a = b
    · rw [hab,update_self,hx,hbd]
    · rw [update_of_ne hab]
      refine hP.2 j a ?_ ha
      have : j ≠ i := by
        rintro rfl
        rw [show s.lh[j]? = some a from ha] at hb
        exact hab (some.inj hb)
      omega

lemma data_install {r : Bool} {i : ℕ} (hI : LhAt L s)
    (hp : s.phase = .install r i) (hb : s.lh[i]? = some b) : DataAt L d (s.install L r i b) := by
  have hlog : ¬L.Home (L.logBlock i) := logBlock_not_home (hI.fits (by rw [hp]; nofun) (by rw [hp]; nofun))
    (List.getElem?_eq_some_iff.mp hb).1
  have h := data_installed (data_fetch hD (.inl hlog)) (lh_keep hI rfl rfl rfl rfl (fun h => h) hI.fits) hp hb hlog
  rwa [bread_fetch] at h

end

end

lemma DataAt.pinned_bufs {L : Layout} {d : Block → α} {s : State n α} {i : ℕ} (hD : DataAt L d s) (hB : BufsAt s)
    (hp : s.phase = .writeLog i) : ∀ a ∈ s.lh, a ∈ s.bufs := by
  intro a ha
  obtain ⟨x,hx⟩ := hD.pinned a (by rw [State.pinned,hp]; exact ha)
  exact hB.cached a (by rw [hx]; nofun)

lemma data_step {L : Layout} {d : Block → α} {s s' : State n α} {l : Label n α} (hL : L.size = logSize) (hO : OpsAt s)
    (hB : BufsAt s) (hB' : BufsAt s') (hI : LhAt L s) (hD : DataAt L d s) (h : Steps L s l s') : DataAt L d s' := by
  have hP := hD.phase
  cases h with
  | beginOp | check | endOp => exact data_keep hD rfl rfl rfl rfl rfl (fun _ h => h) hP
  | modify o b x hr _ hb => exact data_modify hD (hO.normal (o := o) (by rw [hr]; rfl)) hb
  | append o b hc =>
    exact data_append hD (hO.normal (o := o) (by rw [hc]; rfl)) ((hO.lock b o).mpr (by rw [hc]; rfl))
  | endLast o p hr _ ho hp =>
    have hn := hO.normal (o := o) (by rw [hr]; rfl)
    rw [hn] at hP
    by_cases hlh : 0 < s.lh.length
    · rw [if_pos hlh] at hp
      subst hp
      refine data_keep hD rfl rfl rfl rfl rfl (fun b hb => ?_) ⟨hP,fun j b hj => by omega⟩
      rw [pinned_normal hn]
      exact hb
    · rw [if_neg hlh] at hp
      subst hp
      have hnil : s.lh = [] := eq_nil_of_length_eq_zero (by omega)
      exact data_keep hD rfl rfl rfl rfl rfl nofun ⟨hnil,hP⟩
  | load b hc hr => exact data_load hD hI hr hc
  | evict b x hx hl => exact data_evict hD hx hl
  | readHead hp => exact data_keep hD rfl rfl rfl rfl rfl nofun ⟨rfl,fun j b hj => by omega⟩
  | writeLog i b hp hb =>
    have hlt := lh_writeLog hL hI hB' (hD.pinned_bufs hB hp) hp
    exact data_writeLog hD hI hp hb (logBlock_not_home hlt (List.getElem?_eq_some_iff.mp hb).1)
  | logged i hp hi =>
    rw [hp] at hP
    refine data_keep hD rfl rfl rfl rfl rfl (fun b hb => by rw [State.pinned,hp]; exact hb)
      ⟨hP.1,fun j b hb => hP.2 j b ?_ hb⟩
    have := (List.getElem?_eq_some_iff.mp hb).1
    change j < s.lh.length at this
    omega
  | writeHead hp => exact data_writeHead hD hI (hO.unlocked (hO.quiet (by rw [hp]; nofun))) hp
  | install r i b hp hb => exact data_install hD hI hp hb
  | installed r i hp hi =>
    rw [hp] at hP
    refine data_keep hD rfl rfl rfl rfl rfl nofun ⟨rfl,fun b hb => ?_⟩
    by_cases hbl : b ∈ s.lh
    · obtain ⟨j,hj⟩ := mem_iff_getElem?.mp hbl
      have := (List.getElem?_eq_some_iff.mp hj).1
      exact hP.2 j b (by omega) hj
    · exact hD.redo.rest b hb (by rw [← hP.1]; exact hbl)
  | clearHead r hp =>
    rw [hp] at hP
    refine ⟨nil_iff.mpr hP.2,hD.cached,fun b hb => ?_,hD.held,?_⟩
    · have hnil : (s.clearHead r).pinned = [] := by
        cases r with
        | true => exact hP.1
        | false => rfl
      rw [hnil] at hb
      cases hb
    · cases r with
      | true => exact rfl
      | false => exact ⟨hP.1,rfl⟩
  | finish hp =>
    rw [hp] at hP
    refine data_keep hD rfl rfl rfl rfl rfl (fun b hb => ?_) hP.2
    change b ∈ s.lh at hb
    rw [hP.1] at hb
    cases hb
  | crash => exact ⟨hD.redo,nofun,nofun,fun b h => (h rfl).elim,trivial⟩

end Xv6Threads.Log
