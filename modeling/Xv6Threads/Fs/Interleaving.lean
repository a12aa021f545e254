import Xv6Threads.Fs.Discipline

/-! Interleaved system calls: in every state of a run each call keeps to the contract from where
it is. -/
namespace Xv6Threads.Fs
open Function List Sys Prog

/-- The entries of an image, as they have been linked. -/
def linkedAll (l : List Dirent) : List Event :=
  (l.filter (fun e => e.inum ≠ 0)).map (fun e => .linked e.name e.inum)

variable {P : Type}

/-- Before the first call. -/
structure Boot (s : Sys P) : Prop where
  lock : ∀ i, s.fs.lock i = none
  cwd : ∀ p, (s.fs.proc p).cwd = rootIno
  work : ∀ p, s.work p = none
  noLoop : NoLoop s.fs
  distinct : ∀ d, Distinct (s.fs.ino d).ents
  hist : ∀ d, s.hist d = linkedAll (s.fs.ino d).ents

/-- Process `p` is in a call that changes names. -/
def Sys.changing (s : Sys P) (p : P) : Prop := ∃ c x, s.work p = some (c,x) ∧ c.changes = true

variable [DecidableEq P]

variable (P) in
def interleaved : System (Sys P) (SysLabel P) where
  init := Boot
  step := Sys.step

/-- A call that changes names starts only while there is no other one, and `link` does not enter
`.` or `..`. -/
def serial (s : Sys P) : SysLabel P → Prop
  | .start _ c => c.Proper ∧ (c.changes = true → ∀ q, ¬s.changing q)
  | _ => True

variable (ser : Prop) in
/-- Every call in progress keeps to the contract. -/
structure Tame (s : Sys P) : Prop where
  idle : ∀ p, s.work p = none → At ser p [] s.fs
  busy : ∀ p c x, s.work p = some (c,x) → x.wp (contract ser c.changes p) (fun _ t => At ser p [] t) s.fs
  one : ser → ∀ p q, s.changing p → s.changing q → p = q

variable {ser : Prop} {s t : Sys P} {p q : P}

omit [DecidableEq P] in
lemma Guar.rely {m k : Bool} {s t : State P} (h : Guar ser m p s t) (hq : q ≠ p) (hm : ser → k = true → m = false) :
    Rely ser k q s t := ⟨h.locks q hq,h.ino q hq,h.cwd q hq,h.noLoop,fun hs hk => h.others hs (hm hs hk)⟩

omit [DecidableEq P] in
lemma rely_same {k : Bool} {s t : State P} (hi : t.ino = s.ino) (hl : t.lock = s.lock)
    (hc : (s.proc q).cwd ≠ 0 → (t.proc q).cwd ≠ 0) : Rely ser k q s t :=
  ⟨fun j => by rw [hl],fun j _ _ => by rw [hi],hc,fun _ => noLoop_congr hi,fun _ _ j => .inl (by rw [hi])⟩

variable {o : Option (Call × Code ℤ)}

lemma work_update (hw : t.work = update s.work p o) : t.work p = o ∧ ∀ q, q ≠ p → t.work q = s.work q :=
  ⟨by rw [hw,update_self],fun q hq => by rw [hw,update_of_ne hq]⟩

omit [DecidableEq P] in
lemma changing_other (hw : ∀ q, q ≠ p → t.work q = s.work q) (hq : q ≠ p) : t.changing q ↔ s.changing q := by
  unfold changing
  rw [hw q hq]

lemma tame_step_of (hT : Tame ser s) (hw : t.work = update s.work p o)
    (hrely : ∀ q, q ≠ p → ∀ k, (k = true → s.changing q) → Rely ser k q s.fs t.fs)
    (hidle : o = none → At ser p [] t.fs)
    (hbusy : ∀ c x, o = some (c,x) → x.wp (contract ser c.changes p) (fun _ t => At ser p [] t) t.fs)
    (hone : ser → t.changing p → ∀ q, q ≠ p → ¬s.changing q) : Tame ser t := by
  obtain ⟨hp,hq⟩ := work_update hw
  refine ⟨fun q hq0 => ?_,fun q c x hx => ?_,fun hs q r hqc hrc => ?_⟩
  · by_cases hqp : q = p
    · subst hqp
      exact hidle (hp ▸ hq0)
    · rw [hq q hqp] at hq0
      exact ((hT.idle q hq0).rely (hrely q hqp false nofun)).1
  · by_cases hqp : q = p
    · subst hqp
      exact hbusy c x (hp ▸ hx)
    · rw [hq q hqp] at hx
      exact wp_rely (hT.busy q c x hx) (hrely q hqp _ (fun hc => ⟨c,x,hx,hc⟩))
  · by_cases hqp : q = p <;> by_cases hrp : r = p
    · rw [hqp,hrp]
    · exact (hone hs (hqp ▸ hqc) r hrp ((changing_other hq hrp).mp hrc)).elim
    · exact (hone hs (hrp ▸ hrc) q hqp ((changing_other hq hqp).mp hqc)).elim
    · exact hT.one hs q r ((changing_other hq hqp).mp hqc) ((changing_other hq hrp).mp hrc)

lemma tame_step {l : SysLabel P} (hT : Tame ser s) (hok : ser → serial s l) (h : s.step l = some t) : Tame ser t := by
  cases l with
  | start p c =>
    simp only [step] at h
    split_ifs at h with hp
    cases h
    refine tame_step_of (o := some (c,c.code)) hT rfl (fun _ _ _ _ => rely_same rfl rfl id) nofun (fun c' x hx => ?_) (fun hs hc q hq => ?_)
    · cases hx
      exact wp_code c (hT.idle p hp.2) (fun hs => (hok hs).1)
    · obtain ⟨c',x,hx,hc⟩ := hc
      rw [(work_update rfl).1] at hx
      cases hx
      exact (hok hs).2 hc q
  | fork p q =>
    simp only [step] at h
    split_ifs at h with hp
    cases h
    have hsame : ∀ {k r}, Rely ser k r s.fs (s.fs.fork p q) := by
      intro k r
      refine rely_same rfl rfl (fun hr => ?_)
      change (update s.fs.proc q (s.fs.proc p) _).cwd ≠ 0
      by_cases hrq : r = q
      · rw [hrq,update_self]
        exact (hT.idle p hp.2.2.1).cwd
      · rw [update_of_ne hrq]
        exact hr
    exact tame_step_of (o := s.work p) hT (update_eq_self p s.work).symm (fun _ _ _ _ => hsame)
      (fun hp => ((hT.idle p hp).rely (m := false) hsame).1) (fun c x hx => wp_rely (hT.busy p c x hx) hsame)
      (fun hs hc q hq hc' => hq (hT.one hs q p hc' hc))
  | next p =>
    simp only [Sys.step,Sys.next] at h
    split at h
    · cases h
    · next c a hw =>
      cases h
      refine tame_step_of (o := none) hT rfl (fun _ _ _ _ => rely_same rfl rfl id)
        (fun _ => hT.busy p c _ hw s.fs ((contract ser c.changes p).refl _)) nofun (fun hs hc => ?_)
      obtain ⟨c',x,hx,-⟩ := hc
      rw [(work_update rfl).1] at hx
      cases hx
    · next c i k hw =>
      split at h
      swap
      · cases h
      next r u hu =>
      cases h
      obtain ⟨-,-,hk⟩ := wp_next (hT.busy p c _ hw)
      obtain ⟨hG,hwp⟩ := hk r u hu
      refine tame_step_of (o := some (c,k r)) hT rfl (fun q hq b hb => hG.rely hq (fun hs hbt => ?_)) nofun (fun c' x hx => ?_)
        (fun hs hc q hq hc' => ?_)
      · by_contra hc
        exact hq (hT.one hs q p (hb hbt) ⟨c,_,hw,by simpa using hc⟩)
      · cases hx
        exact hwp
      · obtain ⟨c',x,hx,hc⟩ := hc
        rw [(work_update rfl).1] at hx
        cases hx
        exact hq (hT.one hs q p hc' ⟨c,_,hw,hc⟩)

variable (ser) in
/-- What a step does to the files and the histories. -/
inductive Did (s t : Sys P) : Prop
  | same (hf : t.fs = s.fs) (hh : t.hist = s.hist)
  | fork (p q : P) (hf : t.fs = s.fs.fork p q) (hh : t.hist = s.hist)
  | instr (p : P) (c : Call) (i : Instr) (r : i.Reply) (hu : handle p i s.fs = .ok (r,t.fs))
      (hm : may ser c.changes p i s.fs) (hg : Guar ser c.changes p s.fs t.fs) (hh : t.hist = record s.hist i r)

lemma did_step {l : SysLabel P} (hT : Tame ser s) (h : s.step l = some t) : Did ser s t := by
  cases l with
  | start p c =>
    simp only [step] at h
    split_ifs at h
    cases h
    exact .same rfl rfl
  | fork p q =>
    simp only [step] at h
    split_ifs at h
    cases h
    exact .fork p q rfl rfl
  | next p =>
    simp only [Sys.step,Sys.next] at h
    split at h
    · cases h
    · cases h
      exact .same rfl rfl
    · next c i k hw =>
      split at h
      swap
      · cases h
      next r u hu =>
      cases h
      obtain ⟨hm,-,hk⟩ := wp_next (hT.busy p c _ hw)
      exact .instr p c i r hu hm (hk r u hu).1 rfl

lemma tame_boot (h : Boot s) : Tame ser s where
  idle p _ := ⟨fun j => by rw [h.lock]; exact ⟨nofun,nofun⟩,by rw [h.cwd]; decide,fun _ => h.noLoop⟩
  busy p c x hx := by
    rw [h.work p] at hx
    cases hx
  one _ p _ hp := by
    obtain ⟨c,x,hx,-⟩ := hp
    rw [h.work p] at hx
    cases hx

lemma reach_tame {ok : Sys P → SysLabel P → Prop} (hok : ser → ∀ s l, ok s l → serial s l)
    (h : (interleaved P).ReachWhile ok s) : Tame ser s :=
  System.ReachWhile.invariant (I := Tame ser) (fun s (hs : Boot s) => tame_boot hs)
    (fun s l _ hT hl ht => tame_step hT (fun hs => hok hs s l hl) ht) h

/-- A root directory with one file `f`, as `mkfs` builds it. -/
def rootImage : ℕ → Inode
  | 1 => ⟨.dir,1,[⟨1,strncpy dirSiz dot⟩,⟨1,strncpy dirSiz dotdot⟩,⟨2,strncpy dirSiz [102]⟩]⟩
  | 2 => ⟨.file,1,[]⟩
  | _ => freed

/-- The files and processes at boot: `init` has the root as its current directory. -/
def bootState (init : P) (ino : ℕ → Inode) : State P where
  ino := ino
  ref i := if i = rootIno then 1 else 0
  valid _ := false
  lock _ := none
  file _ := ⟨0,none⟩
  proc p := ⟨p = init,rootIno,fun _ => none⟩

def bootSys (init : P) : Sys P := ⟨bootState init rootImage,fun _ => none,fun d => linkedAll (rootImage d).ents⟩

lemma distinct_root : Distinct (rootImage 1).ents := by
  intro j k x y hx hy hx0 hy0 hxy
  have hj := (List.getElem?_eq_some_iff.mp hx).1
  have hk := (List.getElem?_eq_some_iff.mp hy).1
  have hlt : (rootImage 1).ents.length = 3 := rfl
  rw [hlt] at hj hk
  interval_cases j <;> interval_cases k <;> first | rfl | (cases hx; cases hy; exact absurd hxy (by decide))

lemma boot_init (init : P) : Boot (bootSys init) where
  lock _ := rfl
  cwd _ := rfl
  work _ := rfl
  noLoop d hd e he hed h0 := by
    match d,hd,he with
    | 1,_,he =>
      rcases mem_cons.mp he with rfl | he
      · exact .inl rfl
      rcases mem_cons.mp he with rfl | he
      · exact .inr rfl
      rw [mem_singleton] at he
      rw [he] at hed
      cases hed
    | 0,hd,_ | 2,hd,_ | n+3,hd,_ => cases hd
  distinct d := by
    match d with
    | 1 => exact distinct_root
    | 0 | 2 | n+3 => exact fun j _ _ _ hx => by cases j <;> cases hx
  hist _ := rfl

end Xv6Threads.Fs
