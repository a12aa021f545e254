import Xv6Threads.Fs.Entries
import Xv6Threads.Fs.Machine

/-! What every system call keeps to, whatever the others do: it changes an inode only while it has
the sleep-lock, enters a name only when it is not there, and clears only the slot it has found. The
order in which it takes sleep-locks is part of the contract when `ser` holds, that is, when calls
that change names do not overlap. -/
namespace Xv6Threads.Fs
open Function List Option State Prog

variable {P : Type}

/-- No directory has an entry for itself other than `.` and `..`. -/
def NoLoop (s : State P) : Prop :=
  ∀ d, (s.ino d).type = .dir → ∀ e ∈ (s.ino d).ents, e.inum = d → e.inum ≠ 0 → isDots e.name

/-- A free inode. -/
def freed : Inode := ⟨.free,0,[]⟩

/-- An inode without its link count. -/
def Inode.body (x : Inode) : IType × List Dirent := (x.type,x.ents)

variable (ser : Prop) (m : Bool) (p : P)

/-- What the other processes may do to `p`, whose call changes names if `m` is set. -/
structure Rely (s t : State P) : Prop where
  locks : ∀ j, t.lock j = some p ↔ s.lock j = some p
  ino : ∀ j, s.lock j = some p → (s.ino j).type ≠ .free → t.ino j = s.ino j
  cwd : (s.proc p).cwd ≠ 0 → (t.proc p).cwd ≠ 0
  noLoop : ser → NoLoop s → NoLoop t
  others : ser → m = true → ∀ j, t.ino j = s.ino j ∨ t.ino j = freed

/-- What an instruction of `p` does to the others. -/
structure Guar (s t : State P) : Prop where
  locks : ∀ q, q ≠ p → ∀ j, t.lock j = some q ↔ s.lock j = some q
  ino : ∀ q, q ≠ p → ∀ j, s.lock j = some q → (s.ino j).type ≠ .free → t.ino j = s.ino j
  cwd : ∀ q, q ≠ p → (s.proc q).cwd ≠ 0 → (t.proc q).cwd ≠ 0
  noLoop : ser → NoLoop s → NoLoop t
  others : ser → m = false → ∀ j, t.ino j = s.ino j ∨ t.ino j = freed

/-- What holds when an instruction of `p` is next. -/
def may : Instr → State P → Prop
  | .acquiresleep i,s => ser → s.lock i ≠ some p ∧ (m = false → ∀ j, s.lock j ≠ some p)
  | .link d k n i,s =>
    s.lock d = some p ∧ lookup n (s.ino d).ents 0 = none ∧ k = emptySlot (s.ino d).ents ∧ i ≠ 0
  | .setCwd i,_ => i ≠ 0
  | .unlink d k n,s => s.lock d = some p ∧ ∃ i, lookup n (s.ino d).ents 0 = some (i,k)
  | _,_ => True

lemma Rely.trans {s t u : State P} (h : Rely ser m p s t) (h' : Rely ser m p t u) : Rely ser m p s u where
  locks j := (h'.locks j).trans (h.locks j)
  ino j hj hf := by
    have hs := h.ino j hj hf
    rw [h'.ino j ((h.locks j).mpr hj) (by rwa [hs]),hs]
  cwd hc := h'.cwd (h.cwd hc)
  noLoop hs hn := h'.noLoop hs (h.noLoop hs hn)
  others hs hm j := by
    rcases h'.others hs hm j with hj | hj
    · rw [hj]; exact h.others hs hm j
    · exact .inr hj

/-- Process `p` has the sleep-locks of `L`. -/
structure At (L : List ℕ) (s : State P) : Prop where
  locks : ∀ j, s.lock j = some p ↔ j ∈ L
  cwd : (s.proc p).cwd ≠ 0
  noLoop : ser → NoLoop s

/-- Inodes that `p` has locked keep their type and entries, and others do unless they are freed. -/
structure Kept (L : List ℕ) (s t : State P) : Prop where
  ino : ∀ j ∈ L, (s.ino j).type ≠ .free → (t.ino j).body = (s.ino j).body
  others : ser → m = true → ∀ j, (t.ino j).body = (s.ino j).body ∨ (t.ino j).body = freed.body

variable {ser m p} {L : List ℕ} {s t u : State P}

lemma Kept.of_eq (h : t.ino = s.ino) : Kept ser m L s t := ⟨fun _ _ _ => by rw [h],fun _ _ _ => .inl (by rw [h])⟩

lemma Kept.trans (h : Kept ser m L s t) (h' : Kept ser m L t u) : Kept ser m L s u where
  ino j hj hf := by
    have hs := h.ino j hj hf
    have ht : (t.ino j).type ≠ .free := by
      rw [(Prod.mk.inj hs).1]
      exact hf
    rw [h'.ino j hj ht,hs]
  others hs hm j := by
    rcases h'.others hs hm j with hj | hj
    · rw [hj]; exact h.others hs hm j
    · exact .inr hj

variable {i : ℕ}

lemma Kept.mono (h : Kept ser m (i :: L) s t) : Kept ser m L s t :=
  ⟨fun j hj => h.ino j (mem_cons_of_mem i hj),h.others⟩

lemma At.rely (h : At ser p L s) (hr : Rely ser m p s t) : At ser p L t ∧ Kept ser m L s t :=
  ⟨⟨fun j => (hr.locks j).trans (h.locks j),hr.cwd h.cwd,fun hs => hr.noLoop hs (h.noLoop hs)⟩,
    fun j hj hf => by rw [hr.ino j ((h.locks j).mpr hj) hf],
    fun hs hm j => (hr.others hs hm j).imp (fun h => by rw [h]) (fun h => by rw [h])⟩

/-- The instruction changes neither inodes nor sleep-locks nor current directories. -/
def Instr.quiet : Instr → Bool
  | .setCwd _ | .acquiresleep _ | .releasesleep _ | .setLink _ _ | .link _ _ _ _ | .unlink _ _ _ | .ialloc _ | .free _ => false
  | _ => true

/-- Inodes, sleep-locks and current directories are the same. -/
structure Same (s t : State P) : Prop where
  ino : t.ino = s.ino
  lock : t.lock = s.lock
  cwd : ∀ q, (t.proc q).cwd = (s.proc q).cwd

lemma iget_same (h : s.iget i = .ok t) : Same s t := by
  unfold State.iget at h
  split_ifs at h <;> cases h <;> exact ⟨rfl,rfl,fun _ => rfl⟩

lemma load_same (h : s.load i = .ok t) : Same s t := by
  unfold load at h
  split_ifs at h <;> cases h <;> exact ⟨rfl,rfl,fun _ => rfl⟩

lemma may_quiet {i : Instr} (hq : i.quiet = true) : may ser m p i s := by
  cases i with
  | setCwd | acquiresleep | link | unlink => cases hq
  | _ => trivial

lemma noLoop_congr (h : t.ino = s.ino) (hn : NoLoop s) : NoLoop t := by
  unfold NoLoop
  rw [h]
  exact hn

lemma guar_setIno {x : Inode} (hl : s.lock i = some p ∨ (s.ino i).type = .free) (hi : t.ino = update s.ino i x)
    (ht : t.lock = s.lock) (hp : t.proc = s.proc) (hn : ser → NoLoop s → NoLoop t) (hm : ser → m = false → x = freed) :
    Guar ser m p s t := by
  refine ⟨fun q _ j => by rw [ht],fun q hq j hj hf => ?_,fun q _ => by rw [hp]; exact id,hn,fun hs hm' j => ?_⟩
  · rw [hi,update_of_ne]
    rintro rfl
    rcases hl with hl | hl
    · rw [hj] at hl
      exact hq (some.inj hl)
    · exact hf hl
  · rw [hi]
    by_cases hj : j = i
    · subst hj
      rw [update_self]
      exact .inr (hm hs hm')
    · exact .inl (update_of_ne hj ..)

variable [DecidableEq P]

variable (ser m p) in
/-- The contract of a system call of `p`. -/
def contract : Contract fs (State P) Err where
  handle := handle p
  rely := Rely ser m p
  guar := Guar ser m p
  may := may ser m p
  fails _ := True
  refl _ := ⟨fun _ => Iff.rfl,fun _ _ _ => rfl,id,fun _ h => h,fun _ _ _ => .inl rfl⟩
  trans := Rely.trans ser m p

lemma map_ok {ε α β : Type} {x : Except ε α} {f : α → β} {b : β} (h : x.map f = .ok b) : ∃ a, x = .ok a ∧ f a = b := by
  cases x with
  | error e => cases h
  | ok a => exact ⟨a,rfl,Except.ok.inj h⟩

lemma same_setProc {x : Proc} (h : x.cwd = (s.proc p).cwd) : Same s (s.setProc p x) := by
  refine ⟨rfl,rfl,fun q => ?_⟩
  change (update s.proc p x q).cwd = _
  by_cases hq : q = p
  · rw [hq,update_self,h]
  · rw [update_of_ne hq]

lemma same_setFd {fd : ℕ} {o : Option ℕ} : Same s (s.setFd p fd o) := same_setProc rfl

lemma same_setFile_setFd {f fd : ℕ} {x : File} {o : Option ℕ} : Same s ((s.setFile f x).setFd p fd o) := by
  have h : Same (s.setFile f x) ((s.setFile f x).setFd p fd o) := same_setFd
  obtain ⟨hi,hl,hc⟩ := h
  exact ⟨hi,hl,hc⟩

lemma handle_quiet {i : Instr} {r : i.Reply} (h : handle p i s = .ok (r,t)) (hq : i.quiet = true) : Same s t := by
  have hrefl : Same s s := ⟨rfl,rfl,fun _ => rfl⟩
  cases i with
  | setCwd | acquiresleep | releasesleep | setLink | link | unlink | ialloc | free => cases hq
  | iget i =>
    obtain ⟨u,hu,he⟩ := map_ok h
    cases he
    exact iget_same hu
  | load i =>
    obtain ⟨u,hu,he⟩ := map_ok h
    cases he
    exact load_same hu
  | checkRef i e | lookup d n =>
    simp only [handle] at h
    split_ifs at h
    cases h
    exact hrefl
  | fileopen i =>
    simp only [handle,fileopen,Except.ok.injEq] at h
    split at h <;> cases h
    · exact same_setFile_setFd
    · exact hrefl
  | dup fd =>
    simp only [handle,dup] at h
    split at h
    · split_ifs at h
      cases h
      exact same_setFile_setFd
    · cases h
      exact hrefl
  | fileclose f =>
    simp only [handle,State.fileclose] at h
    split_ifs at h <;> cases h <;> exact ⟨rfl,rfl,fun _ => rfl⟩
  | clearFd fd => cases h; exact same_setFd
  | exited => cases h; exact same_setProc rfl
  | stop e => cases h
  | _ => cases h; exact ⟨rfl,rfl,fun _ => rfl⟩

/-- `d` with a new entry. -/
def enter (s : State P) (d : ℕ) (n : List UInt8) (i : ℕ) : State P :=
  s.setIno d {s.ino d with ents := putSlot (s.ino d).ents (emptySlot (s.ino d).ents) ⟨i,strncpy dirSiz n⟩}

omit [DecidableEq P] in
lemma enter_ents (s : State P) (d : ℕ) (n : List UInt8) (i : ℕ) : ((enter s d n i).ino d).ents =
    putSlot (s.ino d).ents (emptySlot (s.ino d).ents) ⟨i,strncpy dirSiz n⟩ := by
  change (update s.ino d _ d).ents = _
  rw [update_self]

section
variable {α : Type} {Q : α → State P → Prop}

lemma wp_ret {a : α} (hA : At ser p L s) (h : ∀ t, At ser p L t → Kept ser m L s t → Q a t) :
    (ret a : Code α).wp (contract ser m p) Q s := by
  intro t ht
  obtain ⟨hA,hK⟩ := hA.rely ht
  exact h t hA hK

section
variable {i : Instr} {f : i.Reply → Code α} (hA : At ser p L s) (hq : i.quiet = true) (h : ∀ t r u, At ser p L u → Kept ser m L s u → handle p i t = .ok (r,u) → u.ino = t.ino → (f r).wp (contract ser m p) Q u)
include hA hq h

lemma wp_quiet : (call (S := fs) i f).wp (contract ser m p) Q s := by
  refine wp_call (fun t ht => ⟨may_quiet hq,fun _ _ => trivial,fun r u hu => ?_⟩)
  obtain ⟨hA,hK⟩ := hA.rely ht
  obtain ⟨hi,hl,hc⟩ := handle_quiet hu hq
  refine ⟨⟨fun _ _ j => by rw [hl],fun _ _ j _ _ => by rw [hi],fun q _ => by rw [hc]; exact id,fun _ => noLoop_congr hi,
    fun _ _ j => .inl (by rw [hi])⟩,
    h t r u ⟨fun j => by rw [hl]; exact hA.locks j,by rw [hc]; exact hA.cwd,fun hs => noLoop_congr hi (hA.noLoop hs)⟩
      (hK.trans (.of_eq hi)) hu hi⟩

lemma wp_op : (op (S := fs) i >>= f).wp (contract ser m p) Q s := wp_quiet hA hq h

end

variable {f : Unit → Code α}

lemma wp_acquiresleep {i : ℕ} (hA : At ser p L s) (hs : ser → i ∉ L ∧ (m = false → L = []))
    (h : ∀ t, At ser p (i :: L) t → i ∉ L → Kept ser m L s t → (f ()).wp (contract ser m p) Q t) :
    (call (S := fs) (.acquiresleep i) f).wp (contract ser m p) Q s := by
  refine wp_call (fun t ht => ?_)
  obtain ⟨hA,hK⟩ := hA.rely ht
  refine ⟨fun hser => ⟨fun hl => (hs hser).1 ((hA.locks i).mp hl),fun hm j hj => ?_⟩,fun _ _ => trivial,fun r u hu => ?_⟩
  · have := (hA.locks j).mp hj
    rw [(hs hser).2 hm] at this
    cases this
  · change (if t.lock i = none then _ else _) = _ at hu
    split_ifs at hu with hl
    cases hu
    have hi : i ∉ L := fun hi => by
      rw [(hA.locks i).mpr hi] at hl
      cases hl
    refine ⟨⟨fun q hq j => ?_,fun _ _ _ _ _ => rfl,fun _ _ => id,fun _ h => h,fun _ _ _ => .inl rfl⟩,
      h _ ⟨fun j => ?_,hA.cwd,hA.noLoop⟩ hi (hK.trans (.of_eq rfl))⟩
    · change update t.lock i (some p) j = some q ↔ _
      by_cases hj : j = i
      · rw [hj,update_self,hl]
        exact ⟨fun h => (hq (some.inj h).symm).elim,nofun⟩
      · rw [update_of_ne hj]
    · change update t.lock i (some p) j = some p ↔ _
      by_cases hj : j = i
      · rw [hj,update_self]
        exact ⟨fun _ => mem_cons_self,fun _ => rfl⟩
      · rw [update_of_ne hj,hA.locks]
        exact ⟨mem_cons_of_mem i,fun h => (mem_cons.mp h).resolve_left hj⟩

lemma wp_releasesleep {i : ℕ} (hA : At ser p (i :: L) s) (hi : i ∉ L)
    (h : ∀ t, At ser p L t → Kept ser m L s t → (f ()).wp (contract ser m p) Q t) :
    (call (S := fs) (.releasesleep i) f).wp (contract ser m p) Q s := by
  refine wp_call (fun t ht => ⟨trivial,fun _ _ => trivial,fun r u hu => ?_⟩)
  obtain ⟨hA,hK⟩ := hA.rely ht
  change (if t.lock i = some p then _ else _) = _ at hu
  split_ifs at hu with hl
  cases hu
  refine ⟨⟨fun q hq j => ?_,fun _ _ _ _ _ => rfl,fun _ _ => id,fun _ h => h,fun _ _ _ => .inl rfl⟩,
    h _ ⟨fun j => ?_,hA.cwd,hA.noLoop⟩ (hK.mono.trans (.of_eq rfl))⟩
  · change update t.lock i none j = some q ↔ _
    by_cases hj : j = i
    · rw [hj,update_self,hl]
      exact ⟨nofun,fun h => (hq (some.inj h).symm).elim⟩
    · rw [update_of_ne hj]
  · change update t.lock i none j = some p ↔ _
    by_cases hj : j = i
    · rw [hj,update_self]
      exact ⟨nofun,fun h => (hi h).elim⟩
    · rw [update_of_ne hj,hA.locks]
      exact ⟨fun h => (mem_cons.mp h).resolve_left hj,mem_cons_of_mem i⟩

lemma wp_store {c : Instr} {f : c.Reply → Code α} (hA : At ser p L s)
    (hmay : ∀ t, At ser p L t → Kept ser m L s t → may ser m p c t)
    (h : ∀ t r u, At ser p L t → Kept ser m L s t → handle p c t = .ok (r,u) → ∃ i x,
      u.ino = update t.ino i x ∧ u.lock = t.lock ∧ u.proc = t.proc ∧ (t.lock i = some p ∨ (t.ino i).type = .free) ∧
      (ser → m = false → x = freed) ∧ (ser → NoLoop t → NoLoop u) ∧ (At ser p L u → (f r).wp (contract ser m p) Q u)) :
    (op (S := fs) c >>= f).wp (contract ser m p) Q s := by
  refine wp_call (fun t ht => ?_)
  obtain ⟨hA,hK⟩ := hA.rely ht
  refine ⟨hmay t hA hK,fun _ _ => trivial,fun r u hu => ?_⟩
  obtain ⟨i,x,hi,hl,hp,hlock,hx,hn,hf⟩ := h t r u hA hK hu
  exact ⟨guar_setIno hlock hi hl hp hn hx,
    hf ⟨fun j => by rw [hl]; exact hA.locks j,by rw [hp]; exact hA.cwd,fun hs => hn hs (hA.noLoop hs)⟩⟩

lemma wp_setCwd {i : ℕ} (hA : At ser p L s) (hi : i ≠ 0)
    (h : ∀ t, At ser p L t → Kept ser m L s t → (f ()).wp (contract ser m p) Q t) :
    (op (S := fs) (.setCwd i) >>= f).wp (contract ser m p) Q s := by
  refine wp_call (fun t ht => ⟨hi,fun _ _ => trivial,fun r u hu => ?_⟩)
  obtain ⟨hA,hK⟩ := hA.rely ht
  cases hu
  refine ⟨⟨fun _ _ _ => Iff.rfl,fun _ _ _ _ _ => rfl,fun q hq => ?_,fun _ h => h,fun _ _ _ => .inl rfl⟩,
    h _ ⟨hA.locks,?_,hA.noLoop⟩ (hK.trans (.of_eq rfl))⟩
  · change _ → (update t.proc p _ q).cwd ≠ 0
    rw [update_of_ne hq]
    exact id
  · change (update t.proc p _ p).cwd ≠ 0
    rw [update_self]
    exact hi

end

end Xv6Threads.Fs
