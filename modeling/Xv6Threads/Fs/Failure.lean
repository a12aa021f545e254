import Xv6Threads.Fs.Lookup

/-! Calls that fail leave everything as it was, but for a file that `open` has created before it runs
out of descriptors. -/
namespace Xv6Threads.Fs
open Function List Option Or State
open Prog (op wp_bind)

variable {P : Type} {p : P} {s t : State P} {β : Type}

/-- The tables of open files, descriptors and current directories are the same. -/
def SameTables (s t : State P) : Prop := t.file = s.file ∧ t.proc = s.proc

lemma SameTables.trans {u : State P} (h : SameTables s t) (h' : SameTables t u) : SameTables s u :=
  ⟨h'.1.trans h.1,h'.2.trans h.2⟩

/-- The instructions that leave these tables alone. -/
def Instr.spares : Instr → Bool
  | .setCwd _ | .fileopen _ | .dup _ | .fileclose _ | .clearFd _ | .exited => false
  | _ => true

section
variable [DecidableEq P]

lemma handle_spares {i : Instr} {r : i.Reply} (hi : i.spares = true) (h : handle p i s = .ok (r,t)) : SameTables s t := by
  cases i with
  | setCwd | fileopen | dup | fileclose | clearFd | exited => cases hi
  | iget =>
    obtain ⟨u,hu,he⟩ := map_ok h
    cases he
    unfold State.iget at hu
    split_ifs at hu <;> cases hu <;> exact ⟨rfl,rfl⟩
  | load =>
    obtain ⟨u,hu,he⟩ := map_ok h
    cases he
    unfold load at hu
    split_ifs at hu <;> cases hu <;> exact ⟨rfl,rfl⟩
  | link | unlink =>
    obtain ⟨u,hu,he⟩ := map_ok h
    cases he
    unfold writeDirent at hu
    split_ifs at hu
    cases hu
    exact ⟨rfl,rfl⟩
  | ialloc =>
    simp only [handle] at h
    split at h
    · cases h
      exact ⟨rfl,rfl⟩
    · cases h
  | checkRef | acquiresleep | releasesleep | lookup =>
    simp only [handle] at h
    split_ifs at h
    cases h
    exact ⟨rfl,rfl⟩
  | stop => cases h
  | _ =>
    cases h
    exact ⟨rfl,rfl⟩

/-- The code changes none of these tables. -/
def Spares (p : P) (x : Code β) : Prop := ∀ s : Traced P, x.wp (calm p) (fun _ t => SameTables s.toState t.toState) s

lemma spares_op {i : Instr} (hi : i.spares = true) : Spares p (op (S := fs) i) :=
  fun _ => calm_last fun _ _ hu => handle_spares hi hu

lemma spares_pure {b : β} : Spares p (pure b : Code β) := fun _ => calm_ret ⟨rfl,rfl⟩

lemma spares_bind {α : Type} {x : Code α} {f : α → Code β} (hx : Spares p x) (hf : ∀ a, Spares p (f a)) :
    Spares p (x >>= f) :=
  fun s => wp_bind (Prog.wp_mono (hx s) fun a t ht => Prog.wp_mono (hf a t) fun _ _ hu => ht.trans hu)

lemma spares_ilock {i : ℕ} : Spares p (ilock i) :=
  spares_bind (spares_op rfl) fun _ => spares_bind (spares_op rfl) fun _ => spares_op rfl

lemma spares_iput {i : ℕ} : Spares p (iput i) := by
  refine spares_bind (spares_op rfl) fun _ => spares_bind (spares_op rfl) fun b => ?_
  cases b with
  | true => exact spares_bind (spares_op rfl) fun _ => spares_bind (spares_op rfl) fun _ => spares_op rfl
  | false => exact spares_bind (spares_op rfl) fun _ => spares_op rfl

lemma spares_iunlockput {i : ℕ} : Spares p (iunlockput i) :=
  spares_bind (spares_bind (spares_op rfl) fun _ => spares_op rfl) fun _ => spares_iput

lemma spares_dirlink {d i : ℕ} {n : List UInt8} : Spares p (dirlink d n i) := by
  refine spares_bind (spares_bind (spares_op rfl) fun r => ?_) fun r => ?_
  · cases r with
    | none => exact spares_pure
    | some x => exact spares_bind (spares_op rfl) fun _ => spares_pure
  · cases r with
    | none => exact spares_bind (spares_op rfl) fun _ => spares_bind (spares_op rfl) fun _ => spares_pure
    | some x => exact spares_bind spares_iput fun _ => spares_pure

lemma spares_require {e : Panic} {b : Bool} : Spares p (require e b) := by
  unfold require
  split
  · exact spares_pure
  · exact spares_op rfl

lemma spares_createNew {d : ℕ} {n : List UInt8} {ty : IType} : Spares p (createNew d n ty) := by
  have hdots : ∀ i, Spares p (createDots d i ty) := by
    intro i
    unfold createDots
    split
    · exact spares_bind (spares_op rfl) fun _ => spares_bind (spares_op rfl) fun _ => spares_bind spares_dirlink fun _ =>
        spares_bind spares_require fun _ => spares_bind spares_dirlink fun _ => spares_require
    · exact spares_pure
  refine spares_bind (spares_bind (spares_op rfl) fun _ => spares_bind (spares_op rfl) fun _ => spares_pure) fun i => ?_
  exact spares_bind spares_ilock fun _ => spares_bind (spares_op rfl) fun _ => spares_bind (hdots i) fun _ =>
    spares_bind spares_dirlink fun _ => spares_bind spares_require fun _ => spares_bind spares_iunlockput fun _ => spares_pure

end

/-- Nothing that a process can see has changed. -/
structure Unchanged (s t : State P) : Prop where
  ino : t.ino = s.ino
  ref : t.ref = s.ref
  lock : t.lock = s.lock
  proc : t.proc = s.proc
  fileRef : ∀ f, (t.file f).ref = (s.file f).ref
  opened : ∀ f, 0 < (s.file f).ref → t.file f = s.file f

lemma Taken.unchanged {s t : Traced P} (h : Taken p s [] [] t) : Unchanged s.toState t.toState :=
  ⟨h.ino,funext h.ref,funext h.lock,h.proc,fun f => by rw [h.file],fun f _ => by rw [h.file]⟩

section
variable [DecidableEq P] {s t : Traced P}

/-- A call that returns -1 changes nothing. -/
def failsClean (s : State P) (r : ℤ) (t : Traced P) : Prop := r = -1 → Unchanged s t.toState

lemma calm_fail (h : Taken p s [] [] t) : (pure (-1) : Code ℤ).wp (calm p) (failsClean s.toState) t :=
  calm_ret fun _ => h.unchanged

lemma calm_done {α : Type} {x : Code α} {r : α → ℤ} (hr : ∀ a, r a ≠ -1) :
    (x >>= fun a => (pure (r a) : Code ℤ)).wp (calm p) (failsClean s.toState) t :=
  wp_bind (calm_any x fun a _ => calm_ret fun h => absurd h (hr a))

lemma calm_openInode {i : ℕ} (h : Taken p s [i] [i] t) (hi : Safe s.toState i) : (openInode i).wp (calm p) (failsClean s.toState) t := by
  refine calm_op fun r u hu => ?_
  simp only [handle] at hu
  cases r with
  | none =>
    have hut : u = t.toState := by
      unfold fileopen at hu
      split at hu
      · cases hu
      · cases hu
        rfl
    rw [hut]
    exact wp_bind (calm_iunlockput h not_mem_nil (inl hi) fun v hv => calm_fail hv)
  | some fd => exact calm_done fun _ he => by omega

variable {path : List UInt8}

/-- There is a file and a descriptor left. -/
def room (p : P) (s : State P) : Prop :=
  ((List.range nfile).find? (fun f => (s.file f).ref = 0)).isSome = true ∧ (s.freeFd p).isSome = true

section
variable (hN : Anchored p s.toState)
include hN

lemma calm_sysCreate (hroom : Fresh p s.toState path → room p s.toState) :
    (sysCreate path).wp (calm p) (failsClean s.toState) s := by
  refine wp_bind (calm_create hN (fun u hu _ => calm_fail hu) (fun i u hu hi _ => calm_openInode hu hi) fun d n u hu _ hnew => ?_)
  refine Prog.wp_mono (spares_createNew u) fun i v hv => calm_op fun r w hw => ?_
  obtain ⟨hfile,hproc⟩ : SameTables s.toState v.toState := SameTables.trans ⟨hu.file,hu.proc⟩ hv
  simp only [handle] at hw
  cases r with
  | none =>
    obtain ⟨f,hf⟩ := isSome_iff_exists.mp (hroom hnew).1
    obtain ⟨fd,hfd⟩ := isSome_iff_exists.mp (hroom hnew).2
    unfold fileopen freeFd at hw
    rw [hfile,hproc,hf] at hw
    unfold freeFd at hfd
    rw [hfd] at hw
    cases hw
  | some fd => exact calm_done fun _ he => by omega

lemma calm_sysOpen {rdonly : Bool} : (sysOpen path rdonly).wp (calm p) (failsClean s.toState) s := by
  refine wp_bind (calm_namex hN (Taken.refl p s) (fun u hu => calm_fail hu) fun i n u hu hi => ?_)
  refine wp_bind (calm_ilock hu fun v hK hv => calm_op fun ty w hw => ?_)
  cases hw
  split_ifs
  · exact wp_bind (calm_iunlockput hv hK (inl hi) fun w hw => calm_fail hw)
  · exact calm_openInode hv hi

lemma calm_sysMake {ty : IType} : (sysMake path ty).wp (calm p) (failsClean s.toState) s :=
  wp_bind (calm_create hN (fun u hu _ => calm_fail hu) (fun _ _ _ _ _ => calm_done fun _ => by decide) fun _ _ _ _ _ _ =>
    calm_any _ fun _ _ => calm_done fun _ => by decide)

lemma calm_sysChdir : (sysChdir path).wp (calm p) (failsClean s.toState) s := by
  refine calm_chdir hN (fun u hu _ => hu.unchanged) fun i u _ => wp_bind (calm_any _ fun _ w => calm_op fun c x _ => ?_)
  exact wp_bind (calm_any _ fun _ y => calm_op fun _ z _ => calm_ret nofun)

lemma calm_sysUnlink : (sysUnlink path).wp (calm p) (failsClean s.toState) s := by
  refine calm_unlink hN (fun u hu _ => hu.unchanged) fun d k n i ty u _ => calm_op fun _ _ _ => ?_
  refine wp_bind (calm_any _ fun _ _ => wp_bind (calm_any _ fun _ _ => ?_))
  exact calm_op fun _ _ _ => calm_op fun _ _ _ => calm_done fun _ => by decide

end

lemma calm_linkBad {i : ℕ} {x : Traced P} (hL : Linked s i x) (h : Taken p x [] [] t) :
    (linkBad i).wp (calm p) (failsClean s.toState) t := by
  refine wp_bind (calm_ilock h fun u hK hu => calm_op fun n v hv => calm_op fun _ w hw => ?_)
  cases hv
  cases hw
  have hback : Taken p ⟨s.toState,.update i :: u.edits⟩ [i] [i]
      ⟨u.toState.setIno i {u.ino i with nlink := (u.ino i).nlink-1},.update i :: u.edits⟩ := by
    refine ⟨?_,hu.file.trans hL.file,hu.proc.trans hL.proc,fun j => ?_,fun j => ?_,fun j hj => ?_,Spends.refl _⟩
    · change update u.ino i _ = s.ino
      rw [hu.ino,hL.ino,update_idem,update_self]
      refine (congrArg (update s.ino i) ?_).trans (update_eq_self i s.ino)
      dsimp only
      rw [Int16.add_sub_cancel]
    · exact (hu.ref j).trans (hL.ref j)
    · change u.lock j = if j ∈ [i] then some p else s.lock j
      rw [← hL.lock]
      exact hu.lock j
    · change s.lock j = none
      rw [← hL.lock]
      exact hu.free j hj
  exact wp_bind (calm_iunlockput hback not_mem_nil (inl hL.safe) fun w hw => calm_ret fun _ => hw.unchanged)

lemma calm_sysLink {old new : List UInt8} (hN : Anchored p s.toState) :
    (sysLink old new).wp (calm p) (failsClean s.toState) s := by
  refine calm_link hN (fun u hu _ => hu.unchanged) (fun i x y hL hy => calm_linkBad hL hy) fun i d n x y hL hN' hd hy => ?_
  refine wp_bind (calm_dirlink hN' hy (fun z hz => ?_) fun z => wp_bind (calm_any _ fun _ w => calm_done fun _ => by decide))
  exact wp_bind (calm_iunlockput hz not_mem_nil (inl hd) fun w hw => calm_linkBad hL hw)

lemma calm_sysDup {fd : ℕ} : (sysDup fd).wp (calm p) (failsClean s.toState) s := by
  refine calm_op fun r u hu => ?_
  cases r with
  | none =>
    simp only [handle,dup] at hu
    split at hu
    · split_ifs at hu
      cases hu
    · cases hu
      exact calm_fail (Taken.refl p s)
  | some fd' => exact calm_ret fun he => by omega

end

section

def filealloc (s : State P) : Option (ℕ × State P) :=
  ((List.range nfile).find? (fun f => (s.file f).ref = 0)).map (fun f => (f,s.setFile f {s.file f with ref := 1}))

/-- `fileclose` of two files of type `FD_NONE` or `FD_PIPE`, which have no inode, in a call that fails. -/
def closeBoth (s : State P) (f0 f1 : ℕ) : Except Err (ℤ × State P) :=
  (s.fileclose f0).bind (fun r => (r.2.fileclose f1).map (fun q => (-1,q.2)))

/-- `sys_pipe` with `pipealloc`; `ptr` says whether `argptr` accepts the address, `page` whether `kalloc` finds a page. -/
def sysPipe [DecidableEq P] (p : P) (ptr page : Bool) (s : State P) : Except Err (ℤ × State P) :=
  match if ptr then filealloc s else none with
  | none => .ok (-1,s)
  | some (f0,s1) =>
    match filealloc s1 with
    | none => (s1.fileclose f0).map (fun r => (-1,r.2))
    | some (f1,s2) =>
      if page then
        let s3 := s2.setFile f0 {s2.file f0 with ip := none}
        let s4 := s3.setFile f1 {s3.file f1 with ip := none}
        match s4.freeFd p with
        | none => closeBoth s4 f0 f1
        | some fd0 =>
          let s5 := s4.setFd p fd0 (some f0)
          match s5.freeFd p with
          | none => closeBoth (s5.setFd p fd0 none) f0 f1
          | some fd1 => .ok (0,s5.setFd p fd1 (some f1))
      else closeBoth s2 f0 f1

lemma filealloc_some {f : ℕ} (h : filealloc s = some (f,t)) :
    (s.file f).ref = 0 ∧ t = s.setFile f {s.file f with ref := 1} := by
  obtain ⟨g,hg,he⟩ := map_eq_some_iff.mp h
  cases he
  have hfree := find?_some hg
  exact ⟨of_decide_eq_true hfree,rfl⟩

/-- Only the files in `F` have been taken, once each. -/
structure Opened (F : List ℕ) (s t : State P) : Prop where
  ino : t.ino = s.ino
  ref : t.ref = s.ref
  lock : t.lock = s.lock
  proc : t.proc = s.proc
  taken : ∀ f ∈ F, (s.file f).ref = 0 ∧ (t.file f).ref = 1
  other : ∀ f, f ∉ F → (t.file f).ref = (s.file f).ref
  opened : ∀ f, 0 < (s.file f).ref → t.file f = s.file f

namespace Opened
variable {F G : List ℕ} {f : ℕ} {u : State P} {x : File}

lemma refl (s : State P) : Opened [] s s := ⟨rfl,rfl,rfl,rfl,nofun,fun _ _ => rfl,fun _ _ => rfl⟩

lemma unchanged (h : Opened [] s t) : Unchanged s t :=
  ⟨h.ino,h.ref,h.lock,h.proc,fun f => h.other f not_mem_nil,h.opened⟩

lemma set (h : Opened F s t) (hf : (s.file f).ref = 0) (hG : ∀ g, g ≠ f → (g ∈ G ↔ g ∈ F)) (hin : f ∈ G → x.ref = 1)
    (hout : f ∉ G → x.ref = 0) : Opened G s (t.setFile f x) := by
  refine ⟨h.ino,h.ref,h.lock,h.proc,fun g hg => ?_,fun g hg => ?_,fun g hg => ?_⟩
  · change _ ∧ (update t.file f x g).ref = 1
    by_cases hgf : g = f
    · rw [hgf,update_self]
      exact ⟨hf,hin (hgf ▸ hg)⟩
    · rw [update_of_ne hgf]
      exact h.taken g ((hG g hgf).mp hg)
  · change (update t.file f x g).ref = _
    by_cases hgf : g = f
    · rw [hgf,update_self,hf]
      exact hout (hgf ▸ hg)
    · rw [update_of_ne hgf]
      exact h.other g fun hF => hg ((hG g hgf).mpr hF)
  · change update t.file f x g = _
    have hgf : g ≠ f := by
      rintro rfl
      omega
    rw [update_of_ne hgf]
    exact h.opened g hg

lemma alloc (h : Opened F s t) (hu : filealloc t = some (f,u)) : f ∉ F ∧ Opened (f :: F) s u := by
  obtain ⟨hfree,rfl⟩ := filealloc_some hu
  have hF : f ∉ F := fun hm => by
    have := (h.taken f hm).2
    omega
  refine ⟨hF,h.set ((h.other f hF).symm.trans hfree) (fun g hg => ?_) (fun _ => rfl) fun hn => absurd mem_cons_self hn⟩
  rw [mem_cons,or_iff_right hg]

lemma close {r : Option ℕ} (h : Opened F s t) (hf : f ∈ F) (hG : ∀ g, g ∈ G ↔ g ∈ F ∧ g ≠ f) (hu : t.fileclose f = .ok (r,u)) :
    Opened G s u := by
  obtain ⟨hs,ht⟩ := h.taken f hf
  unfold State.fileclose at hu
  rw [if_neg (by omega),if_neg (by omega)] at hu
  cases hu
  refine h.set hs (fun g hg => ?_) (fun hm => absurd rfl ((hG f).mp hm).2) fun _ => rfl
  rw [hG g,and_iff_left hg]

lemma closeBoth {f0 f1 : ℕ} {r : ℤ} (h : Opened [f1,f0] s t) (hne : f1 ≠ f0) (hu : Fs.closeBoth t f0 f1 = .ok (r,u)) :
    Unchanged s u := by
  unfold Fs.closeBoth at hu
  cases h0 : t.fileclose f0 with
  | error e =>
    rw [h0] at hu
    cases hu
  | ok q =>
    rw [h0] at hu
    obtain ⟨q',hq',he⟩ := map_ok hu
    cases he
    have h1 : Opened [f1] s q.2 := h.close (by simp) (fun g => ?_) h0
    · exact (h1.close (G := []) mem_cons_self (fun g => by simp) hq').unchanged
    · simp only [mem_cons,not_mem_nil,or_false]
      exact ⟨fun hg => ⟨inl hg,fun he => hne (hg.symm.trans he)⟩,fun hg => hg.1.resolve_right hg.2⟩

end Opened

lemma setFd_clear [DecidableEq P] {fd : ℕ} {o : Option ℕ} (h : s.freeFd p = some fd) :
    (s.setFd p fd o).setFd p fd none = s := by
  have hnone : (s.proc p).ofile fd = none := by
    have hfree := find?_some h
    exact of_decide_eq_true hfree
  simp only [setFd,setProc,update_self,update_idem]
  rw [← hnone,update_eq_self,update_eq_self]

lemma sysPipe_fails [DecidableEq P] {ptr page : Bool} (h : sysPipe p ptr page s = .ok (-1,t)) : Unchanged s t := by
  unfold sysPipe at h
  split at h
  · cases h
    exact (Opened.refl s).unchanged
  · next f0 s1 h0 =>
    replace h0 : filealloc s = some (f0,s1) := by
      cases ptr
      · cases h0
      · exact h0
    obtain ⟨-,hO1⟩ := (Opened.refl s).alloc h0
    split at h
    · obtain ⟨r,hr,he⟩ := map_ok h
      cases he
      exact (hO1.close (G := []) mem_cons_self (fun g => by simp) hr).unchanged
    · next f1 s2 h1 =>
      obtain ⟨hf1,hO2⟩ := hO1.alloc h1
      have hne : f1 ≠ f0 := fun he => hf1 (he ▸ mem_cons_self)
      split at h
      · have hO3 := hO2.set (G := [f1,f0]) (x := {s2.file f0 with ip := none}) (hO2.taken f0 (by simp)).1 (fun _ _ => Iff.rfl)
          (fun _ => (hO2.taken f0 (by simp)).2) fun hn => absurd (by simp) hn
        have hO4 := hO3.set (G := [f1,f0]) (x := {(s2.setFile f0 {s2.file f0 with ip := none}).file f1 with ip := none})
          (hO2.taken f1 (by simp)).1 (fun _ _ => Iff.rfl) (fun _ => (hO3.taken f1 (by simp)).2) fun hn => absurd (by simp) hn
        dsimp only at h
        split at h
        · exact hO4.closeBoth hne h
        · next fd0 hfd0 =>
          split at h
          · rw [setFd_clear hfd0] at h
            exact hO4.closeBoth hne h
          · cases h
      · exact hO2.closeBoth hne h

end

/-- The calls that change the name space or the descriptors. -/
def Call.names : Call → Bool
  | .exec _ | .transfer .. | .close _ | .exit => false
  | _ => true

lemma calm_code [DecidableEq P] {c : Call} (hN : Anchored p s) (hc : c.names = true)
    (hroom : ∀ path, c = .create path → Fresh p s (cstring path) → room p s) : c.code.wp (calm p) (failsClean s) ⟨s,[]⟩ := by
  cases c with
  | link old new => exact calm_sysLink (s := ⟨s,[]⟩) hN
  | unlink path => exact calm_sysUnlink (s := ⟨s,[]⟩) hN
  | create path => exact calm_sysCreate (s := ⟨s,[]⟩) hN (hroom path rfl)
  | mkdir path | mknod path => exact calm_sysMake (s := ⟨s,[]⟩) hN
  | openFile path rdonly => exact calm_sysOpen (s := ⟨s,[]⟩) hN
  | chdir path => exact calm_sysChdir (s := ⟨s,[]⟩) hN
  | dup fd => exact calm_sysDup
  | exec _ | transfer _ _ | close _ | exit => cases hc

section
variable [DecidableEq P] {i : ℕ}

/-- The instruction changes no inode. -/
def Instr.reads : Instr → Bool
  | .setLink _ _ | .link _ _ _ _ | .unlink _ _ _ | .ialloc _ | .free _ => false
  | _ => true

lemma handle_reads {c : Instr} {r : c.Reply} (hc : c.reads = true) (h : handle p c s = .ok (r,t)) : t.ino = s.ino := by
  cases c with
  | setLink | link | unlink | ialloc | free => cases hc
  | setCwd =>
    cases h
    rfl
  | acquiresleep | releasesleep =>
    simp only [handle] at h
    split_ifs at h
    cases h
    rfl
  | _ => exact (handle_quiet h rfl).ino

/-- The code changes no inode. -/
def Reads (p : P) (x : Code β) : Prop := ∀ t : Traced P, x.wp (calm p) (fun _ u => u.ino = t.ino) t

lemma reads_op {c : Instr} (hc : c.reads = true) : Reads p (op (S := fs) c) :=
  fun _ => calm_last fun _ _ hu => handle_reads hc hu

lemma reads_bind {α : Type} {x : Code α} {f : α → Code β} (hx : Reads p x) (hf : ∀ a, Reads p (f a)) : Reads p (x >>= f) :=
  fun t => wp_bind (Prog.wp_mono (hx t) fun a u hu => Prog.wp_mono (hf a u) fun _ _ hv => hv.trans hu)

lemma reads_ilock {j : ℕ} : Reads p (ilock j) :=
  reads_bind (reads_op rfl) fun _ => reads_bind (reads_op rfl) fun _ => reads_op rfl

/-- The code leaves an inode with links as it is. -/
def Leaves (p : P) (i : ℕ) (x : Code β) : Prop :=
  ∀ t : Traced P, (t.ino i).nlink ≠ 0 → x.wp (calm p) (fun _ u => u.ino i = t.ino i) t

lemma leaves_iput {j : ℕ} : Leaves p i (iput j) := by
  refine fun t ht => calm_op fun _ u hu => calm_op fun b v hv => ?_
  have hino : u.ino = t.ino := handle_reads (c := .acquiresleep j) rfl hu
  cases hv
  have hrest : ∀ w : Traced P, w.ino i = t.ino i →
      (do op (S := fs) (.releasesleep j); op (S := fs) (.drop j) : Code Unit).wp (calm p) (fun _ x => x.ino i = t.ino i) w :=
    fun w hw => Prog.wp_mono (reads_bind (reads_op rfl) (fun _ => reads_op rfl) w) fun _ _ hx => (congrFun hx i).trans hw
  by_cases hb : u.unused j = true
  · have hji : i ≠ j := by
      rintro rfl
      have hlinks : u.valid i = true ∧ (u.ino i).nlink = 0 ∧ u.ref i = 1 := by simpa [State.unused] using hb
      rw [hino] at hlinks
      exact ht hlinks.2.1
    rw [hb]
    refine calm_op fun _ w hw => hrest _ ?_
    cases hw
    exact (update_of_ne hji _ _).trans (congrFun hino i)
  · rw [Bool.not_eq_true _ |>.mp hb]
    exact hrest _ (congrFun hino i)

lemma leaves_iunlockput {j : ℕ} : Leaves p i (iunlockput j) := fun t ht => by
  have hunlock : Reads p (iunlock j) := reads_bind (reads_op rfl) fun _ => reads_op rfl
  refine wp_bind (Prog.wp_mono (hunlock t) fun _ u hu => ?_)
  exact Prog.wp_mono (leaves_iput u (by rwa [hu])) fun _ _ hv => hv.trans (congrFun hu i)

/-- `i` was free, and now it is not and has a link. -/
def Made (s : State P) (i : ℕ) (t : State P) : Prop :=
  (s.ino i).type = .free ∧ (t.ino i).type ≠ .free ∧ (t.ino i).nlink ≠ 0

lemma Leaves.made {x : Code β} (hx : Leaves p i x) {t : Traced P} (h : Made s i t.toState) :
    x.wp (calm p) (fun _ u => Made s i u.toState) t :=
  Prog.wp_mono (hx t h.2.2) fun _ u hu => ⟨h.1,by rw [hu]; exact h.2⟩

/-- `dirlink` that finds no entry changes only the directory. -/
lemma calm_dirlink_other {d j : ℕ} {n : List UInt8} (hdi : i ≠ d) (t : Traced P) :
    (dirlink d n j).wp (calm p) (fun b u => b = true → u.ino i = t.ino i) t := by
  refine wp_bind (wp_bind ?_)
  refine Prog.wp_mono (reads_op (c := .lookup d n) rfl t) fun r u hu => ?_
  cases r with
  | some x => exact wp_bind (calm_any _ fun _ _ => calm_ret (wp_bind (calm_any _ fun _ _ => calm_ret nofun)))
  | none =>
    refine calm_ret (calm_op fun k v hv => calm_op fun _ w hw => calm_ret fun _ => ?_)
    cases hv
    obtain ⟨x,hx,he⟩ := map_ok hw
    cases he
    unfold writeDirent at hx
    split_ifs at hx
    cases hx
    exact (update_of_ne hdi _ _).trans (congrFun hu i)

lemma calm_createNew {d : ℕ} {n : List UInt8} {t : Traced P} (hino : t.ino = s.ino) (hd : (s.ino d).type = .dir) :
    (createNew d n .file).wp (calm p) (fun i u => Made s i u.toState) t := by
  refine wp_bind (calm_op fun i u hu => calm_op fun _ v hv => calm_ret ?_)
  simp only [handle] at hu
  split at hu
  · next j hj =>
    cases hu
    have hfree : (s.ino i).type = .free := by
      have := find?_some hj
      simp only [hino,decide_eq_true_eq] at this
      exact this.2
    have hdi : i ≠ d := by
      rintro rfl
      rw [hd] at hfree
      cases hfree
    have hvi : v.ino i = ⟨.file,0,[]⟩ := by
      rw [handle_reads (c := .iget i) rfl hv]
      exact update_self ..
    refine wp_bind (Prog.wp_mono (reads_ilock (j := i) ⟨v,_⟩) fun _ w hw => calm_op fun _ x hx => ?_)
    cases hx
    rw [show createDots d i .file = pure () from rfl]
    refine wp_bind (calm_ret ?_)
    have hmade : Made s i (w.toState.setIno i {w.ino i with nlink := 1}) := by
      refine ⟨hfree,?_,?_⟩ <;> simp [State.setIno,hw,hvi]
    refine wp_bind (Prog.wp_mono (calm_dirlink_other (i := i) hdi ⟨_,_⟩) fun b y hy => ?_)
    cases b with
    | false => exact wp_bind (Prog.alone_call (fun _ _ => trivial) fun _ _ h => by cases h)
    | true =>
      have hmade' : Made s i y.toState := by
        rw [Made,hy rfl]
        exact hmade
      exact wp_bind (calm_ret (wp_bind (Prog.wp_mono (leaves_iunlockput.made hmade') fun _ z hz => calm_ret hz)))
  · cases hu

/-- `open` with `O_CREATE` that makes a file and fails leaves it there. -/
lemma calm_sysCreate_fresh {path : List UInt8} {s : Traced P} (hN : Anchored p s.toState) (hnew : Fresh p s.toState path) :
    (sysCreate path).wp (calm p) (fun r t => r = -1 → ¬Unchanged s.toState t.toState) s := by
  refine wp_bind (calm_create hN (fun _ _ h => absurd hnew h) (fun _ _ _ _ h => absurd hnew h) fun d n u hu hd _ => ?_)
  refine Prog.wp_mono (calm_createNew hu.ino hd) fun i v hv => calm_op fun r w hw => ?_
  have hmade : Made s.toState i w := by
    rw [Made,handle_reads (c := .fileopen i) rfl hw]
    exact hv
  cases r with
  | none =>
    refine wp_bind (Prog.wp_mono (leaves_iunlockput.made (t := ⟨w,_⟩) hmade) fun _ x hx => calm_ret fun _ hsame => ?_)
    exact hx.2.1 (by rw [hsame.ino]; exact hx.1)
  | some fd => exact wp_bind (calm_any _ fun _ _ => calm_ret fun he => by omega)

end

/-- The root is opened and every other descriptor made a copy of it. -/
def openAll : List (Label Unit) := .call () (.openFile [47] true) :: List.replicate 15 (.call () (.dup 0))

end Xv6Threads.Fs
