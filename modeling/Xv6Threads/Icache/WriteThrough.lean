import Xv6Threads.Icache.Discipline
import Xv6Threads.Icache.Steps

/-! The table of inodes is written through. What each process knows and the rest of its call are kept beside the
invariant of the table; with both, an entry that nobody has locked is as its dinode. -/
namespace Xv6Threads.Icache
open Function Sys List

variable {P : Type} [DecidableEq P] [Fintype P]

/-- After `userinit`: `p` has `/` as its current directory, in the first entry, and the other entries are zero. In the
image every block below the size of an inode is allocated. -/
structure Booted (p : P) (s : Sys P) : Prop where
  cwd : s.cwd = update (fun _ => none) p (some 0)
  work : ∀ q, s.work q = none
  held : s.fs.held = update (fun _ => []) p [0]
  inuse : ∀ q, s.fs.inuse q = none
  file : ∀ f, s.fs.file f = none
  root : (s.fs.slot 0).inum = 1 ∧ (s.fs.slot 0).ref = 1
  others : ∀ k, k ≠ 0 → (s.fs.slot k).ref = 0
  entries : ∀ k, (s.fs.slot k).valid = false ∧ (s.fs.slot k).lock = none
  blocks : ∀ i, NoHoles (dinode s.fs.disk i)

/-- All runs of the calls of any number of processes. -/
def fileSystem (P : Type) [DecidableEq P] [Fintype P] : System (Sys P) (Label P) :=
  ⟨fun s => ∃ p, Booted p s,Sys.step⟩

/-- A process in no call has locked nothing and has its current directory; otherwise the rest of its call keeps to the
rules. -/
def Follows (s : Sys P) (p : P) (l : Local) : Prop :=
  match s.work p with
  | none => At l (s.cwd p).toList none free
  | some x => s.cwd p = none ∧ x.meets rules (fun r l' => At l' r.toList none free) l

structure Safe (s : Sys P) : Prop where
  table : Inv s.fs
  proc : ∀ p, ∃ l, View s.fs p l ∧ Follows s p l

variable {s t : Sys P} {p q : P} {l : Local} {k : Slot}

omit [DecidableEq P] [Fintype P] in
lemma Follows.at_cwd (hf : Follows s p l) (hk : s.cwd p = some k) : At l [k] none free := by
  unfold Follows at hf
  split at hf
  · rwa [hk] at hf
  · rw [hk] at hf
    cases hf.1

omit [DecidableEq P] [Fintype P] in
lemma Follows.of_same (hf : Follows s q l) (hcwd : t.cwd q = s.cwd q) (hwork : t.work q = s.work q) :
    Follows t q l := by
  unfold Follows
  rw [hcwd,hwork]
  exact hf

lemma Booted.safe (h : Booted p s) : Safe s := by
  have hheld : ∀ q, s.fs.held q = if q = p then [0] else [] := fun q => by
    rw [h.held]
    exact update_apply ..
  have hcwd : ∀ q, s.cwd q = if q = p then some 0 else none := fun q => by
    rw [h.cwd]
    exact update_apply ..
  refine ⟨⟨fun a b ha hb _ => ?_,fun k _ _ hval => ?_,h.blocks,fun k => ?_⟩,fun q => ?_⟩
  · have hzero : ∀ k, 0 < (s.fs.slot k).ref → k = 0 := fun k hk => by
      by_contra hne
      rw [h.others k hne] at hk
      omega
    rw [hzero a ha,hzero b hb]
  · rw [(h.entries k).1] at hval
    cases hval
  · have hfile : total (fun _ o => if o = some k then 1 else 0) s.fs.file = 0 :=
      total_eq_zero fun f => by simp [h.file f]
    have hupd := total_update (fun (_ : P) (l : List Slot) => l.count k) (fun _ => []) p [0]
    have hnil : total (fun (_ : P) (l : List Slot) => l.count k) (fun _ => []) = 0 := total_eq_zero fun _ => rfl
    rw [← h.held,hnil] at hupd
    rw [refs,hfile]
    by_cases hk : k = 0
    · subst hk
      rw [h.root.2]
      simp at hupd
      omega
    · rw [h.others k hk]
      simp [Ne.symm hk] at hupd
      omega
  · refine ⟨⟨s.fs.held q,none,free⟩,⟨rfl,?_,?_,fun k => ?_,fun k hk => absurd rfl hk,(fun _ h => by cases h),(fun _ _ _ h => by cases h)⟩,?_⟩
    · rw [h.inuse q]
      rfl
    · rw [h.inuse q]
      exact fun _ h => by cases h
    · rw [(h.entries k).2]
      exact ⟨(fun h => by cases h),fun hk => absurd rfl hk⟩
    · unfold Follows
      rw [h.work q]
      refine ⟨?_,rfl,rfl⟩
      change (s.fs.held q).Perm _
      rw [hheld,hcwd]
      split_ifs <;> rfl

lemma Safe.of_one (hs : Safe s) (htable : Inv t.fs) (hone : ∃ l, View t.fs p l ∧ Follows t p l)
    (hother : ∀ q lq, q ≠ p → View s.fs q lq → View t.fs q lq)
    (hsame : ∀ q, q ≠ p → t.cwd q = s.cwd q ∧ t.work q = s.work q) : Safe t := by
  refine ⟨htable,fun q => ?_⟩
  by_cases hq : q = p
  · subst hq
    exact hone
  · obtain ⟨l,hv,hf⟩ := hs.proc q
    exact ⟨l,hother q l hq hv,hf.of_same (hsame q hq).1 (hsame q hq).2⟩

lemma Safe.start {c : Call} (hs : Safe s) (h : s.step (.start p c) = some t) : Safe t := by
  rw [step] at h
  cases hk : s.cwd p with
  | none =>
    rw [hk] at h
    cases h
  | some k =>
    rw [hk] at h
    cases h
    obtain ⟨l,hv,hf⟩ := hs.proc p
    refine hs.of_one (p := p) hs.table ⟨l,hv,?_⟩ (fun _ _ _ h => h) fun q hq => ?_
    · simp only [Follows,update_self]
      exact ⟨trivial,call_meets c (hf.at_cwd hk)⟩
    · exact ⟨update_of_ne hq ..,update_of_ne hq ..⟩

lemma Safe.next {c : ℕ} (hs : Safe s) (h : s.next p c = some t) : Safe t := by
  obtain ⟨l,hv,hf⟩ := hs.proc p
  unfold Sys.next at h
  unfold Follows at hf
  split at h
  case h_1 => cases h
  case h_2 k hw =>
    cases h
    rw [hw] at hf
    refine hs.of_one (p := p) hs.table ⟨l,hv,?_⟩ (fun _ _ _ h => h) fun q hq => ?_
    · simp only [Follows,update_self]
      exact hf.2
    · exact ⟨update_of_ne hq ..,update_of_ne hq ..⟩
  case h_3 i f hw =>
    rw [hw] at hf
    split at h
    case h_2 => cases h
    case h_1 r u hu =>
      cases h
      obtain ⟨⟨l',hpost,hv'⟩,hi',hother⟩ := handle_stepped hs.table hv hf.2.1 hu
      refine hs.of_one (p := p) hi' ⟨l',hv',?_⟩ hother fun q hq => ⟨rfl,update_of_ne hq ..⟩
      simp only [Follows,update_self]
      exact ⟨hf.1,hf.2.2 r l' hpost⟩

lemma Safe.fork (hs : Safe s) (h : s.step (.fork p q) = some t) : Safe t := by
  rw [step] at h
  cases hk : s.cwd p with
  | none =>
    rw [hk] at h
    cases h
  | some k =>
    rw [hk] at h
    obtain ⟨⟨hcq,hwq⟩,h⟩ := Option.ite_none_right_eq_some.mp h
    cases h
    obtain ⟨l,hv,hf⟩ := hs.proc p
    obtain ⟨lq,hvq,hfq⟩ := hs.proc q
    have hpos := hv.ref_pos hs.table (.inl ((hf.at_cwd hk).own.mem_iff.mpr mem_cons_self))
    unfold Follows at hfq
    rw [hwq,hcq] at hfq
    have hnil : s.fs.held q = [] := hvq.own.trans hfq.own.eq_nil
    refine hs.of_one (p := q) (hs.table.reref (fun _ => hpos) fun j => ?_)
      ⟨_,(hvq.put_ref _).hold_self fun j _ hj => ?_,?_⟩ (fun _ _ hr hvr => (hvr.put_ref _).hold_other hr)
      fun r hr => ⟨update_of_ne hr ..,rfl⟩
    · rw [hnil]
      exact count_cons_ref j
    · rw [← hvq.own,hnil] at hj
      cases hj
    · simp only [Follows,hwq,update_self]
      exact ⟨List.Perm.refl _,hfq.file,hfq.held⟩

lemma fileSystem_safe (h : (fileSystem P).Reachable s) : Safe s := by
  refine System.Reachable.invariant (I := Safe) (fun s hs => ?_) (fun s lab t hs ht => ?_) h
  · obtain ⟨p,hp⟩ := hs
    exact hp.safe
  · cases lab with
    | start p c => exact hs.start ht
    | next p c => exact hs.next ht
    | fork p q => exact hs.fork ht

/-- An entry in use that is valid and not locked has the fields of its dinode, and `iupdate` writes the fields of its
entry to one dinode. -/
theorem icache_write_through (h : (fileSystem P).Reachable s) :
    (∀ k, 0 < (s.fs.slot k).ref → (s.fs.slot k).valid = true → (s.fs.slot k).lock = none →
      (s.fs.slot k).fields = dinode s.fs.disk (s.fs.slot k).inum) ∧
    ∀ p c k r t, handle p c (.iupdate k) s.fs = some (r,t) → dinode t.disk (s.fs.slot k).inum = (s.fs.slot k).fields ∧
      ∀ i, i ≠ (s.fs.slot k).inum → dinode t.disk i = dinode s.fs.disk i := by
  refine ⟨fun k href hval hlock => ((fileSystem_safe h).table.clean k href hlock hval).1,fun p c k r t ht => ?_⟩
  cases ht
  exact ⟨dinode_put_self,fun i hi => dinode_put_ne hi⟩

/-- No inode has two entries, and the reference counts are exact. A process in no call has locked nothing and has only the
reference of its current directory, so between calls an entry counts the open files and the current directories. -/
theorem references_exact (h : (fileSystem P).Reachable s) :
    (∀ j k, 0 < (s.fs.slot j).ref → 0 < (s.fs.slot k).ref → (s.fs.slot j).inum = (s.fs.slot k).inum → j = k) ∧
    (∀ k, (s.fs.slot k).ref = refs s.fs k) ∧
    (∀ p, s.work p = none → s.fs.held p = (s.cwd p).toList ∧ ∀ k, (s.fs.slot k).lock ≠ some p) ∧
    ((∀ p, s.work p = none) → ∀ k, (s.fs.slot k).ref =
      total (fun _ o => if o = some k then 1 else 0) s.fs.file+total (fun _ o => if o = some k then 1 else 0) s.cwd) := by
  have hs := fileSystem_safe h
  have hidle : ∀ p, s.work p = none → s.fs.held p = (s.cwd p).toList ∧ ∀ k, (s.fs.slot k).lock ≠ some p := by
    intro p hp
    obtain ⟨l,hv,hf⟩ := hs.proc p
    unfold Follows at hf
    rw [hp] at hf
    refine ⟨?_,fun k hk => (hv.locks k).mp hk (by rw [hf.held]; rfl)⟩
    have hown := hv.own ▸ hf.own
    cases hc : s.cwd p with
    | none => rw [hc] at hown; exact hown.eq_nil
    | some j => rw [hc] at hown; exact perm_singleton.mp hown
  refine ⟨hs.table.one,hs.table.count,hidle,fun hall k => ?_⟩
  rw [hs.table.count,refs]
  refine congrArg _ (Finset.sum_congr rfl fun p _ => ?_)
  rw [(hidle p (hall p)).1]
  cases hc : s.cwd p with
  | none => simp
  | some j => simp [count_singleton]

section

/-- `/` with four entries, and files without blocks. -/
def image : Disk := fun b i => if b = 32 ∧ i = 1 then ⟨tDir,0,0,1,64,fun _ => 60⟩ else ⟨tFile,0,0,1,0,fun _ => 0⟩

def booted : Sys (Fin 1) where
  fs := ⟨fun k => if k = 0 then ⟨1,1,false,none,.blank 0⟩ else ⟨0,0,false,none,.blank 0⟩,image,fun _ => none,
    fun _ => [0],fun _ => none⟩
  cwd _ := some 0
  work _ := none

lemma booted_init : (fileSystem (Fin 1)).init booted := by
  refine ⟨0,?_,fun _ => rfl,?_,fun _ => rfl,fun _ => rfl,⟨rfl,rfl⟩,fun k hk => ?_,fun k => ?_,fun i bn hbn => ?_⟩
  · funext p
    rw [Subsingleton.elim p 0]
    rfl
  · funext p
    rw [Subsingleton.elim p 0]
    rfl
  · simp [booted,hk]
  · simp only [booted]
    split_ifs <;> exact ⟨rfl,rfl⟩
  · simp only [booted,dinode,image] at hbn ⊢
    split_ifs at hbn ⊢
    · exact (by decide : 60 ≠ 0)
    · simp at hbn

/-- A file is open and nobody has its entry locked. -/
theorem open_file_written_through : ∃ s : Sys (Fin 1), (fileSystem (Fin 1)).Reachable s ∧ 0 < (s.fs.slot 1).ref ∧
    (s.fs.slot 1).fields = dinode s.fs.disk 2 := by
  have hrun : ∃ s, (fileSystem (Fin 1)).Reachable s ∧ 0 < (s.fs.slot 1).ref ∧ (s.fs.slot 1).valid = true ∧
      (s.fs.slot 1).lock = none ∧ (s.fs.slot 1).inum = 2 :=
    System.reachable_of_exec (System.schedule [(.start 0 (.openFile ⟨true,1⟩ false true),1),(.next 0 2,28)]) _
      booted_init (by decide +kernel)
  obtain ⟨s,hs,href,hval,hlock,hinum⟩ := hrun
  refine ⟨s,hs,href,?_⟩
  rw [← hinum]
  exact (icache_write_through hs).1 1 href hval hlock

/-- An entry that is no longer in use stays valid, and the next `iget` of its inode takes the first free entry: here the
entry of a file that was closed before. `sys_link` then changes the dinode, and the old entry does not follow. -/
theorem free_entry_goes_stale : ∃ s : Sys (Fin 1), (fileSystem (Fin 1)).Reachable s ∧ (s.fs.slot 2).valid = true ∧
    (s.fs.slot 2).lock = none ∧ (s.fs.slot 2).fields ≠ dinode s.fs.disk (s.fs.slot 2).inum := by
  have hrun : ∃ s, (fileSystem (Fin 1)).Reachable s ∧ (s.fs.slot 2).valid = true ∧ (s.fs.slot 2).lock = none ∧
      (s.fs.slot 2).fields.nlink ≠ (dinode s.fs.disk (s.fs.slot 2).inum).nlink :=
    System.reachable_of_exec (System.schedule [
        (.start 0 (.openFile ⟨true,1⟩ false true),1),(.next 0 2,28),
        (.start 0 (.openFile ⟨true,1⟩ false true),1),(.next 0 3,28),
        (.start 0 (.close 2),1),(.next 0 1,7),(.start 0 (.close 3),1),(.next 0 1,7),
        (.start 0 (.link ⟨true,1⟩ ⟨true,1⟩),1),(.next 0 3,25)]) _
      booted_init (by decide +kernel)
  obtain ⟨s,hs,hval,hlock,hne⟩ := hrun
  exact ⟨s,hs,hval,hlock,fun h => hne (congrArg Inode.nlink h)⟩

/-- One process has one file open. -/
theorem references_exact_one_file : ∃ s : Sys (Fin 1), (fileSystem (Fin 1)).Reachable s ∧ s.work 0 = none ∧
    (s.fs.slot 1).ref = 1 ∧ s.fs.held 0 = [0] := by
  have hrun : ∃ s, (fileSystem (Fin 1)).Reachable s ∧ s.work 0 = none ∧ (s.fs.slot 1).ref = 1 ∧ s.cwd 0 = some 0 :=
    System.reachable_of_exec (System.schedule [(.start 0 (.openFile ⟨true,1⟩ false true),1),(.next 0 2,28)]) _
      booted_init (by decide +kernel)
  obtain ⟨s,hs,hw,href,hc⟩ := hrun
  refine ⟨s,hs,hw,href,?_⟩
  rw [((references_exact hs).2.2.1 0 hw).1,hc]
  rfl

end

end Xv6Threads.Icache
