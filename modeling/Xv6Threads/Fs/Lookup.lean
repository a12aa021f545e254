import Xv6Threads.Blocks.Model
import Xv6Threads.Fs.Interleaving
import Xv6Threads.Fs.Resolve

/-! Path lookup by a call that runs alone gives back the references it takes, and writes nothing. From
this come rules for the system calls up to where they change something. -/
namespace Xv6Threads.Fs
open Function List Or Nat List.Perm
open Prog (op ret wp_bind alone_call alone_ret)
open Blocks (Edit Within)

/-- What an instruction does to the disk. -/
def Instr.edits : (i : Instr) → i.Reply → List Edit
  | .lookup d _,_ | .emptySlot d,_ | .isdirempty d,_ => [.scan d]
  | .link d k _ _,_ | .unlink d k _,_ => [.entry d k]
  | .setLink i _,_ => [.update i]
  | .ialloc _,i => [.alloc i]
  | .free i,_ => [.trunc i]
  | _,_ => []

/-- The state and what a call has done to the disk, the last first. -/
structure Traced (P : Type) extends State P where
  edits : List Edit

variable {P : Type} {p : P} {s t : Traced P} {β : Type}

def noted [DecidableEq P] (p : P) (i : Instr) (t : Traced P) : Except Err (i.Reply × Traced P) :=
  (handle p i t.toState).map (fun r => (r.1,⟨r.2,i.edits r.1++t.edits⟩))

lemma run_noted [DecidableEq P] (x : Code β) (t : Traced P) :
    (x.run (S := fs) (noted p) t).map (fun r => (r.1,r.2.toState)) = x.run (S := fs) (handle p) t.toState := by
  induction x generalizing t with
  | ret b => rfl
  | call i k ih =>
    simp only [Prog.run,noted]
    cases handle p i t.toState with
    | error e => rfl
    | ok q => exact ih q.1 _

/-- From the edits `e` on only edits of the inodes `I`, and at most `n` of entries, come up. -/
def Spends (I : List ℕ) (n : ℕ) (e f : List Edit) : Prop := ∃ l, f = l++e ∧ Within I n l

namespace Spends
variable {I J : List ℕ} {m n : ℕ} {e f g : List Edit}

lemma refl (e : List Edit) : Spends I n e e := ⟨[],rfl,nofun,zero_le _⟩

lemma one {x : Edit} (hx : ∀ i ∈ x.inode, i ∈ I) (hn : x.isEntry = true → 0 < n) : Spends I n e (x :: e) := by
  refine ⟨[x],rfl,fun y hy => ?_,?_⟩
  · rw [mem_singleton.mp hy]
    exact hx
  · rw [countP_cons,countP_nil]
    split_ifs with h
    · exact hn h
    · exact zero_le n

lemma trans (h : Spends I m e f) (h' : Spends I n f g) : Spends I (m+n) e g := by
  obtain ⟨l,rfl,hl⟩ := h
  obtain ⟨k,rfl,hk⟩ := h'
  refine ⟨k++l,(append_assoc ..).symm,fun x hx => ?_,?_⟩
  · exact (mem_append.mp hx).elim (hk.inode x) (hl.inode x)
  · rw [countP_append,add_comm]
    exact Nat.add_le_add hl.entries hk.entries

lemma mono (h : Spends I m e f) (hI : I ⊆ J) (hm : m ≤ n) : Spends J n e f := by
  obtain ⟨l,hf,hl⟩ := h
  exact ⟨l,hf,fun x hx i hi => hI (hl.inode x hx i hi),hl.entries.trans hm⟩

end Spends

/-- The contract of a call of `p` that runs alone; it may panic or wait for ever. -/
def calm [DecidableEq P] (p : P) : Contract fs (Traced P) Err := .alone (noted p) (fun _ => True)

/-- From `s` on the call has taken the references `L` and the sleep-locks `K`, and changed nothing else. -/
structure Taken (p : P) (s : Traced P) (L K : List ℕ) (t : Traced P) : Prop where
  ino : t.ino = s.ino
  file : t.file = s.file
  proc : t.proc = s.proc
  ref : ∀ i, t.ref i = s.ref i+L.count i
  lock : ∀ i, t.lock i = if i ∈ K then some p else s.lock i
  free : ∀ i ∈ K, s.lock i = none
  idle : Spends [] 0 s.edits t.edits

open Taken

/-- `iput` of a reference to `i` does not free it. -/
def Safe (s : State P) (i : ℕ) : Prop := (s.ino i).nlink ≠ 0 ∨ 0 < s.ref i

/-- What names lead to has a link or a reference. -/
structure Anchored (p : P) (s : State P) : Prop where
  root : Safe s rootIno
  cwd : 0 < s.ref (s.proc p).cwd
  named : ∀ d, (s.ino d).type = .dir → ∀ e ∈ (s.ino d).ents, e.inum ≠ 0 → Safe s e.inum

section
variable [DecidableEq P] {Q : β → Traced P → Prop} {i : Instr}

lemma noted_ok {r : i.Reply} {u : Traced P} (h : noted p i t = .ok (r,u)) :
    handle p i t.toState = .ok (r,u.toState) ∧ u = ⟨u.toState,i.edits r++t.edits⟩ := by
  obtain ⟨q,hq,he⟩ := map_ok h
  cases he
  exact ⟨hq,rfl⟩

lemma calm_op {f : i.Reply → Code β}
    (h : ∀ r u, handle p i t.toState = .ok (r,u) → (f r).wp (calm p) Q ⟨u,i.edits r++t.edits⟩) :
    (op (S := fs) i >>= f).wp (calm p) Q t := by
  refine alone_call (fun _ _ => trivial) fun r u hu => ?_
  obtain ⟨hu,he⟩ := noted_ok hu
  rw [he]
  exact h r u.toState hu

lemma calm_last {Q : i.Reply → Traced P → Prop}
    (h : ∀ r u, handle p i t.toState = .ok (r,u) → Q r ⟨u,i.edits r++t.edits⟩) : (op (S := fs) i).wp (calm p) Q t :=
  calm_op fun r u hu => alone_ret (h r u hu)

lemma calm_ret {b : β} (h : Q b t) : (ret b : Code β).wp (calm p) Q t := alone_ret h

lemma calm_any (x : Code β) (h : ∀ b u, Q b u) : x.wp (calm p) Q t := by
  induction x generalizing t with
  | ret b => exact calm_ret (h b t)
  | call i k ih => exact alone_call (fun _ _ => trivial) (fun r u _ => ih r)

end

namespace Taken
variable {L K : List ℕ} {i : ℕ}

lemma refl (p : P) (s : Traced P) : Taken p s [] [] s := ⟨rfl,rfl,rfl,fun _ => rfl,fun _ => rfl,nofun,Spends.refl _⟩

lemma perm {M : List ℕ} (h : Taken p s L K t) (hp : L.Perm M) : Taken p s M K t :=
  ⟨h.ino,h.file,h.proc,fun i => by rw [h.ref i,hp.count_eq],h.lock,h.free,h.idle⟩

lemma scan {d : ℕ} (h : Taken p s L K t) : Taken p s L K ⟨t.toState,.scan d :: t.edits⟩ := by
  have hscan : Spends [] 0 t.edits (.scan d :: t.edits) := Spends.one nofun nofun
  exact ⟨h.ino,h.file,h.proc,h.ref,h.lock,h.free,h.idle.trans hscan⟩

lemma iget {u : State P} (h : Taken p s L K t) (hu : t.toState.iget i = .ok u) : Taken p s (i :: L) K ⟨u,t.edits⟩ := by
  have href : ∀ j, update t.ref i (t.ref i+1) j = s.ref j+(i :: L).count j := by
    intro j
    by_cases hj : j = i
    · rw [hj,update_self,h.ref i,count_cons_self]
      omega
    · rw [update_of_ne hj,h.ref j,count_cons_of_ne (Ne.symm hj)]
  unfold State.iget at hu
  split_ifs at hu with h0 hfull
  · cases hu
    exact ⟨h.ino,h.file,h.proc,href,h.lock,h.free,h.idle⟩
  · cases hu
    have h1 : t.ref i+1 = 1 := by omega
    rw [h1] at href
    exact ⟨h.ino,h.file,h.proc,href,h.lock,h.free,h.idle⟩

lemma acquire {v : ℕ → Bool} (h : Taken p s L K t) (hl : t.lock i = none) :
    i ∉ K ∧ Taken p s L (i :: K) ⟨{t.toState.setLock i (some p) with valid := v},t.edits⟩ := by
  have hK : i ∉ K := by
    intro hK
    rw [h.lock i,if_pos hK] at hl
    cases hl
  refine ⟨hK,h.ino,h.file,h.proc,h.ref,fun j => ?_,fun j hj => ?_,h.idle⟩
  · change update t.lock i (some p) j = _
    by_cases hj : j = i
    · rw [hj,update_self,if_pos mem_cons_self]
    · rw [update_of_ne hj,h.lock j]
      simp only [mem_cons,hj,false_or]
  · rcases mem_cons.mp hj with rfl | hj
    · rw [← hl,h.lock j,if_neg hK]
    · exact h.free j hj

lemma release {r : ℕ → ℕ} {M : List ℕ} (h : Taken p s L (i :: K) t) (hK : i ∉ K) (hr : ∀ j, r j = s.ref j+M.count j) :
    Taken p s M K ⟨{t.toState.setLock i none with ref := r},t.edits⟩ := by
  refine ⟨h.ino,h.file,h.proc,hr,fun j => ?_,fun j hj => h.free j (mem_cons_of_mem _ hj),h.idle⟩
  change update t.lock i none j = _
  by_cases hj : j = i
  · rw [hj,update_self,if_neg hK,h.free i mem_cons_self]
  · rw [update_of_ne hj,h.lock j]
    simp only [mem_cons,hj,false_or]

end Taken

section
variable [DecidableEq P] {L K : List ℕ} {i : ℕ} {Q : Unit → Traced P → Prop}

lemma calm_ilock (h : Taken p s L K t) (hQ : ∀ u, i ∉ K → Taken p s L (i :: K) u → Q () u) :
    (ilock i).wp (calm p) Q t := by
  refine calm_op fun _ u hu => calm_op fun _ v hv => calm_last fun _ w hw => ?_
  simp only [handle] at hu hv
  split_ifs at hu with hr
  cases hu
  split_ifs at hv with hl
  cases hv
  obtain ⟨x,hx,he⟩ := map_ok hw
  cases he
  unfold State.load at hx
  split_ifs at hx with hval hf <;> cases hx
  · exact hQ _ (h.acquire (v := t.valid) hl).1 (h.acquire hl).2
  · exact hQ _ (h.acquire (v := t.valid) hl).1 (h.acquire hl).2

lemma calm_iunlock (h : Taken p s L (i :: K) t) (hK : i ∉ K) (hQ : ∀ u, Taken p s L K u → Q () u) :
    (iunlock i).wp (calm p) Q t := by
  refine calm_op fun _ u hu => calm_last fun _ v hv => ?_
  simp only [handle] at hu hv
  split_ifs at hu
  cases hu
  split_ifs at hv
  cases hv
  exact hQ _ (h.release hK h.ref)

lemma calm_iput (h : Taken p s (i :: L) K t) (hi : Safe s.toState i ∨ i ∈ L) (hQ : ∀ u, Taken p s L K u → Q () u) :
    (iput i).wp (calm p) Q t := by
  refine calm_op fun _ u hu => calm_op fun b v hv => ?_
  simp only [handle] at hu hv
  split_ifs at hu with hl
  cases hu
  cases hv
  obtain ⟨hK,hT⟩ := h.acquire (v := t.valid) hl
  have hkeep : (t.toState.setLock i (some p)).unused i = false := by
    refine decide_eq_false fun hun => ?_
    have hlink : (s.ino i).nlink = 0 := by
      rw [← h.ino]
      exact hun.2.1
    have href : t.ref i = 1 := hun.2.2
    rw [h.ref i,count_cons_self] at href
    rcases hi with (hi | hi) | hi
    · exact hi hlink
    · omega
    · have := count_pos_iff.mpr hi
      omega
  rw [hkeep]
  refine calm_op fun _ v hv => calm_last fun _ w hw => ?_
  simp only [handle] at hv hw
  split_ifs at hv
  cases hv
  cases hw
  refine hQ _ (hT.release hK fun j => ?_)
  change update t.ref i (t.ref i-1) j = _
  by_cases hj : j = i
  · rw [hj,update_self,h.ref i,count_cons_self]
    omega
  · rw [update_of_ne hj,h.ref j,count_cons_of_ne (Ne.symm hj)]

lemma calm_iunlockput (h : Taken p s (i :: L) (i :: K) t) (hK : i ∉ K) (hi : Safe s.toState i ∨ i ∈ L)
    (hQ : ∀ u, Taken p s L K u → Q () u) : (iunlockput i).wp (calm p) Q t :=
  wp_bind (calm_iunlock h hK fun _ hu => calm_iput hu hi hQ)

end

section
variable [DecidableEq P] {L K : List ℕ} {d i : ℕ} {n : List UInt8}

lemma calm_dirlookup {Q : Option (ℕ × ℕ) → Traced P → Prop} (h : Taken p s L K t) (hN : Anchored p s.toState)
    (hno : ∀ u, Taken p s L K u → lookup n (s.ino d).ents 0 = none → Q none u)
    (hyes : ∀ j k u, Taken p s (j :: L) K u → Safe s.toState j → lookup n (s.ino d).ents 0 = some (j,k) → Q (some (j,k)) u) :
    (dirlookup d n).wp (calm p) Q t := by
  refine calm_op fun r u hu => ?_
  simp only [handle] at hu
  split_ifs at hu with hd
  cases hu
  cases hl : lookup n (t.ino d).ents 0 with
  | none => exact calm_ret (hno _ h.scan (h.ino ▸ hl))
  | some x =>
    obtain ⟨-,e,he,hei,h0,-⟩ := lookup_some hl
    refine calm_op fun _ v hv => calm_ret ?_
    obtain ⟨w,hw,heq⟩ := map_ok hv
    cases heq
    rw [h.ino] at hd he
    have hsafe := hN.named d hd e (mem_of_getElem? he) (by rwa [hei])
    rw [hei] at hsafe
    exact hyes x.1 x.2 _ (h.scan.iget hw) hsafe (h.ino ▸ hl)

variable {Q : Option (ℕ × List UInt8) → Traced P → Prop}

lemma calm_namexLoop {parent : Bool} {k : ℕ} {path : List UInt8}
    (hN : Anchored p s.toState) (hk : path.length < k) (h : Taken p s (i :: L) [] t) (hi : Safe s.toState i)
    (hno : ∀ u, Taken p s L [] u → Q none u) (hyes : ∀ j m u, Taken p s (j :: L) [] u → Safe s.toState j → Q (some (j,m)) u) :
    (namexLoop parent k path i n).wp (calm p) Q t := by
  induction k generalizing path i n t with
  | zero => exact absurd hk (not_lt_zero _)
  | succ k ih =>
    unfold namexLoop
    split
    · split_ifs
      · exact wp_bind (calm_iput h (inl hi) fun u hu => calm_ret (hno u hu))
      · exact calm_ret (hyes i n t h hi)
    · next name rest hsk =>
      refine wp_bind (calm_ilock h fun u hK hu => calm_op fun ty v hv => ?_)
      cases hv
      have hbad : ∀ v, Taken p s (i :: L) [i] v → (do iunlockput i; pure none : Code (Option (ℕ × List UInt8))).wp (calm p) Q v :=
        fun v hv => wp_bind (calm_iunlockput hv hK (inl hi) fun w hw => calm_ret (hno w hw))
      split_ifs with hty hpar
      · exact hbad u hu
      · exact wp_bind (calm_iunlock hu hK fun v hv => calm_ret (hyes i name v hv hi))
      · refine wp_bind (calm_dirlookup hu hN (fun v hv _ => hbad v hv) fun j m v hv hj _ => ?_)
        have hlt := skipelem_length hsk
        refine wp_bind (calm_iunlockput (hv.perm (swap i j L)) hK (inl hi) fun w hw => ?_)
        exact ih (by omega) hw hj

/-- `namex` gets a reference to the inode it returns, and nothing else stays taken. -/
lemma calm_namex {parent : Bool} {path : List UInt8} (hN : Anchored p s.toState)
    (h : Taken p s L [] t) (hno : ∀ u, Taken p s L [] u → Q none u)
    (hyes : ∀ j m u, Taken p s (j :: L) [] u → Safe s.toState j → Q (some (j,m)) u) : (namex parent path).wp (calm p) Q t := by
  refine wp_bind ?_
  unfold namexStart
  split_ifs
  · refine calm_op fun _ u hu => calm_ret ?_
    obtain ⟨v,hv,heq⟩ := map_ok hu
    cases heq
    exact calm_namexLoop hN (lt_succ_self _) (h.iget hv) hN.root hno hyes
  · refine calm_op fun c u hu => calm_op fun _ v hv => calm_ret ?_
    cases hu
    obtain ⟨w,hw,heq⟩ := map_ok hv
    cases heq
    rw [h.proc] at hw ⊢
    exact calm_namexLoop hN (lt_succ_self _) (h.iget hw) (inr hN.cwd) hno hyes

/-- `dirlink` that finds the name. -/
lemma calm_dirlink {Q : Bool → Traced P → Prop} (hN : Anchored p s.toState) (h : Taken p s L K t)
    (hno : ∀ u, Taken p s L K u → Q false u) (hyes : ∀ u, Q true u) : (dirlink d n i).wp (calm p) Q t := by
  refine wp_bind (calm_dirlookup h hN (fun _ _ _ => ?_) fun j k u hu hj _ => ?_)
  · exact calm_op fun _ u _ => calm_op fun _ v _ => calm_ret (hyes _)
  · exact wp_bind (calm_iput hu (inl hj) fun v hv => calm_ret (hno v hv))

end

lemma Anchored.setLink {s x : State P} {i : ℕ} {m : Int16} (hN : Anchored p s)
    (hino : x.ino = update s.ino i {s.ino i with nlink := m}) (hproc : x.proc = s.proc)
    (href : ∀ j, s.ref j ≤ x.ref j) (hi : 0 < x.ref i) : Anchored p x := by
  have hsafe : ∀ j, Safe s j → Safe x j := by
    intro j hj
    by_cases hji : j = i
    · rw [hji]
      exact inr hi
    · refine hj.imp (fun hl => ?_) fun hr => hr.trans_le (href j)
      rw [hino,update_of_ne hji]
      exact hl
  have hkeep : ∀ d, (x.ino d).type = (s.ino d).type ∧ (x.ino d).ents = (s.ino d).ents := by
    intro d
    rw [hino]
    by_cases hd : d = i
    · rw [hd,update_self]
      exact ⟨rfl,rfl⟩
    · rw [update_of_ne hd]
      exact ⟨rfl,rfl⟩
  refine ⟨hsafe _ hN.root,?_,fun d hd e he h0 => ?_⟩
  · rw [hproc]
    exact hN.cwd.trans_le (href _)
  · rw [(hkeep d).1] at hd
    rw [(hkeep d).2] at he
    exact hsafe _ (hN.named d hd e he h0)

lemma anchored_root : Anchored () (bootState () rootImage) where
  root := .inl (by decide)
  cwd := by decide
  named d hd e he h0 := by
    match d with
    | 1 =>
      have hall : ∀ e ∈ (rootImage 1).ents, ((rootImage e.inum).nlink != 0) = true := by decide
      exact .inl (bne_iff_ne.mp (hall e he))
    | 0 | 2 | n+3 => cases he

/-- `sys_link` has added a link to inode `i`, to which it has a reference. -/
structure Linked (s : Traced P) (i : ℕ) (t : Traced P) : Prop where
  safe : Safe s.toState i
  ino : t.ino = update s.ino i {s.ino i with nlink := (s.ino i).nlink+1}
  file : t.file = s.file
  proc : t.proc = s.proc
  ref : ∀ j, t.ref j = s.ref j+[i].count j
  lock : t.lock = s.lock
  spent : Spends [i] 0 s.edits t.edits

section
variable [DecidableEq P]

lemma calm_require {e : Panic} {b : Bool} {Q : Unit → Traced P → Prop} (h : Q () t) : (require e b).wp (calm p) Q t := by
  unfold require
  split
  · exact calm_ret h
  · exact calm_last fun _ _ hu => nomatch hu

lemma calm_isdirempty {L K : List ℕ} {i : ℕ} {ty : IType} {Q : Bool → Traced P → Prop} (h : Taken p s L K t)
    (hQ : ∀ b u, Taken p s L K u → Q b u) : (isdirempty i ty).wp (calm p) Q t := by
  unfold isdirempty
  split
  · refine calm_last fun b u hu => ?_
    cases hu
    exact hQ _ _ h.scan
  · exact calm_ret (hQ true t h)

variable {path : List UInt8}

/-- What a walk returns, in a run that notes the changes. -/
lemma calm_of_walking {x : Code β} {R : β → Prop} {v : State P} (h : x.wp (walking p v) (fun r _ => R r) t.toState) :
    x.wp (calm p) (fun r _ => R r) t := by
  induction x generalizing t with
  | ret b => exact calm_ret (h _ rfl)
  | call i k ih =>
    refine alone_call (fun _ _ => trivial) fun r u hu => ih r ?_
    exact ((Prog.wp_next h).2.2 r u.toState (noted_ok hu).1).2

lemma calm_nameiparent {Q : Option (ℕ × List UInt8) → Traced P → Prop} (hN : Anchored p s.toState)
    (hno : ∀ u, Taken p s [] [] u → resolveParent s.ino (startIno p s.toState path) (pathNames path) = none → Q none u)
    (hyes : ∀ d n u, Taken p s [d] [] u → Safe s.toState d →
      resolveParent s.ino (startIno p s.toState path) (pathNames path) = some (d,n) → Q (some (d,n)) u) :
    (nameiparent path).wp (calm p) Q s := by
  have htaken : (namex true path).wp (calm p) (fun r u => match r with
      | none => Taken p s [] [] u
      | some x => Taken p s [x.1] [] u ∧ Safe s.toState x.1) s :=
    calm_namex hN (refl p s) (fun _ hu => hu) fun _ _ _ hu hj => ⟨hu,hj⟩
  refine Prog.wp_mono (Prog.wp_and htaken (calm_of_walking (namex_wp p s.toState true path))) fun r u hru => ?_
  cases r with
  | none => exact hno u hru.1 hru.2.symm
  | some x => exact hyes x.1 x.2 u hru.1.1 hru.1.2 hru.2.symm

/-- The names of the path but the last one lead to a directory, which has no entry for the last one. -/
def Fresh (p : P) (s : State P) (path : List UInt8) : Prop :=
  ∃ d n, resolveParent s.ino (startIno p s path) (pathNames path) = some (d,n) ∧ lookup n (s.ino d).ents 0 = none

/-- `create` up to where it makes a new inode. -/
lemma calm_create {ty : IType} {Q : Option ℕ → Traced P → Prop} (hN : Anchored p s.toState)
    (hno : ∀ u, Taken p s [] [] u → ¬Fresh p s.toState path → Q none u)
    (hold : ∀ i u, Taken p s [i] [i] u → Safe s.toState i → ¬Fresh p s.toState path → Q (some i) u)
    (hnew : ∀ d n u, Taken p s [d] [d] u → (s.ino d).type = .dir → Fresh p s.toState path →
      (createNew d n ty).wp (calm p) (fun i => Q (some i)) u) :
    (create path ty).wp (calm p) Q s := by
  refine wp_bind (calm_nameiparent hN (fun u hu hr => calm_ret (hno u hu ?_)) fun d n u hu hd hr => ?_)
  · rintro ⟨d,n,hd,-⟩
    rw [hr] at hd
    cases hd
  have hold' : ∀ {x}, lookup n (s.ino d).ents 0 = some x → ¬Fresh p s.toState path := by
    rintro x hx ⟨d',n',hd',hl⟩
    cases hr.symm.trans hd'
    rw [hx] at hl
    cases hl
  refine wp_bind (calm_ilock hu fun v hK hv => wp_bind (calm_dirlookup hv hN (fun w hw hl => ?_) fun i k w hw hi hl => ?_))
  · have hdir := (resolveParent_eq_some.mp hr).2.2
    exact wp_bind (Prog.wp_mono (hnew d n w hw hdir ⟨d,n,hr,hl⟩) fun i x hx => calm_ret hx)
  · refine wp_bind (calm_iunlockput (hw.perm (swap d i [])) hK (inl hd) fun x hx => ?_)
    refine wp_bind (calm_ilock hx fun y hK' hy => calm_op fun ty' z hz => ?_)
    cases hz
    split_ifs
    · exact calm_ret (hold i y hy hi (hold' hl))
    · exact wp_bind (calm_iunlockput hy hK' (inl hi) fun z hz => calm_ret (hno z hz (hold' hl)))

variable {Q : ℤ → Traced P → Prop}

section
variable (hN : Anchored p s.toState) (hno : ∀ u, Taken p s [] [] u → Q (-1) u)
include hN hno

/-- `sys_chdir` up to where it gives up the old directory. -/
lemma calm_chdir (hgo : ∀ i u, Taken p s [i] [i] u → (do
      iunlock i
      let c ← (op (S := fs) .cwd : Code ℕ)
      iput c
      op (S := fs) (.setCwd i)
      pure 0 : Code ℤ).wp (calm p) Q u) : (sysChdir path).wp (calm p) Q s := by
  refine wp_bind (calm_namex hN (refl p s) (fun u hu => calm_ret (hno u hu)) fun i n u hu hi => ?_)
  refine wp_bind (calm_ilock hu fun v hK hv => calm_op fun ty w hw => ?_)
  cases hw
  split_ifs
  · exact wp_bind (calm_iunlockput hv hK (inl hi) fun w hw => calm_ret (hno w hw))
  · exact hgo i v hv

/-- `sys_unlink` up to where it removes the entry. -/
lemma calm_unlink (hgo : ∀ d k n i ty u, Taken p s [i,d] [i,d] u → (unlinkEntry d k n i ty).wp (calm p) Q u) :
    (sysUnlink path).wp (calm p) Q s := by
  refine wp_bind (calm_namex hN (refl p s) (fun u hu => calm_ret (hno u hu)) fun d n u hu hd => ?_)
  refine wp_bind (calm_ilock hu fun v hK hv => ?_)
  have hbad : ∀ w, Taken p s [d] [d] w → (do iunlockput d; pure (-1) : Code ℤ).wp (calm p) Q w :=
    fun w hw => wp_bind (calm_iunlockput hw hK (inl hd) fun x hx => calm_ret (hno x hx))
  split_ifs
  · exact hbad v hv
  · refine wp_bind (calm_dirlookup hv hN (fun w hw _ => hbad w hw) fun i k w hw hi _ => wp_bind (calm_ilock hw fun x hK' hx => ?_))
    refine calm_op fun m y hy => ?_
    cases hy
    refine wp_bind (calm_require (calm_op fun ty z hz => ?_))
    cases hz
    refine wp_bind (calm_isdirempty hx fun b x hx => ?_)
    split
    · exact hgo d k n i _ x hx
    · refine wp_bind (calm_iunlockput hx hK' (inl hi) fun y hy => ?_)
      exact wp_bind (calm_iunlockput hy hK (inl hd) fun z hz => calm_ret (hno z hz))

/-- `sys_link` up to where it writes the entry. -/
lemma calm_link {old new : List UInt8}
    (hbad : ∀ i x y, Linked s i x → Taken p x [] [] y → (linkBad i).wp (calm p) Q y)
    (hgo : ∀ i d n x y, Linked s i x → Anchored p x.toState → Safe x.toState d → Taken p x [d] [d] y → (do
      let ok ← dirlink d n i
      iunlockput d
      if ok then do iput i; pure 0
      else linkBad i : Code ℤ).wp (calm p) Q y) : (sysLink old new).wp (calm p) Q s := by
  refine wp_bind (calm_namex hN (refl p s) (fun u hu => calm_ret (hno u hu)) fun i n u hu hi => ?_)
  refine wp_bind (calm_ilock hu fun v hK hv => calm_op fun ty w hw => ?_)
  cases hw
  split_ifs
  · exact wp_bind (calm_iunlockput hv hK (inl hi) fun w hw => calm_ret (hno w hw))
  refine calm_op fun m w hw => calm_op fun _ x hx => ?_
  cases hw
  cases hx
  -- from here on the call runs on the inodes with the new link count
  refine wp_bind (calm_iunlock (L := [i]) (K := []) (s := ⟨s.toState.setIno i {s.ino i with nlink := (s.ino i).nlink+1},.update i :: v.edits⟩)
    ⟨?_,hv.file,hv.proc,hv.ref,hv.lock,hv.free,Spends.refl _⟩ not_mem_nil fun x hx => ?_)
  · change update v.ino i _ = _
    rw [hv.ino]
    rfl
  have hL : Linked s i x := by
    refine ⟨hi,hx.ino,hx.file,hx.proc,hx.ref,funext hx.lock,?_⟩
    have h1 : Spends [i] 0 s.edits v.edits := hv.idle.mono (nil_subset _) le_rfl
    have h2 : Spends [i] 0 v.edits (.update i :: v.edits) := Spends.one (fun j hj => by cases hj; simp) nofun
    exact (h1.trans h2).trans (hx.idle.mono (nil_subset _) le_rfl)
  have hpos : 0 < x.ref i := by
    rw [hx.ref i,count_singleton_self]
    exact succ_pos _
  have hN' : Anchored p x.toState := hN.setLink hL.ino hL.proc (fun j => by rw [hL.ref j]; exact le_add_right _ _) hpos
  refine wp_bind (calm_namex hN' (refl p x) (fun y hy => hbad i x y hL hy) fun d name y hy hd => ?_)
  exact wp_bind (calm_ilock hy fun z hK' hz => hgo i d name x z hL hN' hd hz)

end

end

end Xv6Threads.Fs
