import Xv6Threads.Fs.Components
import Xv6Threads.Fs.Contract

/-! `namex` goes by the names of a path alone. Its loop is a walk over the list of names; in a given state it returns the
inode that the names lead to, or it stops because a sleep-lock is taken, the inode cache is full or an entry leads to an
inode that is free. -/
namespace Xv6Threads.Fs
open Function List Option Nat State Prog

/-- The loop of `namex` over a list of names. -/
def walk (parent : Bool) : List (List UInt8) → ℕ → List UInt8 → Code (Option (ℕ × List UInt8))
  | [],i,n => if parent then do iput i; pure none else pure (some (i,n))
  | name :: ns,i,_ => do
    ilock i
    let t ← inodeType i
    if t ≠ .dir then do iunlockput i; pure none
    else if parent ∧ ns = [] then do iunlock i; pure (some (i,name))
    else
      match ← dirlookup i name with
      | none => do iunlockput i; pure none
      | some (next,_) => do
        iunlockput i
        walk parent ns next name

lemma rest_eq_nil {path n rest : List UInt8} (h : skipelem path = some (n,rest)) : rest = [] ↔ pathNames rest = [] := by
  have hstop : rest.dropWhile (· = slash) = rest := by
    unfold skipelem at h
    split at h
    · cases h
    · next c t _ =>
      cases h
      have hhead := head?_dropWhile_not (fun c => decide (c = slash)) ((c :: t).dropWhile (· ≠ slash))
      cases hr : ((c :: t).dropWhile (· ≠ slash)).dropWhile (· = slash) with
      | nil => rfl
      | cons d r =>
        rw [hr] at hhead
        exact dropWhile_cons_of_neg (by simpa using hhead)
  refine ⟨fun h => by rw [h]; rfl,fun hnil => ?_⟩
  rcases skipelem_components rest with ⟨hs,-⟩ | ⟨w,_,-,hc,-⟩
  · unfold skipelem at hs
    rw [hstop] at hs
    cases rest with
    | nil => rfl
    | cons c rest => cases hs
  · rw [pathNames,hc] at hnil
    cases hnil

/-- The bound on the rounds of the loop is never met. -/
lemma namexLoop_eq_walk {parent : Bool} {k : ℕ} {path : List UInt8} (hk : path.length < k) (i : ℕ) (n : List UInt8) :
    namexLoop parent k path i n = walk parent (pathNames path) i n := by
  induction k generalizing path i n with
  | zero => exact absurd hk (not_lt_zero _)
  | succ k ih =>
    rcases skipelem_components path with ⟨h,hc⟩ | ⟨w,rest,h,hc,-⟩
    · rw [namexLoop,h,pathNames,hc]
      rfl
    · have hlt := skipelem_length h
      have hns : pathNames path = w.take dirSiz :: pathNames rest := by rw [pathNames,hc]; rfl
      rw [namexLoop,h,hns]
      simp only [ih (show rest.length < k by omega),rest_eq_nil h]
      rfl

/-- Only the names count, and whether the path starts with a slash. -/
lemma namex_congr {path path' : List UInt8} (hslash : path.head? = some slash ↔ path'.head? = some slash)
    (hns : pathNames path = pathNames path') (parent : Bool) : namex parent path = namex parent path' := by
  have hstart : namexStart path = namexStart path' := if_congr hslash rfl rfl
  simp only [namex,namexLoop_eq_walk (lt_succ_self _),hstart,hns]

/-- The inode that the names lead to from inode `i`. -/
def resolve (ino : ℕ → Inode) : ℕ → List (List UInt8) → Option ℕ
  | i,[] => some i
  | i,n :: ns => if (ino i).type = .dir then (lookup n (ino i).ents 0).bind fun x => resolve ino x.1 ns else none

/-- The directory that the names but the last one lead to, and the last one. -/
def resolveParent (ino : ℕ → Inode) (i : ℕ) (ns : List (List UInt8)) : Option (ℕ × List UInt8) :=
  ns.getLast?.bind fun n => (resolve ino i ns.dropLast).bind fun d => if (ino d).type = .dir then some (d,n) else none

/-- What the walk returns. -/
def target (ino : ℕ → Inode) (parent : Bool) (i : ℕ) (n : List UInt8) (ns : List (List UInt8)) : Option (ℕ × List UInt8) :=
  if parent then resolveParent ino i ns else (resolve ino i ns).map (·,ns.getLastD n)

lemma resolveParent_one (ino : ℕ → Inode) (i : ℕ) (n : List UInt8) :
    resolveParent ino i [n] = if (ino i).type = .dir then some (i,n) else none := rfl

lemma resolveParent_cons (ino : ℕ → Inode) (i : ℕ) (n m : List UInt8) (ns : List (List UInt8)) :
    resolveParent ino i (n :: m :: ns) =
      if (ino i).type = .dir then (lookup n (ino i).ents 0).bind fun x => resolveParent ino x.1 (m :: ns) else none := by
  rw [resolveParent,getLast?_cons_cons,dropLast_cons_cons,resolve]
  obtain ⟨l,hl⟩ : ∃ l, (m :: ns).getLast? = some l := ⟨_,getLast?_eq_some_getLast (cons_ne_nil m ns)⟩
  simp only [resolveParent,hl,bind_some]
  split_ifs with hd
  · rw [bind_assoc]
  · rfl

variable {n : List UInt8} {ns : List (List UInt8)} {ino : ℕ → Inode}

lemma resolveParent_eq_some {i d : ℕ} : resolveParent ino i ns = some (d,n) ↔
      ns.getLast? = some n ∧ resolve ino i ns.dropLast = some d ∧ (ino d).type = .dir := by
  simp only [resolveParent,bind_eq_some_iff]
  constructor
  · rintro ⟨n',hn,d',hr,h⟩
    split_ifs at h with hd
    cases h
    exact ⟨hn,hr,hd⟩
  · rintro ⟨hn,hr,hd⟩
    exact ⟨n,hn,d,hr,if_pos hd⟩

lemma resolveParent_eq_none {i : ℕ} : resolveParent ino i ns = none ↔
    ns = [] ∨ ¬∃ d, resolve ino i ns.dropLast = some d ∧ (ino d).type = .dir := by
  rw [eq_none_iff_forall_ne_some,← getLast?_eq_none_iff]
  simp only [ne_eq,Prod.forall,resolveParent_eq_some]
  cases ns.getLast? <;> simp

/-- The names lead to the entry for the last one in the directory that the others lead to. -/
lemma resolve_of_parent (ino : ℕ → Inode) {i d : ℕ}
    (h : resolveParent ino i ns = some (d,n)) : resolve ino i ns = (lookup n (ino d).ents 0).map Prod.fst := by
  induction ns generalizing i with
  | nil => cases h
  | cons m ns ih =>
    cases ns with
    | nil =>
      rw [resolveParent_one] at h
      split_ifs at h with hd
      cases h
      rw [resolve,if_pos hd]
      cases hl : lookup n (ino d).ents 0 <;> simp [resolve]
    | cons m' ns =>
      rw [resolveParent_cons] at h
      split_ifs at h with hd
      obtain ⟨x,hx,h⟩ := bind_eq_some_iff.mp h
      rw [resolve,if_pos hd,hx]
      exact ih h

variable {P : Type}

/-- The inode is allocated, and a walk that passes it does not free it. -/
def Stays (s : State P) (i : ℕ) : Prop := (s.ino i).type ≠ .free ∧ ((s.ino i).nlink ≠ 0 ∨ 0 < s.ref i)

/-- The root, the current directory of `p` and whatever a directory has an entry for. -/
structure Intact (p : P) (s : State P) : Prop where
  root : Stays s rootIno
  cwd : Stays s (s.proc p).cwd
  entry : ∀ d, (s.ino d).type = .dir → ∀ e ∈ (s.ino d).ents, e.inum ≠ 0 → Stays s e.inum

/-- The number of inodes in the cache with a reference. -/
def inUse (s : State P) : ℕ := (List.range ninodes).countP (fun j => 0 < s.ref j)

/-- Why a walk from state `s` does not return: it waits for a sleep-lock, or the kernel panics. -/
def Stops (p : P) (s : State P) (e : Err) : Prop :=
  (e = .blocked ∧ ∃ i, s.lock i ≠ none) ∨ (e = .panic .igetFull ∧ ninode < inUse s+2) ∨ (e = .panic .noType ∧ ¬Intact p s)

/-- A walk of `p` from state `s` has come to state `u`. It has references to the inodes of `L` and the sleep-locks of `K`;
an inode it has freed cannot be loaded. -/
structure Walks (p : P) (s : State P) (L K : List ℕ) (u : State P) : Prop where
  ino : ∀ j, u.ino j = s.ino j ∨ ((u.ino j).type = .free ∧ u.valid j = false ∧ ¬Stays s j)
  ref : ∀ j, u.ref j = s.ref j+L.count j
  lock : ∀ j, u.lock j = if j ∈ K then some p else s.lock j
  locked : ∀ j ∈ K, j ∈ L ∧ s.lock j = none ∧ u.valid j = true

variable {p : P} {s u v : State P} {L K : List ℕ} {i j : ℕ}

namespace Walks

lemma start : Walks p s [] [] s := ⟨fun _ => .inl rfl,fun _ => rfl,fun _ => rfl,nofun⟩

section
variable (h : Walks p s L K u)
include h

lemma perm {M : List ℕ} (hLM : L.Perm M) : Walks p s M K u where
  ino := h.ino
  ref j := by rw [h.ref j,hLM.count_eq]
  lock := h.lock
  locked j hj := ⟨hLM.mem_iff.mp (h.locked j hj).1,(h.locked j hj).2⟩

lemma ino_valid (hi : u.valid i = true) : u.ino i = s.ino i :=
  (h.ino i).resolve_right fun hf => by rw [hi] at hf; cases hf.2.1

lemma ino_stays (hi : Stays s i) : u.ino i = s.ino i := (h.ino i).resolve_right fun hf => hf.2.2 hi

lemma ref_pos (hi : i ∈ L) : 0 < u.ref i := by
  have href := h.ref i
  have := count_pos_iff.mpr hi
  omega

end

lemma inUse_le (h : Walks p s [i] K u) : inUse u ≤ inUse s+1 := by
  have hcount : ∀ l : List ℕ, l.countP (fun j => 0 < u.ref j) ≤ l.countP (fun j => 0 < s.ref j)+l.count i := by
    intro l
    induction l with
    | nil => exact le_refl 0
    | cons j l ih =>
      have href := h.ref j
      rw [count_singleton] at href
      rw [countP_cons,countP_cons,count_cons]
      simp only [decide_eq_true_eq,beq_iff_eq] at href ⊢
      split_ifs at href ⊢ <;> omega
  exact (hcount _).trans (Nat.add_le_add_left (nodup_iff_count_le_one.mp nodup_range i) _)

lemma iget (h : Walks p s L K u) (hv : u.iget j = .ok v) : Walks p s (j :: L) K v := by
  have href : ∀ k, update u.ref j (u.ref j+1) k = s.ref k+(j :: L).count k := by
    intro k
    have hk := h.ref k
    rw [count_cons]
    by_cases hkj : k = j
    · subst hkj
      rw [update_self,if_pos (beq_self_eq_true k)]
      omega
    · rw [update_of_ne hkj,if_neg (by simpa using Ne.symm hkj)]
      exact hk
  unfold State.iget at hv
  split_ifs at hv with hpos hroom <;> cases hv
  · exact ⟨h.ino,href,h.lock,fun k hk => ⟨mem_cons_of_mem j (h.locked k hk).1,(h.locked k hk).2⟩⟩
  · -- the entry is new in the cache, so its inode is not locked here
    have h0 : u.ref j = 0 := by omega
    rw [h0] at href
    refine ⟨fun k => (h.ino k).imp_right fun hf => ⟨hf.1,?_,hf.2.2⟩,href,h.lock,fun k hk => ?_⟩
    · change update u.valid j false k = false
      by_cases hkj : k = j
      · rw [hkj,update_self]
      · rw [update_of_ne hkj,hf.2.1]
    · have hkj : k ≠ j := by
        rintro rfl
        exact hpos (h.ref_pos (h.locked k hk).1)
      refine ⟨mem_cons_of_mem j (h.locked k hk).1,(h.locked k hk).2.1,?_⟩
      change update u.valid j false k = true
      rw [update_of_ne hkj,(h.locked k hk).2.2]

lemma acquire (h : Walks p s L [] u) (hi : i ∈ L) (hl : s.lock i = none) (hv : u.valid i = true ∨ (u.ino i).type ≠ .free) :
    Walks p s L [i] ((u.setLock i (some p)).setValid i true) where
  ino j := by
    refine (h.ino j).imp_right fun hf => ⟨hf.1,?_,hf.2.2⟩
    have hji : j ≠ i := by
      rintro rfl
      rcases hv with hv | hv
      · rw [hv] at hf
        cases hf.2.1
      · exact hv hf.1
    change update u.valid i true j = false
    rw [update_of_ne hji,hf.2.1]
  ref := h.ref
  lock j := by
    change update u.lock i (some p) j = _
    by_cases hji : j = i
    · rw [hji,update_self,if_pos mem_cons_self]
    · rw [update_of_ne hji,h.lock j,if_neg not_mem_nil,if_neg (by simpa using hji)]
  locked j hj := by
    obtain rfl := mem_singleton.mp hj
    exact ⟨hi,hl,update_self ..⟩

lemma release (h : Walks p s L [i] u) : Walks p s L [] (u.setLock i none) where
  ino := h.ino
  ref := h.ref
  lock j := by
    change update u.lock i none j = _
    rw [if_neg not_mem_nil]
    by_cases hji : j = i
    · rw [hji,update_self,(h.locked i mem_cons_self).2.1]
    · rw [update_of_ne hji,h.lock j,if_neg (by simpa using hji)]
  locked := nofun

lemma put (h : Walks p s (i :: L) [] u) (hl : v.lock = u.lock) (hr : v.ref = update u.ref i (u.ref i-1))
    (hn : v.ino = u.ino ∧ v.valid = u.valid ∨ u.unused i = true ∧ v.ino = update u.ino i ⟨.free,0,[]⟩ ∧
      v.valid = update u.valid i false) : Walks p s L [] v where
  ino j := by
    rcases hn with ⟨hi,hv⟩ | ⟨hu,hi,hv⟩ <;> rw [hi,hv]
    · exact h.ino j
    · by_cases hji : j = i
      · subst hji
        obtain ⟨hval,hlink,href⟩ := of_decide_eq_true hu
        rw [update_self,update_self]
        refine .inr ⟨rfl,rfl,fun hs => ?_⟩
        have href' := h.ref j
        rw [h.ino_valid hval] at hlink
        rw [count_cons_self] at href'
        rcases hs.2 with hs | hs
        · exact hs hlink
        · omega
      · rw [update_of_ne hji,update_of_ne hji]
        exact h.ino j
  ref j := by
    have href := h.ref j
    rw [count_cons] at href
    rw [hr]
    by_cases hji : j = i
    · subst hji
      rw [if_pos (beq_self_eq_true j)] at href
      rw [update_self]
      omega
    · rw [if_neg (by simpa using Ne.symm hji)] at href
      rw [update_of_ne hji]
      exact href
  lock j := by rw [hl,h.lock j]
  locked := nofun

end Walks

variable [DecidableEq P]

/-- The contract of a walk from state `s`. -/
abbrev walking (p : P) (s : State P) : Contract fs (State P) Err := .alone (handle p) (Stops p s)

section
variable {α : Type} {Q : α → State P → Prop}

variable {f : Unit → Code α}

lemma walks_acquiresleep (h : Walks p s L [] u)
    (hf : s.lock i = none → (f ()).wp (walking p s) Q (u.setLock i (some p))) :
    (op (S := fs) (.acquiresleep i) >>= f).wp (walking p s) Q u := by
  have hlock : u.lock i = s.lock i := h.lock i
  refine alone_call (fun e he => ?_) (fun _ t ht => ?_)
  · simp only [handle] at he
    split_ifs at he with hl
    cases he
    exact .inl ⟨rfl,i,fun h0 => hl (hlock.trans h0)⟩
  · simp only [handle] at ht
    split_ifs at ht with hl
    cases ht
    exact hf (hlock.symm.trans hl)

lemma walks_load (h : Walks p s L [] u) (hi : i ∈ L) (hl : s.lock i = none) (hs : Intact p s → Stays s i)
    (hf : ∀ v, Walks p s L [i] v → (f ()).wp (walking p s) Q v) :
    (op (S := fs) (.load i) >>= f).wp (walking p s) Q (u.setLock i (some p)) := by
  refine alone_call (fun e he => ?_) (fun _ t ht => ?_)
  · simp only [handle,load] at he
    split_ifs at he with hv hfree <;> cases he
    refine .inr (.inr ⟨rfl,fun hI => (hs hI).1 ?_⟩)
    rw [← h.ino_stays (hs hI)]
    exact hfree
  · simp only [handle,load] at ht
    split_ifs at ht with hv hfree <;> cases ht
    · have hsame : update u.valid i true = u.valid := update_eq_self_iff.mpr hv.symm
      have hw := h.acquire hi hl (.inl hv)
      rw [setValid,show (u.setLock i (some p)).valid = u.valid from rfl,hsame] at hw
      exact hf _ hw
    · exact hf _ (h.acquire hi hl (.inr hfree))

lemma walks_iget (h : Walks p s L K u) (hroom : inUse u ≤ inUse s+1)
    (hf : ∀ v, Walks p s (j :: L) K v → (f ()).wp (walking p s) Q v) :
    (op (S := fs) (.iget j) >>= f).wp (walking p s) Q u := by
  refine alone_call (fun e he => ?_) (fun _ t ht => ?_)
  · simp only [handle,State.iget] at he
    split_ifs at he with h1 h2 <;> cases he
    refine .inr (.inl ⟨rfl,?_⟩)
    unfold inUse at *
    omega
  · obtain ⟨w,hw,heq⟩ := map_ok ht
    cases heq
    exact hf _ (h.iget hw)

end

section
variable {Q : Unit → State P → Prop}

lemma walks_ilock (h : Walks p s L [] u) (hi : i ∈ L) (hs : Intact p s → Stays s i) (hQ : ∀ v, Walks p s L [i] v → Q () v) :
    (ilock i).wp (walking p s) Q u := by
  refine alone_ok (if_neg (not_lt.mpr (h.ref_pos hi))) (walks_acquiresleep h fun hl => ?_)
  exact walks_load (f := ret) h hi hl hs fun v hv => alone_ret (hQ v hv)

lemma walks_iunlock (h : Walks p s L [i] u) (hQ : ∀ v, Walks p s L [] v → Q () v) : (iunlock i).wp (walking p s) Q u := by
  have hi := (h.locked i mem_cons_self).1
  have hlock : u.lock i = some p := by rw [h.lock i,if_pos mem_cons_self]
  refine alone_ok (if_neg (not_lt.mpr (h.ref_pos hi))) ?_
  exact alone_ok (if_pos hlock) (alone_ret (hQ _ h.release))

lemma walks_iput (h : Walks p s (i :: L) [] u) (hQ : ∀ v, Walks p s L [] v → Q () v) : (iput i).wp (walking p s) Q u := by
  refine walks_acquiresleep h fun hl => alone_ok rfl ?_
  have hback : update (update u.lock i (some p)) i none = u.lock := by
    rw [update_idem,← hl,← show u.lock i = s.lock i from h.lock i,update_eq_self]
  have hmine : update u.lock i (some p) i = some p := update_self ..
  change (iputLocked i (u.unused i)).wp (walking p s) Q _
  cases hb : u.unused i with
  | true =>
    refine alone_ok rfl (alone_ok (if_pos hmine) (alone_ok rfl (alone_ret (hQ _ ?_))))
    exact h.put hback rfl (.inr ⟨hb,rfl,rfl⟩)
  | false =>
    refine alone_ok (if_pos hmine) (alone_ok rfl (alone_ret (hQ _ ?_)))
    exact h.put hback rfl (.inl ⟨rfl,rfl⟩)

lemma walks_iunlockput (h : Walks p s (i :: L) [i] u) (hQ : ∀ v, Walks p s L [] v → Q () v) :
    (iunlockput i).wp (walking p s) Q u := wp_bind (walks_iunlock h fun _ hv => walks_iput hv hQ)

end

lemma walks_dirlookup {Q : Option (ℕ × ℕ) → State P → Prop} (h : Walks p s [i] [i] u)
    (hd : (s.ino i).type = .dir) (hno : lookup n (s.ino i).ents 0 = none → Q none u)
    (hyes : ∀ x v, lookup n (s.ino i).ents 0 = some x → Walks p s [x.1,i] [i] v → Q (some x) v) :
    (dirlookup i n).wp (walking p s) Q u := by
  have hino : u.ino i = s.ino i := h.ino_valid (h.locked i mem_cons_self).2.2
  rw [← hino] at hd hno hyes
  refine alone_ok (if_pos hd) ?_
  cases hl : lookup n (u.ino i).ents 0 with
  | none => exact alone_ret (hno hl)
  | some x => exact walks_iget h h.inUse_le fun v hv => alone_ret (hyes x v hl hv)

section
variable {ino : ℕ → Inode} {parent : Bool} {name : List UInt8}

lemma target_not_dir (hd : (ino i).type ≠ .dir) : target ino parent i n (name :: ns) = none := by
  cases parent with
  | false => rw [target,if_neg nofun,resolve,if_neg hd,map_none]
  | true =>
    cases ns with
    | nil => rw [target,if_pos rfl,resolveParent_one,if_neg hd]
    | cons m ns => rw [target,if_pos rfl,resolveParent_cons,if_neg hd]

lemma target_no_entry (hl : lookup name (ino i).ents 0 = none) (hp : ¬(parent = true ∧ ns = [])) :
    target ino parent i n (name :: ns) = none := by
  cases parent with
  | false => simp [target,resolve,hl]
  | true =>
    cases ns with
    | nil => exact absurd ⟨rfl,rfl⟩ hp
    | cons m ns => simp [target,resolveParent_cons,hl]

lemma target_entry {x : ℕ × ℕ} (hd : (ino i).type = .dir) (hl : lookup name (ino i).ents 0 = some x)
    (hp : ¬(parent = true ∧ ns = [])) : target ino parent i n (name :: ns) = target ino parent x.1 name ns := by
  cases parent with
  | false =>
    rw [target,target,if_neg nofun,if_neg nofun,resolve,if_pos hd,hl,bind_some,getLastD_cons]
  | true =>
    cases ns with
    | nil => exact absurd ⟨rfl,rfl⟩ hp
    | cons m ns => rw [target,target,if_pos rfl,if_pos rfl,resolveParent_cons,if_pos hd,hl,bind_some]

end

/-- The walk returns what the names lead to, or it stops. -/
lemma walk_wp (parent : Bool) (ns : List (List UInt8)) (n : List UInt8) (h : Walks p s [i] [] u)
    (hs : Intact p s → Stays s i) :
    (walk parent ns i n).wp (walking p s) (fun r _ => r = target s.ino parent i n ns) u := by
  induction ns generalizing i n u with
  | nil =>
    unfold walk
    cases parent with
    | true => exact wp_bind (walks_iput h fun _ _ => alone_ret rfl)
    | false => exact alone_ret rfl
  | cons name ns ih =>
    refine wp_bind (walks_ilock h mem_cons_self hs fun v hv => alone_ok rfl ?_)
    have hino : v.ino i = s.ino i := hv.ino_valid (hv.locked i mem_cons_self).2.2
    have hfail : ∀ {w}, Walks p s [i] [i] w → target s.ino parent i n (name :: ns) = none →
        (do iunlockput i; pure none : Code (Option (ℕ × List UInt8))).wp (walking p s)
          (fun r _ => r = target s.ino parent i n (name :: ns)) w := fun hw ht =>
      wp_bind (walks_iunlockput hw fun _ _ => alone_ret ht.symm)
    change (if (v.ino i).type ≠ .dir then _ else _ : Code _).wp _ _ v
    rw [hino]
    split_ifs with hd hp
    · exact hfail hv (target_not_dir hd)
    · rw [not_not] at hd
      refine wp_bind (walks_iunlock hv fun _ _ => alone_ret ?_)
      rw [target,if_pos hp.1,hp.2,resolveParent_one,if_pos hd]
    · rw [not_not] at hd
      refine wp_bind (walks_dirlookup hv hd (fun hl => hfail hv (target_no_entry hl hp)) fun x w hl hw => ?_)
      have hx : Intact p s → Stays s x.1 := by
        intro hI
        obtain ⟨-,e,he,hex,h0,-⟩ := lookup_some hl
        rw [← hex]
        exact hI.entry i hd e (mem_of_getElem? he) (by rwa [hex])
      rw [target_entry hd hl hp]
      exact wp_bind (walks_iunlockput (hw.perm (.swap i x.1 [])) fun t ht => ih name ht hx)

/-- Where a path starts. -/
def startIno (p : P) (s : State P) (path : List UInt8) : ℕ := if path.head? = some slash then rootIno else (s.proc p).cwd

lemma namex_wp (p : P) (s : State P) (parent : Bool) (path : List UInt8) :
    (namex parent path).wp (walking p s) (fun r _ => r = target s.ino parent (startIno p s path) [] (pathNames path)) s := by
  refine wp_bind ?_
  simp only [namexLoop_eq_walk (lt_succ_self _)]
  unfold namexStart startIno
  split_ifs
  · exact walks_iget .start (le_succ _) fun v hv => alone_ret (walk_wp parent _ [] hv Intact.root)
  · refine alone_ok rfl (walks_iget .start (le_succ _) fun v hv => alone_ret ?_)
    exact walk_wp parent _ [] hv Intact.cwd

/-- A call of `p` in state `s` returns what `Q` says, or it stops. -/
def Ends {α : Type} (p : P) (s : State P) (x : Code α) (Q : α → Prop) : Prop :=
  (∃ r t, x.run (handle p) s = .ok (r,t) ∧ Q r) ∨ ∃ e, x.run (handle p) s = .error e ∧ Stops p s e

lemma namex_ends (p : P) (s : State P) (parent : Bool) (path : List UInt8) {Q : Option (ℕ × List UInt8) → Prop}
    (hQ : Q (target s.ino parent (startIno p s path) [] (pathNames path))) : Ends p s (namex parent path) Q :=
  run_of_wp (wp_mono (namex_wp p s parent path) fun _ _ hr => hr ▸ hQ)

/-- If nothing that an entry names is free, no sleep-lock is taken and the inode cache has room, `namex` returns. -/
theorem namex_returns (hI : Intact p s) (hlock : ∀ i, s.lock i = none) (hroom : inUse s+2 ≤ ninode) (parent : Bool)
    (path : List UInt8) :
    ∃ t, (namex parent path).run (handle p) s = .ok (target s.ino parent (startIno p s path) [] (pathNames path),t) := by
  rcases namex_ends p s parent path (Q := (· = _)) rfl with ⟨r,t,hr,rfl⟩ | ⟨e,-,hstop⟩
  · exact ⟨t,hr⟩
  · rcases hstop with ⟨-,i,hi⟩ | ⟨-,hfull⟩ | ⟨-,hno⟩
    · exact absurd (hlock i) hi
    · omega
    · exact absurd hI hno

/-- The root has the entry `a` for a directory, which has `..` for the root. -/
def twoDirs : State Unit where
  ino i :=
    if i = 1 then ⟨.dir,2,[⟨1,dot⟩,⟨1,dotdot⟩,⟨2,[97]⟩]⟩
    else if i = 2 then ⟨.dir,1,[⟨2,dot⟩,⟨1,dotdot⟩]⟩ else ⟨.free,0,[]⟩
  ref i := if i = 1 then 1 else 0
  valid _ := false
  lock _ := none
  file _ := ⟨0,none⟩
  proc _ := ⟨true,1,fun _ => none⟩

lemma twoDirs_intact : Intact () twoDirs := by
  have hstays : ∀ i, i = 1 ∨ i = 2 → Stays twoDirs i := by
    rintro i (rfl | rfl) <;> exact ⟨by decide,.inl (by decide)⟩
  refine ⟨hstays 1 (.inl rfl),hstays 1 (.inl rfl),fun d _ e he _ => hstays _ ?_⟩
  by_cases h1 : d = 1
  · subst h1
    exact (by decide : ∀ e ∈ (twoDirs.ino 1).ents, e.inum = 1 ∨ e.inum = 2) e he
  by_cases h2 : d = 2
  · subst h2
    exact (by decide : ∀ e ∈ (twoDirs.ino 2).ents, e.inum = 1 ∨ e.inum = 2) e he
  · simp [twoDirs,h1,h2] at he

/-- The path `/a/../a` leads through the entry of `a`, back, and to `a` again. -/
theorem namex_returns_through_entry : ∃ t : State Unit,
    (namex false [slash,97,slash,46,46,slash,97]).run (handle ()) twoDirs = .ok (some (2,[97]),t) :=
  namex_returns twoDirs_intact (fun _ => rfl) (by decide +kernel) false [slash,97,slash,46,46,slash,97]

/-- Calls of `skipelem` go through the components of a path; `namei` and `nameiparent` do the same for paths with the same
components; `nameiparent` returns the directory that the components before the last one lead to, if there is one, and
`namei` then returns what this directory has for the last one. -/
theorem lookup_by_components : (∀ path name, 0 ∉ path → walkNames (path.length+1) path name = some (pathNames path)) ∧
    (∀ path path', (path.head? = some slash ↔ path'.head? = some slash) → pathNames path = pathNames path' →
      namei path = namei path' ∧ nameiparent path = nameiparent path') ∧
    ∀ {P : Type} [DecidableEq P] (p : P) (s : State P) (path : List UInt8),
      Ends p s (namei path) (fun r => r.map Prod.fst = resolve s.ino (startIno p s path) (pathNames path)) ∧
      Ends p s (nameiparent path) fun r => (r = none ↔ pathNames path = [] ∨
          ¬∃ d, resolve s.ino (startIno p s path) (pathNames path).dropLast = some d ∧ (s.ino d).type = .dir) ∧
        ∀ d n, r = some (d,n) → (pathNames path).getLast? = some n ∧
          resolve s.ino (startIno p s path) (pathNames path).dropLast = some d ∧ (s.ino d).type = .dir ∧
          Ends p s (namei path) fun r' => r' = (lookup n (s.ino d).ents 0).map fun x => (x.1,n) := by
  refine ⟨fun path name h0 => walkNames_eq h0 (Nat.lt_succ_self _) name,fun path path' hslash hns => ?_,?_⟩
  · exact ⟨namex_congr hslash hns false,namex_congr hslash hns true⟩
  · intro P _ p s path
    refine ⟨namex_ends p s false path ?_,namex_ends p s true path ⟨resolveParent_eq_none,fun d n hr => ?_⟩⟩
    · rw [target,if_neg nofun,Option.map_map]
      exact Option.map_id'
    · obtain ⟨hlast,hdir,hd⟩ := resolveParent_eq_some.mp hr
      refine ⟨hlast,hdir,hd,namex_ends p s false path ?_⟩
      rw [target,if_neg nofun,resolve_of_parent s.ino hr,Option.map_map,getLastD_eq_getLast?,hlast]
      rfl

end Xv6Threads.Fs
