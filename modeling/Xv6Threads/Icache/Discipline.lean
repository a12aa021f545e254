import Xv6Threads.Icache.Local

/-! Every system call keeps to the rules, and ends without locks and with its current directory as its only reference. -/
namespace Xv6Threads.Icache
open Function List Prog

/-- Nothing is locked. -/
def free : Slot → Option Held := fun _ => none

variable {l : Local} {k d : Slot} {x y : Inode} {o : List Slot} {f : Option Slot} {held : Slot → Option Held}

@[simp] lemma free_back (v : Option Held) : update (update free k v) k none = free := by
  rw [update_idem]
  exact update_eq_self k free

/-- Entry `k` is locked, and no other one. -/
abbrev sole (k : Slot) (x : Inode) : Slot → Option Held := update free k (some (.known x x))

lemma sole_self : sole k x k = some (.known x x) := update_self ..

variable {Q : Unit → Local → Prop}

lemma at_unlock (hA : At l o f (sole k x)) (hx : Good x) (h : ∀ l', At l' o f free → Q () l') :
    (iunlock k).meets rules Q l := at_iunlock hA sole_self hx fun l' hA => h l' (by rwa [free_back] at hA)

lemma at_leave (hA : At l (k :: o) f (sole k x)) (hx : Good x)
    (h : ∀ l', At l' o f free → Q () l') : (iunlockput k).meets rules Q l :=
  at_iunlockput hA sole_self hx fun l' hA => h l' (by rwa [free_back] at hA)

/-- Two entries that are locked. -/
def both (d k : Slot) (a b : Held) : Slot → Option Held := update (update free d (some a)) k (some b)

section
variable {a a' b b' : Held}

lemma both_left (h : k ≠ d) : both d k a b d = some a := by simp [both,h.symm]

lemma both_right : both d k a b k = some b := update_self ..

lemma both_set_left (h : k ≠ d) : update (both d k a b) d (some a') = both d k a' b := by
  unfold both
  rw [update_comm h,update_idem]

lemma both_set_right : update (both d k a b) k (some b') = both d k a b' := update_idem ..

lemma both_drop_left (h : k ≠ d) : update (both d k a b) d none = update free k (some b) := by
  unfold both
  rw [update_comm h,free_back]

lemma both_drop_right (h : k ≠ d) : update (both d k a b) k none = update free d (some a) := by
  unfold both
  rw [update_idem,update_comm h.symm]
  exact congrArg (update · d (some a)) (update_eq_self k free)

end

section
variable {parent : Bool} {Q : Option Slot → Local → Prop}

lemma at_namexLoop {n : ℕ} (hA : At l (k :: o) f free) (h1 : ∀ l', At l' o f free → Q none l')
    (h2 : ∀ d l', At l' (d :: o) f free → Q (some d) l') : (namexLoop parent n k).meets rules Q l := by
  induction n generalizing k l with
  | zero =>
    unfold namexLoop
    split_ifs
    · exact meets_bind (at_iput hA h1)
    · exact h2 k l hA
  | succ n ih =>
    refine meets_bind (at_ilock hA (.inl mem_cons_self) fun x l' hx _ hA => ?_)
    refine at_fields hA sole_self ?_
    split_ifs
    · exact meets_bind (at_leave hA hx h1)
    · exact meets_bind (at_unlock hA hx (h2 k))
    · refine meets_bind (at_dirlookup hA sole_self hx (.inl mem_cons_self) ?_ fun j off l' hA => ?_)
      · exact meets_bind (at_leave hA hx h1)
      · refine meets_bind (at_leave (hA.perm (.swap ..)) hx fun l' hA => ?_)
        exact ih hA

lemma at_namex {cwd : Slot} {path : Path} (hA : At l o f free) (hc : cwd ∈ o) (h1 : ∀ l', At l' o f free → Q none l')
    (h2 : ∀ d l', At l' (d :: o) f free → Q (some d) l') : (namex parent cwd path).meets rules Q l := by
  unfold namex
  split_ifs
  · exact meets_iget fun r => at_namexLoop hA.cons h1 h2
  · refine meets_op (hA.own.mem_iff.mpr hc) fun _ l' hl => ?_
    obtain rfl : l' = _ := hl
    exact at_namexLoop hA.cons h1 h2

end

section
variable {Q : Unit → Local → Prop} {cwd : Slot}

lemma at_setLink {α : Type} {Q : α → Local → Prop} {g : Unit → Code α} {n : Int16} (hA : At l o f held)
    (hk : held k = some (.known x x)) (hx : Good x) (h : ∀ x' l', Good x' →
      At l' o f (update held k (some (.known x' x'))) → (g ()).meets rules Q l') :
    (write k (.nlink n) >>= fun _ => iupdate k >>= g).meets rules Q l :=
  at_change hA hk hx.1 hx.2 fun l' hA => h { x with nlink := n } l' ⟨hx.1,hx.2⟩ hA

lemma at_linkBad (hA : At l (k :: o) f free) (h : ∀ l', At l' o f free → Q () l') : (linkBad k).meets rules Q l := by
  refine meets_bind (at_ilock hA (.inl mem_cons_self) fun x l' hx _ hA => at_fields hA sole_self ?_)
  refine at_setLink hA sole_self hx fun x' l' hx' hA => ?_
  rw [update_idem] at hA
  exact at_leave hA hx' h

lemma at_sysLink {old new : Path} (hA : At l o f free) (hc : cwd ∈ o) (h : ∀ l', At l' o f free → Q () l') :
    (sysLink cwd old new).meets rules Q l := by
  refine meets_bind (at_namex hA hc h fun k l' hA => ?_)
  refine meets_bind (at_ilock hA (.inl mem_cons_self) fun x l' hx _ hA => at_fields hA sole_self ?_)
  split_ifs
  · exact at_leave hA hx h
  · refine at_setLink hA sole_self hx fun x' l' hx' hA => ?_
    rw [update_idem] at hA
    refine meets_bind (at_unlock hA hx' fun l' hA => ?_)
    refine meets_bind (at_namex hA (mem_cons_of_mem k hc) (fun l' hA => at_linkBad hA h) fun d l' hA => ?_)
    refine meets_bind (at_ilock hA (.inl mem_cons_self) fun y l' hy _ hA => ?_)
    refine meets_bind (at_dirlink hA sole_self hy (.inl mem_cons_self) fun b y' l' hy' hA => ?_)
    rw [update_idem] at hA
    refine meets_bind (at_leave hA hy' fun l' hA => ?_)
    split_ifs
    · exact at_iput hA h
    · exact at_linkBad hA h

lemma at_unlinkName (hA : At l (k :: o) f (sole k y)) (hy : Good y) (h : ∀ l', At l' o f free → Q () l') :
    (do let x ← fields k; write k (.nlink (x.nlink-1)); iupdate k; iunlockput k : Code Unit).meets rules Q l := by
  refine at_fields hA sole_self (at_setLink hA sole_self hy fun y' l' hy' hA => ?_)
  rw [update_idem] at hA
  exact at_leave hA hy' h

lemma at_unlinkEntry {off : ℕ} {isDir : Bool} (hA : At l (d :: k :: o) f (both d k (.known x x) (.known y y))) (hkd : k ≠ d)
    (hx : Good x) (hy : Good y) (h : ∀ l', At l' o f free → Q () l') : (unlinkEntry d off k isDir).meets rules Q l := by
  have hrest : ∀ {x l}, Good x → At l (d :: k :: o) f (both d k (.known x x) (.known y y)) →
      (do iunlockput d; let x ← fields k; write k (.nlink (x.nlink-1)); iupdate k; iunlockput k : Code Unit).meets
        rules Q l := fun hx hA => meets_bind (at_iunlockput hA (both_left hkd) hx fun l' hA => by
      rw [both_drop_left hkd] at hA
      exact at_unlinkName hA hy h)
  refine meets_bind (at_writei hA (both_left hkd) hx (.inl mem_cons_self) fun b x' l' hx' hA => ?_)
  rw [both_set_left hkd] at hA
  refine meets_require fun _ => meets_bind ?_
  unfold unlinkDotdot
  split_ifs
  · refine at_fields hA (both_left hkd) (meets_write (by rw [hA.held,both_left hkd]) ?_)
    refine meets_last ⟨_,_,Local.set_held _,hx'.1,hx'.2⟩ fun _ l' hl => ?_
    obtain ⟨x1,y1,h1,rfl⟩ := hl
    rw [Local.set_held] at h1
    cases h1
    rw [Local.set_set]
    exact hrest (x := { x' with nlink := x'.nlink-1 }) ⟨hx'.1,hx'.2⟩ (both_set_left hkd ▸ hA.set)
  · exact hrest hx' hA

lemma ne_of_locked {v : Held} (h : update free d (some v) k = none) : k ≠ d := by
  rintro rfl
  rw [update_self] at h
  cases h

variable {path : Path}

lemma at_sysUnlink (hA : At l o f free) (hc : cwd ∈ o) (h : ∀ l', At l' o f free → Q () l') :
    (sysUnlink cwd path).meets rules Q l := by
  refine meets_bind (at_namex hA hc h fun d l' hA => ?_)
  refine meets_bind (at_ilock hA (.inl mem_cons_self) fun x l' hx _ hA => meets_choose fun c => ?_)
  split_ifs
  · exact at_leave hA hx h
  · refine meets_bind (at_dirlookup hA sole_self hx (.inl mem_cons_self) ?_ fun k off l' hA => ?_)
    · exact at_leave hA hx h
    · refine meets_bind (at_ilock hA (.inl mem_cons_self) fun y l' hy hfree hA => ?_)
      have hkd := ne_of_locked hfree
      have hA : At l' (k :: d :: o) f (both d k (.known x x) (.known y y)) := hA
      have hentry : ∀ {b}, (unlinkEntry d off k b).meets rules Q l' := at_unlinkEntry (hA.perm (.swap ..)) hkd hx hy h
      refine at_fields hA both_right ?_
      refine meets_require fun _ => ?_
      split_ifs with hdir
      · refine meets_bind (at_fields hA both_right (meets_bind (meets_scan (by rw [hA.held,both_right]) hy
          (hA.mem (.inl mem_cons_self)) hdir fun e => ?_)))
        change meets rules (if e.isNone = true then _ else _ : Code Unit) Q l'
        split_ifs
        · exact hentry
        · refine meets_bind (at_iunlockput hA both_right hy fun l' hA => ?_)
          rw [both_drop_right hkd] at hA
          exact at_leave hA hx h
      · exact hentry

lemma at_iallocLoop {type : ℕ} {is : List ℕ} {Q : Option Slot → Local → Prop} (ht : type ≠ 0) (hA : At l o f held)
    (h : ∀ k l', At l' (k :: o) f held → Q (some k) l') : (iallocLoop type is).meets rules Q l := by
  induction is with
  | nil => exact meets_stop
  | cons i is ih =>
    refine meets_claim ht fun b => ?_
    split_ifs
    · exact meets_iget fun r => h r _ hA.cons
    · exact ih

lemma at_createDots {type : ℕ} (hA : At l (k :: d :: o) f (both d k (.known x x) (.known y y))) (hkd : k ≠ d)
    (hx : Good x) (hy : Good y) (h : ∀ x y l', Good x → Good y →
      At l' (k :: d :: o) f (both d k (.known x x) (.known y y)) → Q () l') : (createDots d k type).meets rules Q l := by
  unfold createDots
  split_ifs
  · refine at_fields hA (both_left hkd) (at_setLink hA (both_left hkd) hx fun x' l' hx' hA => ?_)
    rw [both_set_left hkd] at hA
    refine meets_bind (at_dirlink hA both_right hy (.inl mem_cons_self) fun b y' l' hy' hA => meets_require fun _ => ?_)
    rw [both_set_right] at hA
    refine meets_bind (at_dirlink hA both_right hy' (.inl mem_cons_self) fun b y' l' hy' hA => ?_)
    rw [both_set_right] at hA
    unfold require
    split_ifs
    · exact h x' y' l' hx' hy' hA
    · exact meets_last trivial fun _ _ h => h.elim
  · exact h x y l hx hy hA

/-- What `create` returns: nothing, or an inode that is locked. -/
def Created (o : List Slot) (f : Option Slot) (r : Option Slot) (l : Local) : Prop :=
  match r with
  | none => At l o f free
  | some k => ∃ x, Good x ∧ At l (k :: o) f (sole k x)

variable {type major minor : ℕ}

lemma at_createNew (ht : type ≠ 0) (hA : At l (d :: o) f (sole d x))
    (hx : Good x) : (createNew d type major minor).meets rules (Created o f) l := by
  refine meets_bind (at_iallocLoop ht hA fun k l' hA => ?_)
  refine meets_bind (at_ilock hA (.inl mem_cons_self) fun y l' hy hfree hA => ?_)
  have hkd := ne_of_locked hfree
  have hA : At l' (k :: d :: o) f (both d k (.known x x) (.known y y)) := hA
  refine meets_write (by rw [hA.held,both_right]) ?_
  refine at_change hA.set (update_self ..) hy.1 hy.2 fun l' hA => ?_
  unfold both at hA
  rw [update_idem,update_idem] at hA
  have hy' : Good ((Edit.nlink 1).apply ((Edit.dev major minor).apply y)) := ⟨hy.1,hy.2⟩
  refine meets_bind (at_createDots hA hkd hx hy' fun x y l' hx hy hA => ?_)
  have hA := hA.perm (.swap ..)
  refine meets_bind (at_dirlink hA (both_left hkd) hx (.inl mem_cons_self) fun b x' l' hx' hA =>
    meets_require fun _ => ?_)
  rw [both_set_left hkd] at hA
  refine meets_bind (at_iunlockput hA (both_left hkd) hx' fun l' hA => ?_)
  rw [both_drop_left hkd] at hA
  exact ⟨y,hy,hA⟩

lemma at_create (ht : type ≠ 0) (hA : At l o f free) (hc : cwd ∈ o) :
    (create cwd path type major minor).meets rules (Created o f) l := by
  refine meets_bind (at_namex hA hc (fun l' hA => hA) fun d l' hA => ?_)
  refine meets_bind (at_ilock hA (.inl mem_cons_self) fun x l' hx _ hA => ?_)
  refine meets_bind (at_dirlookup hA sole_self hx (.inl mem_cons_self) (at_createNew ht hA hx) fun k off l' hA => ?_)
  refine meets_bind (at_leave (hA.perm (.swap ..)) hx fun l' hA => ?_)
  refine meets_bind (at_ilock hA (.inl mem_cons_self) fun y l' hy _ hA => at_fields hA sole_self ?_)
  split_ifs
  · exact ⟨y,hy,hA⟩
  · refine meets_bind (at_leave hA hy fun l' hA => ?_)
    exact hA

lemma at_openInode (hA : At l (k :: o) f (sole k x)) (hx : Good x)
    (h : ∀ l', At l' o f free → Q () l') : (openInode k).meets rules Q l := by
  refine meets_choose fun c => ?_
  split_ifs
  · exact at_leave hA hx h
  · refine meets_bind (at_iunlock hA sole_self hx fun l' hA => meets_choose fun c => ?_)
    rw [free_back] at hA
    refine meets_last ⟨hA.own.mem_iff.mpr mem_cons_self,by rw [hA.held]; rfl⟩ fun _ l'' hl => ?_
    obtain rfl : l'' = _ := hl
    exact h _ hA.erase

lemma at_sysOpen {creating rdonly : Bool} (hA : At l o f free) (hc : cwd ∈ o)
    (h : ∀ l', At l' o f free → Q () l') : (sysOpen cwd path creating rdonly).meets rules Q l := by
  unfold sysOpen
  split_ifs
  · refine meets_bind (meets_mono (at_create (by decide) hA hc) fun r l' hr => ?_)
    cases r with
    | none => exact h l' hr
    | some k =>
      obtain ⟨x,hx,hA⟩ := hr
      exact at_openInode hA hx h
  · refine meets_bind (at_namex hA hc h fun k l' hA => ?_)
    refine meets_bind (at_ilock hA (.inl mem_cons_self) fun x l' hx _ hA => at_fields hA sole_self ?_)
    split_ifs
    · exact at_leave hA hx h
    · exact at_openInode hA hx h

lemma at_sysMake (ht : type ≠ 0) (hA : At l o f free) (hc : cwd ∈ o)
    (h : ∀ l', At l' o f free → Q () l') : (sysMake cwd path type major minor).meets rules Q l := by
  refine meets_bind (meets_mono (at_create ht hA hc) fun r l' hr => ?_)
  cases r with
  | none => exact h l' hr
  | some k =>
    obtain ⟨x,hx,hA⟩ := hr
    exact at_leave hA hx h

lemma at_sysChdir {Q : Slot → Local → Prop} (hA : At l (cwd :: o) f free)
    (h : ∀ k l', At l' (k :: o) f free → Q k l') : (sysChdir cwd path).meets rules Q l := by
  refine meets_bind (at_namex hA mem_cons_self (h cwd) fun k l' hA => ?_)
  refine meets_bind (at_ilock hA (.inl mem_cons_self) fun x l' hx _ hA => at_fields hA sole_self ?_)
  split_ifs
  · refine meets_bind (at_leave hA hx fun l' hA => ?_)
    exact h cwd l' hA
  · refine meets_bind (at_unlock hA hx fun l' hA => ?_)
    exact meets_bind (at_iput (hA.perm (.swap ..)) fun l' hA => h k l' hA)

lemma at_readi {off n : ℕ} (hA : At l o f held) (hk : held k = some (.known x x)) (hx : Good x) (ho : k ∈ o ∨ f = some k)
    (h : ∀ x' l', Good x' → At l' o f (update held k (some (.known x' x'))) → Q () l') :
    (readi k off n).meets rules Q l := meets_readi (by rw [hA.held,hk]) hx (hA.mem ho) fun x' hx' _ => h x' _ hx' hA.set

variable {reads : List (ℕ × ℕ)}

lemma at_readAll (hA : At l o f (sole k x)) (hx : Good x) (ho : k ∈ o ∨ f = some k)
    (h : ∀ x l', Good x → At l' o f (sole k x) → Q () l') : (readAll k reads).meets rules Q l := by
  induction reads generalizing l x with
  | nil => exact h x l hx hA
  | cons a reads ih =>
    refine meets_bind (at_readi hA sole_self hx ho fun x' l' hx' hA => ?_)
    rw [update_idem] at hA
    exact ih hA hx'

lemma at_sysExec (hA : At l o f free) (hc : cwd ∈ o)
    (h : ∀ l', At l' o f free → Q () l') : (sysExec cwd path reads).meets rules Q l := by
  refine meets_bind (at_namex hA hc h fun k l' hA => ?_)
  refine meets_bind (at_ilock hA (.inl mem_cons_self) fun x l' hx _ hA => ?_)
  refine meets_bind (at_readAll hA hx (.inl mem_cons_self) fun x' l' hx' hA => ?_)
  exact at_leave hA hx' h

lemma at_transfer {t : Transfer} (hA : At l o (some k) free) (h : ∀ l', At l' o (some k) free → Q () l') :
    (t.code k).meets rules Q l := by
  refine meets_bind (at_ilock hA (.inr rfl) fun x l' hx _ hA => ?_)
  have hend : ∀ {x l}, Good x → At l o (some k) (sole k x) → (iunlock k).meets rules Q l := fun hx hA =>
    at_unlock hA hx h
  cases t with
  | read off n =>
    refine meets_bind (at_readi hA sole_self hx (.inr rfl) fun x' l' hx' hA => ?_)
    rw [update_idem] at hA
    exact hend hx' hA
  | write off n =>
    refine meets_bind (meets_bind (at_writei hA sole_self hx (.inr rfl) fun b x' l' hx' hA => ?_))
    rw [update_idem] at hA
    exact hend hx' hA
  | stat => exact meets_bind (at_fields hA sole_self (hend hx hA))

lemma at_transfers {ts : List Transfer} (hA : At l o (some k) free) (h : ∀ l', At l' o (some k) free → Q () l') :
    (transfers k ts).meets rules Q l := by
  induction ts generalizing l with
  | nil => exact h l hA
  | cons t ts ih => exact meets_bind (at_transfer hA fun l' hA => ih hA)

section
variable {i : FileId} {is : List FileId} {ts : List Transfer} (hA : At l o none free) (h : ∀ l', At l' o none free → Q () l')
include hA h

lemma at_sysTransfer : (sysTransfer i ts).meets rules Q l := by
  refine meets_op hA.file fun r l' hl => ?_
  rcases hl with ⟨rfl,rfl⟩ | ⟨k,rfl,rfl⟩
  · exact h l' hA
  · have hA' : At { l with file := some k } o (some k) free := ⟨hA.own,rfl,hA.held⟩
    refine meets_bind (at_transfers hA' fun l' hA => meets_last (fun j _ => by rw [hA.held]; rfl) fun _ l'' hl => ?_)
    obtain rfl : l'' = _ := hl
    exact h _ ⟨hA.own,rfl,hA.held⟩

lemma at_sysClose : (sysClose i).meets rules Q l := by
  refine meets_op hA.file fun r l' hl => ?_
  rcases hl with ⟨rfl,rfl⟩ | ⟨k,rfl,rfl⟩
  · exact h l' hA
  · exact at_iput hA.cons h

lemma at_closeAll : (closeAll is).meets rules Q l := by
  induction is generalizing l with
  | nil => exact h l hA
  | cons i is ih => exact meets_bind (at_sysClose hA fun l' hA => ih hA)

end

/-- Every call keeps to the rules. -/
lemma call_meets (c : Call) (hA : At l [cwd] none free) :
    (c.code cwd).meets rules (fun r l' => At l' r.toList none free) l := by
  have hc : cwd ∈ [cwd] := mem_cons_self
  cases c with
  | link old new => exact meets_bind (at_sysLink hA hc fun l' hA => hA)
  | unlink path => exact meets_bind (at_sysUnlink hA hc fun l' hA => hA)
  | openFile path creating rdonly => exact meets_bind (at_sysOpen hA hc fun l' hA => hA)
  | mkdir path | mknod path major minor => exact meets_bind (at_sysMake (by decide) hA hc fun l' hA => hA)
  | chdir path => exact meets_bind (at_sysChdir hA fun k l' hA => hA)
  | exec path reads => exact meets_bind (at_sysExec hA hc fun l' hA => hA)
  | transfer i ts => exact meets_bind (at_sysTransfer hA fun l' hA => hA)
  | close i => exact meets_bind (at_sysClose hA fun l' hA => hA)
  | exit is => exact meets_bind (at_closeAll hA fun l' hA => meets_bind (at_iput hA fun l' hA => hA))

end

end Xv6Threads.Icache
