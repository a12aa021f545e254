import Xv6Threads.Blocks.Footprint
import Xv6Threads.Fs.Lookup

/-! Every system call on names, run by itself, calls `log_write` on at most `MAXOPBLOCKS` blocks between
`begin_op` and `end_op`. -/
namespace Xv6Threads.Fs
open List Option Spends Nat
open Prog (op wp_bind)
open Blocks (Edit Store Whole play filewrite)

variable {P : Type} {p : P} {s t : Traced P} {β : Type} {I : List ℕ} {m n : ℕ}

/-- The transaction fits into its reservation. -/
def Fits (s t : Traced P) : Prop := ∃ I n, I.length+2*n < 10 ∧ Spends I n s.edits t.edits

lemma Taken.fits {L K : List ℕ} (h : Taken p s L K t) : Fits s t := ⟨[],0,by decide,h.idle⟩

lemma Taken.fits_of {u : Traced P} {L K : List ℕ} (h : Taken p s L K t) (hu : Spends I n t.edits u.edits)
    (hn : I.length+2*n < 10) : Fits s u := by
  have hs : Spends I 0 s.edits t.edits := h.idle.mono (nil_subset _) le_rfl
  have hsu := hs.trans hu
  rw [zero_add] at hsu
  exact ⟨I,n,hn,hsu⟩

variable [DecidableEq P]

/-- From every state on the code edits the inodes `I` and at most `n` entries. -/
def Frugal (p : P) (I : List ℕ) (n : ℕ) (x : Code β) : Prop :=
  ∀ s : Traced P, x.wp (calm p) (fun _ t => Spends I n s.edits t.edits) s

section
variable {d i : ℕ}

lemma frugal_quiet {j : Instr} (hj : ∀ r, j.edits r = []) : Frugal p I n (op (S := fs) j) := by
  refine fun s => calm_last fun r u _ => ?_
  change Spends I n s.edits (j.edits r++s.edits)
  rw [hj r]
  exact refl _

lemma frugal_edit {j : Instr} {x : Edit} (hj : ∀ r, j.edits r = [x]) (hx : ∀ i ∈ x.inode, i ∈ I) (hn : x.isEntry = true → 0 < n) :
    Frugal p I n (op (S := fs) j) := by
  refine fun s => calm_last fun r u _ => ?_
  change Spends I n s.edits (j.edits r++s.edits)
  rw [hj r]
  exact one hx hn

lemma frugal_pure {b : β} : Frugal p I n (pure b : Code β) := fun s => calm_ret (refl s.edits)

lemma frugal_bind {α : Type} {x : Code α} {f : α → Code β} (hx : Frugal p I m x) (hf : ∀ a, Frugal p I n (f a)) :
    Frugal p I (m+n) (x >>= f) :=
  fun s => wp_bind (Prog.wp_mono (hx s) fun a t ht => Prog.wp_mono (hf a t) fun _ _ hu => ht.trans hu)

lemma frugal_then {α : Type} {x : Code α} {f : α → Code β} (hx : Frugal p I 0 x) (hf : ∀ a, Frugal p I n (f a)) :
    Frugal p I n (x >>= f) := by
  have h := frugal_bind hx hf
  rwa [zero_add] at h

lemma frugal_setLink {k : Int16} (hi : i ∈ I) : Frugal p I 0 (op (S := fs) (.setLink i k)) :=
  frugal_edit (fun _ => rfl) (fun _ hj => some.inj hj ▸ hi) nofun

lemma frugal_ilock : Frugal p I n (ilock i) :=
  frugal_then (frugal_quiet fun _ => rfl) fun _ => frugal_then (frugal_quiet fun _ => rfl) fun _ => frugal_quiet fun _ => rfl

lemma frugal_iunlock : Frugal p I n (iunlock i) := frugal_then (frugal_quiet fun _ => rfl) fun _ => frugal_quiet fun _ => rfl

lemma frugal_iput (hi : i ∈ I) : Frugal p I n (iput i) := by
  refine frugal_then (frugal_quiet fun _ => rfl) fun _ => frugal_then (frugal_quiet fun _ => rfl) fun b => ?_
  have hrest : Frugal p I n (do op (S := fs) (.releasesleep i); op (S := fs) (.drop i) : Code Unit) :=
    frugal_then (frugal_quiet fun _ => rfl) fun _ => frugal_quiet fun _ => rfl
  cases b with
  | true => exact frugal_then (frugal_edit (fun _ => rfl) (fun j hj => some.inj hj ▸ hi) nofun) fun _ => hrest
  | false => exact hrest

lemma frugal_iunlockput (hi : i ∈ I) : Frugal p I n (iunlockput i) := frugal_then frugal_iunlock fun _ => frugal_iput hi

lemma frugal_linkBad (hi : i ∈ I) : Frugal p I n (linkBad i) :=
  frugal_then frugal_ilock fun _ => frugal_then (frugal_quiet fun _ => rfl) fun _ => frugal_then (frugal_setLink hi) fun _ =>
    frugal_then (frugal_iunlockput hi) fun _ => frugal_pure

variable {name : List UInt8} {ty : IType}

lemma frugal_unlinkEntry {k : ℕ} (hd : d ∈ I) (hi : i ∈ I) : Frugal p I 1 (unlinkEntry d k name i ty) := by
  have hdots : Frugal p I 0 (unlinkDotdot d ty) := by
    unfold unlinkDotdot
    split
    · exact frugal_then (frugal_quiet fun _ => rfl) fun _ => frugal_setLink hd
    · exact frugal_pure
  refine frugal_bind (n := 0) (frugal_edit (fun _ => rfl) (fun j hj => some.inj hj ▸ hd) fun _ => one_pos) fun _ => ?_
  refine frugal_then hdots fun _ => frugal_then (frugal_iunlockput hd) fun _ => frugal_then (frugal_quiet fun _ => rfl) fun _ => ?_
  exact frugal_then (frugal_setLink hi) fun _ => frugal_then (frugal_iunlockput hi) fun _ => frugal_pure

lemma frugal_openInode (hi : i ∈ I) : Frugal p I n (openInode i) := by
  refine frugal_then (frugal_quiet fun _ => rfl) fun r => ?_
  cases r with
  | none => exact frugal_then (frugal_iunlockput hi) fun _ => frugal_pure
  | some fd => exact frugal_then frugal_iunlock fun _ => frugal_pure

lemma spend_dirlink {Q : Bool → Traced P → Prop}
    (hno : ∀ j u, Spends [j] 0 s.edits u.edits → Q false u) (hyes : ∀ u, Spends [d] 1 s.edits u.edits → Q true u) :
    (dirlink d name i).wp (calm p) Q s := by
  have hscan : ∀ {I : List ℕ} {e : List Edit}, Spends I 0 e (.scan d :: e) := fun {I e} => one nofun nofun
  refine wp_bind (calm_op fun r u _ => ?_)
  cases r with
  | none =>
    refine calm_ret (calm_op fun k v _ => calm_op fun _ w _ => calm_ret (hyes _ ?_))
    have hentry : Spends [d] 1 (.scan d :: .scan d :: s.edits) (.entry d k :: .scan d :: .scan d :: s.edits) :=
      one (fun j hj => some.inj hj ▸ mem_singleton_self d) fun _ => one_pos
    exact (hscan.trans hscan).trans hentry
  | some x =>
    refine calm_op fun _ v _ => calm_ret (wp_bind (Prog.wp_mono (frugal_iput (n := 0) (mem_singleton_self x.1) _) fun _ w hw => ?_))
    exact calm_ret (hno x.1 w (hscan.trans hw))

lemma frugal_dirlink {e : Panic} (hd : d ∈ I) :
    Frugal p I 1 (do let b ← dirlink d name i; require e b : Code Unit) := by
  refine fun s => wp_bind (spend_dirlink (fun j u _ => calm_last fun _ _ h => nomatch h) fun u hu => calm_ret ?_)
  exact hu.mono (cons_subset.mpr ⟨hd,nil_subset _⟩) le_rfl

lemma frugal_dirlink_then {e : Panic} {f : Unit → Code β} (hd : d ∈ I) (hf : Frugal p I n (f ())) :
    Frugal p I (1+n) (do let b ← dirlink d name i; require e b; f ()) := by
  refine fun s => wp_bind (spend_dirlink (fun j u _ => wp_bind (calm_last fun _ _ h => nomatch h)) fun u hu => ?_)
  have hu' : Spends I 1 s.edits u.edits := hu.mono (cons_subset.mpr ⟨hd,nil_subset _⟩) le_rfl
  exact wp_bind (calm_ret (Prog.wp_mono (hf u) fun _ _ hv => hu'.trans hv))

lemma frugal_createDots (hd : d ∈ I) (hi : i ∈ I) : Frugal p I 2 (createDots d i ty) := by
  unfold createDots
  split
  · refine frugal_then (frugal_quiet fun _ => rfl) fun _ => frugal_then (frugal_setLink hd) fun _ => ?_
    exact frugal_dirlink_then (f := fun _ => _) hi (frugal_dirlink hi)
  · exact frugal_pure

lemma spend_createNew : (createNew d name ty).wp (calm p) (fun _ t => ∃ i, Spends [d,i] 3 s.edits t.edits) s := by
  refine wp_bind (calm_op fun i u _ => calm_op fun _ v _ => calm_ret ?_)
  have halloc : Spends [d,i] 0 s.edits (.alloc i :: s.edits) := one (fun j hj => some.inj hj ▸ by simp) nofun
  have hd : d ∈ [d,i] := mem_cons_self
  have hi : i ∈ [d,i] := mem_cons_of_mem _ mem_cons_self
  have hrest : Frugal p [d,i] 3 (do
      ilock i
      op (S := fs) (.setLink i 1)
      createDots d i ty
      let b ← dirlink d name i
      require .createDirlink b
      iunlockput d
      pure i : Code ℕ) := by
    refine frugal_then frugal_ilock fun _ => frugal_then (frugal_setLink hi) fun _ => ?_
    refine frugal_bind (m := 2) (n := 1) (frugal_createDots hd hi) fun _ => ?_
    exact frugal_dirlink_then (n := 0) (f := fun _ => _) hd (frugal_then (frugal_iunlockput hd) fun _ => frugal_pure)
  exact Prog.wp_mono (hrest _) fun _ w hw => ⟨i,halloc.trans hw⟩

end

section

variable {path : List UInt8}

lemma fits_unlink (hN : Anchored p s.toState) : (sysUnlink path).wp (calm p) (fun _ => Fits s) s := by
  refine calm_unlink hN (fun u hu => hu.fits) fun d k n i ty u hu => ?_
  have hx : Frugal p [d,i] 1 (unlinkEntry d k n i ty) := frugal_unlinkEntry (by simp) (by simp)
  exact Prog.wp_mono (hx u) fun _ v hv => hu.fits_of hv (by simp)

lemma fits_chdir (hN : Anchored p s.toState) : (sysChdir path).wp (calm p) (fun _ => Fits s) s := by
  refine calm_chdir hN (fun u hu => hu.fits) fun i u hu => wp_bind (calm_iunlock hu not_mem_nil fun v hv => ?_)
  refine calm_op fun c w _ => ?_
  have hx : Frugal p [c] 0 (do iput c; op (S := fs) (.setCwd i); pure 0 : Code ℤ) :=
    frugal_then (frugal_iput (by simp)) fun _ => frugal_then (frugal_quiet fun _ => rfl) fun _ => frugal_pure
  exact Prog.wp_mono (hx _) fun _ x hx => hv.fits_of hx (by simp)

lemma fits_link {old new : List UInt8} (hN : Anchored p s.toState) : (sysLink old new).wp (calm p) (fun _ => Fits s) s := by
  refine calm_link hN (fun u hu => hu.fits) (fun i x y hL hy => ?_) fun i d n x y hL _ _ hy => ?_
  · have hx : Frugal p [i] 0 (linkBad i) := frugal_linkBad (by simp)
    refine Prog.wp_mono (hx y) fun _ z hz => ⟨[i],0,by simp,?_⟩
    exact (hL.spent.trans (hy.idle.mono (nil_subset _) le_rfl)).trans hz
  · have hstart : ∀ j, Spends [i,d,j] 0 s.edits y.edits := fun j =>
      (hL.spent.trans (hy.idle.mono (nil_subset _) le_rfl)).mono (by simp) le_rfl
    refine wp_bind (spend_dirlink (fun j u hu => ?_) fun u hu => ?_)
    · have hx : Frugal p [i,d,j] 0 (do iunlockput d; linkBad i : Code ℤ) :=
        frugal_then (frugal_iunlockput (by simp)) fun _ => frugal_linkBad (by simp)
      refine Prog.wp_mono (hx u) fun _ v hv => ⟨[i,d,j],0,by simp,?_⟩
      exact ((hstart j).trans (hu.mono (by simp) le_rfl)).trans hv
    · have hx : Frugal p [i,d,d] 0 (do iunlockput d; iput i; pure 0 : Code ℤ) :=
        frugal_then (frugal_iunlockput (by simp)) fun _ => frugal_then (frugal_iput (by simp)) fun _ => frugal_pure
      refine Prog.wp_mono (hx u) fun _ v hv => ⟨[i,d,d],1,by simp,?_⟩
      exact ((hstart d).trans (hu.mono (by simp) le_rfl)).trans hv

lemma fits_create {ty : IType} {f : Option ℕ → Code ℤ} (hN : Anchored p s.toState)
    (hf : f none = pure (-1)) (hf' : ∀ i, Frugal p [i] 0 (f (some i))) :
    (create path ty >>= f).wp (calm p) (fun _ => Fits s) s := by
  refine wp_bind (calm_create hN (fun u hu _ => ?_) (fun i u hu _ _ => ?_) fun d n u hu _ _ => ?_)
  · rw [hf]
    exact calm_ret hu.fits
  · exact Prog.wp_mono (hf' i u) fun _ v hv => hu.fits_of hv (by simp)
  · refine Prog.wp_mono spend_createNew fun j v ⟨i,hv⟩ => Prog.wp_mono (hf' j v) fun _ w hw => ?_
    have hv' : Spends [d,i,j] 3 u.edits v.edits := hv.mono (by simp) le_rfl
    exact hu.fits_of (hv'.trans (hw.mono (by simp) le_rfl)) (by simp)

end

/-- The calls that write within one transaction. -/
def Call.writes : Call → Bool
  | .link .. | .unlink _ | .create _ | .mkdir _ | .mknod _ | .chdir _ => true
  | _ => false

lemma fits_code {c : Call} (hN : Anchored p s.toState) (hc : c.writes = true) : c.code.wp (calm p) (fun _ => Fits s) s := by
  have hmake : ∀ i, Frugal p [i] 0 (do iunlockput i; pure 0 : Code ℤ) :=
    fun i => frugal_then (frugal_iunlockput (by simp)) fun _ => frugal_pure
  cases c with
  | link old new => exact fits_link hN
  | unlink path => exact fits_unlink hN
  | create path => exact fits_create hN rfl fun i => frugal_openInode (by simp)
  | mkdir path | mknod path => exact fits_create hN rfl hmake
  | chdir path => exact fits_chdir hN
  | openFile _ _ | exec _ | transfer _ _ | dup _ | close _ | exit => cases hc

lemma logged_of_fits {x : Code β} {s : State P} {b : β} {D E : Store} (hx : x.wp (calm p) (fun _ => Fits ⟨s,[]⟩) ⟨s,[]⟩) (hD : Whole D)
    (hlog : D.log = []) (hrun : x.run (S := fs) (noted p) ⟨s,[]⟩ = .ok (b,t)) (hplay : play t.edits D = some E) :
    E.logged ≤ maxOpBlocks := by
  obtain ⟨c,u,hu,I,n,hn,l,hl,hw⟩ | ⟨e,he,-⟩ := Prog.run_of_wp hx
  · rw [hrun] at hu
    cases hu
    rw [hl,append_nil] at hplay
    exact Blocks.play_logged hD hlog hw hn hplay
  · rw [hrun] at he
    cases he

/-- Each call that writes, the `iput` of `fileclose` and `exit`, and each chunk of `filewrite` logs at most
`MAXOPBLOCKS` different blocks. -/
theorem transactions_fit {s : State P} {D : Store} (hN : Anchored p s) (hD : Whole D) (hlog : D.log = []) :
    (∀ c : Call, c.writes = true → ∀ r t E, c.code.run (S := fs) (noted p) ⟨s,[]⟩ = .ok (r,t) →
      play t.edits D = some E → E.logged ≤ maxOpBlocks) ∧
    (∀ i r t E, (iput i).run (S := fs) (noted p) ⟨s,[]⟩ = .ok (r,t) → play t.edits D = some E → E.logged ≤ maxOpBlocks) ∧
    ∀ i off n k ls, filewrite k D i off n = some ls → ∀ l ∈ ls, l.toFinset.card ≤ maxOpBlocks := by
  refine ⟨fun c hc r t E hrun => ?_,fun i r t E hrun => ?_,fun i off n k ls => Blocks.filewrite_logged hD⟩
  · exact logged_of_fits (fits_code (s := ⟨s,[]⟩) hN hc) hD hlog hrun
  · have hput : Frugal p [i] 0 (iput i) := frugal_iput (by simp)
    exact logged_of_fits (Prog.wp_mono (hput _) fun _ u hu => ⟨[i],0,by simp,hu⟩) hD hlog hrun

/-- The blocks of the root image: the root has three entries in block 59. -/
def rootStore : Store where
  used b := b < 60
  ino i := if i = 1 then ⟨48,fun k => if k = 0 then 59 else 0,fun _ => 0⟩ else .empty
  log := []

lemma whole_root : Whole rootStore := by
  refine ⟨rfl,fun i bn hbn => ?_⟩
  by_cases hi : i = 1
  · subst hi
    change 512*bn < 48 at hbn
    have h0 : bn = 0 := by omega
    subst h0
    unfold Blocks.Shape.Has
    rw [if_pos (by decide)]
    decide
  · change 512*bn < (if i = 1 then _ else Blocks.Shape.empty).size at hbn
    rw [if_neg hi] at hbn
    exact absurd hbn (not_lt_zero _)

/-- `mkdir("x")` in the root. -/
theorem mkdir_transaction_fits : ∃ t E, (Call.mkdir [120]).code.run (S := fs) (noted ()) ⟨bootState () rootImage,[]⟩ = .ok (0,t) ∧
    play t.edits rootStore = some E ∧ E.logged ≤ maxOpBlocks := by
  have hrun : (match (Call.mkdir [120]).code.run (S := fs) (noted ()) ⟨bootState () rootImage,[]⟩ with
      | .ok (r,t) => decide (r = 0) && (play t.edits rootStore).isSome
      | .error _ => false) = true := by
    decide +kernel
  split at hrun
  · next r t ht =>
    obtain ⟨hr,hE⟩ := Bool.and_eq_true_iff.mp hrun
    obtain ⟨E,hE⟩ := isSome_iff_exists.mp hE
    cases of_decide_eq_true hr
    exact ⟨t,E,ht,hE,(transactions_fit anchored_root whole_root rfl).1 (.mkdir [120]) rfl 0 t E ht hE⟩
  · cases hrun

end Xv6Threads.Fs
