import Xv6Threads.Mem.Image

/-! `exec` until its image has been built: it has gone to `bad` and left nothing, or the new directory has the image, a
guard page and a stack. -/
namespace Xv6Threads.Mem
open Option Kept
open Vm (pgSize kernBase word pgRoundUp kmap npages npages_le pgRoundUp_page)
open Vm.Loader (File readi elfMagic)

/-- The world in which `exec` is called: the pages of the process and the free ones are apart, the kernel reaches all
memory, and free pages have no data of the kernel. -/
structure Sound (sys : ℕ → Bool) (w : World) (all : ℕ → Prop) : Prop where
  kept : Kept (some w.proc.page) w.proc.dir none w.mem all
  direct : Direct ⟨w.proc.dir,sys⟩
  plain : ∀ f ∈ w.mem.free, sys f = false

/-- A call from `w` to `w'` has left nothing. -/
structure Failed (w w' : World) : Prop where
  proc : w'.proc = w.proc
  free : w'.mem.free.Perm w.mem.free
  page : ∀ f ∉ w.mem.free, w'.mem.page f = w.mem.page f
  ops : w'.ops = w.ops
  refs : w'.refs = w.refs
  locked : w'.locked = true → w.locked = true

/-- The new directory is ready for the arguments: the image has `n` pages, then come the guard and the stack. -/
structure Ready (page : ℕ) (all : ℕ → Prop) (f : File) (K : Dir) (m0 : Memory) (n : ℕ) (D : Dir) (m : Memory) : Prop where
  kept : Kept (some page) D none m all
  changed : Changed all m0 m
  small : 4096*(n+2) < kernBase
  pages : ∀ w < 2^19, (ent D w).isSome ↔ w < n+2
  user : ∀ w e, w < 2^19 → ent D w = some e → (e.flags.u = true ↔ w ≠ n)
  kernel : ∀ w, 2^19 ≤ w → ent D w = kent kmap w
  tabs : ∀ i, 512 ≤ i.val → D i = K i
  size : n = npages (largest (segments f (f.ushort 44)))

section
variable {w w1 : World} {page : ℕ} {D : Dir}

lemma bad_spec (w1 : World) (hnd : w.mem.free.Nodup) (hv : ∀ f ∈ w.mem.free, Valid f)
    (K : Kept (some page) D none w1.mem (· ∈ w.mem.free)) (hC : Changed (· ∈ w.mem.free) w.mem w1.mem) (ip : Bool) :
    ∃ m', bad (some (page,D)) ip w1 =
        .ok (false,if ip then World.endOp (World.iunlockput { w1 with mem := m' }) else { w1 with mem := m' }) ∧
      m'.free.Perm w.mem.free ∧ ∀ f ∉ w.mem.free, m'.page f = w.mem.page f := by
  obtain ⟨m',hr,hK,hC'⟩ := freevm_spec (S := (· ∈ w.mem.free)) K fun p f h => K.own_all h
  refine ⟨m',?_,perm (.start hnd hv) hK,(hC.trans hC').page⟩
  simp only [bad,bind,Except.bind,hr,calm]
  rfl

variable {m : Memory}

section
variable (hnd : w.mem.free.Nodup) (hv : ∀ f ∈ w.mem.free, Valid f) (K : Kept (some page) D none m (· ∈ w.mem.free)) (hC : Changed (· ∈ w.mem.free) w.mem m)
include hnd hv K hC

lemma bad_early : ∃ w', bad (some (page,D)) true { w.beginOp.inode with mem := m } = .ok (false,w') ∧ Failed w w' := by
  obtain ⟨m',hr,hp,hpage⟩ := bad_spec { w.beginOp.inode with mem := m } hnd hv K hC true
  exact ⟨_,hr,rfl,hp,hpage,rfl,rfl,nofun⟩

lemma bad_late : ∃ w', bad (some (page,D)) false { w.beginOp.inode.iunlockput.endOp with mem := m } = .ok (false,w') ∧
      Failed w w' := by
  obtain ⟨m',hr,hp,hpage⟩ := bad_spec { w.beginOp.inode.iunlockput.endOp with mem := m } hnd hv K hC false
  exact ⟨_,hr,rfl,hp,hpage,rfl,rfl,nofun⟩

end

lemma bad_none (hp : m.free.Perm w.mem.free) (hpage : ∀ f ∉ w.mem.free, m.page f = w.mem.page f) :
    ∃ w', bad none true { w.beginOp.inode with mem := m } = .ok (false,w') ∧ Failed w w' :=
  ⟨_,rfl,rfl,hp,hpage,rfl,rfl,nofun⟩

end

section
variable {page n z : ℕ} {all : ℕ → Prop} {f : File} {K D E : Dir} {m0 m m1 : Memory}

lemma Built.start (hK : Kept (some page) K none m all) (hC : Changed all m0 m) (hk : Kernel kmap K) :
    Built page all f K m0 0 0 K m := by
  refine ⟨hK,hC,by decide,fun w hw => ?_,fun w e hw he => ?_,fun _ _ => rfl,fun _ _ => rfl,rfl⟩
  · rw [hk.user hw]
    simp [npages]
  · rw [hk.user hw] at he
    cases he

lemma Built.ready (hB : Built page all f K m0 (f.ushort 44) z D m) (hk : Kernel kmap K)
    (hs : 4096*(npages z+2) < kernBase) (hG : Grown (some page) all D m E m1 (npages z) (npages z+2)) :
    ∃ F, clearpteu E (4096*npages z) m1 = .ok F ∧ Ready page all f K m0 (npages z) F m1 := by
  unfold kernBase at hs
  have hall : ∀ g ∈ m.free, all g := fun g hg => hB.kept.free_all hg
  obtain ⟨g,-,hge,-⟩ := hG.new (npages z) le_rfl (by omega)
  have h20 : npages z < 2^20 := by omega
  obtain ⟨t,ht⟩ : ∃ t, E (di (npages z)) = some t := by
    refine ne_none_iff_exists'.mp fun h => ?_
    rw [ent_of_none h] at hge
    cases hge
  have hpte : t.pte (ti (npages z)) = some ⟨g,.user⟩ := by rw [← ent_of_tab h20 ht,hge]
  have hent := ent_setPte h20 ht (some ⟨g,{ Flags.user with u := false }⟩)
  refine ⟨setPte E (4096*npages z) t (some ⟨g,{ Flags.user with u := false }⟩),?_,
    hG.kept.flags h20 ht (by rw [hge]; rfl),hB.changed.trans (hG.changed.mono hall),hs,fun w hw => ?_,
    fun w e hw he => ?_,fun w hw => ?_,fun i hi => ?_,by rw [← hB.size]⟩
  · simp only [clearpteu,walk_false,ht,map_some,pt_page,hpte]
  · rw [hent]
    split_ifs with hwz
    · simp [hwz]
    · by_cases hc : npages z ≤ w ∧ w < npages z+2
      · obtain ⟨g',-,hg',-⟩ := hG.new w hc.1 hc.2
        simp only [hg',isSome_some,true_iff]
        exact hc.2
      · rw [hG.old w hc,hB.fills w hw]
        omega
  · rw [hent] at he
    split_ifs at he with hwz
    · rw [← some.inj he]
      simp [hwz]
    · have hu : e.flags.u = true := by
        by_cases hc : npages z ≤ w ∧ w < npages z+2
        · obtain ⟨g',-,hg',-⟩ := hG.new w hc.1 hc.2
          rw [he] at hg'
          cases hg'
          rfl
        · rw [hG.old w hc] at he
          rw [hB.user w e hw he]
          rfl
      simp [hu,hwz]
  · rw [hent,if_neg (by omega),hG.old w (by omega),hB.kernel w hw,hk.ents]
  · rw [setPte_other,hG.tabs i hi,hB.tabs i hi]
    intro h
    have h1 := di_user (show npages z < 2^19 by omega)
    rw [← h] at h1
    omega

/-- `allocuvm` for the guard page and the stack. -/
lemma Built.stack (hB : Built page all f K m0 n z D m) :
    ∃ r E m1, allocuvm D (pgRoundUp z) ((pgRoundUp z+2*pgSize)%word) m = .ok (r,E,m1) ∧
      ((r = 0 ∧ Undone (some page) all D m E m1 ∧ (z = 0 → m.Willing → Scarce all 2)) ∨
      (4096*(npages z+2) < kernBase ∧ r = 4096*(npages z+2) ∧
        Grown (some page) all D m E m1 (npages z) (npages z+2))) := by
  have hz := hB.small
  have hround := pgRoundUp_page (Nat.le_of_lt hz)
  have hle := npages_le (Nat.le_of_lt hz)
  have hnew : (pgRoundUp z+2*pgSize)%word = 4096*(npages z+2) := by
    rw [hround]
    unfold pgSize word
    omega
  have hn0 : npages (4096*npages z) = npages z := by
    unfold npages
    omega
  have hn2 : npages (4096*(npages z+2)) = npages z+2 := by
    unfold npages
    omega
  obtain ⟨r,E,m1,hr,hres⟩ := allocuvm_spec hB.kept (4096*(npages z+2))
    fun w (h1 : npages (4096*npages z) ≤ w) h2 => hB.fills.none (by omega) h2
  rw [hn0,hn2] at hres
  rw [hnew,hround]
  refine ⟨r,E,m1,hr,hres.imp (fun ⟨h0,hU,hsc⟩ => ⟨h0,hU,?_⟩) fun ⟨hs,hmax,hG⟩ => ⟨hs,by omega,hG⟩⟩
  rintro rfl
  exact hsc (by decide)

/-- `exec` of a file has failed and left nothing, or it comes to the arguments. Without segments it fails only for
want of memory. -/
lemma exec_reaches {sys : ℕ → Bool} {w : World} {all : ℕ → Prop} (hS : Sound sys w all) (path : List UInt8) (f : File)
    (argv : List (List UInt8)) : (∃ w', exec sys path (some f) argv w = .ok (false,w') ∧ Failed w w' ∧
      stackTop f w.mem = none ∧ (readi f 0 52 = some 52 → f.uint 0 = elfMagic → f.ushort 44 = 0 → w.mem.Willing → Scarce (· ∈ w.mem.free) 2)) ∨
    ∃ page n K D m, Kernel kmap K ∧ Ready page (· ∈ w.mem.free) f K w.mem n D m ∧ stackTop f w.mem = some (4096*(n+2)) ∧
      exec sys path (some f) argv w = commit (Running.with ⟨w.proc.dir,sys⟩ page D) path (f.uint 24) page (4096*(n+2)) D
        w.beginOp.inode.iunlockput.endOp
        (pushArgs (Running.with ⟨w.proc.dir,sys⟩ page D) D (4096*(n+2)) [] argv m) := by
  have hnd := hS.kept.stock.nodup
  have hv : ∀ f ∈ w.mem.free, Valid f := fun _ hg => hS.kept.valid_free hg
  unfold exec
  simp only
  by_cases hread : readi f 0 52 ≠ some 52
  · rw [if_pos hread]
    obtain ⟨w',hr,hF⟩ := bad_none (w := w) (m := w.mem) (List.Perm.refl _) fun _ _ => rfl
    exact .inl ⟨w',hr,hF,if_pos (.inl hread),fun h => (hread h).elim⟩
  rw [if_neg hread]
  by_cases hmagic : f.uint 0 ≠ elfMagic
  · rw [if_pos hmagic]
    obtain ⟨w',hr,hF⟩ := bad_none (w := w) (m := w.mem) (List.Perm.refl _) fun _ _ => rfl
    exact .inl ⟨w',hr,hF,if_pos (.inr hmagic),fun _ h => (hmagic h).elim⟩
  rw [if_neg hmagic]
  have htop : stackTop f w.mem = _ := if_neg (not_or_intro hread hmagic)
  obtain ⟨⟨r,m1⟩,hkvm,hres⟩ := setupkvm_spec (start hnd hv)
  rw [show w.beginOp.inode.mem = w.mem from rfl,hkvm]
  cases r with
  | none =>
    obtain ⟨hK,hC,hsc⟩ := hres
    obtain ⟨w',hr,hF⟩ := bad_none (w := w) (m := m1) (perm (.start hnd hv) hK) hC.page
    exact .inl ⟨w',hr,hF,by rw [htop,hkvm],fun _ _ _ hw => (hsc hw).mono (by omega)⟩
  | some r =>
    obtain ⟨page,K⟩ := r
    obtain ⟨hK,hT,hk⟩ := hres
    obtain ⟨b,z,D,m2,hload,hK2,hC2,hB,hb⟩ := loadAll_spec (f := f) (.start hK hT.widen hk)
    rw [hkvm] at htop
    simp only [hload] at htop ⊢
    cases b with
    | false =>
      obtain ⟨w',hr,hF⟩ := bad_early hnd hv hK2 hC2
      exact .inl ⟨w',hr,hF,htop,fun _ _ h => by have := hb rfl; omega⟩
    | true =>
      replace hB := hB rfl
      unfold stackNext
      simp only
      unfold stackSize at htop
      simp only at htop
      obtain ⟨r,E,m3,hr,⟨rfl,hU,hsc⟩ | ⟨hs,rfl,hG⟩⟩ := hB.stack
      · rw [hr] at htop ⊢
        obtain ⟨w',hr',hF⟩ := bad_late (w := w) hnd hv hU.kept (hC2.trans (hU.changed.mono fun _ hg =>
          hK2.free_all hg))
        refine .inl ⟨w',hr',hF,htop,fun _ _ h0 hw => hsc ?_ (hC2.deny hw)⟩
        rw [hB.size,h0]
        rfl
      · obtain ⟨F,hF,hR⟩ := hB.ready hk hs hG
        rw [hr] at htop ⊢
        rw [allocated,if_neg (by omega)] at htop
        refine .inr ⟨page,npages z,K,F,m3,hk,hR,htop,?_⟩
        rw [argsNext,if_neg (by omega),
          show (4096*(npages z+2)+word-2*pgSize)%word = 4096*npages z by unfold word pgSize kernBase at *; omega,hF]
        rfl

end

end Xv6Threads.Mem
