import Mathlib

/-! `memmove` in the kernel (`string.c`) and in the user library (`ulib.c`), with 32-bit pointers. The kernel copies from
the end where the destination starts inside the source, the library always from the start. -/
namespace Xv6Threads.Strings
open Function Nat Strings

abbrev Ptr := BitVec 32

abbrev Bytes := Ptr → UInt8

/-- `while(n-- > 0) *d++ = *s++;` -/
def copyUp : ℕ → Ptr → Ptr → Bytes → Bytes
  | 0,_,_,m => m
  | n+1,d,s,m => copyUp n (d+1) (s+1) (update m d (m s))

/-- `while(n-- > 0) *--d = *--s;` -/
def copyDown : ℕ → Ptr → Ptr → Bytes → Bytes
  | 0,_,_,m => m
  | n+1,d,s,m => copyDown n (d-1) (s-1) (update m (d-1) (m (s-1)))

namespace Kernel

/-- What is returned, and the memory. -/
def memmove (dst src : Ptr) (n : BitVec 32) (m : Bytes) : Ptr × Bytes :=
  if src < dst ∧ src+n > dst then (dst,copyDown n.toNat (dst+n) (src+n) m) else (dst,copyUp n.toNat dst src m)

end Kernel

namespace User

/-- Here `n` is an `int`. -/
def memmove (dst src : Ptr) (n : BitVec 32) (m : Bytes) : Ptr × Bytes := (dst,copyUp n.toInt.toNat dst src m)

end User

/-- The byte at `p+i`. -/
def Bytes.at (m : Bytes) (p : Ptr) (i : ℕ) : UInt8 := m (p+BitVec.ofNat 32 i)

/-- `m'` has at `dst` the `n` bytes that `m` has at `src`, and is `m` elsewhere. -/
structure Moves (n : ℕ) (dst src : Ptr) (m m' : Bytes) : Prop where
  copied : ∀ i < n, m'.at dst i = m.at src i
  frame : ∀ a, (∀ i < n, a ≠ dst+BitVec.ofNat 32 i) → m' a = m a

/-- The destination starts behind the first byte of the source and before its end. -/
def Ahead (n : ℕ) (dst src : Ptr) : Prop := src.toNat < dst.toNat ∧ dst.toNat < src.toNat+n

section
variable {n : ℕ} {d s : Ptr} {m m' : Bytes}

lemma offset_ne {p : Ptr} {i j : ℕ} (hij : i < j) (hj : j < 2^32) : p+BitVec.ofNat 32 i ≠ p+BitVec.ofNat 32 j := by
  bv_omega

lemma offset_succ (p : Ptr) (i : ℕ) : p+1+BitVec.ofNat 32 i = p+BitVec.ofNat 32 (i+1) := by bv_omega

lemma offset_zero (p : Ptr) : p+BitVec.ofNat 32 0 = p := by bv_omega

lemma copyUp_frame {a : Ptr} (ha : ∀ i < n, a ≠ d+BitVec.ofNat 32 i) : copyUp n d s m a = m a := by
  induction n generalizing d s m with
  | zero => rfl
  | succ n ih =>
    have h0 := ha 0 (succ_pos n)
    rw [offset_zero] at h0
    rw [copyUp,ih fun i hi => offset_succ d i ▸ ha (i+1) (succ_lt_succ hi),update_of_ne h0]

lemma copyUp_add (k : ℕ) :
    copyUp (k+n) d s m = copyUp n (d+BitVec.ofNat 32 k) (s+BitVec.ofNat 32 k) (copyUp k d s m) := by
  induction k generalizing d s m with
  | zero => rw [offset_zero,offset_zero,zero_add,copyUp]
  | succ k ih => rw [succ_add,copyUp,ih,offset_succ,offset_succ,copyUp]

/-- Copying upwards is right when no byte is written before it is read. -/
lemma Moves.copyUp (hn : n < 2^32)
    (hsep : ∀ i j, i < j → j < n → d+BitVec.ofNat 32 i ≠ s+BitVec.ofNat 32 j) : Moves n d s m (copyUp n d s m) := by
  induction n generalizing d s m with
  | zero => exact ⟨fun i hi => absurd hi (not_lt_zero i),fun a _ => rfl⟩
  | succ n ih =>
    have h := ih (d := d+1) (s := s+1) (m := update m d (m s)) (lt_of_succ_lt hn) fun i j hij hj => by
      rw [offset_succ,offset_succ]
      exact hsep (i+1) (j+1) (succ_lt_succ hij) (succ_lt_succ hj)
    refine ⟨fun i hi => ?_,fun a ha => copyUp_frame ha⟩
    cases i with
    | zero =>
      have hd : ∀ i < n, d ≠ d+1+BitVec.ofNat 32 i := fun i hi => by bv_omega
      simp only [Bytes.at,offset_zero,copyUp]
      rw [h.frame d hd,update_self]
    | succ i =>
      have hi := lt_of_succ_lt_succ hi
      have hne := hsep 0 (i+1) (succ_pos i) (succ_lt_succ hi)
      rw [offset_zero] at hne
      have hc := h.copied i hi
      simp only [Bytes.at,offset_succ] at hc
      rwa [update_of_ne hne.symm] at hc

/-- Where the destination is `k` bytes ahead, the first byte of the source is copied there and is then read back. -/
lemma copyUp_reads_back {k : ℕ} (hn : n < 2^32) (hk : k < n) (hd : d = s+BitVec.ofNat 32 k) :
    (copyUp n d s m).at d k = m s := by
  have hfirst : Moves k d s m (copyUp k d s m) := .copyUp (by omega) fun i j hij hj => by bv_omega
  obtain ⟨r,rfl⟩ : ∃ r, n = k+(r+1) := ⟨n-k-1,by omega⟩
  rw [copyUp_add,Bytes.at,copyUp,copyUp_frame fun i hi => by bv_omega,update_self,← hd]
  cases k with
  | zero => rw [copyUp,hd,offset_zero]
  | succ k =>
    have h := hfirst.copied 0 (succ_pos k)
    rwa [Bytes.at,Bytes.at,offset_zero,offset_zero] at h

lemma Moves.copyDown (hn : n < 2^32) (hsep : ∀ i j, j < i → i < n → d+BitVec.ofNat 32 i ≠ s+BitVec.ofNat 32 j) :
    Moves n d s m (copyDown n (d+BitVec.ofNat 32 n) (s+BitVec.ofNat 32 n) m) := by
  induction n generalizing m with
  | zero => exact ⟨fun i hi => absurd hi (not_lt_zero i),fun a _ => rfl⟩
  | succ n ih =>
    have hpred : ∀ p : Ptr, p+BitVec.ofNat 32 (n+1)-1 = p+BitVec.ofNat 32 n := fun p => by bv_omega
    rw [copyDown,hpred,hpred]
    have h := ih (m := update m (d+BitVec.ofNat 32 n) (m (s+BitVec.ofNat 32 n))) (lt_of_succ_lt hn)
      fun i j hij hi => hsep i j hij (lt_succ_of_lt hi)
    refine ⟨fun i hi => ?_,fun a ha => ?_⟩
    · rcases Nat.lt_succ_iff_lt_or_eq.mp hi with hi | rfl
      · rw [h.copied i hi,Bytes.at,update_of_ne (hsep n i hi (lt_succ_self n)).symm,Bytes.at]
      · rw [Bytes.at,h.frame _ fun j hj => (offset_ne hj (lt_of_succ_lt hn)).symm,update_self,Bytes.at]
    · rw [h.frame a fun i hi => ha i (lt_succ_of_lt hi),update_of_ne (ha n (lt_succ_self n))]

end

section
variable {dst src : Ptr} {n : BitVec 32} {m : Bytes}

section
variable (hs : src.toNat+n.toNat ≤ 2^32) (hd : dst.toNat+n.toNat ≤ 2^32)
include hs hd

lemma Moves.upward (ha : ¬Ahead n.toNat dst src) : Moves n.toNat dst src m (Strings.copyUp n.toNat dst src m) := by
  refine .copyUp n.isLt fun i j hij hj => ?_
  unfold Ahead at ha
  bv_omega

lemma Moves.downward (ha : Ahead n.toNat dst src) :
    Moves n.toNat dst src m (Strings.copyDown n.toNat (dst+n) (src+n) m) := by
  have hn : BitVec.ofNat 32 n.toNat = n := by simp
  have h := Moves.copyDown (d := dst) (s := src) (m := m) n.isLt fun i j hij hj => by
    unfold Ahead at ha
    bv_omega
  rwa [hn] at h

end

/-- Memory with a 1 at `p`. -/
def oneAt (p : Ptr) : Bytes := update (fun _ => 0) p 1

lemma not_moves_copyUp (ha : Ahead n.toNat dst src) :
    ¬Moves n.toNat dst src (oneAt src) (Strings.copyUp n.toNat dst src (oneAt src)) := by
  intro h
  obtain ⟨h1,h2⟩ := ha
  have hk : dst.toNat-src.toNat < n.toNat := by omega
  have hdst : dst = src+BitVec.ofNat 32 (dst.toNat-src.toNat) := by bv_omega
  have hc := h.copied _ hk
  rw [copyUp_reads_back n.isLt hk hdst,Bytes.at,← hdst,oneAt,update_self,update_of_ne (by bv_omega)] at hc
  exact absurd hc (by decide)

lemma user_memmove_eq (hn : 0 ≤ n.toInt) : User.memmove dst src n m = (dst,copyUp n.toNat dst src m) := by
  have hint : n.toInt.toNat = n.toNat := by
    rw [BitVec.toInt_eq_toNat_cond] at hn ⊢
    split_ifs at hn ⊢ with h2
    · exact Int.toNat_natCast _
    · omega
  rw [User.memmove,hint]

/-- Both functions move the bytes of every memory just where the destination is not ahead in the source. The kernel's
does so there too, if its sum `src+n` does not wrap to 0. -/
theorem memmove_moves (hs : src.toNat+n.toNat ≤ 2^32) (hd : dst.toNat+n.toNat ≤ 2^32) (hn : 0 ≤ n.toInt) :
    ((∀ m, Moves n.toNat dst src m (Kernel.memmove dst src n m).2 ∧ Moves n.toNat dst src m (User.memmove dst src n m).2) ↔
      ¬Ahead n.toNat dst src) ∧
    ((∀ m, Moves n.toNat dst src m (Kernel.memmove dst src n m).2) ↔
      ¬Ahead n.toNat dst src ∨ src.toNat+n.toNat < 2^32) ∧
    (¬Ahead n.toNat dst src → ∀ m, User.memmove dst src n m = Kernel.memmove dst src n m) := by
  have htest : src < dst ∧ src+n > dst ↔ Ahead n.toNat dst src ∧ src.toNat+n.toNat < 2^32 := by
    unfold Ahead
    bv_omega
  have hkernel : (∀ m, Moves n.toNat dst src m (Kernel.memmove dst src n m).2) ↔
      ¬Ahead n.toNat dst src ∨ src.toNat+n.toNat < 2^32 := by
    unfold Kernel.memmove
    by_cases ht : src < dst ∧ src+n > dst
    · simp only [if_pos ht]
      exact iff_of_true (fun m => .downward hs hd (htest.mp ht).1) (.inr (htest.mp ht).2)
    · simp only [if_neg ht]
      rw [htest,not_and_or] at ht
      constructor
      · intro h
        by_contra hc
        rw [not_or,not_not] at hc
        exact not_moves_copyUp hc.1 (h _)
      · intro h m
        exact .upward hs hd (by tauto)
  refine ⟨⟨fun h ha => ?_,fun ha m => ⟨hkernel.mpr (.inl ha) m,?_⟩⟩,hkernel,fun ha m => ?_⟩
  · have := (h (oneAt src)).2
    rw [user_memmove_eq hn] at this
    exact not_moves_copyUp ha this
  · rw [user_memmove_eq hn]
    exact .upward hs hd ha
  · rw [user_memmove_eq hn,Kernel.memmove,if_neg fun ht => ha (htest.mp ht).1]

end

/-- Memory with `ab` at 256. -/
def ab : Bytes := fun a => if a = 256 then 97 else if a = 257 then 98 else 0

/-- Both move the letters one byte back, and the kernel moves them one byte on. -/
theorem memmove_moves_one_on : Moves 2 255 256 ab (Kernel.memmove 255 256 2 ab).2 ∧
    Moves 2 255 256 ab (User.memmove 255 256 2 ab).2 ∧ Moves 2 257 256 ab (Kernel.memmove 257 256 2 ab).2 := by
  obtain ⟨h1,h2⟩ := (memmove_moves (show (256 : Ptr).toNat+(2 : Ptr).toNat ≤ 2^32 by decide)
    (show (255 : Ptr).toNat+(2 : Ptr).toNat ≤ 2^32 by decide) (by decide)).1.mpr (by unfold Ahead; decide) ab
  exact ⟨h1,h2,(memmove_moves (n := 2) (by decide) (by decide) (by decide)).2.1.mpr (.inr (by decide)) ab⟩

/-- The library's `memmove` reads back the letter that it has written, and leaves `aaa` where `aab` should be. -/
theorem user_memmove_smears : (256 : Ptr).toNat+(2 : Ptr).toNat < 2^32 ∧ (257 : Ptr).toNat+(2 : Ptr).toNat < 2^32 ∧
    0 ≤ (2 : BitVec 32).toInt ∧ (User.memmove 257 256 2 ab).2 258 = 97 ∧ (Kernel.memmove 257 256 2 ab).2 258 = 98 ∧
    ¬Moves 2 257 256 ab (User.memmove 257 256 2 ab).2 := by
  refine ⟨by decide,by decide,by decide,by decide,by decide,fun h => ?_⟩
  have hb : (User.memmove 257 256 2 ab).2 258 = ab 257 := h.copied 1 (by decide)
  exact absurd hb (by decide)

end Xv6Threads.Strings
