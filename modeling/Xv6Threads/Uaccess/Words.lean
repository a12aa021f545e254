import Xv6Threads.Uaccess.Model
import Xv6Threads.Vm.PageTable

/-! The checks of system call arguments in 32-bit arithmetic, signed and unsigned as in `syscall.c`. With `sz` at most
`KERNBASE` no sum in a test that passes wraps, so each test says what it says of natural numbers. -/
namespace Xv6Threads.Uaccess.Words
open Option BitVec
open Vm (kernBase)

/-- The process that makes a call: `sz`, the user's `esp`, and what its memory contains. -/
structure Caller where
  sz : BitVec 32
  esp : BitVec 32
  mem : ℕ → UInt8

/-- `*(int*)a` -/
def word (mem : ℕ → UInt8) (a : ℕ) : BitVec 32 :=
  BitVec.ofNat 32 ((mem a).toNat+256*(mem (a+1)).toNat+65536*(mem (a+2)).toNat+16777216*(mem (a+3)).toNat)

section
variable (p : Caller)

/-- `fetchint`: `none` for -1, else `*ip`. -/
def fetchint (addr : BitVec 32) : Option (BitVec 32) :=
  if p.sz ≤ addr ∨ p.sz < addr+4 then none else some (word p.mem addr.toNat)

/-- The address of argument `n`. -/
def argAddr (n : BitVec 32) : BitVec 32 := p.esp+4+4*n

def argint (n : BitVec 32) : Option (BitVec 32) := fetchint p (argAddr p n)

/-- `argptr`: `none` for -1, else `*pp`. -/
def argptr (n size : BitVec 32) : Option (BitVec 32) :=
  (argint p n).bind fun i => if size.toInt < 0 ∨ p.sz ≤ i ∨ p.sz < i+size then none else some i

/-- The loop of `fetchstr` from `s` on: `none` for -1, else the difference of the pointers. -/
def scan (mem : ℕ → UInt8) (pp ep s : BitVec 32) : Option (BitVec 32) :=
  if h : s < ep then
    if mem s.toNat = 0 then some (s-pp) else scan mem pp ep (s+1)
  else none
termination_by ep.toNat-s.toNat
decreasing_by bv_omega

/-- `fetchstr`: `none` for -1, else `*pp` and the length. -/
def fetchstr (addr : BitVec 32) : Option (BitVec 32 × BitVec 32) :=
  if p.sz ≤ addr then none else (scan p.mem addr p.sz addr).map fun len => (addr,len)

def argstr (n : BitVec 32) : Option (BitVec 32 × BitVec 32) := (argint p n).bind (fetchstr p)

end

variable {p : Caller}

lemma fetchint_eq (hsz : p.sz.toNat ≤ kernBase) (addr : BitVec 32) :
    fetchint p addr = if addr.toNat+4 ≤ p.sz.toNat then some (word p.mem addr.toNat) else none := by
  have htest : (p.sz ≤ addr ∨ p.sz < addr+4) ↔ ¬addr.toNat+4 ≤ p.sz.toNat := by
    unfold kernBase at hsz
    bv_omega
  rw [fetchint]
  split_ifs with h1 h2 h2
  · exact absurd h2 (htest.mp h1)
  · rfl
  · rfl
  · exact absurd (htest.mpr h2) h1

lemma argptr_eq (hsz : p.sz.toNat ≤ kernBase) (n size : BitVec 32) : argptr p n size = (argint p n).bind fun i =>
      if 0 ≤ size.toInt ∧ i.toNat < p.sz.toNat ∧ (i.toNat : ℤ)+size.toInt ≤ p.sz.toNat then some i else none := by
  rw [argptr]
  congr 1
  funext i
  have htest : (size.toInt < 0 ∨ p.sz ≤ i ∨ p.sz < i+size) ↔
      ¬(0 ≤ size.toInt ∧ i.toNat < p.sz.toNat ∧ (i.toNat : ℤ)+size.toInt ≤ p.sz.toNat) := by
    unfold kernBase at hsz
    have hsize := toInt_eq_toNat_cond size
    have hadd : (i+size).toNat = (i.toNat+size.toNat)%2^32 := toNat_add i size
    rw [le_def,lt_def,hadd]
    split_ifs at hsize <;> omega
  split_ifs with h1 h2 h2
  · exact absurd h2 (htest.mp h1)
  · rfl
  · rfl
  · exact absurd (htest.mpr h2) h1

lemma scan_spec (mem : ℕ → UInt8) (pp ep s : BitVec 32) :
    (∃ t : ℕ, s.toNat ≤ t ∧ t < ep.toNat ∧ mem t = 0 ∧ (∀ j, s.toNat ≤ j → j < t → mem j ≠ 0) ∧
        scan mem pp ep s = some (BitVec.ofNat 32 t-pp)) ∨
      ((∀ j, s.toNat ≤ j → j < ep.toNat → mem j ≠ 0) ∧ scan mem pp ep s = none) := by
  induction s using scan.induct mem ep with
  | case1 s h h0 =>
    refine .inl ⟨s.toNat,le_rfl,h,h0,fun j h1 h2 => by omega,?_⟩
    rw [scan,dif_pos h,if_pos h0,ofNat_toNat,setWidth_eq]
  | case2 s h h0 ih =>
    have hs : (s+1).toNat = s.toNat+1 := by bv_omega
    have hscan : scan mem pp ep s = scan mem pp ep (s+1) := by rw [scan,dif_pos h,if_neg h0]
    rw [hs] at ih
    rw [hscan]
    -- the byte at `s` is not NUL, the others are those of the rest of the loop
    rcases ih with ⟨t,h1,h2,h3,h4,h5⟩ | ⟨h4,h5⟩
    · refine .inl ⟨t,by omega,h2,h3,fun j hj hjt => ?_,h5⟩
      rcases Nat.eq_or_lt_of_le hj with rfl | hj
      · exact h0
      · exact h4 j hj hjt
    · refine .inr ⟨fun j hj hjt => ?_,h5⟩
      rcases Nat.eq_or_lt_of_le hj with rfl | hj
      · exact h0
      · exact h4 j hj hjt
  | case3 s h =>
    rw [lt_def] at h
    exact .inr ⟨fun j h1 h2 => by omega,by rw [scan,dif_neg (by rwa [lt_def])]⟩

/-- What `fetchstr` returns for a string: the bytes up to its NUL are in the memory of the process. -/
structure IsString (p : Caller) (addr q len : BitVec 32) : Prop where
  ptr : q = addr
  nonneg : 0 ≤ len.toInt
  inside : addr.toNat+len.toNat < p.sz.toNat
  last : p.mem (addr.toNat+len.toNat) = 0
  before : ∀ j < len.toNat, p.mem (addr.toNat+j) ≠ 0

section
variable (hsz : p.sz.toNat ≤ kernBase)
include hsz

lemma fetchstr_spec (addr : BitVec 32) : (∃ len, fetchstr p addr = some (addr,len) ∧ IsString p addr addr len) ∨
      (fetchstr p addr = none ∧ ∀ k, addr.toNat+k < p.sz.toNat → p.mem (addr.toNat+k) ≠ 0) := by
  unfold kernBase at hsz
  by_cases h : p.sz ≤ addr
  · rw [le_def] at h
    exact .inr ⟨by rw [fetchstr,if_pos (by rwa [le_def])],fun k hk => by omega⟩
  rw [fetchstr,if_neg h]
  rcases scan_spec p.mem addr p.sz addr with ⟨t,h1,h2,h3,h4,h5⟩ | ⟨h4,h5⟩
  · have hlen : (BitVec.ofNat 32 t-addr).toNat = t-addr.toNat := by bv_omega
    have hsum : addr.toNat+(t-addr.toNat) = t := by omega
    refine .inl ⟨BitVec.ofNat 32 t-addr,by rw [h5]; rfl,rfl,?_,?_,?_,?_⟩
    · rw [toInt_eq_toNat_of_lt (by omega)]
      exact Int.natCast_nonneg _
    · rw [hlen,hsum]
      exact h2
    · rw [hlen,hsum]
      exact h3
    · intro j hj
      exact h4 _ (by omega) (by omega)
  · exact .inr ⟨by rw [h5]; rfl,fun k hk => h4 _ (by omega) hk⟩

lemma fetchstr_sound {addr q len : BitVec 32} (h : fetchstr p addr = some (q,len)) : IsString p addr q len := by
  rcases fetchstr_spec hsz addr with ⟨l,hl,hs⟩ | ⟨hn,-⟩
  · rw [hl] at h
    cases h
    exact hs
  · rw [hn] at h
    cases h

lemma fetchstr_complete {addr : BitVec 32} {k : ℕ} (hk : addr.toNat+k < p.sz.toNat)
    (h0 : p.mem (addr.toNat+k) = 0) : ∃ len, fetchstr p addr = some (addr,len) ∧ 0 ≤ len.toInt := by
  rcases fetchstr_spec hsz addr with ⟨len,hl,hs⟩ | ⟨-,hn⟩
  · exact ⟨len,hl,hs.nonneg⟩
  · exact absurd h0 (hn k hk)

lemma fetchint_sound {addr v : BitVec 32} (h : fetchint p addr = some v) :
    addr.toNat+4 ≤ p.sz.toNat ∧ v = word p.mem addr.toNat := by
  rw [fetchint_eq hsz] at h
  split_ifs at h with hin
  cases h
  exact ⟨hin,rfl⟩

lemma fetchint_complete {addr : BitVec 32} (h : addr.toNat+4 ≤ p.sz.toNat) :
    fetchint p addr = some (word p.mem addr.toNat) := by rw [fetchint_eq hsz,if_pos h]

end

/-- The argument checks accept nothing outside the memory of the process and reject nothing inside. -/
theorem arguments_checked (p : Caller) (hsz : p.sz.toNat ≤ kernBase) :
    (∀ addr v, fetchint p addr = some v → addr.toNat+4 ≤ p.sz.toNat ∧ v = word p.mem addr.toNat) ∧
    (∀ n v, argint p n = some v → (argAddr p n).toNat+4 ≤ p.sz.toNat ∧ v = word p.mem (argAddr p n).toNat) ∧
    (∀ n size q, argptr p n size = some q → (argAddr p n).toNat+4 ≤ p.sz.toNat ∧ q = word p.mem (argAddr p n).toNat ∧
      0 ≤ size.toInt ∧ (q.toNat : ℤ)+size.toInt ≤ p.sz.toNat) ∧
    (∀ addr q len, fetchstr p addr = some (q,len) → IsString p addr q len) ∧
    (∀ n q len, argstr p n = some (q,len) → (argAddr p n).toNat+4 ≤ p.sz.toNat ∧
      IsString p (word p.mem (argAddr p n).toNat) q len) ∧
    (∀ addr, addr.toNat+4 ≤ p.sz.toNat → fetchint p addr = some (word p.mem addr.toNat)) ∧
    (∀ addr k, addr.toNat+k < p.sz.toNat → p.mem (addr.toNat+k) = 0 →
      ∃ len, fetchstr p addr = some (addr,len) ∧ 0 ≤ len.toInt) ∧
    ∀ n, (argAddr p n).toNat+4 ≤ p.sz.toNat → let v := word p.mem (argAddr p n).toNat
      argint p n = some v ∧
      (∀ size, 0 < size.toInt → (v.toNat : ℤ)+size.toInt ≤ p.sz.toNat → argptr p n size = some v) ∧
      ∀ k, v.toNat+k < p.sz.toNat → p.mem (v.toNat+k) = 0 → ∃ len, argstr p n = some (v,len) ∧ 0 ≤ len.toInt := by
  refine ⟨fun _ _ => fetchint_sound hsz,fun _ _ => fetchint_sound hsz,?_,fun _ _ _ => fetchstr_sound hsz,?_,
    fun _ => fetchint_complete hsz,fun _ _ => fetchstr_complete hsz,?_⟩
  · intro n size q h
    rw [argptr_eq hsz] at h
    obtain ⟨i,hi,h⟩ := bind_eq_some_iff.mp h
    obtain ⟨hin,hv⟩ := fetchint_sound hsz hi
    split_ifs at h with htest
    cases h
    exact ⟨hin,hv,htest.1,htest.2.2⟩
  · intro n q len h
    obtain ⟨i,hi,h⟩ := bind_eq_some_iff.mp h
    obtain ⟨hin,rfl⟩ := fetchint_sound hsz hi
    exact ⟨hin,fetchstr_sound hsz h⟩
  · intro n hin
    have hint : argint p n = some (word p.mem (argAddr p n).toNat) := fetchint_complete hsz hin
    refine ⟨hint,fun size hpos hle => ?_,fun k hk h0 => ?_⟩
    · rw [argptr_eq hsz,hint,bind_some,if_pos]
      exact ⟨by omega,by omega,hle⟩
    · rw [argstr,hint,bind_some]
      exact fetchstr_complete hsz hk h0

/-- A process of one page whose first argument is the word 0 and whose memory has NULs only. -/
theorem arguments_checked_one_page : let p : Caller := ⟨4096,8,fun _ => 0⟩
    argint p 0 = some 0 ∧ (∀ size : BitVec 32, 0 < size.toInt → (0 : ℤ)+size.toInt ≤ 4096 → argptr p 0 size = some 0) ∧
      ∀ k, 0+k < 4096 → (0 : UInt8) = 0 → ∃ len, argstr p 0 = some (0,len) ∧ 0 ≤ len.toInt :=
  (arguments_checked ⟨4096,8,fun _ => 0⟩ (by decide)).2.2.2.2.2.2.2 0 (by decide)

lemma toNat_word (mem : ℕ → UInt8) (a : ℕ) : (word mem a).toNat =
    (mem a).toNat+256*(mem (a+1)).toNat+65536*(mem (a+2)).toNat+16777216*(mem (a+3)).toNat := by
  rw [word,BitVec.toNat_ofNat,Nat.mod_eq_of_lt]
  have h0 := (mem a).toNat_lt
  have h1 := (mem (a+1)).toNat_lt
  have h2 := (mem (a+2)).toNat_lt
  have h3 := (mem (a+3)).toNat_lt
  omega

section
variable {m : Space}

variable (hm : ∀ q, m.mapped q = true) (hp : p.mem = m.mem)
include hm hp

/-- The `fetchint` of `Uaccess.Model` is this one, on memory that is mapped. -/
lemma fetchint_refines (addr : BitVec 32) : Uaccess.fetchint m p.sz.toNat addr.toNat =
      match fetchint p addr with
      | some v => .ok v.toNat
      | none => .error .fail := by
  have htest : (p.sz ≤ addr ∨ p.sz < addr+4) ↔ (p.sz.toNat ≤ addr.toNat ∨ p.sz.toNat < (addr.toNat+4)%2^32) := by
    rw [le_def,lt_def,toNat_add]
    rfl
  unfold Uaccess.fetchint fetchint
  by_cases h : p.sz ≤ addr ∨ p.sz < addr+4
  · rw [if_pos h,if_pos (htest.mp h)]
  · rw [if_neg h,if_neg (mt htest.mpr h),hm,hm,Bool.and_self,if_pos rfl,hp]
    exact congrArg Except.ok (toNat_word m.mem addr.toNat).symm

/-- And so is its `argptr`. -/
lemma argptr_refines (n : ℕ) (size : BitVec 32) : Uaccess.argptr m p.sz.toNat p.esp.toNat n size.toNat =
      match argptr p (BitVec.ofNat 32 n) size with
      | some q => .ok (.buf q.toNat size.toNat)
      | none => .error .fail := by
  have haddr : (p.esp.toNat+4+4*n)%2^32 = (argAddr p (BitVec.ofNat 32 n)).toNat := by
    have h4 : (4 : BitVec 32).toNat = 4 := rfl
    simp only [argAddr,BitVec.toNat_add,BitVec.toNat_mul,BitVec.toNat_ofNat,h4]
    omega
  have hint : Uaccess.argint m p.sz.toNat p.esp.toNat n =
      match argint p (BitVec.ofNat 32 n) with
      | some v => .ok v.toNat
      | none => .error .fail := by
    rw [Uaccess.argint,haddr]
    exact fetchint_refines hm hp _
  unfold Uaccess.argptr argptr
  rw [hint]
  rcases argint p (BitVec.ofNat 32 n) with _ | i
  · rfl
  · have hsize := toInt_eq_toNat_cond size
    have htest : (size.toInt < 0 ∨ p.sz ≤ i ∨ p.sz < i+size) ↔
        (2^31 ≤ size.toNat ∨ p.sz.toNat ≤ i.toNat ∨ p.sz.toNat < (i.toNat+size.toNat)%2^32) := by
      rw [le_def,lt_def,toNat_add]
      split_ifs at hsize <;> omega
    rw [bind_some]
    by_cases h : size.toInt < 0 ∨ p.sz ≤ i ∨ p.sz < i+size
    · rw [if_pos h]
      exact if_pos (htest.mp h)
    · rw [if_neg h]
      exact if_neg (mt htest.mpr h)

end

end Xv6Threads.Uaccess.Words
