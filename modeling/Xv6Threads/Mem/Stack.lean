import Xv6Threads.Mem.Ready

/-! The arguments on the new stack. A copy that returns 0 has stayed above the guard page, whatever the lengths are. -/
namespace Xv6Threads.Mem
open List Option Except Nat
open Vm (pgSize kernBase word pgRoundDown kmap)
open Vm.Loader (File below Gap gap_page kmap_covers)

section
variable {page n : ℕ} {all : ℕ → Prop} {f : File} {K D : Dir} {m0 m m1 m2 : Memory} {sys : ℕ → Bool} {a va sp : ℕ}
  {c : Running} {buf : List UInt8}

lemma Ready.phys_place (hR : Ready page all f K m0 n D m) {g o : ℕ} (h : phys D a = some (g,o)) :
    a/4096 < 2^19 ∧ all g := by
  obtain ⟨e,he,hu,hg,-⟩ := phys_eq_some.mp h
  have h19 : a/4096 < 2^19 := by
    by_contra hn
    rw [hR.kernel _ (by omega)] at he
    rw [(kent_kernel he).2.2] at hu
    cases hu
  refine ⟨h19,hg ▸ hR.kept.own_all (p := .user (a/4096)) ?_⟩
  simp only [own,if_pos h19,he,map_some]

lemma Direct.with (h : Direct c) (page : ℕ) (D : Dir) : Direct (c.with page D) := h

lemma Running.with_sys {g : ℕ} (h : c.sys g = false) (hpage : g ≠ page) (htab : ∀ i t, D i = some t → t.page ≠ g) :
    (c.with page D).sys g = false := by
  simp only [Running.with,h,hpage,Bool.false_or,decide_false,List.any_eq_false]
  intro i _
  cases ht : D i with
  | none => simp
  | some t => simpa using htab i t ht

section
variable (hR : Ready page all f K m0 n D m)
include hR

lemma Ready.proper (old : Dir) (hsys : ∀ g, all g → sys g = false) : Proper (Running.with ⟨old,sys⟩ page D) D := by
  have hplace : ∀ {w e}, ent D w = some e → e.flags.u = true → w < 2^19 := fun {w e} he hu => by
    by_contra hn
    rw [hR.kernel _ (by omega)] at he
    rw [(kent_kernel he).2.2] at hu
    cases hu
  refine ⟨fun {w e} he hu => ?_,fun he he' hu hu' ha => hR.kept.user_inj (hplace he hu) (hplace he' hu') he he' ha⟩
  have hown : own (some page) D none (.user w) = some e.addr := by simp only [own,if_pos (hplace he hu),he,map_some]
  refine ⟨hR.kept.valid_own hown,?_⟩
  have h1 := hsys _ (hR.kept.own_all hown)
  have h2 : e.addr ≠ page := fun h => by
    cases hR.kept.stock.inj hown (q := .dir) (congrArg some h.symm)
  have h3 : ∀ i t, D i = some t → t.page ≠ e.addr := fun i t ht h => by
    cases hR.kept.stock.inj hown (q := .tab i) (by simp only [own,ht,map_some,h])
  exact Running.with_sys (c := ⟨old,sys⟩) h1 h2 h3

lemma Ready.tab (ha : a < 4096*(n+2)) : D (di (a/4096)) ≠ none := by
  have hs := hR.small
  unfold kernBase at hs
  intro h
  have := (hR.pages (a/4096) (by omega)).mpr (by omega)
  rw [ent_of_none h] at this
  cases this

lemma Ready.guard (h1 : 4096*n ≤ a) (h2 : a < 4096*(n+1)) : phys D a = none := by
  have hs := hR.small
  unfold kernBase at hs
  unfold phys
  cases he : ent D (a/4096) with
  | none => rfl
  | some e =>
    have := hR.user _ e (by omega) he
    rw [bind_some,if_neg (by rw [this]; omega)]

lemma Ready.kern (h1 : kernBase ≤ a) (h2 : a < word) (hg : ¬Gap a) : phys D a = none ∧ D (di (a/4096)) ≠ none := by
  have hk := hR.kernel (a/4096) (by unfold kernBase at h1; omega)
  have hsome : kent kmap (a/4096) ≠ none := fun hnone => by
    obtain ⟨k,hk,hv,hv',-⟩ := kmap_covers (a := 4096*(a/4096)) (by unfold kernBase at *; omega) (by omega)
      (fun h => hg (gap_page.mp h))
    have := find?_eq_none.mp (map_eq_none_iff.mp hnone) k hk
    exact this (decide_eq_true ⟨hv,hv'⟩)
  refine ⟨?_,fun h => hsome (hk.symm.trans (ent_of_none h))⟩
  obtain ⟨e,he⟩ := ne_none_iff_exists'.mp hsome
  rw [phys,hk,he,bind_some,if_neg (by rw [(kent_kernel he).2.2]; exact Bool.false_ne_true)]

lemma Ready.dev (h1 : 0xfe000000 ≤ a) (h2 : a < word) : phys D a = none ∧ D (di (a/4096)) ≠ none :=
  hR.kern (by unfold kernBase; omega) h2 fun hg => absurd hg.2 (Nat.not_lt.mpr h1)

end

/-- The address below `sp` to which `len` bytes are copied. -/
abbrev under (sp len : ℕ) : ℕ := 4*((sp+word-len)%word/4)

/-- What has been copied to below `sp` is above the guard page. -/
lemma Ready.above (hR : Ready page all f K m0 n D m) (h1 : 4096*(n+1) ≤ sp) (h2 : sp ≤ 4096*(n+2)) (hne : 0 < buf.length)
    (hlen : buf.length ≤ 2^31) (hS : Stored D (under sp buf.length) buf m1 m2 buf.length) :
    4096*(n+1) ≤ under sp buf.length ∧ under sp buf.length+buf.length ≤ sp := by
  have hs := hR.small
  unfold kernBase at hs
  -- It has not passed over an address that is not the user's.
  have hnot : ∀ i < buf.length, ∀ a, (under sp buf.length+i)%word = a → phys D a ≠ none := by
    rintro i hi _ rfl hnone
    obtain ⟨g,o,hp,-⟩ := hS.byte i hi
    rw [hp] at hnone
    cases hnone
  unfold under word at *
  by_cases hwrap : sp < buf.length
  · exfalso
    by_cases hdev : 0xfe000000 ≤ 4*((sp+2^32-buf.length)%2^32/4)
    · exact hnot 0 hne _ (by omega) (hR.dev hdev (by unfold word; omega)).1
    · exact hnot (0xfe000000-4*((sp+2^32-buf.length)%2^32/4)) (by omega) 0xfe000000 (by omega)
        (hR.dev (by omega) (by decide)).1
  · refine ⟨?_,by omega⟩
    by_contra hlow
    by_cases hin : 4096*n ≤ 4*((sp+2^32-buf.length)%2^32/4)
    · exact hnot 0 hne _ rfl (hR.guard (by omega) (by omega))
    · exact hnot (4096*n-4*((sp+2^32-buf.length)%2^32/4)) (by omega) (4096*n) (by omega) (hR.guard (by omega) (by omega))

variable {j : ℕ}

variable (hS : Stored D va buf m1 m2 j)
include hS

lemma Stored.kept (hK : Kept (some page) D none m1 all) : Kept (some page) D none m2 all :=
  hK.congr hS.free fun _ => rfl

lemma Stored.changed (hR : Ready page all f K m0 n D m) : Changed all m1 m2 := by
  refine ⟨fun g hg => funext fun o => hS.frame g o fun i _ h => hg (hR.phys_place h).2,fun g hg => .inl ?_,fun h => ?_⟩
  · rwa [← hS.free]
  · rwa [hS.deny]

end

section
variable {sp : ℕ} {s : List UInt8}

lemma cstring_eq (h : s.length < 2^31) : cstring s = s ++ [0] := by
  unfold cstring word
  rw [mod_eq_of_lt (by omega)]
  exact take_of_length_le (by simp)

lemma below_eq (h : s.length < 2^31) : below sp s.length = under sp (s ++ [0]).length := by
  unfold below under word
  rw [length_append,length_singleton,mod_eq_of_lt (show s.length+1 < 2^32 by omega)]

end

lemma words_length (vs : List ℕ) : (words vs).length = 4*vs.length := by
  induction vs with
  | nil => rfl
  | cons v vs ih =>
    simp only [words,length_cons,ih]
    omega

end Xv6Threads.Mem
