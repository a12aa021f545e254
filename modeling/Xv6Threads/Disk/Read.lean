import Xv6Threads.Disk.Kernel
import Xv6Threads.Disk.Layout

/-! Reading a file that is on the disk: no block is allocated, and the bytes are the contents. -/
namespace Xv6Threads.Disk
open List Option Nat

variable {s : Store} {next : ℕ} {ip : Dinode} {n : Node}

section
variable (h : Rep s.img next ip.addrs n)
include h

lemma bmap_old {bn : ℕ} (hb : bn < n.blocks.length) : bmap s ip bn = some (n.blocks.getD bn 0,s,ip) := by
  have hmax := h.max
  have hpos := (h.block_range hb).1
  unfold bmap slot
  by_cases hd : bn < 12
  · rw [if_pos hd,h.direct bn hd,if_neg (by omega)]
  · obtain ⟨b,hi⟩ := isSome_iff_exists.mp (h.isSome (by omega))
    have hb0 := (h.range b (Node.ind_mem hi)).1
    have hind := h.ind
    rw [hi,getD_some] at hind
    have hent := h.table b hi (bn-12) (by omega)
    rw [show 12+(bn-12) = bn by omega] at hent
    rw [if_neg hd,if_pos (show bn-12 < 128 by omega),hind,if_neg (by omega),bind_some]
    dsimp only
    rw [hent,if_neg (by omega)]

lemma Rep.bytes {off m : ℕ} (hm : off%512+m ≤ 512) (hlen : off+m ≤ n.content.length) :
    (List.range m).map (fun j => s.img (n.blocks.getD (off/512) 0) (off%512+j)) = (n.content.drop off).take m := by
  refine ext_getElem (by simp; omega) fun j hj _ => ?_
  rw [length_map,length_range] at hj
  have hdata := h.data (off+j) (by omega)
  rw [show (off+j)/512 = off/512 by omega,show (off+j)%512 = off%512+j by omega,getD_eq_getElem n.content 0 (by omega)] at hdata
  rw [getElem_map,getElem_range,hdata,getElem_take,getElem_drop]

lemma readLoop_spec {k off len : ℕ} (hk : len ≤ k) (hlen : off+len ≤ n.content.length) :
    readLoop k s ip off len = some ((n.content.drop off).take len,s,ip) := by
  have hfits := h.fits
  induction k generalizing off len with
  | zero =>
    obtain rfl := le_zero.mp hk
    rfl
  | succ k ih =>
    cases len with
    | zero => rfl
    | succ len =>
      unfold readLoop
      dsimp only
      generalize hm : min (len+1) (512-off%512) = m
      rw [bmap_old h (show off/512 < n.blocks.length by omega),bind_some]
      dsimp only
      have hsplit : (n.content.drop off).take (len+1) =
          (n.content.drop off).take m++(n.content.drop (off+m)).take (len+1-m) := by
        rw [← drop_drop,← take_add,show m+(len+1-m) = len+1 by omega]
      rw [ih (by omega) (by omega),map_some,h.bytes (by omega) (by omega),hsplit]

lemma readi_spec {off len : ℕ} (hlen : off+len ≤ n.content.length)
    (hsize : n.content.length ≤ ip.size) : readi s ip off len = some (some ((n.content.drop off).take len),s,ip) := by
  have hfits := h.fits
  have hmax := h.max
  unfold readi
  rw [if_neg (by omega)]
  dsimp only
  rw [if_neg (by omega),readLoop_spec h le_rfl hlen]
  rfl

end

variable {es : List (List UInt8)}

lemma length_flatten_of {l : ℕ} (h : ∀ x ∈ es, x.length = l) : es.flatten.length = l*es.length := by
  induction es with
  | nil => rfl
  | cons x xs ih =>
    rw [flatten_cons,length_append,h x mem_cons_self,ih fun y hy => h y (mem_cons_of_mem _ hy),
      length_cons,mul_succ,add_comm]

lemma flatten_slice {l j : ℕ} {x : List UInt8} (h : ∀ x ∈ es, x.length = l) (hj : es[j]? = some x) :
    (es.flatten.drop (l*j)).take l = x := by
  induction es generalizing j with
  | nil => cases hj
  | cons y ys ih =>
    have hy := h y mem_cons_self
    cases j with
    | zero =>
      cases hj
      rw [mul_zero,drop_zero,flatten_cons,← hy,take_left]
    | succ j =>
      rw [flatten_cons,mul_succ,add_comm,← drop_drop,← hy,drop_left,hy]
      exact ih (fun z hz => h z (mem_cons_of_mem _ hz)) hj

lemma lookupLoop_spec {name : List UInt8} {i : ℕ} {e : List UInt8}
    (h : Rep s.img next ip.addrs n) (hc : n.content = es.flatten) (h16 : ∀ x ∈ es, x.length = 16)
    (hsize : n.content.length ≤ ip.size) (hi : es[i]? = some e) (hinum : direntInum e ≠ 0)
    (hname : Fs.namecmp name (e.drop 2) = 0) (hfirst : ∀ j x, es[j]? = some x → j < i → Fs.namecmp name (x.drop 2) ≠ 0)
    {k j : ℕ} (hk : i < j+k) (hj : j ≤ i) : lookupLoop name k s ip (16*j) = some (some (direntInum e,16*i),s,ip) := by
  have hlen : n.content.length = 16*es.length := by rw [hc,length_flatten_of h16]
  have hilen := (List.getElem?_eq_some_iff.mp hi).1
  induction k generalizing j with
  | zero => omega
  | succ k ih =>
    obtain ⟨x,hx⟩ : ∃ x, es[j]? = some x := ⟨_,List.getElem?_eq_getElem (by omega)⟩
    have hxlen := h16 x (mem_of_getElem? hx)
    have hread : readi s ip (16*j) 16 = some (some x,s,ip) := by
      rw [readi_spec h (by omega) hsize,hc,flatten_slice h16 hx]
    unfold lookupLoop
    rw [if_pos (by omega),hread,bind_some]
    dsimp only
    rw [if_neg (fun hne => hne hxlen)]
    by_cases hji : j = i
    · subst hji
      rw [hi] at hx
      cases hx
      rw [if_pos ⟨hinum,hname⟩]
    · rw [if_neg fun hm => hfirst j x hx (by omega) hm.2]
      exact ih (show i < j+1+k by omega) (by omega)

end Xv6Threads.Disk
