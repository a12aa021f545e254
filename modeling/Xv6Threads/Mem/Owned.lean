import Xv6Threads.Foundations.Stock
import Xv6Threads.Mem.Model
import Xv6Threads.Vm.Spec

/-! Which page of memory is where: free, or the page of a directory, of one of its tables, of a user page, or in the
hand of a function that has yet to map it. -/
namespace Xv6Threads.Mem
open Function List Option Pte
open Vm (pgSize kernBase pdx ptx phystop)

/-- The entry of page `v` is in this table. -/
def di (v : ℕ) : Fin 1024 := ⟨v/1024%1024,Nat.mod_lt _ (by decide)⟩

/-- The entry of page `v` is this one of its table. -/
def ti (v : ℕ) : Fin 1024 := ⟨v%1024,Nat.mod_lt _ (by decide)⟩

/-- The entry of page `v`. -/
def ent (D : Dir) (v : ℕ) : Option Pte := if v < 2^20 then (D (di v)).bind (fun t => t.pte (ti v)) else none

section
variable {D : Dir} {v w : ℕ} {t : Tab}

lemma pd_page : pd (4096*v) = di v := by
  unfold pd di pdx
  ext
  simp only
  omega

lemma pt_page : pt (4096*v) = ti v := by
  unfold pt ti ptx
  ext
  simp only
  omega

lemma ent_of_tab (hv : v < 2^20) (ht : D (di v) = some t) : ent D v = t.pte (ti v) := by
  rw [ent,if_pos hv,ht]
  rfl

lemma ent_of_none (ht : D (di v) = none) : ent D v = none := by
  unfold ent
  rw [ht]
  split_ifs <;> rfl

lemma ent_setPte (hv : v < 2^20) (ht : D (di v) = some t) (e : Option Pte) (w : ℕ) :
    ent (setPte D (4096*v) t e) w = if w = v then e else ent D w := by
  unfold setPte ent
  rw [pd_page,pt_page]
  by_cases hw : w < 2^20
  · rw [if_pos hw,if_pos hw]
    by_cases hd : di w = di v
    · rw [hd,update_self,ht]
      change update t.pte (ti v) e (ti w) = if w = v then e else t.pte (ti w)
      by_cases hm : ti w = ti v
      · have h1 := congrArg Fin.val hd
        have h2 := congrArg Fin.val hm
        unfold di at h1
        unfold ti at h2
        simp only at h1 h2
        rw [hm,update_self,if_pos (by omega)]
      · rw [update_of_ne hm,if_neg (by rintro rfl; exact hm rfl)]
    · rw [update_of_ne hd,if_neg (by rintro rfl; exact hd rfl)]
  · rw [if_neg hw,if_neg hw,if_neg (by omega)]

lemma setPte_page (ht : D (di v) = some t) (e : Option Pte) (i : Fin 1024) :
    (setPte D (4096*v) t e i).map Tab.page = (D i).map Tab.page := by
  unfold setPte
  rw [pd_page]
  by_cases hi : i = di v
  · rw [hi,update_self,ht]
    rfl
  · rw [update_of_ne hi]

lemma setPte_other {i : Fin 1024} (hi : i ≠ di v) (e : Option Pte) : setPte D (4096*v) t e i = D i := by
  rw [setPte,pd_page,update_of_ne hi]

lemma ent_newTab {i : Fin 1024} (hi : D i = none) (p w : ℕ) :
    ent (update D i (some ⟨p,fun _ => none⟩)) w = ent D w := by
  unfold ent
  by_cases hw : di w = i
  · rw [hw,update_self,hi]
    rfl
  · rw [update_of_ne hw]

lemma walk_false (m : Memory) : (walkpgdir D (4096*v) false m).1 = (D (di v)).map (fun t => (t,D)) := by
  unfold walkpgdir
  rw [pd_page]
  cases D (di v) <;> rfl

end

/-- What `kfree` takes. -/
structure Valid (f : ℕ) : Prop where
  aligned : f%pgSize = 0
  kernel : endAddr ≤ f+kernBase
  top : f < phystop

lemma Valid.pos {f : ℕ} (h : Valid f) : f ≠ 0 := by
  have := h.kernel
  unfold endAddr kernBase at this
  omega

lemma kfree_valid {f : ℕ} (h : Valid f) (m : Memory) : kfree f m = .ok (m.give f) := by
  unfold kfree
  have := h.kernel
  have := h.top
  rw [if_neg]
  simp only [h.aligned]
  omega

/-- Only the pages in `S` have been written or given back. -/
structure Changed (S : ℕ → Prop) (m m' : Memory) : Prop where
  page : ∀ f, ¬S f → m'.page f = m.page f
  free : ∀ f ∈ m'.free, f ∈ m.free ∨ S f
  deny : (∀ n, m.deny n = false) → ∀ n, m'.deny n = false

namespace Changed
variable {S T : ℕ → Prop} {m m1 m2 : Memory} {f : ℕ}

lemma refl (m : Memory) : Changed S m m := ⟨fun _ _ => rfl,fun _ h => .inl h,id⟩

lemma trans (h : Changed S m m1) (h' : Changed S m1 m2) : Changed S m m2 :=
  ⟨fun f hf => (h'.page f hf).trans (h.page f hf),fun f hf => (h'.free f hf).elim (h.free f) .inr,
    fun hd => h'.deny (h.deny hd)⟩

lemma mono (h : Changed S m m1) (hST : ∀ f, S f → T f) : Changed T m m1 :=
  ⟨fun f hf => h.page f (mt (hST f) hf),fun f hf => (h.free f hf).imp_right (hST f),h.deny⟩

lemma widen (h : Changed (fun _ => False) m m1) : Changed S m m1 := h.mono fun _ => False.elim

lemma taken (h : Changed (fun _ => False) m m1) : m1.page = m.page ∧ ∀ f ∈ m1.free, f ∈ m.free :=
  ⟨funext fun f => h.page f id,fun f hf => (h.free f hf).elim id False.elim⟩

lemma put (hf : S f) (c : Page) : Changed S m (m.put f c) :=
  ⟨fun g hg => update_of_ne (by rintro rfl; exact hg hf) ..,fun _ h => .inl h,id⟩

lemma give (hf : S f) : Changed S m (m.give f) := by
  refine ⟨fun g hg => update_of_ne (by rintro rfl; exact hg hf) ..,fun g hg => ?_,id⟩
  rcases mem_cons.mp hg with rfl | hg
  · exact .inr hf
  · exact .inl hg

end Changed

/-- Where a page may be. -/
inductive Place
  | dir
  | tab (i : Fin 1024)
  | user (v : ℕ)
  | hand
  deriving DecidableEq

/-- The pages at the places of a directory `D` that is in `page`. -/
def own (page : Option ℕ) (D : Dir) (hand : Option ℕ) : Place → Option ℕ
  | .dir => page
  | .tab i => (D i).map Tab.page
  | .user v => if v < 2^19 then (ent D v).map Pte.addr else none
  | .hand => hand

/-- The pages of `all` are free or at one place of the directory. -/
structure Kept (page : Option ℕ) (D : Dir) (hand : Option ℕ) (m : Memory) (all : ℕ → Prop) : Prop where
  stock : Stock (own page D hand) m.free all
  valid : ∀ f, all f → Valid f

/-- The directory without tables. -/
def noTabs : Dir := fun _ => none

lemma ent_noTabs (v : ℕ) : ent noTabs v = none := ent_of_none rfl

namespace Kept
variable {page hand : Option ℕ} {D E : Dir} {m m' : Memory} {all : ℕ → Prop} {v f : ℕ} {t : Tab} {e : Pte}

section
variable (h : Kept page D hand m all)
include h

lemma free_all (hf : f ∈ m.free) : all f := (h.stock.mem_iff f).mpr (.inl hf)

lemma own_all {p : Place} (hp : own page D hand p = some f) : all f := (h.stock.mem_iff f).mpr (.inr ⟨p,hp⟩)

lemma valid_free (hf : f ∈ m.free) : Valid f := h.valid f (h.free_all hf)

lemma valid_own {p : Place} (hp : own page D hand p = some f) : Valid f := h.valid f (h.own_all hp)

variable (hv : v < 2^19) (he : ent D v = some e)
include hv he

lemma valid_user : Valid e.addr := by
  refine h.valid_own (p := .user v) ?_
  simp only [own,if_pos hv,he,map_some]

lemma user_not_free : e.addr ∉ m.free := by
  refine h.stock.apart (p := .user v) ?_
  simp only [own,if_pos hv,he,map_some]

end

variable {fs : List ℕ}

lemma user_ne_head (h : Kept page D hand m all) (hm : m.free = f :: fs) (hv : v < 2^19)
    (he : ent D v = some e) : e.addr ≠ f := by
  rintro rfl
  refine h.user_not_free hv he ?_
  rw [hm]
  exact mem_cons_self

lemma user_inj (h : Kept page D hand m all) {w : ℕ} {e' : Pte} (hv : v < 2^19) (hw : w < 2^19) (he : ent D v = some e)
    (he' : ent D w = some e') (ha : e.addr = e'.addr) : v = w := by
  have hp : own page D hand (.user v) = some e.addr := by simp only [own,if_pos hv,he,map_some]
  have hq : own page D hand (.user w) = some e.addr := by simp only [own,if_pos hw,he',map_some,ha]
  exact Place.user.inj (h.stock.inj hp hq)

lemma congr {hand' : Option ℕ} {page' : Option ℕ} (h : Kept page D hand m all) (hf : m'.free = m.free)
    (ho : ∀ p, own page' E hand' p = own page D hand p) : Kept page' E hand' m' all := by
  refine ⟨?_,h.valid⟩
  rw [hf]
  exact h.stock.congr ho

lemma put (h : Kept page D hand m all) (f : ℕ) (c : Page) : Kept page D hand (m.put f c) all := h.congr rfl fun _ => rfl

lemma own_setPte (hv : v < 2^20) (ht : D (di v) = some t) (e : Option Pte) (p : Place) :
    own page (setPte D (4096*v) t e) hand p =
      if p = .user v ∧ v < 2^19 then e.map addr else own page D hand p := by
  cases p with
  | dir => simp [own]
  | hand => simp [own]
  | tab i => simp [own,setPte_page ht]
  | user w =>
    simp only [own,ent_setPte hv ht,Place.user.injEq]
    by_cases hw : w = v
    · subst hw
      by_cases h19 : w < 2^19
      · rw [if_pos h19,if_pos rfl,if_pos ⟨rfl,h19⟩]
      · rw [if_neg h19,if_neg fun h => h19 h.2,if_neg h19]
    · rw [if_neg hw,if_neg (show ¬(w = v ∧ v < 2^19) from fun h => hw h.1)]

lemma map (h : Kept page D (some f) m all) (hv : v < 2^19) (ht : D (di v) = some t) (hn : ent D v = none)
    (fl : Flags) : Kept page (setPte D (4096*v) t (some ⟨f,fl⟩)) none m all := by
  refine ⟨(h.stock.move (p := .hand) (q := .user v) rfl ?_).congr fun p => ?_,h.valid⟩
  · simp only [own,if_pos hv,hn,map_none]
  · rw [own_setPte (show v < 2^20 by omega) ht]
    cases p with
    | user w =>
      by_cases hw : w = v
      · subst hw
        rw [if_pos ⟨rfl,hv⟩]
        simp
      · simp [own,hw]
    | hand => simp [own]
    | dir => simp [own]
    | tab i => simp [own]

section
variable (h : Kept page D hand m all)
include h

lemma kernel (hv : v < 2^20) (hk : 2^19 ≤ v) (ht : D (di v) = some t) (e : Option Pte) :
    Kept page (setPte D (4096*v) t e) hand m all := by
  refine h.congr rfl fun p => ?_
  rw [own_setPte hv ht,if_neg (by omega)]

lemma flags (hv : v < 2^20) (ht : D (di v) = some t) {e' : Option Pte}
    (he : e'.map addr = (ent D v).map addr) : Kept page (setPte D (4096*v) t e') hand m all := by
  refine h.congr rfl fun p => ?_
  rw [own_setPte hv ht]
  split_ifs with hp
  · rw [hp.1,own,if_pos hp.2,he]
  · rfl

lemma unmap (hv : v < 2^19) (ht : D (di v) = some t) (he : ent D v = some e) :
    Kept page (setPte D (4096*v) t none) hand (m.give e.addr) all := by
  refine ⟨(h.stock.give (p := .user v) (f := e.addr) ?_).congr fun p => ?_,h.valid⟩
  · simp only [own,if_pos hv,he,map_some]
  · rw [own_setPte (show v < 2^20 by omega) ht]
    by_cases hp : p = .user v
    · rw [if_pos ⟨hp,hv⟩,hp,update_self]
      rfl
    · rw [update_of_ne hp,if_neg (fun h => hp h.1)]

end

lemma drop (h : Kept page D (some f) m all) : Kept page D none (m.give f) all := by
  refine ⟨(h.stock.give (p := .hand) rfl).congr fun p => ?_,h.valid⟩
  cases p <;> simp [own]

lemma grab (h : Kept page D none m all) (hm : m.free = f :: fs) (hf : m'.free = fs) : Kept page D (some f) m' all := by
  refine ⟨?_,h.valid⟩
  have hs := h.stock
  rw [hm] at hs
  rw [hf]
  refine (hs.take (p := .hand) rfl).congr fun p => ?_
  cases p <;> simp [own]

lemma table {i : Fin 1024} (h : Kept page D hand m all) (hm : m.free = f :: fs) (hf : m'.free = fs)
    (hi : D i = none) : Kept page (update D i (some ⟨f,fun _ => none⟩)) hand m' all := by
  refine ⟨?_,h.valid⟩
  have hs := h.stock
  rw [hm] at hs
  rw [hf]
  refine (hs.take (p := .tab i) ?_).congr fun p => ?_
  · simp only [own,hi,map_none]
  · cases p with
    | tab j =>
      by_cases hj : j = i
      · simp [own,hj]
      · simp [own,hj,update_of_ne]
    | user w => simp [own,ent_newTab hi]
    | dir => simp [own]
    | hand => simp [own]

lemma untable {i : Fin 1024} (h : Kept page D hand m all) (hi : D i = some t)
    (hn : ∀ w < 2^19, ent D w = none) : Kept page (update D i none) hand (m.give t.page) all := by
  refine ⟨(h.stock.give (p := .tab i) (f := t.page) ?_).congr fun p => ?_,h.valid⟩
  · simp only [own,hi,map_some]
  · cases p with
    | tab j =>
      by_cases hj : j = i
      · simp [own,hj]
      · simp [own,hj,update_of_ne]
    | user w =>
      have hent : w < 2^19 → ent (update D i none) w = none := fun hw => by
        by_cases hd : di w = i
        · exact ent_of_none (by rw [hd,update_self])
        · rw [← hn w hw]
          unfold ent
          rw [update_of_ne hd]
      by_cases hw : w < 2^19
      · simp [own,hent hw,hn w hw]
      · rw [update_of_ne (by nofun)]
        simp only [own,if_neg hw]
    | dir => simp [own]
    | hand => simp [own]

lemma undir (h : Kept (some f) D hand m all) : Kept none D hand (m.give f) all := by
  refine ⟨(h.stock.give (p := .dir) rfl).congr fun p => ?_,h.valid⟩
  cases p <;> simp [own]

lemma newDir (h : Kept none noTabs (some f) m all) : Kept (some f) noTabs none m all := by
  refine ⟨(h.stock.move (p := .hand) (q := .dir) rfl rfl).congr fun p => ?_,h.valid⟩
  cases p <;> simp [own]

lemma start (hn : m.free.Nodup) (hv : ∀ f ∈ m.free, Valid f) : Kept none noTabs none m (· ∈ m.free) := by
  have hown : ∀ p, own none noTabs none p = none := fun p => by
    cases p <;> simp [own,noTabs,ent_noTabs]
  refine ⟨⟨hn,fun hp => ?_,fun hp => ?_,fun f => ?_⟩,hv⟩
  · rw [hown] at hp
    cases hp
  · rw [hown] at hp
    cases hp
  · simp [hown]

lemma perm (h : Kept none noTabs none m all) (h' : Kept none noTabs none m' all) : m'.free.Perm m.free := by
  refine h.stock.perm h'.stock fun p => ?_
  cases p <;> simp [own,noTabs,ent_noTabs]

end Kept

/-- There are no more pages than for the directory, its tables, one page in hand and `n` user pages. -/
def Scarce (all : ℕ → Prop) (n : ℕ) : Prop := ∀ l : List ℕ, l.Nodup → (∀ f ∈ l, all f) → l.length ≤ n+1026

lemma Kept.scarce {page hand : Option ℕ} {D : Dir} {m : Memory} {all : ℕ → Prop} {n : ℕ}
    (h : Kept page D hand m all) (hm : m.free = []) (hn : ∀ w, n ≤ w → w < 2^19 → ent D w = none) : Scarce all n := by
  intro l hl hall
  let places : List Place := .dir :: .hand :: ((finRange 1024).map .tab ++ (range n).map .user)
  have hsub : l ⊆ places.map fun p => (own page D hand p).getD 0 := by
    intro f hf
    have := (h.stock.mem_iff f).mp (hall f hf)
    rw [hm] at this
    obtain hf | ⟨p,hp⟩ := this
    · cases hf
    refine mem_map.mpr ⟨p,?_,by rw [hp]; rfl⟩
    cases p with
    | dir => simp [places]
    | hand => simp [places]
    | tab i => simp [places]
    | user w =>
      have hw : w < n := by
        by_contra hw
        simp only [own] at hp
        split_ifs at hp with h19
        rw [hn w (by omega) h19] at hp
        cases hp
      simp [places,hw]
  have hle := (subperm_of_subset hl hsub).length_le
  simp only [places,length_map,length_cons,length_append,length_finRange,length_range] at hle
  omega

end Xv6Threads.Mem
