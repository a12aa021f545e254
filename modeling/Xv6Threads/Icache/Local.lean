import Xv6Threads.Foundations.Rules
import Xv6Threads.Icache.Calls

/-! What a process knows in a call: its references, the file it uses, and the entries that it has locked, with their
fields and those of their dinodes. The calls keep to the rules for this knowledge; above all an entry is unlocked only
when its fields are those of its dinode. -/
namespace Xv6Threads.Icache
open Function Prog

/-- Every block below the size has an address; of those after the direct ones, the indirect block. -/
def NoHoles (x : Inode) : Prop := ∀ bn, bn*512 < x.size → x.addrs (addrOf bn) ≠ 0

/-- An entry that a process has locked: not looked at yet, or with its fields `x` and those of the dinode. -/
inductive Held
  | fresh
  | known (x y : Inode)

structure Local where
  own : List Slot
  file : Option Slot
  held : Slot → Option Held

open Local

def Local.set (l : Local) (k : Slot) (h : Option Held) : Local := { l with held := update l.held k h }

/-- An inode as it is found on the disk. -/
def Good (x : Inode) : Prop := x.type ≠ 0 ∧ NoHoles x

def pre : Instr → Local → Prop
  | .idup k, l => k ∈ l.own
  | .acquiresleep k, l => k ∈ l.own ∨ l.file = some k
  | .load k, l | .valid k, l => l.held k = some .fresh
  | .fields k, l | .write k _, l | .invalidate k, l => ∃ x y, l.held k = some (.known x y)
  | .iupdate k, l => ∃ x y, l.held k = some (.known x y) ∧ y.type ≠ 0 ∧ NoHoles x
  | .releasesleep k, l => l.held k = some .fresh ∨ ∃ x, l.held k = some (.known x x) ∧ x.type ≠ 0
  | .drop k, l | .setIp _ k, l => k ∈ l.own ∧ l.held k = none
  | .claim _ type, _ => type ≠ 0
  | .useFile _, l | .fileclose _, l => l.file = none
  | .doneFile, l => ∀ k, l.file = some k → l.held k = none
  | _, _ => True

def post : (i : Instr) → Local → i.Reply → Local → Prop
  | .iget _, l, r, l' => l' = { l with own := r :: l.own }
  | .idup k, l, _, l' => l' = { l with own := k :: l.own }
  | .acquiresleep k, l, _, l' => l.held k = none ∧ l' = l.set k (some .fresh)
  | .releasesleep k, l, _, l' => l' = l.set k none
  | .load k, l, _, l' => ∃ x, Good x ∧ l' = l.set k (some (.known x x))
  | .fields k, l, r, l' => (∃ y, l.held k = some (.known r y)) ∧ l' = l
  | .valid k, l, r, l' => (r = false ∧ l' = l) ∨ (r = true ∧ ∃ x, Good x ∧ l' = l.set k (some (.known x x)))
  | .write k e, l, _, l' => ∃ x y, l.held k = some (.known x y) ∧ l' = l.set k (some (.known (e.apply x) y))
  | .iupdate k, l, _, l' => ∃ x y, l.held k = some (.known x y) ∧ l' = l.set k (some (.known x x))
  | .invalidate k, l, _, l' => l' = l.set k (some .fresh)
  | .drop k, l, _, l' | .setIp _ k, l, _, l' => l' = { l with own := l.own.erase k }
  | .balloc, l, r, l' => r ≠ (0 : ℕ) ∧ l' = l
  | .useFile _, l, r, l' => (r = none ∧ l' = l) ∨ ∃ k, r = some k ∧ l' = { l with file := some k }
  | .doneFile, l, _, l' => l' = { l with file := none }
  | .fileclose _, l, r, l' => (r = none ∧ l' = l) ∨ ∃ k, r = some k ∧ l' = { l with own := k :: l.own }
  | .stop, _, _, _ => False
  | _, l, _, l' => l' = l

def rules : Rules sig Local := ⟨pre,post⟩

variable {l : Local} {k : Slot} {x y : Inode}

lemma Local.set_self (h : l.held k = some (.known x y)) : l.set k (some (.known x y)) = l := by
  unfold set
  rw [← h,update_eq_self]

@[simp] lemma Local.set_held (h : Option Held) : (l.set k h).held k = h := update_self ..

lemma Local.set_ne {j : Slot} (hj : j ≠ k) (h : Option Held) : (l.set k h).held j = l.held j := update_of_ne hj ..

@[simp] lemma Local.set_set (h h' : Option Held) : (l.set k h).set k h' = l.set k h' := by simp [set]

lemma Local.set_none (h : l.held k = none) : l.set k none = l := by
  unfold set
  rw [← h,update_eq_self]

lemma Local.ne_none {h : Held} (hk : l.held k = some h) : l.held k ≠ none := by
  rw [hk]
  nofun

section
variable {α : Type} {Q : α → Local → Prop}

lemma meets_fields {f : Inode → Code α} (hk : l.held k = some (.known x y)) (h : (f x).meets rules Q l) :
    (fields k >>= f).meets rules Q l := by
  refine meets_op ⟨x,y,hk⟩ fun r l' hl => ?_
  obtain ⟨⟨y',hr⟩,rfl⟩ := hl
  rw [hk] at hr
  cases hr
  exact h

variable {f : Unit → Code α}

lemma meets_write {e : Edit} (hk : l.held k = some (.known x y))
    (h : (f ()).meets rules Q (l.set k (some (.known (e.apply x) y)))) : (write k e >>= f).meets rules Q l := by
  refine meets_op ⟨x,y,hk⟩ fun r l' hl => ?_
  obtain ⟨x',y',hk',rfl⟩ := hl
  rw [hk] at hk'
  cases hk'
  exact h

lemma meets_iupdate (hk : l.held k = some (.known x y)) (hy : y.type ≠ 0) (hx : NoHoles x)
    (h : (f ()).meets rules Q (l.set k (some (.known x x)))) : (iupdate k >>= f).meets rules Q l := by
  refine meets_op ⟨x,y,hk,hy,hx⟩ fun r l' hl => ?_
  obtain ⟨x',y',hk',rfl⟩ := hl
  rw [hk] at hk'
  cases hk'
  exact h

lemma meets_stop : (stop >>= f).meets rules Q l := meets_op trivial fun _ _ h => h.elim

lemma meets_require {b : Bool} (h : b = true → (f ()).meets rules Q l) : (require b >>= f).meets rules Q l := by
  unfold require
  split_ifs with hb
  · exact h hb
  · exact meets_stop

lemma meets_claim {i t : ℕ} {f : Bool → Code α} (ht : t ≠ 0) (h : ∀ b, (f b).meets rules Q l) :
    (claim i t >>= f).meets rules Q l := meets_op ht fun r l' hl => by
    have hl : l' = l := hl
    rw [hl]
    exact h r

variable {f : ℕ → Code α}

lemma meets_choose (h : ∀ c, (f c).meets rules Q l) : (choose >>= f).meets rules Q l :=
  meets_op trivial fun r l' hl => by
    have hl : l' = l := hl
    rw [hl]
    exact h r

lemma meets_getRef (h : ∀ c, (f c).meets rules Q l) : (getRef k >>= f).meets rules Q l :=
  meets_op trivial fun r l' hl => by
    have hl : l' = l := hl
    rw [hl]
    exact h r

lemma meets_balloc (h : ∀ b, b ≠ 0 → (f b).meets rules Q l) : (balloc >>= f).meets rules Q l :=
  meets_op trivial fun r l' hl => by
    obtain ⟨hr,hl⟩ := hl
    rw [hl]
    exact h r hr

lemma meets_iget {i : ℕ} {f : Slot → Code α} (h : ∀ r, (f r).meets rules Q { l with own := r :: l.own }) :
    (iget i >>= f).meets rules Q l := meets_op trivial fun r l' hl => by
    have hl : l' = { l with own := r :: l.own } := hl
    rw [hl]
    exact h r

end

section
variable {Q : Unit → Local → Prop}

lemma meets_ilock (hk : k ∈ l.own ∨ l.file = some k)
    (h : l.held k = none → ∀ x, Good x → Q () (l.set k (some (.known x x)))) : (ilock k).meets rules Q l := by
  refine meets_op trivial fun _ l' hl => ?_
  obtain rfl : l' = l := hl
  refine meets_op hk fun _ l'' hl => ?_
  obtain ⟨hnone,rfl⟩ := hl
  refine meets_last (set_held _) fun _ l3 hl => ?_
  obtain ⟨x,hx,rfl⟩ := hl
  rw [set_set]
  exact h hnone x hx

lemma meets_iunlock (hk : l.held k = some (.known x x)) (hx : x.type ≠ 0) (h : Q () (l.set k none)) :
    (iunlock k).meets rules Q l := by
  refine meets_op trivial fun _ l' hl => ?_
  obtain rfl : l' = l := hl
  refine meets_last (.inr ⟨x,hk,hx⟩) fun _ l'' hl => ?_
  obtain rfl : l'' = _ := hl
  exact h

lemma meets_truncLoop {as : List (Fin 13)} (hk : l.held k = some (.known x y))
    (h : ∀ x', x'.type = x.type → Q () (l.set k (some (.known x' y)))) : (truncLoop k as).meets rules Q l := by
  induction as generalizing l x with
  | nil =>
    have := h x rfl
    rwa [set_self hk] at this
  | cons a as ih =>
    refine meets_fields hk ?_
    split_ifs
    · refine meets_write hk (ih (set_held _) fun x' hx' => ?_)
      rw [set_set]
      exact h x' hx'
    · exact ih hk h

lemma meets_itrunc (hk : l.held k = some (.known x x)) (hx : x.type ≠ 0)
    (h : ∀ x', Good x' → Q () (l.set k (some (.known x' x')))) : (itrunc k).meets rules Q l := by
  refine meets_bind (meets_truncLoop hk fun x' hx' => meets_write (set_held _) ?_)
  have hgood : Good { x' with size := 0 } := ⟨fun h0 => hx (hx'.symm.trans h0),fun bn hbn => by cases hbn⟩
  refine meets_last ⟨_,_,set_held _,hx,hgood.2⟩ fun _ l' hl => ?_
  obtain ⟨x1,y1,h1,rfl⟩ := hl
  rw [set_held] at h1
  cases h1
  rw [set_set,set_set]
  exact h _ hgood

lemma meets_iputFree (hk : l.held k = some (.known x x)) (hx : Good x)
    (h : ∀ o, (o = .fresh ∨ ∃ x, Good x ∧ o = .known x x) → Q () (l.set k (some o))) : (iputFree k).meets rules Q l := by
  have hsame : Q () l := by
    have := h (.known x x) (.inr ⟨x,hx,rfl⟩)
    rwa [set_self hk] at this
  refine meets_fields hk ?_
  split_ifs
  · refine meets_getRef fun r => ?_
    split_ifs
    · refine meets_bind (meets_itrunc hk hx.1 fun x' hx' => meets_write (set_held _) ?_)
      refine meets_iupdate (set_held _) hx'.1 hx'.2 (meets_last ⟨_,_,set_held _⟩ fun _ l' hl => ?_)
      obtain rfl : l' = _ := hl
      simp only [set_set]
      exact h _ (.inl rfl)
    · exact hsame
  · exact hsame

lemma meets_iput (hk : k ∈ l.own) (h : l.held k = none → Q () { l with own := l.own.erase k }) :
    (iput k).meets rules Q l := by
  refine meets_op (.inl hk) fun _ l' hl => ?_
  obtain ⟨hnone,rfl⟩ := hl
  have hrest : ∀ o, (o = .fresh ∨ ∃ x, Good x ∧ o = .known x x) →
      (releasesleep k >>= fun _ => drop k).meets rules Q (l.set k (some o)) := by
    intro o ho
    refine meets_op ?_ fun _ l' hl => ?_
    · rcases ho with rfl | ⟨x,hx,rfl⟩
      · exact .inl (set_held _)
      · exact .inr ⟨x,set_held _,hx.1⟩
    · obtain rfl : l' = _ := hl
      rw [set_set,set_none hnone]
      refine meets_last ⟨hk,hnone⟩ fun _ l' hl => ?_
      obtain rfl : l' = _ := hl
      exact h hnone
  refine meets_op (set_held _) fun v l' hl => ?_
  rcases hl with ⟨rfl,rfl⟩ | ⟨rfl,x,hx,rfl⟩
  · exact hrest .fresh (.inl rfl)
  · rw [set_set]
    refine meets_bind (meets_iputFree (set_held _) hx fun o ho => ?_)
    rw [set_set]
    exact hrest o ho

end

section
variable {Q : Unit → Local → Prop}

/-- Addresses are filled in where there were none. -/
structure Grown (x x' : Inode) : Prop where
  size : x'.size = x.size
  type : x'.type = x.type
  addrs : ∀ a, x.addrs a ≠ 0 → x'.addrs a = x.addrs a

lemma Grown.trans {x x' x'' : Inode} (h : Grown x x') (h' : Grown x' x'') : Grown x x'' :=
  ⟨h'.size.trans h.size,h'.type.trans h.type,fun a ha => by
    have h1 := h.addrs a ha
    rw [h'.addrs a (by rwa [h1]),h1]⟩

lemma meets_bmap {bn : ℕ} (hk : l.held k = some (.known x y))
    (h : ∀ x', Grown x x' → x'.addrs (addrOf bn) ≠ 0 → (x.addrs (addrOf bn) ≠ 0 → x' = x) →
      Q () (l.set k (some (.known x' y)))) : (bmap k bn).meets rules Q l := by
  unfold bmap
  split_ifs
  · refine meets_fields hk ?_
    split_ifs with h0
    · refine meets_balloc fun b hb => ?_
      refine meets_last ⟨x,y,hk⟩ fun _ l' hl => ?_
      obtain ⟨x1,y1,h1,rfl⟩ := hl
      rw [hk] at h1
      cases h1
      refine h _ ⟨rfl,rfl,fun a ha => ?_⟩ ?_ fun hne => absurd h0 hne
      · refine update_of_ne ?_ _ _
        rintro rfl
        exact ha h0
      · change update x.addrs (addrOf bn) b (addrOf bn) ≠ 0
        rwa [update_self]
    · have := h x ⟨rfl,rfl,fun _ _ => rfl⟩ h0 fun _ => rfl
      rwa [set_self hk] at this
  · exact meets_last trivial fun _ _ h => h.elim

lemma meets_chunks {j off n : ℕ} (hj : n ≤ j) (hk : l.held k = some (.known x y))
    (h : ∀ x', Grown x x' → (∀ bn, 0 < n → off < bn*512+512 → bn*512 < off+n → x'.addrs (addrOf bn) ≠ 0) →
      ((∀ bn, 0 < n → off < bn*512+512 → bn*512 < off+n → x.addrs (addrOf bn) ≠ 0) → x' = x) →
      Q () (l.set k (some (.known x' y)))) : (chunks k j off n).meets rules Q l := by
  induction j generalizing l x off n with
  | zero =>
    obtain rfl : n = 0 := Nat.le_zero.mp hj
    have := h x ⟨rfl,rfl,fun _ _ => rfl⟩ (fun bn h0 _ _ => by omega) fun _ => rfl
    rwa [set_self hk] at this
  | succ j ih =>
    unfold chunks
    split_ifs with hn
    · have := h x ⟨rfl,rfl,fun _ _ => rfl⟩ (fun bn h0 _ _ => by omega) fun _ => rfl
      rwa [set_self hk] at this
    · refine meets_bind (meets_bmap hk fun x1 hg1 ha1 he1 => ih (by omega) (set_held _) fun x2 hg2 ha2 he2 => ?_)
      rw [set_set]
      refine h x2 (hg1.trans hg2) (fun bn _ h1 h2 => ?_) fun hall => ?_
      · by_cases hbn : bn = off/512
        · rw [hbn,hg2.addrs _ ha1]
          exact ha1
        · exact ha2 bn (by omega) (by omega) (by omega)
      · obtain rfl := he1 (hall (off/512) (by omega) (by omega) (by omega))
        exact he2 fun bn h0 h1 h2 => hall bn (by omega) (by omega) (by omega)

section
variable (hk : l.held k = some (.known x x)) (hx : Good x) (ho : k ∈ l.own ∨ l.file = some k)
include hk hx ho

lemma meets_device (h : ∀ x', Good x' → Q () (l.set k (some (.known x' x')))) : (device k).meets rules Q l := by
  refine meets_choose fun c => ?_
  split_ifs
  · refine meets_bind (meets_iunlock hk hx.1 (meets_ilock ho fun _ x' hx' => ?_))
    rw [set_set]
    exact h x' hx'
  · have := h x hx
    rwa [set_self hk] at this

lemma meets_readi {off n : ℕ} (h : ∀ x', Good x' → (x.type = tDev ∨ x' = x) → Q () (l.set k (some (.known x' x')))) :
    (readi k off n).meets rules Q l := by
  refine meets_fields hk ?_
  split_ifs with hdev hbad
  · exact meets_device hk hx ho fun x' hx' => h x' hx' (.inl hdev)
  · have := h x hx (.inr rfl)
    rwa [set_self hk] at this
  · refine meets_chunks le_rfl hk fun x' _ _ hsame => ?_
    obtain rfl := hsame fun bn _ _ hbn => hx.2 bn (by omega)
    exact h x' hx (.inr rfl)

lemma meets_writei {off n : ℕ} {Q : Bool → Local → Prop} (h : ∀ b x', Good x' → Q b (l.set k (some (.known x' x')))) :
    (writei k off n).meets rules Q l := by
  refine meets_fields hk ?_
  split_ifs with hdev hbad
  · exact meets_bind (meets_device hk hx ho fun x' hx' => h true x' hx')
  · have := h false x hx
    rwa [set_self hk] at this
  · refine meets_bind (meets_chunks le_rfl hk fun x1 hg hall hsame => meets_fields (set_held _) ?_)
    split_ifs with hn
    · have hgood : Good { x1 with size := off+n } := by
        refine ⟨by rw [hg.type]; exact hx.1,fun bn hbn => ?_⟩
        have hbn : bn*512 < off+n := hbn
        by_cases hsize : bn*512 < x.size
        · have := hx.2 bn hsize
          rw [← hg.addrs _ this] at this
          exact this
        · exact hall bn hn.1 (by omega) hbn
      refine meets_write (set_held _) (meets_iupdate (set_held _) hx.1 hgood.2 ?_)
      simp only [set_set]
      exact h true _ hgood
    · rw [hg.size] at hn
      obtain rfl := hsame fun bn h0 _ hbn => hx.2 bn (by omega)
      exact h true x1 hx

variable {Q : Option (ℕ × ℕ) → Local → Prop}

lemma meets_scan {j off : ℕ}
    (hd : x.type = tDir) (h : ∀ r, Q r l) : (scan k j off).meets rules Q l := by
  induction j generalizing off with
  | zero => exact h none
  | succ j ih =>
    refine meets_fields hk ?_
    split_ifs
    · refine meets_bind (meets_readi hk hx ho fun x' _ hx' => ?_)
      obtain rfl : x' = x := hx'.resolve_left (by rw [hd]; decide)
      rw [set_self hk]
      refine meets_choose fun c => ?_
      split_ifs
      · exact ih
      · exact h _
    · exact h none

lemma meets_scanAll (h : ∀ r, Q r l) : (scanAll k).meets rules Q l := by
  refine meets_fields hk ?_
  split_ifs with hd
  · exact meets_stop
  · exact meets_scan hk hx ho (not_not.mp hd) h

end

end

/-- The references are `o`, in some order, and `held` is what is locked. -/
structure At (l : Local) (o : List Slot) (f : Option Slot) (held : Slot → Option Held) : Prop where
  own : l.own.Perm o
  file : l.file = f
  held : l.held = held

section
variable {α : Type} {Q : α → Local → Prop} {o : List Slot} {f : Option Slot} {held : Slot → Option Held} {d : Slot}

lemma At.set {h : Option Held} (hA : At l o f held) : At (l.set k h) o f (update held k h) :=
  ⟨hA.own,hA.file,by rw [Local.set,hA.held]⟩

lemma At.mem (hA : At l o f held) (hk : k ∈ o ∨ f = some k) : k ∈ l.own ∨ l.file = some k :=
  hk.imp hA.own.mem_iff.mpr hA.file.trans

lemma At.cons (hA : At l o f held) : At { l with own := k :: l.own } (k :: o) f held := ⟨hA.own.cons k,hA.file,hA.held⟩

lemma At.erase (hA : At l (k :: o) f held) : At { l with own := l.own.erase k } o f held :=
  ⟨(hA.own.erase k).trans (by simp),hA.file,hA.held⟩

lemma At.perm {o' : List Slot} (hA : At l o f held) (h : o.Perm o') : At l o' f held := ⟨hA.own.trans h,hA.file,hA.held⟩

section
variable {Q : Unit → Local → Prop} (hA : At l o f held)
include hA

lemma at_ilock (hk : k ∈ o ∨ f = some k)
    (h : ∀ x l', Good x → held k = none → At l' o f (update held k (some (.known x x))) → Q () l') :
    (ilock k).meets rules Q l := meets_ilock (hA.mem hk) fun hnone x hx => h x _ hx (hA.held ▸ hnone) hA.set

lemma at_iunlock (hk : held k = some (.known x x)) (hx : Good x)
    (h : ∀ l', At l' o f (update held k none) → Q () l') : (iunlock k).meets rules Q l :=
  meets_iunlock (by rw [hA.held,hk]) hx.1 (h _ hA.set)

end

section
variable {Q : Unit → Local → Prop} (hA : At l (k :: o) f held)
include hA

lemma at_iput (h : ∀ l', At l' o f held → Q () l') :
    (iput k).meets rules Q l := meets_iput (hA.own.mem_iff.mpr List.mem_cons_self) fun _ => h _ hA.erase

lemma at_iunlockput (hk : held k = some (.known x x)) (hx : Good x)
    (h : ∀ l', At l' o f (update held k none) → Q () l') : (iunlockput k).meets rules Q l :=
  meets_bind (at_iunlock hA hk hx fun _ hA => at_iput hA h)

end

lemma at_fields {g : Inode → Code α} (hA : At l o f held) (hk : held k = some (.known x y))
    (h : (g x).meets rules Q l) : (fields k >>= g).meets rules Q l := meets_fields (by rw [hA.held,hk]) h

lemma at_change {g : Unit → Code α} {e : Edit} (hA : At l o f held) (hk : held k = some (.known x y)) (hy : y.type ≠ 0)
    (he : NoHoles (e.apply x)) (h : ∀ l', At l' o f (update held k (some (.known (e.apply x) (e.apply x)))) →
      (g ()).meets rules Q l') : (write k e >>= fun _ => iupdate k >>= g).meets rules Q l := by
  refine meets_write (by rw [hA.held,hk]) (meets_iupdate (set_held _) hy he ?_)
  rw [set_set]
  exact h _ hA.set

section
variable (hA : At l o f held) (hk : held k = some (.known x x)) (hx : Good x)
include hA hk hx

lemma at_dirlookup {Q : Option (Slot × ℕ) → Local → Prop} (ho : k ∈ o ∨ f = some k) (h1 : Q none l)
    (h2 : ∀ j off l', At l' (j :: o) f held → Q (some (j,off)) l') : (dirlookup k).meets rules Q l := by
  refine meets_bind (meets_scanAll (by rw [hA.held,hk]) hx (hA.mem ho) fun r => ?_)
  cases r with
  | none => exact h1
  | some a => exact meets_iget fun j => h2 j a.2 _ hA.cons

variable {Q : Bool → Local → Prop}

lemma at_writei {off n : ℕ} (ho : k ∈ o ∨ f = some k)
    (h : ∀ b x' l', Good x' → At l' o f (update held k (some (.known x' x'))) → Q b l') :
    (writei k off n).meets rules Q l :=
  meets_writei (by rw [hA.held,hk]) hx (hA.mem ho) fun b x' hx' => h b x' _ hx' hA.set

lemma at_dirlink (ho : k ∈ o ∨ f = some k)
    (h : ∀ b x' l', Good x' → At l' o f (update held k (some (.known x' x'))) → Q b l') :
    (dirlink k).meets rules Q l := by
  have hself : update held k (some (.known x x)) = held := by rw [← hk,update_eq_self]
  refine meets_bind (at_dirlookup hA hk hx ho ?_ fun j off l' hA => ?_)
  · refine meets_bind (meets_scanAll (by rw [hA.held,hk]) hx (hA.mem ho) fun e => at_fields hA hk ?_)
    exact meets_bind (at_writei hA hk hx ho fun b x' l' hx' hA => meets_require fun _ => h true x' l' hx' hA)
  · exact meets_bind (at_iput hA fun l' hA => h false x l' hx (by rwa [hself]))

end

end

end Xv6Threads.Icache
