import Mathlib

/-! Doubly linked rings through a head, with insertion behind the head, removal, and the search for an
element in either direction. The pointer `none` is the head. -/
namespace Xv6Threads
open Function List

structure Links (α : Type) where
  next : Option α → Option α
  prev : Option α → Option α

namespace Links
variable {α : Type}

/-- The ring of the head alone. -/
def empty : Links α := ⟨fun _ => none,fun _ => none⟩

section
variable [DecidableEq α]

/-- Put `x` behind the head. -/
def insert (l : Links α) (x : α) : Links α :=
  let l := {l with next := update l.next (some x) (l.next none)}
  let l := {l with prev := update l.prev (some x) none}
  let l := {l with prev := update l.prev (l.next none) (some x)}
  {l with next := update l.next none (some x)}

/-- Take `x` out; its own pointers stay. -/
def remove (l : Links α) (x : α) : Links α :=
  let l := {l with prev := update l.prev (l.next (some x)) (l.prev (some x))}
  {l with next := update l.next (l.prev (some x)) (l.next (some x))}

end

/-- Follow `f` until an element passes the test, or back to the head. -/
def scan (f : Option α → Option α) (p : α → Bool) : ℕ → Option α → Option (Option α)
  | _,none => some none
  | 0,some _ => none
  | k+1,some x => if p x then some (some x) else scan f p k (f (some x))

def Joined (l : Links α) (x y : Option α) : Prop := l.next x = y ∧ l.prev y = x

/-- From the head around to the head, the elements in order. -/
structure IsRing (l : Links α) (order : List α) : Prop where
  nodup : order.Nodup
  chain : (none :: (order.map some++[none])).IsChain l.Joined

variable {l l' : Links α} {order : List α}

lemma isRing_empty : IsRing (empty : Links α) [] := ⟨nodup_nil,by simp [Joined,empty]⟩

/-- A stretch of the ring none of whose pointers has changed. -/
lemma chain_congr {c : List (Option α)} (h : c.IsChain l.Joined) (hn : ∀ x ∈ c.dropLast, l'.next x = l.next x)
    (hp : ∀ x ∈ c.tail, l'.prev x = l.prev x) : c.IsChain l'.Joined := by
  induction c with
  | nil => exact isChain_nil
  | cons x c ih =>
    cases c with
    | nil => exact isChain_singleton _
    | cons y c =>
      rw [isChain_cons_cons] at h ⊢
      refine ⟨⟨?_,?_⟩,ih h.2 (fun z hz => hn z ?_) fun z hz => hp z (mem_cons_of_mem _ hz)⟩
      · rw [hn x (by simp)]
        exact h.1.1
      · rw [hp y (by simp)]
        exact h.1.2
      · rw [dropLast_cons_cons]
        exact mem_cons_of_mem _ hz

lemma some_notMem_map {x : α} (h : x ∉ order) : some x ∉ order.map some := fun hm => by
  obtain ⟨y,hy,he⟩ := mem_map.mp hm
  cases he
  exact h hy

lemma nodup_around (h : order.Nodup) : (order.map some++[none]).Nodup := by
  rw [nodup_append']
  refine ⟨h.map (fun _ _ he => Option.some.inj he),nodup_singleton _,fun x hx hn => ?_⟩
  rw [mem_singleton] at hn
  subst hn
  obtain ⟨y,_,he⟩ := mem_map.mp hx
  cases he

section
variable [DecidableEq α] {x : α}

lemma IsRing.insert (h : IsRing l order) (hx : x ∉ order) : IsRing (l.insert x) (x :: order) := by
  refine ⟨nodup_cons.mpr ⟨hx,h.nodup⟩,?_⟩
  have hchain := h.chain
  have hnodup := nodup_around h.nodup
  have hnot : some x ∉ order.map some++[none] := by
    rw [mem_append,mem_singleton]
    rintro (hm | hm)
    · exact some_notMem_map hx hm
    · cases hm
  have hlast : ∀ z ∈ (order.map some++[none]).dropLast, z ≠ none := by
    rw [dropLast_concat]
    rintro z hz rfl
    obtain ⟨w,_,he⟩ := mem_map.mp hz
    cases he
  rw [map_cons,cons_append]
  -- the first element, or the head again if there is none
  cases hc : order.map some++[none] with
  | nil => cases append_ne_nil_of_right_ne_nil _ (cons_ne_nil _ _) hc
  | cons y c =>
    rw [hc] at hchain hnodup hnot hlast
    rw [isChain_cons_cons] at hchain
    obtain ⟨⟨hfirst,_⟩,hrest⟩ := hchain
    have hne : (none : Option α) ≠ some x := nofun
    have hy : y ≠ some x := fun he => hnot (he ▸ mem_cons_self)
    have hnext : ∀ z, z ≠ none → z ≠ some x → (l.insert x).next z = l.next z := by
      intro z hz hz'
      unfold Links.insert
      dsimp only
      rw [update_of_ne hz,update_of_ne hz']
    have hprev : ∀ z, z ≠ y → z ≠ some x → (l.insert x).prev z = l.prev z := by
      intro z hz hz'
      unfold Links.insert
      dsimp only
      rw [update_of_ne hne,hfirst,update_of_ne hz,update_of_ne hz']
    rw [isChain_cons_cons,isChain_cons_cons]
    refine ⟨⟨?_,?_⟩,⟨?_,?_⟩,chain_congr hrest (fun z hz => hnext z (hlast z hz) ?_) fun z hz => hprev z ?_ ?_⟩
    · unfold Links.insert
      dsimp only
      rw [update_self]
    · unfold Links.insert
      dsimp only
      rw [update_of_ne hne,hfirst,update_of_ne hy.symm,update_self]
    · unfold Links.insert
      dsimp only
      rw [update_of_ne (by simp),update_self,hfirst]
    · unfold Links.insert
      dsimp only
      rw [update_of_ne hne,hfirst,update_self]
    · rintro rfl
      exact hnot (dropLast_subset _ hz)
    · rintro rfl
      exact (nodup_cons.mp hnodup).1 hz
    · rintro rfl
      exact hnot (mem_cons_of_mem _ hz)

/-- The ring without `x`. -/
lemma IsRing.remove {xs ys : List α} (h : IsRing l (xs++x :: ys)) : IsRing (l.remove x) (xs++ys) := by
  have hnodup := h.nodup
  have hx : x ∉ xs++ys := (nodup_middle.mp hnodup |> nodup_cons.mp).1
  have hrest : (xs++ys).Nodup := (nodup_middle.mp hnodup |> nodup_cons.mp).2
  have hchain : ((none :: xs.map some)++some x :: (ys.map some++[none])).IsChain l.Joined := by
    have := h.chain
    rw [map_append,map_cons,append_assoc] at this
    exact this
  have hnodupA : (none :: xs.map some).Nodup := by
    refine nodup_cons.mpr ⟨fun hm => ?_,hrest.of_append_left.map fun _ _ he => Option.some.inj he⟩
    obtain ⟨w,_,he⟩ := mem_map.mp hm
    cases he
  have hnodupB := nodup_around hrest.of_append_right
  have hdisj : ∀ z ∈ xs.map some, z ∉ ys.map some++[none] := by
    intro z hz hz'
    obtain ⟨w,hw,rfl⟩ := mem_map.mp hz
    rcases mem_append.mp hz' with hz' | hz'
    · obtain ⟨v,hv,he⟩ := mem_map.mp hz'
      cases he
      exact (nodup_append'.mp hrest).2.2 hw hv
    · cases mem_singleton.mp hz'
  have hdisj' : ∀ z ∈ ys.map some, z ∉ none :: xs.map some := by
    intro z hz hz'
    rcases mem_cons.mp hz' with rfl | hz'
    · obtain ⟨w,_,he⟩ := mem_map.mp hz
      cases he
    · exact hdisj z hz' (mem_append_left _ hz)
  have hxB : some x ∉ ys.map some++[none] := by
    rw [mem_append,mem_singleton]
    rintro (hm | hm)
    · exact some_notMem_map (fun hm => hx (mem_append_right _ hm)) hm
    · cases hm
  refine ⟨hrest,?_⟩
  have hgoal : none :: ((xs++ys).map some++[none]) = (none :: xs.map some)++(ys.map some++[none]) := by
    rw [map_append,append_assoc,cons_append]
  rw [hgoal]
  -- what stands before and after `x`
  obtain ⟨A,p,hA⟩ : ∃ A p, none :: xs.map some = A++[p] := ⟨_,_,(dropLast_append_getLast (cons_ne_nil _ _)).symm⟩
  cases hB : ys.map some++[none] with
  | nil => cases append_ne_nil_of_right_ne_nil _ (cons_ne_nil _ _) hB
  | cons q B =>
    have hBlast : ∀ z ∈ (q :: B).dropLast, z ∈ ys.map some := by
      rw [← hB,dropLast_concat]
      exact fun z hz => hz
    have hAtail : ∀ z ∈ (A++[p]).tail, z ∈ xs.map some := by
      rw [← hA,tail_cons]
      exact fun z hz => hz
    rw [hA,hB,isChain_split,append_assoc] at hchain
    obtain ⟨hbefore,hafter⟩ := hchain
    have hjoin := isChain_append_cons_cons.mp hbefore
    rw [isChain_cons_cons] at hafter
    obtain ⟨hchainA,⟨hpnext,hxprev⟩,_⟩ := hjoin
    obtain ⟨⟨hxnext,hqprev⟩,hchainB⟩ := hafter
    rw [hA] at hnodupA hdisj'
    rw [hB] at hnodupB hdisj hxB
    have hq : q ≠ some x := fun he => hxB (he ▸ mem_cons_self)
    have hremove : l.remove x = ⟨update l.next p q,update l.prev q p⟩ := by
      unfold Links.remove
      dsimp only
      rw [hxnext,hxprev,update_of_ne hq.symm,hxprev]
    rw [hremove,hA,isChain_append]
    refine ⟨chain_congr hchainA (fun z hz => ?_) fun z hz => ?_,chain_congr hchainB (fun z hz => ?_) fun z hz => ?_,?_⟩
    · rw [dropLast_concat] at hz
      refine update_of_ne ?_ ..
      rintro rfl
      exact (nodup_append'.mp hnodupA).2.2 hz (mem_singleton_self _)
    · refine update_of_ne ?_ ..
      rintro rfl
      exact hdisj _ (hAtail _ hz) mem_cons_self
    · refine update_of_ne ?_ ..
      rintro rfl
      exact hdisj' _ (hBlast _ hz) (mem_append_right _ (mem_singleton_self _))
    · refine update_of_ne ?_ ..
      rintro rfl
      exact (nodup_cons.mp hnodupB).1 hz
    · intro y hy z hz
      rw [List.getLast?_concat] at hy
      cases hy
      cases hz
      exact ⟨update_self ..,update_self ..⟩

end

/-- The search along `next`. -/
lemma scan_chain {x : Option α} {c : List α} {p : α → Bool} {k : ℕ}
    (h : (x :: (c.map some++[none])).IsChain (fun y z => l.next y = z)) (hk : c.length ≤ k) :
    scan l.next p k (l.next x) = some (c.find? p) := by
  induction c generalizing x k with
  | nil =>
    have hx : l.next x = none := (isChain_cons_cons.mp h).1
    rw [hx]
    cases k <;> rfl
  | cons y c ih =>
    obtain ⟨hx,hrest⟩ := isChain_cons_cons.mp h
    rw [hx]
    cases k with
    | zero => cases hk
    | succ k =>
      unfold scan
      rw [List.find?_cons]
      cases hp : p y with
      | true => rfl
      | false =>
        rw [if_neg (by simp)]
        exact ih hrest (Nat.le_of_succ_le_succ hk)

/-- The search along `next` finds the first element. -/
lemma IsRing.scan_next (h : IsRing l order) {p : α → Bool} {k : ℕ} (hk : order.length ≤ k) :
    scan l.next p k (l.next none) = some (order.find? p) := scan_chain (h.chain.imp fun _ _ hj => hj.1) hk

end Links
end Xv6Threads
