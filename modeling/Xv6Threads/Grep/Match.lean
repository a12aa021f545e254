import Mathlib

/-! The matcher of `grep`. A C string is the list of its characters, without the NUL at its end, so the end of a string
is the empty list. The reference reads the pattern as a list of items and says which piece of a text each item stands
for. -/
namespace Xv6Threads.Grep
open List

abbrev Str := List UInt8

/-- `matchstar(c, re, text)`, by what `matchhere` returns for `re`. -/
def matchstar (matchhere : Str → Bool) (c : UInt8) : Str → Bool
  | [] => matchhere []
  | t :: text => if matchhere (t :: text) then true else if t = c ∨ c = 46 then matchstar matchhere c text else false

/-- The last test of `matchhere(re, text)`, by what it returns for `re+1`. -/
def matchone (matchhere : Str → Bool) (c : UInt8) : Str → Bool
  | [] => false
  | t :: text => if c = 46 ∨ c = t then matchhere text else false

/-- `matchhere`, where 42 is the star and 36 the dollar. -/
def matchhere : Str → Str → Bool
  | [], _ => true
  | [c], text => if c = 36 then text.isEmpty else matchone (fun _ => true) c text
  | c :: d :: re, text => if d = 42 then matchstar (matchhere re) c text else matchone (matchhere (d :: re)) c text

/-- The loop of `match`. -/
def search (re : Str) : Str → Bool
  | [] => matchhere re []
  | t :: text => if matchhere re (t :: text) then true else search re text

/-- `match`, where 94 is the caret -/
def matchText : Str → Str → Bool
  | [], text => search [] text
  | c :: re, text => if c = 94 then matchhere re text else search (c :: re) text

/-- The items of a pattern. -/
inductive Item
  | char (c : UInt8)
  | any
  | star (c : UInt8)
  | finish
  deriving DecidableEq

/-- A character that stands for itself, or a dot. -/
def single (c : UInt8) : Item := if c = 46 then .any else .char c

/-- A pattern after the caret, read from left to right. -/
def items : Str → List Item
  | [] => []
  | [c] => if c = 36 then [.finish] else [single c]
  | c :: d :: re => if d = 42 then .star c :: items re else single c :: items (d :: re)

/-- An item stands for the piece `u` of a text that goes on with `v`. -/
def Item.Piece : Item → Str → Str → Prop
  | .char c, u, _ => u = [c]
  | .any, u, _ => ∃ c, u = [c]
  | .star c, u, _ => ∀ x ∈ u, x = c ∨ c = 46
  | .finish, u, v => u = [] ∧ v = []

/-- Items stand for the pieces of `u`, one after the other, in a text that goes on with `v`. -/
def Pieces : List Item → Str → Str → Prop
  | [], u, _ => u = []
  | i :: is, u, v => ∃ u₁ u₂, u = u₁++u₂ ∧ i.Piece u₁ (u₂++v) ∧ Pieces is u₂ v

/-- The items match at the start of the text. -/
def Starts (is : List Item) (text : Str) : Prop := ∃ u v, text = u++v ∧ Pieces is u v

/-- The text contains a match of the pattern. -/
def Contains : Str → Str → Prop
  | [], text => ∃ w rest, text = w++rest ∧ Starts [] rest
  | c :: re, text =>
    if c = 94 then Starts (items re) text else ∃ w rest, text = w++rest ∧ Starts (items (c :: re)) rest

lemma starts_nil (text : Str) : Starts [] text := ⟨[],text,rfl,rfl⟩

variable {text : Str}

lemma starts_cons {i : Item} {is : List Item} :
    Starts (i :: is) text ↔ ∃ u v, text = u++v ∧ i.Piece u v ∧ Starts is v := by
  constructor
  · rintro ⟨_,v,rfl,u₁,u₂,rfl,hi,his⟩
    exact ⟨u₁,u₂++v,append_assoc u₁ u₂ v,hi,u₂,v,rfl,his⟩
  · rintro ⟨u,_,rfl,hi,u₂,v,rfl,his⟩
    exact ⟨u++u₂,v,(append_assoc u u₂ v).symm,u,u₂,rfl,hi,his⟩

variable {c : UInt8}

lemma starts_single {is : List Item} :
    Starts (single c :: is) text ↔ ∃ t rest, text = t :: rest ∧ (c = 46 ∨ c = t) ∧ Starts is rest := by
  rw [starts_cons,single]
  split_ifs with h
  · constructor
    · rintro ⟨_,v,rfl,⟨t,rfl⟩,hs⟩
      exact ⟨t,v,rfl,.inl h,hs⟩
    · rintro ⟨t,rest,rfl,_,hs⟩
      exact ⟨[t],rest,rfl,⟨t,rfl⟩,hs⟩
  · constructor
    · rintro ⟨_,v,rfl,rfl,hs⟩
      exact ⟨c,v,rfl,.inr rfl,hs⟩
    · rintro ⟨t,rest,rfl,ht,hs⟩
      obtain rfl := ht.resolve_left h
      exact ⟨[c],rest,rfl,rfl,hs⟩

lemma starts_finish : Starts [.finish] text ↔ text = [] := by
  rw [starts_cons]
  constructor
  · rintro ⟨_,_,rfl,⟨rfl,rfl⟩,_⟩
    rfl
  · rintro rfl
    exact ⟨[],[],rfl,⟨rfl,rfl⟩,starts_nil []⟩

lemma matchone_iff {f : Str → Bool} :
    matchone f c text = true ↔ ∃ t rest, text = t :: rest ∧ (c = 46 ∨ c = t) ∧ f rest = true := by
  cases text with
  | nil => simp [matchone]
  | cons t text =>
    rw [matchone]
    split_ifs with h <;> simp [h]

lemma matchstar_iff {f : Str → Bool} :
    matchstar f c text = true ↔ ∃ u v, text = u++v ∧ (∀ x ∈ u, x = c ∨ c = 46) ∧ f v = true := by
  induction text with
  | nil =>
    rw [matchstar]
    constructor
    · exact fun h => ⟨[],[],rfl,by simp,h⟩
    · rintro ⟨u,v,h,-,hf⟩
      obtain ⟨rfl,rfl⟩ := append_eq_nil_iff.mp h.symm
      exact hf
  | cons t text ih =>
    rw [matchstar]
    constructor
    · intro h
      split_ifs at h with hf ht
      · exact ⟨[],t :: text,rfl,by simp,hf⟩
      · obtain ⟨u,v,rfl,hu,hv⟩ := ih.mp h
        refine ⟨t :: u,v,rfl,?_,hv⟩
        intro x hx
        rcases mem_cons.mp hx with rfl | hx
        · exact ht
        · exact hu x hx
    · rintro ⟨u,v,h,hu,hv⟩
      cases u with
      | nil =>
        rw [nil_append] at h
        rw [h,if_pos hv]
      | cons x u =>
        obtain ⟨rfl,rfl⟩ := List.cons.inj h
        rw [if_pos (hu t mem_cons_self),ih.mpr ⟨u,v,rfl,fun y hy => hu y (mem_cons_of_mem t hy),hv⟩,ite_self]

/-- `matchhere` finds the matches at the start of the text. -/
lemma matchhere_iff (re text : Str) : matchhere re text = true ↔ Starts (items re) text := by
  -- the reading of the pattern into items recurs as `matchhere` does
  induction re using items.induct generalizing text with
  | case1 => simp [matchhere,items,starts_nil]
  | case2 => simp [matchhere,items,starts_finish]
  | case3 c h =>
    rw [matchhere,if_neg h,items,if_neg h,matchone_iff,starts_single]
    simp only [starts_nil]
  | case4 c re ih =>
    rw [matchhere,if_pos rfl,items,if_pos rfl,matchstar_iff,starts_cons]
    simp only [ih,Item.Piece]
  | case5 c d re h ih =>
    rw [matchhere,if_neg h,items,if_neg h,matchone_iff,starts_single]
    simp only [ih]

lemma search_iff (re text : Str) : search re text = true ↔ ∃ w rest, text = w++rest ∧ Starts (items re) rest := by
  induction text with
  | nil =>
    rw [search,matchhere_iff]
    constructor
    · exact fun h => ⟨[],[],rfl,h⟩
    · rintro ⟨w,rest,h,hs⟩
      obtain ⟨rfl,rfl⟩ := append_eq_nil_iff.mp h.symm
      exact hs
  | cons t text ih =>
    rw [search]
    constructor
    · intro h
      split_ifs at h with hm
      · exact ⟨[],t :: text,rfl,(matchhere_iff _ _).mp hm⟩
      · obtain ⟨w,rest,rfl,hs⟩ := ih.mp h
        exact ⟨t :: w,rest,rfl,hs⟩
    · rintro ⟨w,rest,h,hs⟩
      cases w with
      | nil =>
        rw [nil_append] at h
        rw [h,if_pos ((matchhere_iff _ _).mpr hs)]
      | cons x w =>
        obtain ⟨rfl,rfl⟩ := List.cons.inj h
        rw [ih.mpr ⟨w,rest,rfl,hs⟩,ite_self]

/-- `match` returns 1 exactly if the text contains a match of the pattern. All three functions are total: `matchhere`
recurs on the pattern and `matchstar` on the text. -/
theorem match_correct (re text : Str) : matchText re text = true ↔ Contains re text := by
  cases re with
  | nil => exact search_iff [] text
  | cons c re =>
    rw [matchText,Contains]
    split_ifs with h
    · exact matchhere_iff re text
    · exact search_iff (c :: re) text

-- the pattern `^a*b.$` and the texts `aabc` and `abcd`
example : matchText [94,97,42,98,46,36] [97,97,98,99] = true := by decide
example : matchText [94,97,42,98,46,36] [97,98,99,100] = false := by decide

end Xv6Threads.Grep
