import Xv6Threads.Grep.Match

/-! The loop of `grep` over what `read` returns. A line that is not complete when the buffer has been scanned is moved to
the front of the buffer, unless no line was complete: then `m` is set to 0 and the bytes are lost. -/
namespace Xv6Threads.Grep
open List Nat Ne

/-- The variables of `grep` between two reads, with what it has written. -/
structure Vars where
  buf : List UInt8
  m : ℕ
  out : List UInt8
  deriving DecidableEq

/-- `sizeof(buf)` -/
def bufSize : ℕ := 1024

def Vars.start : Vars := ⟨List.replicate bufSize 0,0,[]⟩

/-- `strchr`: how far the character is from the pointer. -/
def strchr (c : UInt8) : List UInt8 → Option ℕ
  | [] => none
  | a :: s => if a = 0 then none else if a = c then some 0 else (strchr c s).map (·+1)

/-- The C string at a pointer. -/
def cstr (s : List UInt8) : Str := s.takeWhile (· ≠ 0)

/-- The loop over the lines in the buffer: the buffer, `p` and the output after it. A turn of the loop takes one of
`fuel`. -/
def scanLines (pattern : Str) : ℕ → List UInt8 → ℕ → List UInt8 → Option (List UInt8 × ℕ × List UInt8)
  | 0, _, _, _ => none
  | fuel+1, buf, p, out =>
    match strchr 10 (buf.drop p) with
    | none => some (buf,p,out)
    | some d =>
      let q := p+d
      let buf := buf.set q 0
      if matchText pattern (cstr (buf.drop p)) then
        let buf := buf.set q 10
        scanLines pattern fuel buf (q+1) (out++(buf.drop p).take (q+1-p))
      else scanLines pattern fuel buf (q+1) out

/-- One turn of the loop of `grep`, for a `read` that returns the bytes of `chunk`. -/
def body (pattern : Str) (v : Vars) (chunk : List UInt8) : Option Vars :=
  let m := v.m+chunk.length
  let buf := (v.buf.take v.m++chunk++v.buf.drop m).set m 0
  match scanLines pattern bufSize buf 0 v.out with
  | none => none
  | some (buf,p,out) =>
    let m := if p = 0 then 0 else m
    if 0 < m then some ⟨(buf.drop p).take (m-p)++buf.drop (m-p),m-p,out⟩ else some ⟨buf,m,out⟩

/-- `grep` on the results of its reads: what it writes. -/
def grepFrom (pattern : Str) (v : Vars) : List (List UInt8) → Option (List UInt8)
  | [] => some v.out
  | chunk :: chunks =>
    match body pattern v chunk with
    | none => none
    | some v => grepFrom pattern v chunks

def grep (pattern : Str) (chunks : List (List UInt8)) : Option (List UInt8) := grepFrom pattern .start chunks

/-- The ways in which `read` may return the input: each time some bytes, no more than `grep` asks for, until it asks for
none or there are none left. -/
def Splits (pattern : Str) (v : Vars) (input : List UInt8) : List (List UInt8) → Prop
  | [] => bufSize-v.m-1 = 0 ∨ input = []
  | chunk :: chunks =>
    chunk ≠ [] ∧ chunk.length ≤ bufSize-v.m-1 ∧ ∃ rest, input = chunk++rest ∧
      ∀ v', body pattern v chunk = some v' → Splits pattern v' rest chunks

/-- The input with the given lines. -/
def text (lines : List Str) : List UInt8 := lines.flatMap (·++[10])

/-- A line or a part of a line: no newline and no NUL. -/
def Plain (s : Str) : Prop := 10 ∉ s ∧ 0 ∉ s

lemma text_cons (l : Str) (ls : List Str) : text (l :: ls) = l++10 :: text ls := by simp [text]

variable {ls : List Str} {d rest : List UInt8}

lemma line_prefix {l : Str} (h : d++rest = text (l :: ls))
    (hgt : l.length < d.length) : ∃ e, d = l++[10]++e ∧ e++rest = text ls := by
  have htext : text (l :: ls) = l++[10]++text ls := flatMap_cons
  have hpre : l++[10] <+: d := by
    refine prefix_of_prefix_length_le ⟨text ls,htext.symm⟩ ⟨rest,h⟩ ?_
    rw [length_append,length_singleton]
    omega
  obtain ⟨e,rfl⟩ := hpre
  refine ⟨e,rfl,?_⟩
  rw [htext,append_assoc (l++[10])] at h
  exact append_cancel_left h

lemma length_le_text (ls : List Str) : ls.length ≤ (text ls).length := by
  induction ls with
  | nil => exact zero_le _
  | cons l ls ih =>
    rw [text_cons,length_append,length_cons,length_cons]
    omega

lemma strchr_newline {l : Str} (hl : Plain l) (rest : List UInt8) : strchr 10 (l++10 :: rest) = some l.length := by
  induction l with
  | nil => rfl
  | cons a l ih =>
    obtain ⟨h10,h0⟩ := hl
    rw [mem_cons,not_or] at h10 h0
    rw [cons_append,strchr,if_neg (symm h0.1),if_neg (symm h10.1),ih ⟨h10.2,h0.2⟩]
    rfl

variable {r : Str}

lemma strchr_nul (hr : Plain r) (rest : List UInt8) : strchr 10 (r++0 :: rest) = none := by
  induction r with
  | nil => rfl
  | cons a r ih =>
    obtain ⟨h10,h0⟩ := hr
    rw [mem_cons,not_or] at h10 h0
    rw [cons_append,strchr,if_neg (symm h0.1),if_neg (symm h10.1),ih ⟨h10.2,h0.2⟩]
    rfl

lemma cstr_nul {l : Str} (hl : 0 ∉ l) (rest : List UInt8) : cstr (l++0 :: rest) = l := by
  rw [cstr,takeWhile_append_of_pos]
  · simp
  · intro a ha
    exact decide_eq_true (ne_of_mem_of_not_mem ha hl)

variable {buf : List UInt8}

lemma drop_set_ge {p : ℕ} (d : ℕ) (a : UInt8) : (buf.set (p+d) a).drop p = (buf.drop p).set d a := by
  rw [drop_set,if_neg (by omega),Nat.add_sub_cancel_left]

lemma drop_set_succ {q : ℕ} (a : UInt8) : (buf.set q a).drop (q+1) = buf.drop (q+1) := by
  rw [drop_set,if_pos (by omega)]

lemma scanLines_spec (pattern : Str) (hls : ∀ l ∈ ls, Plain l) (hr : Plain r)
    {junk : List UInt8} {fuel : ℕ} (hf : ls.length < fuel) {p : ℕ}
    (hb : buf.drop p = text ls++(r++0 :: junk)) (out : List UInt8) :
    ∃ buf', scanLines pattern fuel buf p out = some (buf',p+(text ls).length,out++text (ls.filter (matchText pattern))) ∧
      buf'.length = buf.length ∧ buf'.drop (p+(text ls).length) = r++0 :: junk := by
  induction ls generalizing fuel buf p out with
  | nil =>
    obtain ⟨fuel,rfl⟩ := Nat.exists_eq_add_of_lt hf
    rw [show text [] = [] from rfl,nil_append] at hb
    refine ⟨buf,?_,rfl,hb⟩
    rw [scanLines,hb,strchr_nul hr]
    simp [text]
  | cons l ls ih =>
    obtain ⟨fuel,rfl⟩ := Nat.exists_eq_add_of_lt hf
    have hl := hls l mem_cons_self
    rw [text_cons,append_assoc,cons_append] at hb
    -- the buffer from `p` on, with a character stored over the newline
    have hset : ∀ a, (buf.set (p+l.length) a).drop p = l++a :: (text ls++(r++0 :: junk)) := by
      intro a
      rw [drop_set_ge,hb,set_append_right _ _ (le_refl _),Nat.sub_self,set_cons_zero]
    have hnext : buf.drop (p+l.length+1) = text ls++(r++0 :: junk) := by
      rw [add_assoc,← drop_drop,hb,append_cons,drop_left' (by simp)]
    have hlen : p+l.length+1+(text ls).length = p+(text (l :: ls)).length := by
      rw [text_cons,length_append,length_cons]
      omega
    have hls' : ∀ x ∈ ls, Plain x := fun x hx => hls x (mem_cons_of_mem l hx)
    have hfuel : ls.length < (l :: ls).length+fuel := by
      rw [length_cons]
      omega
    rw [scanLines,hb,strchr_newline hl]
    simp only [hset,cstr_nul hl.2,set_set]
    by_cases hm : matchText pattern l = true
    · rw [if_pos hm,show p+l.length+1-p = l.length+1 by omega,filter_cons_of_pos hm,← hlen,text_cons]
      have hw : (l++10 :: (text ls++(r++0 :: junk))).take (l.length+1) = l++[10] := by
        rw [append_cons,take_left' (by simp)]
      rw [hw]
      obtain ⟨buf',h1,h2,h3⟩ := ih hls' hfuel ((drop_set_succ 10).trans hnext) (out++(l++[10]))
      refine ⟨buf',?_,h2.trans length_set,h3⟩
      rw [h1]
      simp
    · rw [if_neg hm,filter_cons_of_neg hm,← hlen]
      obtain ⟨buf',h1,h2,h3⟩ := ih hls' hfuel ((drop_set_succ 0).trans hnext) out
      exact ⟨buf',h1,h2.trans length_set,h3⟩

/-- Between two reads the buffer starts with the `m` bytes of an unfinished line. -/
structure Pending (v : Vars) (r : Str) : Prop where
  size : v.buf.length = bufSize
  count : v.m = r.length
  front : v.buf.take v.m = r

lemma pending_start : Pending .start [] := ⟨length_replicate,rfl,rfl⟩

variable {v : Vars}

lemma body_spec (pattern : Str) (hv : Pending v r) {chunk : List UInt8} (hne : ls ≠ [])
    (hls : ∀ l ∈ ls, Plain l) {r' : Str} (hr : Plain r') (hd : r++chunk = text ls++r') (hroom : v.m+chunk.length < bufSize) :
    ∃ v', body pattern v chunk = some v' ∧ Pending v' r' ∧ v'.out = v.out++text (ls.filter (matchText pattern)) := by
  obtain ⟨a,junk,hj⟩ : ∃ a junk, v.buf.drop (v.m+chunk.length) = a :: junk :=
    exists_cons_of_length_pos (by rw [length_drop,hv.size]; omega)
  have hlen : v.m+chunk.length = (text ls++r').length := by rw [← hd,length_append,hv.count]
  -- the buffer after the read and the store of the NUL
  have hbuf : (v.buf.take v.m++chunk++v.buf.drop (v.m+chunk.length)).set (v.m+chunk.length) 0
      = text ls++(r'++0 :: junk) := by
    rw [hv.front,hd,hj,hlen,set_append_right _ _ (le_refl _),Nat.sub_self,set_cons_zero,append_assoc]
  have hjl : (text ls++(r'++0 :: junk)).length = bufSize := by
    rw [← hbuf,length_set,length_append,length_append,length_take,length_drop,hv.size, hv.count] at *
    omega
  have hpos : 0 < (text ls).length := lt_of_lt_of_le (length_pos_iff.mpr hne) (length_le_text ls)
  have hfuel : ls.length < bufSize := by
    have := length_le_text ls
    rw [length_append] at hlen
    omega
  have hdrop : (text ls++(r'++0 :: junk)).drop 0 = text ls++(r'++0 :: junk) := rfl
  obtain ⟨buf',h1,h2,h3⟩ := scanLines_spec pattern hls hr hfuel hdrop v.out
  rw [zero_add] at h1 h3
  have hm : v.m+chunk.length = (text ls).length+r'.length := hlen.trans length_append
  refine ⟨⟨(buf'.drop (text ls).length).take r'.length++buf'.drop r'.length,r'.length,
    v.out++text (ls.filter (matchText pattern))⟩,?_,⟨?_,rfl,?_⟩,rfl⟩
  · simp only [body,hbuf,h1,if_neg (ne_of_gt hpos)]
    rw [if_pos (by omega),hm,Nat.add_sub_cancel_left]
  · have hr' : r'.length ≤ bufSize := by
      rw [← hjl]
      simp only [length_append]
      omega
    rw [h3,take_left,length_append,length_drop,h2,hjl]
    omega
  · rw [h3,take_left,take_left]

lemma exists_lines (hls : ∀ l ∈ ls, Plain l) (h : d++rest = text ls) :
    ∃ done todo r, ls = done++todo ∧ d = text done++r ∧ Plain r ∧ r++rest = text todo := by
  induction ls generalizing d with
  | nil =>
    obtain ⟨rfl,rfl⟩ := append_eq_nil_iff.mp h
    exact ⟨[],[],[],rfl,rfl,⟨not_mem_nil,not_mem_nil⟩,rfl⟩
  | cons l ls ih =>
    have hl := hls l mem_cons_self
    rcases le_or_gt d.length l.length with hle | hgt
    · -- the first line is not complete
      have hpre : d <+: l := by
        refine prefix_of_prefix_length_le ⟨rest,h⟩ ?_ hle
        rw [text_cons]
        exact prefix_append _ _
      exact ⟨[],l :: ls,d,rfl,rfl,⟨fun hd => hl.1 (hpre.subset hd),fun hd => hl.2 (hpre.subset hd)⟩,h⟩
    · obtain ⟨e,rfl,he⟩ := line_prefix h hgt
      obtain ⟨done,todo,r,rfl,rfl,hr,hrest⟩ := ih (fun x hx => hls x (mem_cons_of_mem l hx)) he
      exact ⟨l :: done,todo,r,rfl,by simp [text_cons],hr,hrest⟩

lemma unfinished_lt {todo : List Str} (hls : ∀ l ∈ todo, l.length+1 < bufSize) {r rest : Str} (hr : Plain r)
    (h : r++rest = text todo) : r.length+1 < bufSize := by
  cases todo with
  | nil =>
    obtain ⟨rfl,_⟩ := append_eq_nil_iff.mp h
    decide
  | cons l todo =>
    have hl := hls l mem_cons_self
    by_contra hge
    obtain ⟨e,rfl,_⟩ := line_prefix h (by omega)
    exact hr.1 (by simp)

lemma grepFrom_spec (pattern : Str) {chunks : List (List UInt8)} (hn : ∀ c ∈ chunks, 10 ∈ c)
    (hv : Pending v r) (hr : Plain r) {input : List UInt8}
    (hls : ∀ l ∈ ls, Plain l ∧ l.length+1 < bufSize) (h : r++input = text ls) (hs : Splits pattern v input chunks) :
    grepFrom pattern v chunks = some (v.out++text (ls.filter (matchText pattern))) := by
  have hlt := unfinished_lt (fun l hl => (hls l hl).2) hr h
  have hvm : v.m = r.length := hv.count
  induction chunks generalizing v r input ls with
  | nil =>
    have hin : input = [] := by
      rcases hs with hs | hs
      · omega
      · exact hs
    subst hin
    rw [append_nil] at h
    cases ls with
    | nil => simp [grepFrom,text]
    | cons l ls => exact absurd (h ▸ hr.1) (by simp [text_cons])
  | cons chunk chunks ih =>
    obtain ⟨-,hlen,rest,rfl,hrest⟩ := hs
    rw [← append_assoc] at h
    obtain ⟨done,todo,r',rfl,hd,hr',htodo⟩ := exists_lines (fun l hl => (hls l hl).1) h
    have hne : done ≠ [] := by
      rintro rfl
      have h10 : (10 : UInt8) ∈ r++chunk := mem_append_right r (hn chunk mem_cons_self)
      rw [hd] at h10
      exact hr'.1 h10
    obtain ⟨v',hb,hp,hout⟩ := body_spec pattern hv hne
      (fun l hl => (hls l (mem_append_left todo hl)).1) hr' hd (by omega)
    have htodo' : ∀ l ∈ todo, Plain l ∧ l.length+1 < bufSize := fun l hl => hls l (mem_append_right done hl)
    rw [grepFrom,hb]
    simp only
    rw [ih (fun c hc => hn c (mem_cons_of_mem chunk hc)) hp hr' htodo' htodo (hrest v' hb)
      (unfinished_lt (fun l hl => (htodo' l hl).2) hr' htodo) hp.count,hout]
    simp [text]

section
variable {p p' fuel : ℕ} {buf' out out' s : List UInt8}

lemma strchr_some {k : ℕ} (h : strchr 10 s = some k) : ∃ l u, s = l++10 :: u ∧ l.length = k ∧ 0 ∉ l := by
  induction s generalizing k with
  | nil => cases h
  | cons a s ih =>
    rw [strchr] at h
    split_ifs at h with h0 h10
    · cases h
      exact ⟨[],s,by rw [h10]; rfl,rfl,not_mem_nil⟩
    · obtain ⟨j,hj,rfl⟩ := Option.map_eq_some_iff.mp h
      obtain ⟨l,u,rfl,rfl,hl⟩ := ih hj
      refine ⟨a :: l,u,rfl,rfl,fun hm => ?_⟩
      rcases mem_cons.mp hm with hm | hm
      · exact h0 hm.symm
      · exact hl hm

lemma not_mem_of_strchr {u : List UInt8} (h : strchr 10 (s++u) = none) (h0 : 0 ∉ s) : 10 ∉ s := by
  induction s with
  | nil => exact not_mem_nil
  | cons a s ih =>
    rw [mem_cons,not_or] at h0 ⊢
    rw [cons_append,strchr,if_neg (symm h0.1)] at h
    split_ifs at h with h10
    exact ⟨symm h10,ih (Option.map_eq_none_iff.mp h) h0.2⟩

lemma matchText_nil (text : Str) : matchText [] text = true := by
  cases text <;> rfl

/-- With the empty pattern every line is written and the buffer stays as it is. -/
lemma scanLines_all (h : scanLines [] fuel buf p out = some (buf',p',out')) : buf' = buf ∧ p ≤ p' ∧
    (buf.drop p).take (p'-p)++buf.drop p' = buf.drop p ∧ out' = out++(buf.drop p).take (p'-p) ∧
    0 ∉ (buf.drop p).take (p'-p) ∧ strchr 10 (buf.drop p') = none ∧
    (p' ≠ p → 10 ∈ (buf.drop p).take (p'-p)) := by
  induction fuel generalizing buf p out with
  | zero => cases h
  | succ fuel ih =>
    rw [scanLines] at h
    cases hc : strchr 10 (buf.drop p) with
    | none =>
      rw [hc] at h
      cases h
      simp [hc]
    | some k =>
      obtain ⟨l,u,hd,rfl,hl⟩ := strchr_some hc
      have hset : (buf.set (p+l.length) 0).set (p+l.length) 10 = buf := by
        have hk : buf[p+l.length]? = some 10 := by rw [← getElem?_drop,hd,getElem?_append_right le_rfl,Nat.sub_self]; rfl
        obtain ⟨hlt,hk⟩ := List.getElem?_eq_some_iff.mp hk
        rw [set_set,← hk,set_getElem_self]
      have hnext : buf.drop (p+l.length+1) = u := by
        rw [add_assoc,← drop_drop,hd,append_cons,drop_left' (by simp)]
      rw [hc] at h
      simp only [matchText_nil,if_true,hset] at h
      obtain ⟨hb,hle,hsplit,hout,h0,hnone,-⟩ := ih h
      rw [hnext] at hsplit hout h0
      have htake : (buf.drop p).take (p'-p) = l++10 :: u.take (p'-(p+l.length+1)) := by
        rw [hd,append_cons,show p'-p = (l++[10]).length+(p'-(p+l.length+1)) by simp; omega,take_length_add_append]
        simp
      have hline : (buf.drop p).take (p+l.length+1-p) = l++[10] := by
        rw [hd,append_cons,take_left' (by simp; omega)]
      refine ⟨hb,by omega,?_,?_,?_,hnone,fun _ => by rw [htake]; simp⟩
      · rw [htake,hd,append_assoc,cons_append,hsplit]
      · rw [hout,htake,hline]
        simp
      · rw [htake]
        simp [hl,h0]

variable {v' : Vars} {chunk : List UInt8}

/-- One turn of the loop with the empty pattern: the bytes up to the last newline before a NUL are written, the others
wait, and all are lost if there is no such newline. -/
lemma body_all (hv : Pending v r) (hroom : v.m+chunk.length < bufSize) (h : body [] v chunk = some v') :
    (v'.out = v.out ∧ Pending v' []) ∨ ∃ u r', r++chunk = u++r' ∧ v'.out = v.out++u ∧ Pending v' r' ∧ 0 ∉ u ∧ 10 ∈ u ∧
      (0 ∉ r' → 10 ∉ r') := by
  obtain ⟨a,junk,hj⟩ : ∃ a junk, v.buf.drop (v.m+chunk.length) = a :: junk :=
    exists_cons_of_length_pos (by rw [length_drop,hv.size]; omega)
  have hlen : v.m+chunk.length = (r++chunk).length := by rw [length_append,hv.count]
  have hbuf : (v.buf.take v.m++chunk++v.buf.drop (v.m+chunk.length)).set (v.m+chunk.length) 0 = (r++chunk)++0 :: junk := by
    rw [hv.front,hj,hlen,set_append_right _ _ le_rfl,Nat.sub_self,set_cons_zero]
  have hsize : ((r++chunk)++0 :: junk).length = bufSize := by
    rw [← hbuf,length_set,length_append,length_append,length_take,length_drop,hv.size] at *
    omega
  simp only [body,hbuf] at h
  cases hscan : scanLines [] bufSize ((r++chunk)++0 :: junk) 0 v.out with
  | none => rw [hscan] at h; cases h
  | some x =>
    obtain ⟨buf',p,out'⟩ := x
    obtain ⟨rfl,-,hsplit,hout,h0,hnone,h10⟩ := scanLines_all hscan
    rw [hscan] at h
    simp only [drop_zero,Nat.sub_zero] at h hsplit hout h0 h10
    by_cases hp : p = 0
    · subst hp
      simp only [if_true,lt_self_iff_false,if_false] at h
      cases h
      exact .inl ⟨by simpa using hout,hsize,rfl,rfl⟩
    · -- what is written ends before the NUL behind the bytes that were read
      have hle : p ≤ (r++chunk).length := by
        by_contra hgt
        refine h0 ?_
        rw [take_append]
        obtain ⟨k,hk⟩ := Nat.exists_eq_add_of_lt (Nat.lt_of_not_le hgt)
        rw [show p-(r++chunk).length = k+1 by omega,take_succ_cons]
        simp
      have htake : (r++chunk++0 :: junk).take p = _ := take_append_of_le_length hle
      have hdrop : (r++chunk++0 :: junk).drop p = _ := drop_append_of_le_length hle
      have hm : v.m+chunk.length-p = ((r++chunk).drop p).length := by rw [length_drop,hlen]
      rw [htake] at hout h0 h10
      rw [hdrop] at hnone
      rw [if_neg hp,if_pos (by omega),hm,hdrop,take_left] at h
      refine .inr ⟨(r++chunk).take p,(r++chunk).drop p,(take_append_drop p _).symm,?_,⟨?_,?_,?_⟩,h0,h10 hp,
        not_mem_of_strchr hnone⟩ <;> cases h
      · exact hout
      · simp only [length_append,length_drop] at hsize ⊢
        omega
      · rfl
      · exact take_left

/-- Nothing is written but what was read, and all of it only if every read brings a newline and there is no NUL. -/
lemma grepFrom_all {chunks : List (List UInt8)} {input o : List UInt8} (hv : Pending v r)
    (hs : Splits [] v input chunks) (h : grepFrom [] v chunks = some o) : o.length ≤ v.out.length+r.length+input.length ∧
      (o.length = v.out.length+r.length+input.length → 0 ∉ r ∧ 0 ∉ input ∧ ((0 ∉ r → 10 ∉ r) → ∀ c ∈ chunks, 10 ∈ c)) := by
  induction chunks generalizing v r input with
  | nil =>
    cases h
    refine ⟨by omega,fun hlen => ?_⟩
    rw [eq_nil_of_length_eq_zero (show r.length = 0 by omega),eq_nil_of_length_eq_zero (show input.length = 0 by omega)]
    exact ⟨not_mem_nil,not_mem_nil,fun _ _ hc => absurd hc not_mem_nil⟩
  | cons chunk chunks ih =>
    obtain ⟨hne,hlen,rest,rfl,hrest⟩ := hs
    have hpos := length_pos_iff.mpr hne
    rw [grepFrom] at h
    cases hb : body [] v chunk with
    | none => rw [hb] at h; cases h
    | some v' =>
      rw [hb] at h
      rw [length_append]
      rcases body_all hv (by omega) hb with ⟨hout,hp⟩ | ⟨u,r',hu,hout,hp,h0,h10,hr'⟩
      · have := (ih hp (hrest v' hb) h).1
        rw [hout,length_nil] at this
        exact ⟨by omega,fun _ => by omega⟩
      · obtain ⟨hle,heq⟩ := ih hp (hrest v' hb) h
        have hlen' := congrArg length hu
        rw [length_append,length_append] at hlen'
        rw [hout,length_append] at hle heq
        refine ⟨by omega,fun hall => ?_⟩
        obtain ⟨h1,h2,h3⟩ := heq (by omega)
        have hno : 0 ∉ r++chunk := by
          rw [hu,mem_append]
          exact fun h => h.elim h0 h1
        rw [mem_append,not_or] at hno
        refine ⟨hno.1,?_,fun hr c hc => ?_⟩
        · rw [mem_append]
          exact fun h => h.elim hno.2 h2
        · rcases mem_cons.mp hc with rfl | hc
          · have hmem : 10 ∈ r++c := by rw [hu]; exact mem_append_left _ h10
            exact (mem_append.mp hmem).resolve_left (hr hno.1)
          · exact h3 hr' c hc

end

/-- An input with lines of at most 1023 bytes, in a given split into reads: `grep` writes the lines that match, for every
pattern, just if every read brings a newline and the input has no NUL. -/
theorem grep_output (ls : List Str) (hls : ∀ l ∈ ls, 10 ∉ l ∧ l.length+1 ≤ 1023) (chunks : List (List UInt8))
    (hs : ∀ pattern, Splits pattern .start (text ls) chunks) :
    (∀ pattern, grep pattern chunks = some (text (ls.filter (matchText pattern)))) ↔
      0 ∉ text ls ∧ ∀ c ∈ chunks, 10 ∈ c := by
  constructor
  · intro h
    obtain ⟨-,heq⟩ := grepFrom_all pending_start (hs []) (h [])
    have hall : ls.filter (matchText []) = ls := filter_eq_self.mpr fun l _ => matchText_nil l
    rw [hall] at heq
    obtain ⟨-,h0,hn⟩ := heq (by simp [Vars.start])
    exact ⟨h0,hn fun _ => not_mem_nil⟩
  · rintro ⟨h0,hn⟩ pattern
    have hplain : ∀ l ∈ ls, Plain l ∧ l.length+1 < bufSize := by
      intro l hl
      refine ⟨⟨(hls l hl).1,fun h => h0 ?_⟩,Nat.lt_succ_of_le (hls l hl).2⟩
      exact mem_flatMap.mpr ⟨l,hl,mem_append_left _ h⟩
    exact grepFrom_spec pattern hn pending_start ⟨not_mem_nil,not_mem_nil⟩ hplain rfl (hs pattern)

lemma splits_pair {pattern : Str} {c d : List UInt8} {k : ℕ} (hc : c ≠ [] ∧ c.length ≤ bufSize-v.m-1)
    (hk : (body pattern v c).map Vars.m = some k) (hd : d ≠ [] ∧ d.length ≤ bufSize-k-1) :
    Splits pattern v (c++d) [c,d] := by
  refine ⟨hc.1,hc.2,d,rfl,fun v' hv => ?_⟩
  rw [hv] at hk
  obtain rfl : v'.m = k := Option.some.inj hk
  exact ⟨hd.1,hd.2,[],(append_nil d).symm,fun _ _ => .inr rfl⟩

/-- The lines `ab` and `bc` in two reads, the first of which ends inside the second line, and the pattern `a`. -/
theorem grep_output_two_reads : grep [97] [[97,98,10,98],[99,10]] = some [97,98,10] := by
  refine (grep_output [[97,98],[98,99]] (by decide) [[97,98,10,98],[99,10]] fun pattern => ?_).mpr (by decide) [97]
  obtain ⟨v',hb,hp,-⟩ := body_spec pattern pending_start (show [[97,98]] ≠ ([] : List Str) from nofun)
    (by unfold Plain; decide) (show Plain [98] by unfold Plain; decide)
    (show []++[97,98,10,98] = text [[97,98]]++[98] from rfl) (by decide)
  exact splits_pair (c := [97,98,10,98]) (d := [99,10]) (k := 1) (by decide) (by rw [hb,Option.map_some,hp.count]; rfl)
    (by decide)

/-- The line `ab` in two reads, the first of which ends before the newline: the line matches the pattern `a`, but is not
written; if one read returns the line, it is. -/
theorem split_line_is_lost : Splits [97] .start (text [[97,98]]) [[97],[98,10]] ∧ grep [97] [[97],[98,10]] = some [] ∧
      matchText [97] [97,98] = true ∧ grep [97] [[97,98,10]] = some (text [[97,98]]) :=
  ⟨splits_pair (c := [97]) (d := [98,10]) (k := 0) (by decide) (by decide +kernel) (by decide),by decide +kernel,
    by decide,by decide +kernel⟩

end Xv6Threads.Grep
