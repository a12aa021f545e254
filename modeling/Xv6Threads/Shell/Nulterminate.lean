import Xv6Threads.Shell.Correct

/-! `nulterminate`: the words of a tree become C strings in the buffer of the command string. It stores a NUL at the end
of each word, and the character there is not plain, so that no word has a NUL of another one inside. -/
namespace Xv6Threads.Shell
open List Deriv Subtype Cmd

/-- A command string as it stands in memory. -/
def buffer (s : Ptr) : List UInt8 := s.map Subtype.val++[0]

/-- `nulterminate`: the buffer after it. -/
def nulterminate : Cmd → List UInt8 → List UInt8
  | .exec argv, buf => argv.foldl (fun buf w => buf.set w.2 0) buf
  | .redir cmd r, buf => (nulterminate cmd buf).set r.eq 0
  | .pipe left right, buf => nulterminate right (nulterminate left buf)
  | .list left right, buf => nulterminate right (nulterminate left buf)
  | .back cmd, buf => nulterminate cmd buf

/-- The C string at a place of the buffer. -/
def cString (buf : List UInt8) (q : ℕ) : List UInt8 := (buf.drop q).takeWhile (· ≠ 0)

/-- The ranges of every `argv[i]` of an `EXEC` node and every `file` of a `REDIR` node. -/
def Cmd.words : Cmd → List (ℕ × ℕ)
  | .exec argv => argv
  | .redir cmd r => cmd.words++[(r.q,r.eq)]
  | .pipe left right => left.words++right.words
  | .list left right => left.words++right.words
  | .back cmd => cmd.words

/-- The stores, one for each word. -/
def terminate (ws : List (ℕ × ℕ)) (buf : List UInt8) : List UInt8 := ws.foldl (fun buf w => buf.set w.2 0) buf

lemma terminate_append (vs ws : List (ℕ × ℕ)) (buf : List UInt8) :
    terminate (vs++ws) buf = terminate ws (terminate vs buf) := foldl_append

lemma nulterminate_eq (c : Cmd) (buf : List UInt8) : nulterminate c buf = terminate c.words buf := by
  induction c generalizing buf with
  | exec argv => rfl
  | redir cmd r ih => rw [nulterminate,words,terminate_append,ih]; rfl
  | pipe left right ihl ihr | list left right ihl ihr => rw [nulterminate,words,terminate_append,ihl,ihr]
  | back cmd ih => exact ih buf

variable {ws : List (ℕ × ℕ)}

lemma terminate_of_ne {j : ℕ} (hj : ∀ w ∈ ws, w.2 ≠ j) (buf : List UInt8) : (terminate ws buf)[j]? = buf[j]? := by
  induction ws generalizing buf with
  | nil => rfl
  | cons w ws ih =>
    refine (ih (fun v hv => hj v (mem_cons_of_mem w hv)) _).trans ?_
    rw [getElem?_set_ne (hj w mem_cons_self)]

lemma terminate_nul (ws : List (ℕ × ℕ)) (buf : List UInt8) {j : ℕ} (hl : j < buf.length)
    (h : buf[j]? = some 0 ∨ ∃ w ∈ ws, w.2 = j) : (terminate ws buf)[j]? = some 0 := by
  induction ws generalizing buf with
  | nil => exact h.resolve_right (by simp)
  | cons w ws ih =>
    refine ih (buf.set w.2 0) (by rwa [length_set]) ?_
    by_cases hw : w.2 = j
    · exact .inl (by rw [hw,getElem?_set_self hl])
    · rw [getElem?_set_ne hw]
      rcases h with h | ⟨v,hv,rfl⟩
      · exact .inl h
      · exact .inr ⟨v,(mem_cons.mp hv).resolve_left (by rintro rfl; exact hw rfl),rfl⟩

section
variable {s : Ptr} {q eq : ℕ}

variable (h : IsWord s q eq)
include h

lemma IsWord.le : q ≤ eq ∧ eq ≤ s.length := by
  obtain ⟨a,w,b,rfl,rfl,rfl,-⟩ := h
  simp only [length_append]
  omega

lemma IsWord.plain {j : ℕ} (hq : q ≤ j) (hj : j < eq) : ∃ c, s[j]? = some c ∧ isPlain c = true := by
  obtain ⟨a,w,b,rfl,rfl,rfl,-,hw,-⟩ := h
  rw [length_append] at hj
  have hlt : j-a.length < w.length := by omega
  refine ⟨w[j-a.length],?_,hw _ (getElem_mem hlt)⟩
  rw [append_assoc,getElem?_append_right hq,getElem?_append_left hlt,getElem?_eq_getElem hlt]

lemma IsWord.after {c : Ch} (hc : s[eq]? = some c) : isPlain c = false := by
  obtain ⟨a,w,b,rfl,rfl,rfl,-,-,-,hb⟩ := h
  rw [getElem?_append_right (le_refl _),Nat.sub_self,← head?_eq_getElem?] at hc
  exact hb c hc

lemma IsWord.not_inside {q' j : ℕ} (h' : IsWord s q' j) (hq : q ≤ j) : eq ≤ j := by
  by_contra hj
  obtain ⟨c,hc,hp⟩ := h.plain hq (not_le.mp hj)
  rw [h'.after hc] at hp
  exact Bool.false_ne_true hp

end

lemma backs_words (n : ℕ) (c : Cmd) : (backs n c).words = c.words := by
  induction n generalizing c with
  | zero => rfl
  | succ n ih => exact ih (.back c)

lemma wrap_words (c : Cmd) (rs : List Redircmd) : (wrap c rs).words = c.words++rs.map fun r => (r.q,r.eq) := by
  induction rs generalizing c with
  | nil => exact (append_nil _).symm
  | cons r rs ih =>
    refine (ih (.redir c r)).trans ?_
    simp [words]

lemma Redir.cmd_range (r : Redir) : r.cmd.q = r.q ∧ r.cmd.eq = r.eq := by
  rcases r with ⟨_ | _ | _,q,eq⟩ <;> exact ⟨rfl,rfl⟩

lemma Deriv.words_mem {k : Sym} (x : Deriv k) : ∀ w ∈ x.tree.words, Token.word w.1 w.2 ∈ x.yield := by
  induction x with
  | last p n ih =>
    intro w hw
    rw [tree,backs_words] at hw
    exact mem_append_left _ (ih w hw)
  | seq p n l ihp ihl =>
    intro w hw
    rw [tree,words,backs_words,mem_append] at hw
    rcases hw with hw | hw
    · exact mem_append_left _ (mem_append_left _ (ihp w hw))
    · exact mem_append_right _ (mem_cons_of_mem _ (ihl w hw))
  | one e ih => exact ih
  | more e p ihe ihp =>
    intro w hw
    rw [tree,words,mem_append] at hw
    rcases hw with hw | hw
    · exact mem_append_left _ (ihe w hw)
    · exact mem_append_right _ (mem_cons_of_mem _ (ihp w hw))
  | block l rs ih =>
    intro w hw
    rw [tree,wrap_words,mem_append] at hw
    rw [yield]
    rcases hw with hw | hw
    · exact mem_cons_of_mem _ (mem_append_left _ (ih w hw))
    · obtain ⟨_,hrs,rfl⟩ := mem_map.mp hw
      obtain ⟨r,hr,rfl⟩ := mem_map.mp hrs
      refine mem_cons_of_mem _ (mem_append_right _ (mem_cons_of_mem _ ?_))
      refine mem_flatMap.mpr ⟨r,hr,?_⟩
      rw [r.cmd_range.1,r.cmd_range.2]
      simp [Redir.yield]
  | simple items =>
    intro w hw
    rw [tree,wrap_words,mem_append] at hw
    rw [yield]
    rcases hw with hw | hw
    · obtain ⟨i,hi,hw⟩ := mem_filterMap.mp hw
      refine mem_flatMap.mpr ⟨i,hi,?_⟩
      cases i with
      | word q eq => cases hw; simp [Item.yield]
      | redir r => cases hw
    · obtain ⟨_,hr,rfl⟩ := mem_map.mp hw
      obtain ⟨i,hi,hr⟩ := mem_filterMap.mp hr
      refine mem_flatMap.mpr ⟨i,hi,?_⟩
      cases i with
      | word q eq => cases hr
      | redir r =>
        cases hr
        rw [r.cmd_range.1,r.cmd_range.2]
        simp [Item.yield,Redir.yield]

lemma words_mem_tokens {s : Ptr} {c : Cmd} (h : parsecmd s = .ok c) : ∀ w ∈ c.words, Token.word w.1 w.2 ∈ tokens s := by
  obtain ⟨t,hl,ht⟩ := (parsecmd_cases s c).mp h
  obtain ⟨x,-,rfl,hs⟩ := parseOf_sound (4*s.length+4) .line s c t (show parseOf s.length .line _ s = _ from hl)
  rw [ht,append_nil] at hs
  intro w hw
  rw [tokens,hs]
  exact x.words_mem w hw

lemma cString_terminate {s : Ptr} (hws : ∀ w ∈ ws, IsWord s w.1 w.2) {w : ℕ × ℕ} (hw : w ∈ ws) :
    cString (terminate ws (buffer s)) w.1 = ((s.drop w.1).take (w.2-w.1)).map val := by
  have hword := hws w hw
  obtain ⟨hle,hend⟩ := hword.le
  have hlen : (buffer s).length = s.length+1 := by simp [buffer]
  -- the characters of the word are as they were
  have hfront : ((terminate ws (buffer s)).drop w.1).take (w.2-w.1) = ((s.drop w.1).take (w.2-w.1)).map val := by
    apply ext_getElem?
    intro i
    rw [getElem?_take,getElem?_map,getElem?_take]
    split_ifs with hi
    · have hne : ∀ v ∈ ws, v.2 ≠ w.1+i := by
        intro v hv hvi
        have hv' := hws v hv
        rw [hvi] at hv'
        have := hword.not_inside hv' (Nat.le_add_right _ _)
        omega
      rw [getElem?_drop,getElem?_drop,terminate_of_ne hne,buffer,
        getElem?_append_left (by rw [length_map]; omega),getElem?_map]
    · rfl
  -- and the NUL follows
  have hback : ∃ rest, (terminate ws (buffer s)).drop w.2 = 0 :: rest := by
    have hnul := terminate_nul ws (buffer s) (j := w.2) (by omega) (.inr ⟨w,hw,rfl⟩)
    obtain ⟨hlt,hget⟩ := List.getElem?_eq_some_iff.mp hnul
    exact ⟨_,by rw [drop_eq_getElem_cons hlt,hget]⟩
  obtain ⟨rest,hrest⟩ := hback
  have hsplit : (terminate ws (buffer s)).drop w.1 = ((s.drop w.1).take (w.2-w.1)).map val++0 :: rest := by
    rw [← hfront,← hrest,show w.2 = w.1+(w.2-w.1) by omega,← drop_drop,Nat.add_sub_cancel_left, take_append_drop]
  rw [cString,hsplit,takeWhile_append_of_pos]
  · simp
  · intro c hc
    obtain ⟨d,-,rfl⟩ := mem_map.mp hc
    exact decide_eq_true d.property

/-- After `nulterminate` every word of the tree is the C string of its token. -/
theorem nulterminate_exact (s : Ptr) (c : Cmd) (h : parsecmd s = .ok c) (w : ℕ × ℕ) (hw : w ∈ c.words) :
    Token.word w.1 w.2 ∈ tokens s ∧
      cString (nulterminate c (buffer s)) w.1 = ((s.drop w.1).take (w.2-w.1)).map Subtype.val := by
  have hmem := words_mem_tokens h
  refine ⟨hmem w hw,?_⟩
  rw [nulterminate_eq]
  exact cString_terminate (fun v hv => isWord_of_mem (a := []) rfl nofun rfl (hmem v hv)) hw

/-- The command `a>b|c`, where no white space separates the words from the symbols. -/
def adjacent : Ptr := [⟨97,by decide⟩,⟨62,by decide⟩,⟨98,by decide⟩,⟨124,by decide⟩,⟨99,by decide⟩]

/-- Its file `b` ends where the symbol of the pipe was. -/
theorem nulterminate_exact_adjacent : let c := Cmd.pipe (.redir (.exec [(0,1)]) ⟨2,3,wronlyCreate,1⟩) (.exec [(4,5)])
    Token.word 2 3 ∈ tokens adjacent ∧
      cString (nulterminate c (buffer adjacent)) 2 = ((adjacent.drop 2).take (3-2)).map Subtype.val :=
  nulterminate_exact adjacent _ (by decide +kernel) (2,3) (by decide)

end Xv6Threads.Shell
