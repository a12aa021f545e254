import Xv6Threads.Foundations.Loop
import Xv6Threads.Shell.Tokens

/-! The parser accepts exactly the command lines of the grammar, and builds the tree of the derivation. Soundness is by
induction on the bound, completeness on the derivation; the bound is large enough for every string. -/
namespace Xv6Threads.Shell
open List Item Nat Token
variable {es : ℕ}

lemma bind_ne_fuel {α β : Type} {x : Parse α} {g : α → Parse β} (h1 : x ≠ .error .fuel)
    (h2 : ∀ a, x = .ok a → g a ≠ .error .fuel) : x >>= g ≠ .error .fuel := by
  cases x with
  | error e => exact fun h => h1 (by cases h; rfl)
  | ok a => exact h2 a rfl

section
variable {n : ℕ} {rs : List Redircmd} {s : Ptr}

lemma parseredirs_succ : parseredirs es (n+1) rs s =
    match peek s [60,62] with
    | (false,ps) => .ok (rs,ps)
    | (true,ps) =>
      if (gettoken es (gettoken es ps).2.2.2).1 ≠ .word then .error (.panic "missing file for redirection") else
        match (gettoken es ps).1 with
        | .lt => parseredirs es n (rs++[⟨(gettoken es (gettoken es ps).2.2.2).2.1,
            (gettoken es (gettoken es ps).2.2.2).2.2.1,rdonly,0⟩]) (gettoken es (gettoken es ps).2.2.2).2.2.2
        | .gt => parseredirs es n (rs++[⟨(gettoken es (gettoken es ps).2.2.2).2.1,
            (gettoken es (gettoken es ps).2.2.2).2.2.1,wronlyCreate,1⟩]) (gettoken es (gettoken es ps).2.2.2).2.2.2
        | .gtgt => parseredirs es n (rs++[⟨(gettoken es (gettoken es ps).2.2.2).2.1,
            (gettoken es (gettoken es ps).2.2.2).2.2.1,wronlyCreate,1⟩]) (gettoken es (gettoken es ps).2.2.2).2.2.2
        | _ => parseredirs es n rs (gettoken es (gettoken es ps).2.2.2).2.2.2 := rfl

lemma op_of_nextIs {l : List Token} (h : nextIs [60,62] l = true) : ∃ op : Op, ∃ l', l = op.token :: l' := by
  cases l with
  | nil => cases h
  | cons a l =>
    cases a <;> first | exact ⟨.lt,l,rfl⟩ | exact ⟨.gt,l,rfl⟩ | exact ⟨.gtgt,l,rfl⟩ | cases h

lemma parseredirs_cases (n : ℕ) (rs : List Redircmd) (s : Ptr) :
    (nextIs [60,62] (toks es s) = false ∧ ∃ t, toks es t = toks es s ∧ parseredirs es (n+1) rs s = .ok (rs,t)) ∨
    (∃ r t, toks es s = Redir.yield r++toks es t ∧ parseredirs es (n+1) rs s = parseredirs es n (rs++[r.cmd]) t) ∨
    ((∀ r l, toks es s ≠ Redir.yield r++l) ∧ nextIs [60,62] (toks es s) = true ∧
      parseredirs es (n+1) rs s = .error (.panic "missing file for redirection")) := by
  obtain ⟨t,hp,ht⟩ := peek_eq es s (by decide : [60,62] ⊆ symbols)
  rw [parseredirs_succ,hp]
  cases hn : nextIs [60,62] (toks es s) with
  | false => exact .inl ⟨rfl,t,ht,rfl⟩
  | true =>
    refine .inr ?_
    obtain ⟨op,l,hl⟩ := op_of_nextIs hn
    rw [← ht] at hl
    obtain ⟨k,q,eq,u,hg,hk,hu⟩ := gettoken_of_cons hl
    simp only [hg]
    cases l with
    | nil =>
      obtain ⟨q',eq',v,hg',-⟩ := gettoken_of_nil hu
      refine .inr ⟨fun r l h => ?_,trivial,by simp [hg']⟩
      rw [← ht,hl] at h
      exact nomatch (cons.inj h).2
    | cons b l =>
      obtain ⟨k',q',eq',v,hg',hk',hv⟩ := gettoken_of_cons hu
      simp only [hg']
      by_cases hw : k' = .word
      · subst hw
        cases hk'
        refine .inl ⟨⟨op,q',eq'⟩,v,?_,?_⟩
        · rw [← ht,hl,hv]
          rfl
        · rw [if_neg (by simp)]
          cases op <;> cases k <;> first | rfl | cases hk
      · refine .inr ⟨fun r l' h => ?_,trivial,by rw [if_pos hw]⟩
        rw [← ht,hl] at h
        have hb : b = .word r.q r.eq := (cons.inj (cons.inj h).2).1
        rw [hb] at hk'
        exact hw (Tok.token_word hk')

lemma parseredirs_sound {rs' : List Redircmd} {t : Ptr} (h : parseredirs es n rs s = .ok (rs',t)) :
    ∃ l : List Redir, toks es s = l.flatMap Redir.yield++toks es t ∧ rs' = rs++l.map Redir.cmd := by
  induction n generalizing rs s with
  | zero => cases h
  | succ n ih =>
    rcases parseredirs_cases n rs s with ⟨-,u,hu,he⟩ | ⟨r,u,hu,he⟩ | ⟨-,-,he⟩
    · rw [he] at h
      cases h
      exact ⟨[],by simp [hu],by simp⟩
    · rw [he] at h
      obtain ⟨l,h1,h2⟩ := ih h
      exact ⟨r :: l,by simp [hu,h1],by simp [h2]⟩
    · rw [he] at h
      cases h

lemma parseredirs_total (hn : (toks es s).length < n) : parseredirs es n rs s ≠ .error .fuel := by
  induction n generalizing rs s with
  | zero => omega
  | succ n ih =>
    rcases parseredirs_cases n rs s with ⟨-,u,-,he⟩ | ⟨r,u,hu,he⟩ | ⟨-,-,he⟩
    · rw [he]
      exact fun h => by cases h
    · rw [he]
      refine ih ?_
      rw [hu] at hn
      simp only [Redir.yield,length_append,length_cons] at hn
      omega
    · rw [he]
      exact fun h => by cases h

lemma parseredirs_complete {l : List Redir} {r : List Token} (h : toks es s = l.flatMap Redir.yield++r)
    (hr : nextIs [60,62] r = false) (hn : l.length < n) :
    ∃ t, parseredirs es n rs s = .ok (rs++l.map Redir.cmd,t) ∧ toks es t = r := by
  induction l generalizing n rs s with
  | nil =>
    obtain ⟨n,rfl⟩ : ∃ k, n = k+1 := ⟨n-1,by omega⟩
    have h : toks es s = r := h
    rcases parseredirs_cases n rs s with ⟨-,u,hu,he⟩ | ⟨a,u,hu,-⟩ | ⟨-,hbad,-⟩
    · exact ⟨u,by simp [he],hu.trans h⟩
    · rw [← h,hu] at hr
      rcases a with ⟨_ | _ | _,q,eq⟩ <;> cases hr
    · simp [h,hr] at hbad
  | cons a l ih =>
    obtain ⟨n,rfl⟩ : ∃ k, n = k+1 := ⟨n-1,by omega⟩
    rw [flatMap_cons,append_assoc] at h
    rcases parseredirs_cases n rs s with ⟨hno,-⟩ | ⟨b,u,hu,he⟩ | ⟨hno,-⟩
    · rw [h] at hno
      rcases a with ⟨_ | _ | _,q,eq⟩ <;> cases hno
    · obtain ⟨hab,hrest⟩ := yield_unique (i := .redir a) (j := .redir b) (h.symm.trans hu)
      cases hab
      obtain ⟨t,ht,htr⟩ := ih hrest.symm (lt_of_succ_lt_succ hn)
      exact ⟨t,he.trans (ht.trans (by simp)),htr⟩
    · exact absurd h (hno a _)

end

section
variable {n : ℕ} {argv₀ : List (ℕ × ℕ)} {rs : List Redircmd} {s : Ptr}

lemma parseargs_succ : parseargs es (n+1) argv₀ rs s =
    match peek s [124,41,38,59] with
    | (true,ps) => .ok (argv₀,rs,ps)
    | (false,ps) =>
      if (gettoken es ps).1 = .eof then .ok (argv₀,rs,(gettoken es ps).2.2.2)
      else if (gettoken es ps).1 ≠ .word then .error (.panic "syntax")
      else if maxargs ≤ argv₀.length+1 then .error (.panic "too many args")
      else parseredirs es n rs (gettoken es ps).2.2.2 >>=
        fun r => parseargs es n (argv₀++[((gettoken es ps).2.1,(gettoken es ps).2.2.1)]) r.1 r.2 := rfl

lemma parseargs_cases (n : ℕ) (argv₀ : List (ℕ × ℕ)) (rs : List Redircmd) (s : Ptr) :
    ((toks es s = [] ∨ nextIs [124,41,38,59] (toks es s) = true) ∧
      ∃ t, toks es t = toks es s ∧ parseargs es (n+1) argv₀ rs s = .ok (argv₀,rs,t)) ∨
    (∃ q eq t, toks es s = .word q eq :: toks es t ∧ parseargs es (n+1) argv₀ rs s =
      if maxargs ≤ argv₀.length+1 then .error (.panic "too many args")
      else parseredirs es n rs t >>= fun r => parseargs es n (argv₀++[(q,eq)]) r.1 r.2) ∨
    ((∀ q eq l, toks es s ≠ .word q eq :: l) ∧ toks es s ≠ [] ∧ nextIs [124,41,38,59] (toks es s) = false ∧
      parseargs es (n+1) argv₀ rs s = .error (.panic "syntax")) := by
  obtain ⟨t,hp,ht⟩ := peek_eq es s (by decide : [124,41,38,59] ⊆ symbols)
  rw [parseargs_succ,hp]
  cases hn : nextIs [124,41,38,59] (toks es s) with
  | true => exact .inl ⟨.inr rfl,t,ht,rfl⟩
  | false =>
    simp only
    cases hl : toks es t with
    | nil =>
      obtain ⟨q,eq,u,hg,hu⟩ := gettoken_of_nil hl
      refine .inl ⟨.inl (ht.symm.trans hl),u,?_,by simp [hg]⟩
      rw [hu,← ht,hl]
    | cons a l =>
      obtain ⟨k,q,eq,u,hg,hk,hu⟩ := gettoken_of_cons hl
      simp only [hg]
      refine .inr ?_
      by_cases hw : k = .word
      · subst hw
        cases hk
        refine .inl ⟨q,eq,u,by rw [← ht,hl,hu],?_⟩
        rw [if_neg (by simp),if_neg (by simp)]
      · have he : k ≠ .eof := by
          rintro rfl
          cases hk
        refine .inr ⟨fun q' eq' l' h => ?_,by rw [← ht,hl]; nofun,trivial,by rw [if_neg he,if_pos hw]⟩
        have ha : a = .word q' eq' := (cons.inj (hl.symm.trans (ht.trans h))).1
        rw [ha] at hk
        exact hw (Tok.token_word hk)

lemma parseargs_sound {argv' : List (ℕ × ℕ)} {rs' : List Redircmd} {t : Ptr}
    (h : parseargs es n argv₀ rs s = .ok (argv',rs',t)) (hlen : argv₀.length ≤ maxargs-1) :
    ∃ items : List Item, toks es s = items.flatMap yield++toks es t ∧ argv' = argv₀++argv items ∧
      rs' = rs++items.filterMap redircmd ∧ argv'.length ≤ maxargs-1 := by
  induction n generalizing argv₀ rs s with
  | zero => cases h
  | succ n ih =>
    rcases parseargs_cases n argv₀ rs s with ⟨-,u,hu,he⟩ | ⟨q,eq,u,hu,he⟩ | ⟨-,-,-,he⟩
    · rw [he] at h
      cases h
      exact ⟨[],by simp [hu],by simp [argv],by simp,hlen⟩
    · rw [he] at h
      split_ifs at h with hmax
      obtain ⟨⟨rs₁,v⟩,hr,h⟩ := ok_of_bind h
      obtain ⟨l,h1,h2⟩ := parseredirs_sound hr
      obtain ⟨items,h3,h4,h5,h6⟩ := ih h (by simp only [length_append,length_singleton]; omega)
      refine ⟨.word q eq :: l.map redir++items,?_,?_,?_,h6⟩
      · rw [hu,h1]
        simp [yield,yield_redirs,h3]
      · have hcons : argv (.word q eq :: (l.map redir++items)) = (q,eq) :: argv (l.map redir++items) := rfl
        rw [cons_append,hcons,argv_append,argv_redirs,h4]
        simp
      · rw [cons_append,filterMap_cons_none rfl,filterMap_append,redircmds_redirs,h5,h2,append_assoc]
    · rw [he] at h
      cases h

lemma parseargs_total (hn : (toks es s).length < n) : parseargs es n argv₀ rs s ≠ .error .fuel := by
  induction n generalizing argv₀ rs s with
  | zero => omega
  | succ n ih =>
    rcases parseargs_cases n argv₀ rs s with ⟨-,u,-,he⟩ | ⟨q,eq,u,hu,he⟩ | ⟨-,-,-,he⟩
    · rw [he]
      nofun
    · rw [he]
      split_ifs
      · nofun
      · rw [hu,length_cons] at hn
        refine bind_ne_fuel (parseredirs_total (by omega)) fun r hr => ih ?_
        obtain ⟨l,h1,-⟩ := parseredirs_sound (t := r.2) hr
        rw [h1,length_append] at hn
        omega
    · rw [he]
      nofun

end

/-- The token of the character `c`. -/
structure Names (c : UInt8) (a : Token) : Prop where
  symbol : [c] ⊆ symbols
  only : ∀ b : Token, b.char = some c ↔ b = a

lemma names {c : UInt8} {a : Token} (ha : a.char = some c) (hc : c ≠ 62) : Names c a := by
  have hne : ∀ {b : Token}, b.char = some c → b ≠ .gtgt := by
    rintro b hb rfl
    exact hc (Option.some.inj hb).symm
  refine ⟨fun v hv => ?_,fun b => ⟨fun hb => ?_,fun hb => hb ▸ ha⟩⟩
  · rw [mem_singleton.mp hv]
    exact symbol_of_char ha
  · exact char_inj (hb.trans ha.symm) (by rw [hb]; nofun) (hne hb) (hne ha)

lemma peek_cases {c : UInt8} {a : Token} (hc : Names c a) (es : ℕ) (s : Ptr) :
    (∃ t, peek s [c] = (false,t) ∧ toks es t = toks es s ∧ (toks es s).head? ≠ some a) ∨
    ∃ t, peek s [c] = (true,t) ∧ toks es t = toks es s ∧ toks es s = a :: toks es (gettoken es t).2.2.2 := by
  obtain ⟨t,hp,ht⟩ := peek_eq es s hc.symbol
  cases hl : toks es s with
  | nil =>
    rw [hl] at hp ht
    exact .inl ⟨t,hp,ht,nofun⟩
  | cons b l =>
    rw [hl] at hp ht
    by_cases hb : b = a
    · subst hb
      obtain ⟨k,q,eq,u,hg,-,hu⟩ := gettoken_of_cons ht
      refine .inr ⟨t,?_,ht,by rw [hg,hu]⟩
      rw [hp]
      simp [nextIs,(hc.only b).mpr rfl]
    · refine .inl ⟨t,?_,ht,by simpa using hb⟩
      have hne : b.char ≠ some c := fun h => hb ((hc.only b).mp h)
      rw [hp]
      cases hbc : b.char with
      | none => simp [nextIs,hbc]
      | some d =>
        have : d ≠ c := fun h => hne (by rw [hbc,h])
        simp [nextIs,hbc,this]

section
variable {n : ℕ} {cmd : Cmd} {s : Ptr}

lemma parseback_succ : parseback es (n+1) cmd s =
    match peek s [38] with
    | (false,ps) => .ok (cmd,ps)
    | (true,ps) => parseback es n (.back cmd) (gettoken es ps).2.2.2 := rfl

lemma parseback_sound {c : Cmd} {t : Ptr} (h : parseback es n cmd s = .ok (c,t)) :
    ∃ k, toks es s = replicate k .amp++toks es t ∧ c = backs k cmd := by
  induction n generalizing cmd s with
  | zero => cases h
  | succ n ih =>
    rw [parseback_succ] at h
    rcases peek_cases (names (a := .amp) rfl (by decide)) es s with ⟨u,hp,hu,-⟩ | ⟨u,hp,-,hu⟩
    · rw [hp] at h
      cases h
      exact ⟨0,hu.symm,rfl⟩
    · rw [hp] at h
      obtain ⟨k,h1,h2⟩ := ih h
      exact ⟨k+1,by rw [hu,h1]; rfl,h2⟩

lemma parseback_total (hn : (toks es s).length < n) : parseback es n cmd s ≠ .error .fuel := by
  induction n generalizing cmd s with
  | zero => omega
  | succ n ih =>
    rw [parseback_succ]
    rcases peek_cases (names (a := .amp) rfl (by decide)) es s with ⟨u,hp,-,-⟩ | ⟨u,hp,-,hu⟩
    · rw [hp]
      nofun
    · rw [hp]
      refine ih ?_
      rw [hu,length_cons] at hn
      omega

lemma parseback_complete {k : ℕ} {r : List Token} (h : toks es s = replicate k .amp++r) (hr : r.head? ≠ some .amp)
    (hn : k < n) : ∃ t, parseback es n cmd s = .ok (backs k cmd,t) ∧ toks es t = r := by
  induction n generalizing k cmd s with
  | zero => omega
  | succ n ih =>
    rw [parseback_succ]
    rcases peek_cases (names (a := .amp) rfl (by decide)) es s with ⟨u,hp,hu,hne⟩ | ⟨u,hp,-,hu⟩
    · rw [hp]
      cases k with
      | zero => exact ⟨u,rfl,hu.trans h⟩
      | succ k => exact absurd (by rw [h]; rfl) hne
    · rw [hp]
      rw [hu] at h
      cases k with
      | zero => exact absurd (by rw [show r = _ from h.symm]; rfl) hr
      | succ k => exact ih (tail_eq_of_cons_eq h) (by omega)

end

section
variable {n m : ℕ} {s : Ptr}

lemma Ends.stops {k : Sym} {r : List Token} (h : Ends k r) :
    nextIs [60,62] r = false ∧ (r = [] ∨ nextIs [124,41,38,59] r = true) := by
  cases r with
  | nil => exact ⟨rfl,.inl rfl⟩
  | cons a r => cases a <;> first | exact h.elim | exact ⟨rfl,.inr rfl⟩

/-- The loops over redirections and arguments read the items of a simple command. -/
lemma simple_complete {items : List Item} {r : List Token} (argv₀ : List (ℕ × ℕ)) (rs : List Redircmd)
    (h : toks es s = items.flatMap yield++r) (hr : Ends .exec r) (hlen : (argv₀++argv items).length ≤ maxargs-1)
    (hm : items.length < m) (hn : items.length < n) :
    ∃ t, (parseredirs es m rs s >>= fun a => parseargs es n argv₀ a.1 a.2) =
      .ok (argv₀++argv items,rs++items.filterMap redircmd,t) ∧ toks es t = r := by
  obtain ⟨hredir,hstop⟩ := hr.stops
  induction items generalizing m n argv₀ rs s with
  | nil =>
    obtain ⟨m,rfl⟩ : ∃ k, m = k+1 := ⟨m-1,by omega⟩
    obtain ⟨n,rfl⟩ : ∃ k, n = k+1 := ⟨n-1,by omega⟩
    have h : toks es s = r := h
    rcases parseredirs_cases m rs s with ⟨-,u,hu,he⟩ | ⟨a,u,hu,-⟩ | ⟨-,hbad,-⟩
    · rw [he]
      rcases parseargs_cases n argv₀ rs u with ⟨-,v,hv,he'⟩ | ⟨q,eq,v,hv,-⟩ | ⟨-,hne,hnext,-⟩
      · exact ⟨v,by simp [argv,← he']; rfl,by rw [hv,hu,h]⟩
      · rw [hu,h] at hv
        exact absurd (by rw [hv]; rfl) (hr.noItem (.word q eq) _ rfl)
      · rw [hu,h] at hne hnext
        rcases hstop with hstop | hstop
        · exact absurd hstop hne
        · simp [hstop] at hnext
    · rw [h] at hu
      exact absurd (by rw [hu]; rfl) (hr.noItem (.redir a) _ rfl)
    · simp [h,hredir] at hbad
  | cons i items ih =>
    obtain ⟨m,rfl⟩ : ∃ k, m = k+1 := ⟨m-1,by omega⟩
    obtain ⟨n,rfl⟩ : ∃ k, n = k+1 := ⟨n-1,by omega⟩
    rw [flatMap_cons,append_assoc] at h
    simp only [length_cons] at hm hn
    cases i with
    | word q eq =>
      rcases parseredirs_cases m rs s with ⟨-,u,hu,he⟩ | ⟨a,u,hu,-⟩ | ⟨-,hbad,-⟩
      · rw [he]
        rcases parseargs_cases n argv₀ rs u with ⟨hend,-⟩ | ⟨q',eq',v,hv,he'⟩ | ⟨hw,-⟩
        · rw [hu,h] at hend
          rcases hend with hend | hend <;> cases hend
        · rw [hu,h] at hv
          obtain ⟨hword,hrest⟩ := cons.inj hv
          cases hword
          have hlen' : ((argv₀++[(q,eq)])++argv items).length ≤ maxargs-1 := by simpa [argv,arg] using hlen
          have hmax : ¬ maxargs ≤ argv₀.length+1 := by
            simp only [length_append,length_singleton] at hlen'
            omega
          obtain ⟨t,ht,htr⟩ := ih (argv₀++[(q,eq)]) rs hrest.symm hlen' (lt_of_succ_lt_succ hn) (lt_of_succ_lt_succ hn)
          refine ⟨t,?_,htr⟩
          change parseargs es (n+1) argv₀ rs u = _
          rw [he',if_neg hmax,ht]
          simp [argv,filterMap_cons,arg,redircmd]
        · exact absurd (hu.trans h) (hw q eq _)
      · rw [h] at hu
        cases (yield_unique (i := .word q eq) (j := .redir a) hu).1
      · rw [h] at hbad
        cases hbad
    | redir a =>
      rcases parseredirs_cases m rs s with ⟨hno,-⟩ | ⟨b,u,hu,he⟩ | ⟨hno,-⟩
      · rw [h] at hno
        rcases a with ⟨_ | _ | _,q,eq⟩ <;> cases hno
      · rw [he]
        obtain ⟨hab,hrest⟩ := yield_unique (i := .redir a) (j := .redir b) (h.symm.trans hu)
        cases hab
        obtain ⟨t,ht,htr⟩ := ih argv₀ (rs++[a.cmd]) hrest.symm hlen (lt_of_succ_lt_succ hm) (lt_of_succ_lt hn)
        refine ⟨t,ht.trans ?_,htr⟩
        simp [argv,filterMap_cons,arg,redircmd]
      · exact absurd h (hno a _)

end

section
variable {n : ℕ} {s : Ptr}

lemma parseline_succ : parseline es (n+1) s = parsepipe es n s >>= fun a => parseback es n a.1 a.2 >>= fun b =>
    match peek b.2 [59] with
    | (false,ps) => .ok (b.1,ps)
    | (true,ps) => parseline es n (gettoken es ps).2.2.2 >>= fun c => .ok (.list b.1 c.1,c.2) := rfl

lemma parsepipe_succ : parsepipe es (n+1) s = parseexec es n s >>= fun a =>
    match peek a.2 [124] with
    | (false,ps) => .ok (a.1,ps)
    | (true,ps) => parsepipe es n (gettoken es ps).2.2.2 >>= fun b => .ok (.pipe a.1 b.1,b.2) := rfl

lemma parseexec_succ : parseexec es (n+1) s =
    match peek s [40] with
    | (true,ps) => parseblock es n ps
    | (false,ps) => parseredirs es n [] ps >>= fun a => parseargs es n [] a.1 a.2 >>= fun b =>
      .ok (wrap (.exec b.1) b.2.1,b.2.2) := rfl

lemma parseblock_succ : parseblock es (n+1) s =
    match peek s [40] with
    | (false,_) => .error (.panic "parseblock")
    | (true,ps) => parseline es n (gettoken es ps).2.2.2 >>= fun a =>
      match peek a.2 [41] with
      | (false,_) => .error (.panic "syntax - missing )")
      | (true,ps) => parseredirs es n [] (gettoken es ps).2.2.2 >>= fun b => .ok (wrap a.1 b.1,b.2) := rfl

/-- The function for a symbol of the grammar. -/
def parseOf (es : ℕ) : Sym → ℕ → Ptr → Parse (Cmd × Ptr)
  | .line => parseline es
  | .pipe => parsepipe es
  | .exec => parseexec es

/-- What the parser reads from `s` to `t` is a derivation, and the command is its tree. -/
def Reads (es : ℕ) (k : Sym) (s : Ptr) (c : Cmd) (t : Ptr) : Prop :=
  ∃ x : Deriv k, x.Ok ∧ x.tree = c ∧ toks es s = x.yield++toks es t

variable {t : Ptr} {c : Cmd}

section
variable (ih : ∀ k s c t, parseOf es k n s = .ok (c,t) → Reads es k s c t)
include ih

lemma parseline_sound
    (h : parseline es (n+1) s = .ok (c,t)) : Reads es .line s c t := by
  rw [parseline_succ] at h
  obtain ⟨⟨c1,s1⟩,h1,h⟩ := ok_of_bind h
  obtain ⟨⟨c2,s2⟩,h2,h⟩ := ok_of_bind h
  obtain ⟨p,hp,hc1,hs⟩ := ih .pipe s c1 s1 h1
  obtain ⟨amps,hs1,hc2⟩ := parseback_sound h2
  rcases peek_cases (names (a := .semi) rfl (by decide)) es s2 with ⟨u,hu,hs2,-⟩ | ⟨u,hu,-,hs2⟩
  · simp only [hu] at h
    cases h
    exact ⟨.last p amps,hp,by simp [Deriv.tree,hc1,hc2],by simp [Deriv.yield,hs,hs1,hs2]⟩
  · simp only [hu] at h
    obtain ⟨⟨c3,s3⟩,h3,h⟩ := ok_of_bind h
    cases h
    obtain ⟨l,hl,hc3,hs3⟩ := ih .line _ c3 s3 h3
    exact ⟨.seq p amps l,⟨hp,hl⟩,by simp [Deriv.tree,hc1,hc2,hc3],by simp [Deriv.yield,hs,hs1,hs2,hs3]⟩

lemma parsepipe_sound
    (h : parsepipe es (n+1) s = .ok (c,t)) : Reads es .pipe s c t := by
  rw [parsepipe_succ] at h
  obtain ⟨⟨c1,s1⟩,h1,h⟩ := ok_of_bind h
  obtain ⟨e,he,hc1,hs⟩ := ih .exec s c1 s1 h1
  rcases peek_cases (names (a := .pipe) rfl (by decide)) es s1 with ⟨u,hu,hs1,-⟩ | ⟨u,hu,-,hs1⟩
  · simp only [hu] at h
    cases h
    exact ⟨.one e,he,hc1,by simp [Deriv.yield,hs,hs1]⟩
  · simp only [hu] at h
    obtain ⟨⟨c2,s2⟩,h2,h⟩ := ok_of_bind h
    cases h
    obtain ⟨p,hp,hc2,hs2⟩ := ih .pipe _ c2 s2 h2
    exact ⟨.more e p,⟨he,hp⟩,by simp [Deriv.tree,hc1,hc2],by simp [Deriv.yield,hs,hs1,hs2]⟩

lemma parseblock_sound
    (h : parseblock es (n+1) s = .ok (c,t)) : Reads es .exec s c t := by
  rw [parseblock_succ] at h
  rcases peek_cases (names (a := .lparen) rfl (by decide)) es s with ⟨u,hu,-,-⟩ | ⟨u,hu,-,hs⟩
  · simp only [hu] at h
    cases h
  · simp only [hu] at h
    obtain ⟨⟨c1,s1⟩,h1,h⟩ := ok_of_bind h
    obtain ⟨l,hl,hc1,hs1⟩ := ih .line _ c1 s1 h1
    rcases peek_cases (names (a := .rparen) rfl (by decide)) es s1 with ⟨v,hv,-,-⟩ | ⟨v,hv,-,hs2⟩
    · simp only [hv] at h
      cases h
    · simp only [hv] at h
      obtain ⟨⟨rs,s3⟩,h3,h⟩ := ok_of_bind h
      cases h
      obtain ⟨redirs,hs3,hrs⟩ := parseredirs_sound h3
      exact ⟨.block l redirs,hl,by simp [Deriv.tree,hc1,hrs],by simp [Deriv.yield,hs,hs1,hs2,hs3]⟩

end

lemma parsesimple_sound {m : ℕ} {rs : List Redircmd} {a : List (ℕ × ℕ)} {u t : Ptr}
    (h : parseredirs es n [] s = .ok (rs,u)) {rs' : List Redircmd} (h' : parseargs es m [] rs u = .ok (a,rs',t)) :
    Reads es .exec s (wrap (.exec a) rs') t := by
  obtain ⟨l,hs,hrs⟩ := parseredirs_sound h
  obtain ⟨items,hu,ha,hrs',hlen⟩ := parseargs_sound h' (zero_le _)
  refine ⟨.simple (l.map redir++items),?_,?_,?_⟩
  · change (argv (l.map redir++items)).length ≤ maxargs-1
    rw [argv_append,argv_redirs]
    rwa [ha] at hlen
  · rw [Deriv.tree,argv_append,argv_redirs,filterMap_append,redircmds_redirs,ha,hrs',hrs]
    rfl
  · simp [Deriv.yield,yield_redirs,hs,hu]

/-- Every function of the parser reads a derivation of its symbol. -/
lemma parseOf_sound : ∀ n k s c t, parseOf es k n s = .ok (c,t) → Reads es k s c t := by
  intro n
  induction n using Nat.strongRecOn with
  | ind n ih =>
    intro k s c t h
    cases n with
    | zero => cases k <;> simp [parseOf,parseline,parsepipe,parseexec] at h
    | succ n =>
      cases k with
      | line => exact parseline_sound (ih n (lt_succ_self n)) h
      | pipe => exact parsepipe_sound (ih n (lt_succ_self n)) h
      | exec =>
        change parseexec es (n+1) s = .ok (c,t) at h
        rw [parseexec_succ] at h
        rcases peek_cases (names (a := .lparen) rfl (by decide)) es s with ⟨u,hu,hs,-⟩ | ⟨u,hu,hs,-⟩
        · simp only [hu] at h
          obtain ⟨⟨rs,s1⟩,h1,h⟩ := ok_of_bind h
          obtain ⟨⟨a,rs',s2⟩,h2,h⟩ := ok_of_bind h
          cases h
          have hr := parsesimple_sound h1 h2
          rwa [Reads,hs] at hr
        · simp only [hu] at h
          cases n with
          | zero => simp [parseblock] at h
          | succ n =>
            have hr := parseblock_sound (ih n (by omega)) h
            rwa [Reads,hs] at hr

lemma Reads.length_le {k : Sym} (h : Reads es k s c t) : (toks es t).length ≤ (toks es s).length := by
  obtain ⟨x,-,-,h⟩ := h
  rw [h,length_append]
  exact le_add_left _ _

/-- A bound for the calls of the function for `k` on `m` tokens. -/
def need (k : Sym) (m : ℕ) : ℕ :=
  match k with
  | .line => 4*m+4
  | .pipe => 4*m+3
  | .exec => 4*m+2

section
variable (ih : ∀ k s, need k (toks es s).length ≤ n → parseOf es k n s ≠ .error .fuel)
include ih

lemma parseline_total
    (hn : need .line (toks es s).length ≤ n+1) : parseline es (n+1) s ≠ .error .fuel := by
  simp only [need] at hn
  rw [parseline_succ]
  refine bind_ne_fuel (ih .pipe s (by simp only [need]; omega)) fun a ha => ?_
  have h1 := (parseOf_sound n .pipe s a.1 a.2 ha).length_le
  refine bind_ne_fuel (parseback_total (by omega)) fun b hb => ?_
  obtain ⟨amps,h2,-⟩ := parseback_sound (t := b.2) hb
  rw [h2,length_append] at h1
  rcases peek_cases (names (a := .semi) rfl (by decide)) es b.2 with ⟨u,hu,-⟩ | ⟨u,hu,-,h3⟩
  · simp only [hu]
    nofun
  · simp only [hu]
    rw [h3,length_cons] at h1
    exact bind_ne_fuel (ih .line _ (by simp only [need]; omega)) fun c _ => nofun

lemma parsepipe_total
    (hn : need .pipe (toks es s).length ≤ n+1) : parsepipe es (n+1) s ≠ .error .fuel := by
  simp only [need] at hn
  rw [parsepipe_succ]
  refine bind_ne_fuel (ih .exec s (by simp only [need]; omega)) fun a ha => ?_
  have h1 := (parseOf_sound n .exec s a.1 a.2 ha).length_le
  rcases peek_cases (names (a := .pipe) rfl (by decide)) es a.2 with ⟨u,hu,-⟩ | ⟨u,hu,-,h3⟩
  · simp only [hu]
    nofun
  · simp only [hu]
    rw [h3,length_cons] at h1
    exact bind_ne_fuel (ih .pipe _ (by simp only [need]; omega)) fun c _ => nofun

lemma parseblock_total
    (hn : 4*(toks es s).length+1 ≤ n+1) : parseblock es (n+1) s ≠ .error .fuel := by
  rw [parseblock_succ]
  rcases peek_cases (names (a := .lparen) rfl (by decide)) es s with ⟨u,hu,-⟩ | ⟨u,hu,-,hs⟩
  · simp only [hu]
    nofun
  · simp only [hu]
    rw [hs,length_cons] at hn
    refine bind_ne_fuel (ih .line _ (by simp only [need]; omega)) fun a ha => ?_
    have h1 := (parseOf_sound n .line _ a.1 a.2 ha).length_le
    rcases peek_cases (names (a := .rparen) rfl (by decide)) es a.2 with ⟨v,hv,-⟩ | ⟨v,hv,-,h2⟩
    · simp only [hv]
      nofun
    · simp only [hv]
      rw [h2,length_cons] at h1
      exact bind_ne_fuel (parseredirs_total (by omega)) fun b _ => nofun

end

/-- The recursion ends: the bound is never met. -/
lemma parseOf_total : ∀ n k s, need k (toks es s).length ≤ n → parseOf es k n s ≠ .error .fuel := by
  intro n
  induction n using Nat.strongRecOn with
  | ind n ih =>
    intro k s hn
    cases n with
    | zero => cases k <;> simp [need] at hn
    | succ n =>
      cases k with
      | line => exact parseline_total (ih n (lt_succ_self n)) hn
      | pipe => exact parsepipe_total (ih n (lt_succ_self n)) hn
      | exec =>
        simp only [need] at hn
        change parseexec es (n+1) s ≠ .error .fuel
        rw [parseexec_succ]
        rcases peek_cases (names (a := .lparen) rfl (by decide)) es s with ⟨u,hu,hs,-⟩ | ⟨u,hu,hs,-⟩
        · simp only [hu]
          rw [← hs] at hn
          refine bind_ne_fuel (parseredirs_total (by omega)) fun a ha => ?_
          obtain ⟨l,hl,-⟩ := parseredirs_sound (t := a.2) ha
          rw [hl,length_append] at hn
          exact bind_ne_fuel (parseargs_total (by omega)) fun b _ => nofun
        · simp only [hu]
          obtain ⟨m,rfl⟩ : ∃ m, n = m+1 := ⟨n-1,by omega⟩
          exact parseblock_total (ih m (by omega)) (by rw [hs]; omega)

lemma length_items_le (items : List Item) : items.length ≤ (items.flatMap yield).length := by
  induction items with
  | nil => simp
  | cons i items ih =>
    rw [flatMap_cons,length_append,length_cons]
    have hi : 1 ≤ i.yield.length := by cases i <;> simp [yield,Redir.yield]
    omega

lemma length_redirs_le (l : List Redir) : l.length ≤ (l.flatMap Redir.yield).length := by
  simpa [yield_redirs] using length_items_le (l.map redir)

section Steps
variable {s1 s2 s3 u v : Ptr} {c1 c2 c3 : Cmd}

section
variable (h1 : parsepipe es n s = .ok (c1,s1)) (h2 : parseback es n c1 s1 = .ok (c2,s2))
include h1 h2

lemma parseline_last
    (hu : peek s2 [59] = (false,u)) : parseline es (n+1) s = .ok (c2,u) := by
  simp only [parseline_succ,h1,h2,hu,bind,Except.bind]

lemma parseline_seq
    (hu : peek s2 [59] = (true,u)) (h3 : parseline es n (gettoken es u).2.2.2 = .ok (c3,s3)) :
    parseline es (n+1) s = .ok (.list c2 c3,s3) := by simp only [parseline_succ,h1,h2,hu,h3,bind,Except.bind]

end

lemma parsepipe_one (h1 : parseexec es n s = .ok (c1,s1)) (hu : peek s1 [124] = (false,u)) :
    parsepipe es (n+1) s = .ok (c1,u) := by simp only [parsepipe_succ,h1,hu,bind,Except.bind]

lemma parsepipe_more (h1 : parseexec es n s = .ok (c1,s1)) (hu : peek s1 [124] = (true,u))
    (h2 : parsepipe es n (gettoken es u).2.2.2 = .ok (c2,s2)) : parsepipe es (n+1) s = .ok (.pipe c1 c2,s2) := by
  simp only [parsepipe_succ,h1,hu,h2,bind,Except.bind]

lemma parseblock_group {rs : List Redircmd} (hu : peek s [40] = (true,u))
    (h1 : parseline es n (gettoken es u).2.2.2 = .ok (c1,s1)) (hv : peek s1 [41] = (true,v))
    (h2 : parseredirs es n [] (gettoken es v).2.2.2 = .ok (rs,s2)) : parseblock es (n+1) s = .ok (wrap c1 rs,s2) := by
  simp only [parseblock_succ,hu,h1,hv,h2,bind,Except.bind]

end Steps

lemma parseline_complete {p : Deriv .pipe} {amps : ℕ} {r : List Token}
    (hp : ∃ s1, parsepipe es n s = .ok (p.tree,s1) ∧ toks es s1 = replicate amps .amp++r) (hr : r.head? ≠ some .amp)
    (hn : amps < n) : ∃ c1 s1 s2, parsepipe es n s = .ok (c1,s1) ∧
      parseback es n c1 s1 = .ok (backs amps p.tree,s2) ∧ toks es s2 = r := by
  obtain ⟨s1,h1,hs1⟩ := hp
  obtain ⟨s2,h2,hs2⟩ := parseback_complete hs1 hr hn
  exact ⟨p.tree,s1,s2,h1,h2,hs2⟩

/-- The parser reads every derivation of the grammar, when what comes next ends it. -/
lemma parseOf_complete {k : Sym} (x : Deriv k) {r : List Token} (hx : x.Ok) (h : toks es s = x.yield++r) (hr : Ends k r)
    (hn : need k (toks es s).length ≤ n) : ∃ t, parseOf es k n s = .ok (x.tree,t) ∧ toks es t = r := by
  induction x generalizing n s r with
  | last p amps ih =>
    obtain ⟨n,rfl⟩ : ∃ m, n = m+1 := ⟨n-1,by simp only [need] at hn; omega⟩
    simp only [need] at hn
    simp only [Deriv.yield,append_assoc] at h
    have hlen := congrArg length h
    simp only [length_append,length_replicate] at hlen
    obtain ⟨c1,s1,s2,h1,h2,hs2⟩ := parseline_complete
      (ih (n := n) hx h (ends_amps amps hr.pipe) (by simp only [need]; omega)) (hr.ne fun _ => id) (by omega)
    rcases peek_cases (names (a := .semi) rfl (by decide)) es s2 with ⟨u,hu,hs3,-⟩ | ⟨u,hu,-,hs3⟩
    · exact ⟨u,parseline_last h1 h2 hu,hs3.trans hs2⟩
    · exact absurd (by rw [← hs2,hs3]; rfl) (hr.ne fun _ => id)
  | seq p amps l ihp ihl =>
    obtain ⟨n,rfl⟩ : ∃ m, n = m+1 := ⟨n-1,by simp only [need] at hn; omega⟩
    simp only [need] at hn
    simp only [Deriv.yield,append_assoc,cons_append] at h
    have hlen := congrArg length h
    simp only [length_append,length_replicate,length_cons] at hlen
    obtain ⟨c1,s1,s2,h1,h2,hs2⟩ := parseline_complete
      (ihp (n := n) hx.1 h (ends_amps amps trivial) (by simp only [need]; omega)) (by simp) (by omega)
    rcases peek_cases (names (a := .semi) rfl (by decide)) es s2 with ⟨u,hu,-,hs3⟩ | ⟨u,hu,-,hs3⟩
    · exact absurd (by rw [hs2]; rfl) hs3
    · have hs4 : toks es (gettoken es u).2.2.2 = l.yield++r := (cons.inj (hs3.symm.trans hs2)).2
      obtain ⟨t,h3,ht⟩ := ihl (n := n) hx.2 hs4 hr (by simp only [need,hs4,length_append]; omega)
      exact ⟨t,parseline_seq h1 h2 hu h3,ht⟩
  | one e ih =>
    obtain ⟨n,rfl⟩ : ∃ m, n = m+1 := ⟨n-1,by simp only [need] at hn; omega⟩
    simp only [need] at hn
    obtain ⟨s1,h1,hs1⟩ := ih (n := n) hx h hr.exec (by simp only [need]; omega)
    rcases peek_cases (names (a := .pipe) rfl (by decide)) es s1 with ⟨u,hu,hs2,-⟩ | ⟨u,hu,-,hs2⟩
    · exact ⟨u,parsepipe_one h1 hu,hs2.trans hs1⟩
    · exact absurd (by rw [← hs1,hs2]; rfl) (hr.ne fun _ => id)
  | more e p ihe ihp =>
    obtain ⟨n,rfl⟩ : ∃ m, n = m+1 := ⟨n-1,by simp only [need] at hn; omega⟩
    simp only [need] at hn
    simp only [Deriv.yield,append_assoc,cons_append] at h
    have hlen := congrArg length h
    simp only [length_append,length_cons] at hlen
    obtain ⟨s1,h1,hs1⟩ := ihe (n := n) hx.1 h trivial (by simp only [need]; omega)
    rcases peek_cases (names (a := .pipe) rfl (by decide)) es s1 with ⟨u,hu,-,hs2⟩ | ⟨u,hu,-,hs2⟩
    · exact absurd (by rw [hs1]; rfl) hs2
    · have hs3 : toks es (gettoken es u).2.2.2 = p.yield++r := (cons.inj (hs2.symm.trans hs1)).2
      obtain ⟨t,h2,ht⟩ := ihp (n := n) hx.2 hs3 hr (by simp only [need,hs3,length_append]; omega)
      exact ⟨t,parsepipe_more h1 hu h2,ht⟩
  | block l rs ih =>
    obtain ⟨n,rfl⟩ : ∃ m, n = m+2 := ⟨n-2,by simp only [need] at hn; omega⟩
    simp only [need] at hn
    simp only [Deriv.yield,append_assoc,cons_append] at h
    have hlen := congrArg length h
    simp only [length_append,length_cons] at hlen
    have hrs := length_redirs_le rs
    change ∃ t, parseexec es (n+2) s = _ ∧ _
    rw [parseexec_succ]
    rcases peek_cases (names (a := .lparen) rfl (by decide)) es s with ⟨u,hu,-,hs⟩ | ⟨u,hu,hs,-⟩
    · exact absurd (by rw [h]; rfl) hs
    · rcases peek_cases (names (a := .lparen) rfl (by decide)) es u with ⟨u',-,-,hs1⟩ | ⟨u',hu',-,hs1⟩
      · exact absurd (by rw [hs,h]; rfl) hs1
      · have hs2 := (cons.inj (hs1.symm.trans (hs.trans h))).2
        obtain ⟨s1,h1,hs3⟩ := ih (n := n) hx hs2 trivial (by
          simp only [need,hs2,length_append,length_cons]; omega)
        rcases peek_cases (names (a := .rparen) rfl (by decide)) es s1 with ⟨v,hv,-,hs4⟩ | ⟨v,hv,-,hs4⟩
        · exact absurd (by rw [hs3]; rfl) hs4
        · have hs5 := (cons.inj (hs4.symm.trans hs3)).2
          obtain ⟨t,h2,ht⟩ := parseredirs_complete hs5 hr.stops.1 (n := n) (by omega)
          refine ⟨t,?_,ht⟩
          simp only [hu]
          exact parseblock_group hu' h1 hv h2
  | simple items =>
    obtain ⟨n,rfl⟩ : ∃ m, n = m+1 := ⟨n-1,by simp only [need] at hn; omega⟩
    simp only [need] at hn
    have hlen := congrArg length h
    simp only [Deriv.yield,length_append] at hlen
    have hitems := length_items_le items
    change ∃ t, parseexec es (n+1) s = _ ∧ _
    rw [parseexec_succ]
    rcases peek_cases (names (a := .lparen) rfl (by decide)) es s with ⟨u,hu,hs,-⟩ | ⟨u,hu,-,hs⟩
    · obtain ⟨t,h1,ht⟩ := simple_complete (m := n) (n := n) [] [] (hs.trans h) hr hx (by omega) (by omega)
      obtain ⟨a,h2,h3⟩ := ok_of_bind h1
      refine ⟨t,?_,ht⟩
      simp only [hu,h2,h3,bind,Except.bind]
      rfl
    · have hhead := congrArg head? (hs.symm.trans h)
      cases items with
      | nil => exact absurd hhead.symm (hr.ne fun _ => id)
      | cons i items => rcases i with ⟨q,eq⟩ | ⟨⟨_ | _ | _,q,eq⟩⟩ <;> cases hhead

end

lemma length_lex_le (es n : ℕ) (s : Ptr) : (lex es n s).length ≤ n := by
  induction n generalizing s with
  | zero => exact le_refl 0
  | succ n ih =>
    unfold lex
    split
    split
    · exact zero_le _
    · exact succ_le_succ (ih _)

lemma peek_nil (es : ℕ) (s : Ptr) : (peek s []).2 = [] ↔ toks es s = [] := by
  have hp : (peek s []).2 = skip s := by
    unfold peek
    cases skip s <;> rfl
  rw [hp]
  constructor
  · intro h
    rw [toks_eq,← gettoken_skip,h]
    rfl
  · intro h
    obtain ⟨q,eq,t,hg,-⟩ := gettoken_of_nil h
    cases hc : skip s with
    | nil => rfl
    | cons c u => exact absurd (congrArg Prod.fst hg) (gettoken_ne_eof hc)

lemma parsecmd_cases (s : Ptr) (c : Cmd) : parsecmd s = .ok c ↔
    ∃ t, parseline s.length (4*s.length+4) s = .ok (c,t) ∧ toks s.length t = [] := by
  unfold parsecmd
  constructor
  · intro h
    obtain ⟨⟨c1,t⟩,h1,h2⟩ := ok_of_bind h
    simp only at h2
    split_ifs at h2 with hp
    cases h2
    exact ⟨t,h1,(peek_nil _ t).mp (not_not.mp hp)⟩
  · rintro ⟨t,h1,h2⟩
    rw [h1]
    change (if (peek t []).2 ≠ [] then _ else _) = _
    rw [if_neg (not_not.mpr ((peek_nil _ t).mpr h2))]

/-- The parser accepts exactly the command lines of the grammar, with the tree of the only derivation of the token
sequence, and it ends. -/
theorem parsecmd_exact (s : Ptr) : ∃ l, (∀ l', Lexes 0 s l' ↔ l' = l) ∧
    (∀ c, parsecmd s = .ok c ↔ ∃ x : Deriv .line, x.Ok ∧ x.yield = l ∧ x.tree = c) ∧
    (∀ x y : Deriv .line, x.yield = l → y.yield = l → x = y) ∧
    (∀ q eq, .word q eq ∈ l → IsWord s q eq) ∧ parsecmd s ≠ .error .fuel := by
  have hn : need .line (toks s.length s).length ≤ 4*s.length+4 := by
    have := length_lex_le s.length s.length s
    simp only [need,toks]
    omega
  refine ⟨tokens s,fun _ => lexes_iff,fun c => ?_,fun x y hx hy => ?_,
    fun q eq h => isWord_of_mem (a := []) rfl nofun rfl h,?_⟩
  · rw [parsecmd_cases]
    constructor
    · rintro ⟨t,h,ht⟩
      obtain ⟨x,hx,hc,hs⟩ := parseOf_sound (4*s.length+4) .line s c t (show parseOf s.length .line _ s = _ from h)
      exact ⟨x,hx,by rw [tokens,hs,ht,append_nil],hc⟩
    · rintro ⟨x,hx,hs,rfl⟩
      exact parseOf_complete (r := []) x hx (by rw [append_nil,hs]; rfl) trivial hn
  · have hxy : x.yield++[] = y.yield++[] := by rw [hx,hy]
    exact (Deriv.unique hxy trivial trivial).1
  · unfold parsecmd
    refine bind_ne_fuel (parseOf_total (4*s.length+4) .line s hn) fun a _ => ?_
    simp only
    split_ifs <;> nofun

end Xv6Threads.Shell
