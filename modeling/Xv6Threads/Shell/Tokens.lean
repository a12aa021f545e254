import Xv6Threads.Shell.Grammar

/-! The token sequence of a command string, and what `peek` and `gettoken` say about it. -/
namespace Xv6Threads.Shell
open List Tok Nat Token

def Tok.token (q eq : ℕ) : Tok → Option Token
  | .eof => none
  | .pipe => some .pipe
  | .lparen => some .lparen
  | .rparen => some .rparen
  | .semi => some .semi
  | .amp => some .amp
  | .lt => some .lt
  | .gt => some .gt
  | .gtgt => some .gtgt
  | .word => some (.word q eq)

lemma Tok.token_word {k : Tok} {q q' eq eq' : ℕ} (h : k.token q' eq' = some (.word q eq)) : k = .word := by
  cases k <;> simp [token] at h ⊢

/-- At most `n` tokens from a pointer on. -/
def lex (es : ℕ) : ℕ → Ptr → List Token
  | 0, _ => []
  | n+1, s =>
    match gettoken es s with
    | (tok,q,eq,t) =>
      match tok.token q eq with
      | none => []
      | some a => a :: lex es n t

/-- The tokens from a pointer on; there are no more than characters. -/
def toks (es : ℕ) (s : Ptr) : List Token := lex es s.length s

/-- The tokens of a command string. -/
def tokens (s : Ptr) : List Token := toks s.length s

variable {es : ℕ} {s : Ptr}

lemma length_skip (s : Ptr) : (skip s).length ≤ s.length := (dropWhile_sublist _).length_le

lemma skip_skip (s : Ptr) : skip (skip s) = skip s := dropWhile_idempotent _ _

lemma gettoken_skip (es : ℕ) (s : Ptr) : gettoken es (skip s) = gettoken es s := by
  unfold gettoken
  rw [skip_skip]

variable {c : Ch}

lemma head_skip {t u : Ptr} (h : skip t = c :: u) : isWhite c = false := by
  by_contra hw
  have := head?_dropWhile_not isWhite t
  rw [show t.dropWhile isWhite = c :: u from h] at this
  simp_all

/-- The character of a token that is a symbol. -/
def Token.char : Token → Option UInt8
  | .pipe => some 124
  | .lparen => some 40
  | .rparen => some 41
  | .semi => some 59
  | .amp => some 38
  | .lt => some 60
  | .gt | .gtgt => some 62
  | .word _ _ => none

lemma not_plain_of_symbol (h : c.val ∈ symbols) : isPlain c = false := by simp [isPlain,isSymbol,h]

/-- A token of one character, which is a symbol. -/
structure IsSymbol (k : Tok) (c : Ch) : Prop where
  token : ∃ a : Token, (∀ q eq, k.token q eq = some a) ∧ a.char = some c.val
  mem : c.val ∈ symbols
  ne : k ≠ .word
  one : k ≠ .gtgt

lemma IsSymbol.of_val {k : Tok} {v : UInt8} (a : Token) (hv : c.val = v) (ht : ∀ q eq, k.token q eq = some a)
    (ha : a.char = some v) (hm : v ∈ symbols) (hk : k ≠ .word) (hone : k ≠ .gtgt) : IsSymbol k c :=
  ⟨⟨a,ht,ha.trans (congrArg some hv.symm)⟩,hv ▸ hm,hk,hone⟩

lemma gettoken_cons (es : ℕ) {t : Ptr} (hc : skip s = c :: t) :
    (∃ k, gettoken es s = (k,es-(c :: t).length,es-(c :: t).length+1,skip t) ∧ IsSymbol k c) ∨
    (∃ d u, t = d :: u ∧ c.val = 62 ∧ d.val = 62 ∧
      gettoken es s = (.gtgt,es-(c :: t).length,es-(c :: t).length+2,skip u)) ∨ (isPlain c = true ∧ c.val ∉ symbols ∧
      gettoken es s = (.word,es-(c :: t).length,es-(c :: t).length+((c :: t).takeWhile isPlain).length,
        skip ((c :: t).dropWhile isPlain))) := by
  generalize hg : gettoken es s = g
  unfold gettoken at hg
  rw [hc] at hg
  simp only at hg
  split_ifs at hg with h1 h2 h3 h4 h5 h6 h7
  · exact .inl ⟨.pipe,hg.symm,.of_val .pipe h1 (fun _ _ => rfl) rfl (by decide) nofun nofun⟩
  · exact .inl ⟨.lparen,hg.symm,.of_val .lparen h2 (fun _ _ => rfl) rfl (by decide) nofun nofun⟩
  · exact .inl ⟨.rparen,hg.symm,.of_val .rparen h3 (fun _ _ => rfl) rfl (by decide) nofun nofun⟩
  · exact .inl ⟨.semi,hg.symm,.of_val .semi h4 (fun _ _ => rfl) rfl (by decide) nofun nofun⟩
  · exact .inl ⟨.amp,hg.symm,.of_val .amp h5 (fun _ _ => rfl) rfl (by decide) nofun nofun⟩
  · exact .inl ⟨.lt,hg.symm,.of_val .lt h6 (fun _ _ => rfl) rfl (by decide) nofun nofun⟩
  · have hgt : IsSymbol .gt c := .of_val .gt h7 (fun _ _ => rfl) rfl (by decide) nofun nofun
    cases t with
    | nil => exact .inl ⟨.gt,hg.symm,hgt⟩
    | cons d u =>
      simp only at hg
      split_ifs at hg with h8
      · exact .inr (.inl ⟨d,u,rfl,h7,h8,hg.symm⟩)
      · exact .inl ⟨.gt,hg.symm,hgt⟩
  · have hsym : c.val ∉ symbols := by simp [symbols,h1,h2,h3,h4,h5,h6,h7]
    have hplain : isPlain c = true := by simp [isPlain,head_skip hc,isSymbol,hsym]
    exact .inr (.inr ⟨hplain,hsym,hg.symm⟩)

lemma gettoken_ne_eof {t : Ptr} (hc : skip s = c :: t) : (gettoken es s).1 ≠ .eof := by
  intro hk
  rcases gettoken_cons es hc with ⟨k,hg,hsym⟩ | ⟨d,u,-,-,-,hg⟩ | ⟨-,-,hg⟩ <;> rw [hg] at hk
  · obtain ⟨a,ha,-⟩ := hsym.token
    have := ha 0 0
    rw [show k = .eof from hk] at this
    cases this
  · cases hk
  · cases hk

lemma gettoken_length (h : (gettoken es s).1 ≠ .eof) : (gettoken es s).2.2.2.length < s.length := by
  have hs := length_skip s
  cases hc : skip s with
  | nil =>
    unfold gettoken at h
    rw [hc] at h
    exact absurd rfl h
  | cons c t =>
    rw [hc,length_cons] at hs
    rcases gettoken_cons es hc with ⟨k,hg,-⟩ | ⟨d,u,rfl,-,-,hg⟩ | ⟨hplain,-,hg⟩ <;> rw [hg]
    · exact lt_of_le_of_lt (length_skip t) hs
    · have hu := length_skip u
      rw [length_cons] at hs
      dsimp only
      omega
    · have hd : ((c :: t).dropWhile isPlain).length ≤ t.length := by
        rw [dropWhile_cons_of_pos hplain]
        exact (dropWhile_sublist _).length_le
      have := length_skip ((c :: t).dropWhile isPlain)
      dsimp only
      omega

lemma token_length {tok : Tok} {q eq : ℕ} {t : Ptr} {a : Token} (hg : gettoken es s = (tok,q,eq,t))
    (ht : tok.token q eq = some a) : t.length < s.length := by
  have hk : (gettoken es s).1 ≠ .eof := by
    rw [hg]
    rintro rfl
    cases ht
  have := gettoken_length hk
  rwa [hg] at this

lemma lex_fuel {n : ℕ} (h : s.length ≤ n) : lex es n s = toks es s := by
  unfold toks
  generalize hm : s.length = m at h
  induction m using Nat.strongRecOn generalizing n s with
  | ind m ih =>
    cases n with
    | zero =>
      obtain rfl : m = 0 := le_zero.mp h
      rfl
    | succ n =>
      cases m with
      | zero =>
        obtain rfl := length_eq_zero_iff.mp hm
        rfl
      | succ m =>
        unfold lex
        cases hg : gettoken es s with
        | mk tok rest =>
          obtain ⟨q,eq,t⟩ := rest
          simp only
          cases ht : tok.token q eq with
          | none => rfl
          | some a =>
            have hlen := token_length hg ht
            simp only
            rw [ih t.length (by omega) rfl (n := n) (by omega),ih t.length (by omega) rfl (n := m) (by omega)]

lemma toks_eq (es : ℕ) (s : Ptr) :
    toks es s = match (gettoken es s).1.token (gettoken es s).2.1 (gettoken es s).2.2.1 with
      | none => []
      | some a => a :: toks es (gettoken es s).2.2.2 := by
  rw [← lex_fuel (le_succ s.length)]
  unfold lex
  cases hg : gettoken es s with
  | mk tok rest =>
    obtain ⟨q,eq,t⟩ := rest
    simp only
    cases ht : tok.token q eq with
    | none => rfl
    | some a =>
      have hlen := token_length hg ht
      simp only
      rw [lex_fuel (le_of_lt hlen)]

lemma gettoken_of_cons {a : Token} {l : List Token} (h : toks es s = a :: l) :
    ∃ k q eq t, gettoken es s = (k,q,eq,t) ∧ k.token q eq = some a ∧ toks es t = l := by
  rw [toks_eq] at h
  refine ⟨_,_,_,_,rfl,?_⟩
  split at h
  · cases h
  case h_2 b hb =>
    cases h
    exact ⟨hb,rfl⟩

lemma gettoken_of_nil (h : toks es s = []) : ∃ q eq t, gettoken es s = (.eof,q,eq,t) ∧ toks es t = [] := by
  have hk : (gettoken es s).1 = .eof := by
    rw [toks_eq] at h
    split at h
    case h_1 hb =>
      revert hb
      cases (gettoken es s).1 <;> simp [token]
    · cases h
  have ht : (gettoken es s).2.2.2 = [] := by
    cases hc : skip s with
    | nil =>
      unfold gettoken
      rw [hc]
    | cons c t => exact absurd hk (gettoken_ne_eof hc)
  refine ⟨(gettoken es s).2.1,(gettoken es s).2.2.1,[],?_,rfl⟩
  rw [← hk,← ht]

/-- Whether the first token has one of the characters `cs`. -/
def nextIs (cs : List UInt8) (l : List Token) : Bool := ((l.head?.bind Token.char).map cs.contains).getD false

lemma peek_eq (es : ℕ) (s : Ptr) {cs : List UInt8} (hcs : cs ⊆ symbols) :
    ∃ t, peek s cs = (nextIs cs (toks es s),t) ∧ toks es t = toks es s := by
  refine ⟨skip s,?_,?_⟩
  · have hgoal : (peek s cs).1 = nextIs cs (toks es s) := by
      rw [toks_eq]
      unfold peek
      cases hc : skip s with
      | nil =>
        unfold gettoken
        rw [hc]
        rfl
      | cons c t =>
        rcases gettoken_cons es hc with ⟨k,hg,hsym⟩ | ⟨d,u,-,h7,-,hg⟩ | ⟨-,hsym,hg⟩ <;> rw [hg]
        · obtain ⟨a,ha,hchar⟩ := hsym.token
          simp [nextIs,ha,hchar]
        · simp [nextIs,token,char,h7]
        · have : c.val ∉ cs := fun hm => hsym (hcs hm)
          simp [nextIs,token,char,this]
    rw [← hgoal]
    unfold peek
    cases skip s <;> rfl
  · rw [toks_eq,toks_eq es s,gettoken_skip]

/-- The tokens of the characters `s`, the first of which is at position `p`: white space stands between them, a symbol is
a token of its own, two `>` in a row are one token, and a longest run of other characters is a word. -/
inductive Lexes : ℕ → Ptr → List Token → Prop
  | done (p : ℕ) : Lexes p [] []
  | white {p : ℕ} {c : Ch} {s : Ptr} {l : List Token} (hc : c.val ∈ whitespace) (h : Lexes (p+1) s l) :
      Lexes p (c :: s) l
  | symbol {p : ℕ} {c : Ch} {s : Ptr} {a : Token} {l : List Token} (ha : a.char = some c.val) (ha' : a ≠ .gtgt)
      (hs : c.val = 62 → ∀ d ∈ s.head?, d.val ≠ 62) (h : Lexes (p+1) s l) : Lexes p (c :: s) (a :: l)
  | gtgt {p : ℕ} {c d : Ch} {s : Ptr} {l : List Token} (hc : c.val = 62) (hd : d.val = 62) (h : Lexes (p+2) s l) :
      Lexes p (c :: d :: s) (.gtgt :: l)
  | word {p : ℕ} {w s : Ptr} {l : List Token} (hne : w ≠ []) (hw : ∀ c ∈ w, c.val ∉ whitespace ∧ c.val ∉ symbols)
      (hs : ∀ c ∈ s.head?, c.val ∈ whitespace ∨ c.val ∈ symbols) (h : Lexes (p+w.length) s l) :
      Lexes p (w++s) (.word p (p+w.length) :: l)

section
variable {a : Token} {p : ℕ}

lemma isPlain_iff : isPlain c = true ↔ c.val ∉ whitespace ∧ c.val ∉ symbols := by simp [isPlain,isWhite,isSymbol]

lemma symbol_of_char {v : UInt8} (h : a.char = some v) : v ∈ symbols := by
  cases a <;> cases h <;> decide

lemma exists_char (h : c.val ∈ symbols) : ∃ a : Token, a.char = some c.val ∧ a ≠ .gtgt := by
  simp only [symbols,mem_cons,not_mem_nil,or_false] at h
  rcases h with h | h | h | h | h | h | h <;> rw [h]
  · exact ⟨.lt,rfl,nofun⟩
  · exact ⟨.pipe,rfl,nofun⟩
  · exact ⟨.gt,rfl,nofun⟩
  · exact ⟨.amp,rfl,nofun⟩
  · exact ⟨.semi,rfl,nofun⟩
  · exact ⟨.lparen,rfl,nofun⟩
  · exact ⟨.rparen,rfl,nofun⟩

/-- Every string has a token sequence. -/
lemma exists_lexes (p : ℕ) (s : Ptr) : ∃ l, Lexes p s l := by
  generalize hn : s.length = n
  induction n using Nat.strongRecOn generalizing p s with
  | ind n ih =>
    subst hn
    cases s with
    | nil => exact ⟨[],.done p⟩
    | cons c t =>
      by_cases hwhite : c.val ∈ whitespace
      · obtain ⟨l,hl⟩ := ih t.length (lt_succ_self _) (p+1) t rfl
        exact ⟨l,.white hwhite hl⟩
      by_cases hsym : c.val ∈ symbols
      · by_cases htwo : c.val = 62 ∧ ∃ d u, t = d :: u ∧ d.val = 62
        · obtain ⟨hc,d,u,rfl,hd⟩ := htwo
          obtain ⟨l,hl⟩ := ih u.length (by simp only [length_cons]; omega) (p+2) u rfl
          exact ⟨_,.gtgt hc hd hl⟩
        · obtain ⟨a,ha,hne⟩ := exists_char hsym
          obtain ⟨l,hl⟩ := ih t.length (lt_succ_self _) (p+1) t rfl
          refine ⟨_,.symbol ha hne (fun hc d hd hd' => htwo ⟨hc,d,t.tail,?_,hd'⟩) hl⟩
          exact (cons_head?_tail hd).symm
      · have hplain : isPlain c = true := isPlain_iff.mpr ⟨hwhite,hsym⟩
        have hlen : ((c :: t).dropWhile isPlain).length < (c :: t).length := by
          rw [dropWhile_cons_of_pos hplain]
          exact lt_succ_of_le (dropWhile_sublist _).length_le
        obtain ⟨l,hl⟩ := ih _ hlen (p+((c :: t).takeWhile isPlain).length) _ rfl
        have h := Lexes.word (w := (c :: t).takeWhile isPlain) (by rw [takeWhile_cons_of_pos hplain]; nofun)
          (fun d hd => isPlain_iff.mp (mem_takeWhile_imp hd)) (fun d hd => ?_) hl
        · rw [takeWhile_append_dropWhile] at h
          exact ⟨_,h⟩
        · have hd' := head?_dropWhile_not isPlain (c :: t)
          rw [Option.mem_def.mp hd] at hd'
          by_contra hor
          rw [not_or] at hor
          exact absurd (isPlain_iff.mpr hor) (by simpa using hd')

lemma toks_skip (es : ℕ) (s : Ptr) : toks es (skip s) = toks es s := by rw [toks_eq,toks_eq es s,gettoken_skip]

lemma skip_cons (h : c.val ∉ whitespace) (t : Ptr) : skip (c :: t) = c :: t :=
  dropWhile_cons_of_neg (by simpa [isWhite] using h)

lemma symbols_not_white : ∀ v ∈ symbols, v ∉ whitespace := by simp [symbols,whitespace]

lemma char_inj {b : Token} (h : a.char = b.char) (hc : a.char ≠ none) (ha : a ≠ .gtgt) (hb : b ≠ .gtgt) : a = b := by
  cases a <;> cases b <;> simp_all [char]

lemma toks_symbol {t : Ptr} (ha : a.char = some c.val) (ha' : a ≠ .gtgt) (ht : c.val = 62 → ∀ d ∈ t.head?, d.val ≠ 62) :
    toks es (c :: t) = a :: toks es t := by
  have hmem := symbol_of_char ha
  rcases gettoken_cons es (skip_cons (symbols_not_white _ hmem) t) with
    ⟨k,hg,hsym⟩ | ⟨d,u,rfl,hc,hd,-⟩ | ⟨-,hno,-⟩
  · obtain ⟨b,hb,hchar⟩ := hsym.token
    have hb' : b ≠ .gtgt := by
      rintro rfl
      have := hb 0 0
      have hone := hsym.one
      cases k with
      | gtgt => exact hone rfl
      | _ => cases this
    rw [toks_eq,hg]
    simp only [hb,char_inj (ha.trans hchar.symm) (by rw [ha]; nofun) ha' hb',toks_skip]
  · exact absurd hd (ht hc d rfl)
  · exact absurd hmem hno

lemma toks_gtgt {d : Ch} {u : Ptr} (hc : c.val = 62) (hd : d.val = 62) :
    toks es (c :: d :: u) = .gtgt :: toks es u := by
  have hwhite : c.val ∉ whitespace := by rw [hc]; decide
  have hg : gettoken es (c :: d :: u) = (.gtgt,es-(c :: d :: u).length,es-(c :: d :: u).length+2,skip u) := by
    unfold gettoken
    rw [skip_cons hwhite]
    simp [hc,hd]
  rw [toks_eq,hg]
  simp only [token,toks_skip]

lemma toks_word {w s : Ptr} (hne : w ≠ []) (hw : ∀ c ∈ w, isPlain c = true) (hs : ∀ c ∈ s.head?, isPlain c = false) :
    toks es (w++s) = .word (es-(w++s).length) (es-(w++s).length+w.length) :: toks es s := by
  have htake : (w++s).takeWhile isPlain = w ∧ (w++s).dropWhile isPlain = s := by
    have hstop : s.takeWhile isPlain = [] ∧ s.dropWhile isPlain = s := by
      cases s with
      | nil => exact ⟨rfl,rfl⟩
      | cons d u =>
        have hd := hs d rfl
        exact ⟨takeWhile_cons_of_neg (by simp [hd]),dropWhile_cons_of_neg (by simp [hd])⟩
    rw [takeWhile_append_of_pos hw,dropWhile_append_of_pos hw,hstop.1,hstop.2,append_nil]
    exact ⟨rfl,rfl⟩
  obtain ⟨c,v,rfl⟩ := exists_cons_of_ne_nil hne
  have hc := isPlain_iff.mp (hw c mem_cons_self)
  rcases gettoken_cons es (skip_cons hc.1 (v++s)) with ⟨k,-,hsym⟩ | ⟨d,u,-,h62,-⟩ | ⟨-,-,hg⟩
  · exact absurd hsym.mem hc.2
  · exact absurd (by rw [h62]; decide) hc.2
  · rw [← cons_append,htake.1,htake.2] at hg
    rw [toks_eq,hg]
    simp only [token,toks_skip]

lemma toks_of_lexes {l : List Token} (h : Lexes p s l) (hes : es = p+s.length) : toks es s = l := by
  induction h with
  | done p => rfl
  | @white p c s l hc h ih =>
    rw [← ih (by rw [hes,length_cons]; omega),← toks_skip,← toks_skip es s]
    congr 1
    exact dropWhile_cons_of_pos (by simpa [isWhite] using hc)
  | @symbol p c s a l ha ha' hs h ih => rw [toks_symbol ha ha' hs,ih (by rw [hes,length_cons]; omega)]
  | @gtgt p c d s l hc hd h ih => rw [toks_gtgt hc hd,ih (by rw [hes,length_cons,length_cons]; omega)]
  | @word p w s l hne hw hs h ih =>
    have hp : es-(w++s).length = p := by omega
    rw [toks_word hne (fun c hc => isPlain_iff.mpr (hw c hc)) fun c hc => ?_,hp,
      ih (by rw [hes,length_append]; omega)]
    rcases hs c hc with h | h <;> simp [isPlain,isWhite,isSymbol,h]

/-- `gettoken`, called until it returns 0, finds the token sequence of the string. -/
lemma lexes_iff {l : List Token} : Lexes 0 s l ↔ l = tokens s := by
  constructor
  · intro h
    exact (toks_of_lexes h (zero_add _).symm).symm
  · rintro rfl
    obtain ⟨l,hl⟩ := exists_lexes 0 s
    rwa [← show tokens s = l from toks_of_lexes hl (zero_add _).symm] at hl

end

section

/-- The range of a longest run of plain characters. -/
def IsWord (s : Ptr) (q eq : ℕ) : Prop :=
  ∃ a w b : Ptr, s = a++w++b ∧ q = a.length ∧ eq = (a++w).length ∧ w ≠ [] ∧ (∀ c ∈ w, isPlain c = true) ∧
    (∀ c ∈ a.getLast?, isPlain c = false) ∧ ∀ c ∈ b.head?, isPlain c = false

lemma not_plain_of_white {c : Ch} (h : isWhite c = true) : isPlain c = false := by simp [isPlain,h]

/-- A token is white space, then its own characters `x`, and the pointer moves over the white space after it. -/
def Cut (es : ℕ) (t : Ptr) (k : Tok) (q eq : ℕ) (t' : Ptr) : Prop :=
  ∃ ws x v, t = ws++x++v ∧ t' = skip v ∧ (∀ c ∈ ws, isWhite c = true) ∧ x ≠ [] ∧
    ((k = .word ∧ q = es-(x++v).length ∧ eq = q+x.length ∧ (∀ c ∈ x, isPlain c = true) ∧
        ∀ c ∈ v.head?, isPlain c = false) ∨
      (k ≠ .word ∧ ∀ c ∈ x, isPlain c = false))

variable {q eq : ℕ}

lemma cut_symbol {t x v : Ptr} {k : Tok} (hx : skip t = x++v) (hne : x ≠ []) (hc : ∀ c ∈ x, c.val ∈ symbols)
    (hk : k ≠ .word) : Cut es t k q eq (skip v) := by
  refine ⟨t.takeWhile isWhite,x,v,?_,rfl,fun c h => mem_takeWhile_imp h,hne,.inr ⟨hk,?_⟩⟩
  · rw [append_assoc,← hx]
    exact takeWhile_append_dropWhile.symm
  · exact fun c h => not_plain_of_symbol (hc c h)

lemma cut_word {t u : Ptr} (hu : skip t = u) (hne : u.takeWhile isPlain ≠ []) :
    Cut es t .word (es-u.length) (es-u.length+(u.takeWhile isPlain).length) (skip (u.dropWhile isPlain)) := by
  have hsplit : u.takeWhile isPlain++u.dropWhile isPlain = u := takeWhile_append_dropWhile
  refine ⟨t.takeWhile isWhite,u.takeWhile isPlain,u.dropWhile isPlain,?_,rfl,fun c h => mem_takeWhile_imp h,hne,
    .inl ⟨rfl,by rw [hsplit],rfl,fun c h => mem_takeWhile_imp h,fun c hc => ?_⟩⟩
  · rw [append_assoc,hsplit,← hu]
    exact takeWhile_append_dropWhile.symm
  · have := head?_dropWhile_not isPlain u
    simp_all

lemma gettoken_cut {t t' : Ptr} {k : Tok} (hg : gettoken es t = (k,q,eq,t')) (hk : k ≠ .eof) : Cut es t k q eq t' := by
  cases hc : skip t with
  | nil =>
    unfold gettoken at hg
    rw [hc] at hg
    cases hg
    exact absurd rfl hk
  | cons c u =>
    rcases gettoken_cons es hc with ⟨j,hj,hsym⟩ | ⟨d,v,rfl,h7,h8,hj⟩ | ⟨hplain,-,hj⟩
    · cases hj.symm.trans hg
      exact cut_symbol (x := [c]) hc nofun (by simpa using hsym.mem) hsym.ne
    · cases hj.symm.trans hg
      exact cut_symbol (x := [c,d]) hc nofun (by simp [h7,h8,symbols]) nofun
    · cases hj.symm.trans hg
      refine cut_word hc ?_
      rw [takeWhile_cons_of_pos hplain]
      nofun

lemma last_white {a w : Ptr} (hw : ∀ c ∈ w, isWhite c = true) (ha : w = [] → ∀ d ∈ a.getLast?, isPlain d = false) :
    ∀ d ∈ (a++w).getLast?, isPlain d = false := by
  rcases eq_nil_or_concat w with rfl | ⟨w,c,rfl⟩
  · simpa using ha rfl
  · intro d hd
    rw [concat_eq_append,← append_assoc,getLast?_concat] at hd
    cases hd
    exact not_plain_of_white (hw _ (by simp))

lemma isWord_of_mem {l : List Token} {a t : Ptr} (hs : s = a++t)
    (ha : ∀ c ∈ t.head?, isPlain c = true → ∀ d ∈ a.getLast?, isPlain d = false) (hl : toks s.length t = l)
    (h : .word q eq ∈ l) : IsWord s q eq := by
  induction l generalizing a t with
  | nil => cases h
  | cons b l ih =>
    obtain ⟨k,q',eq',t',hg,hb,hl'⟩ := gettoken_of_cons hl
    have hk : k ≠ .eof := by
      rintro rfl
      cases hb
    obtain ⟨ws,x,v,ht,rfl,hws,hne,hcase⟩ := gettoken_cut hg hk
    obtain ⟨c,x,rfl⟩ := exists_cons_of_ne_nil hne
    rcases mem_cons.mp h with h | h
    · subst h
      rcases hcase with ⟨rfl,hq,heq,hx,hv⟩ | ⟨hkw,-⟩
      · cases hb
        refine ⟨a++ws,c :: x,v,by simp [hs,ht],?_,?_,hne,hx,last_white hws fun hnil => ?_,hv⟩
        · rw [hq,hs,ht]
          simp only [length_append,length_cons]
          omega
        · rw [heq,hq,hs,ht]
          simp only [length_append,length_cons]
          omega
        · refine ha c ?_ (hx c (by simp))
          simp [ht,hnil]
      · exact absurd (token_word hb) hkw
    · refine ih (a := (a++ws++c :: x)++v.takeWhile isWhite) (t := skip v) ?_ ?_ hl' h
      · rw [hs,ht]
        have hsplit : v.takeWhile isWhite++skip v = v := takeWhile_append_dropWhile
        simp only [append_assoc,cons_append,hsplit]
      · intro e he hplain
        refine last_white (fun c h => mem_takeWhile_imp h) fun hnil d hd => ?_
        have hskip : skip v = v := by
          have hsplit : v.takeWhile isWhite++skip v = v := takeWhile_append_dropWhile
          rwa [hnil] at hsplit
        rw [hskip] at he
        rcases hcase with ⟨-,-,-,-,hv⟩ | ⟨-,hx⟩
        · exact absurd hplain (by simp [hv e he])
        · rw [getLast?_append_of_ne_nil _ (by simp)] at hd
          exact hx d (mem_of_getLast? hd)

end

end Xv6Threads.Shell
