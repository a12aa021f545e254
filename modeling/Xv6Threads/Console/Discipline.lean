import Xv6Threads.Console.Model

/-! The console is the line editor: on every schedule the ring and the editor show the same to the readers. The indices
count modulo 2^32 from some number `m`, and the bytes between them are the queue and the line of the editor. -/
namespace Xv6Threads.Console
open Editor State Nat Function List UInt32

lemma toNat_index (n : ℕ) : (UInt32.ofNat n%128).toNat = n%inputBuf := by
  rw [UInt32.toNat_mod,UInt32.toNat_ofNat']
  change n%2^32%128 = n%128
  omega

lemma ofNat_add_sub (a k : ℕ) : ofNat (a+k)-ofNat a = ofNat k := by
  rw [ofNat_add,add_comm]
  exact UInt32.add_sub_cancel _ _

lemma ofNat_add_one (a : ℕ) : ofNat (a+1) = ofNat a+1 := ofNat_add ..

lemma ofNat_add_eq_iff {a k : ℕ} (hk : k ≤ inputBuf) : ofNat (a+k) = ofNat a ↔ k = 0 := by
  constructor
  · intro h
    have := congrArg toNat h
    simp only [toNat_ofNat'] at this
    unfold inputBuf at hk
    omega
  · rintro rfl
    rfl

/-- The ring shows what the editor has, from number `m` on. -/
structure Ring (i : Input) (m : ℕ) (x : Editor) : Prop where
  r : i.r = UInt32.ofNat m
  w : i.w = UInt32.ofNat (m+x.queue.length)
  e : i.e = UInt32.ofNat (m+x.queue.length+x.line.length)
  room : x.queue.length+x.line.length ≤ inputBuf
  data : ∀ k c, (x.queue++x.line)[k]? = some c → i.buf ((m+k)%inputBuf) = c
  line : newline ∉ x.line

namespace Ring
variable {i : Input} {m : ℕ} {x : Editor}

section
variable (h : Ring i m x)
include h

lemma span : (i.e-i.r).toNat = x.queue.length+x.line.length := by
  have hroom := h.room
  rw [h.e,h.r,add_assoc,ofNat_add_sub,toNat_ofNat']
  unfold inputBuf at hroom
  omega

lemma pending : (i.e-i.w).toNat = x.line.length := by
  have hroom := h.room
  rw [h.e,h.w,ofNat_add_sub,toNat_ofNat']
  unfold inputBuf at hroom
  omega

lemma ready : (i.w-i.r).toNat = x.queue.length := by
  have hroom := h.room
  rw [h.w,h.r,ofNat_add_sub,toNat_ofNat']
  unfold inputBuf at hroom
  omega

lemma e_eq_w_iff : i.e = i.w ↔ x.line = [] := by
  have hroom := h.room
  rw [h.e,h.w,ofNat_add_eq_iff (by omega),length_eq_zero_iff]

lemma r_eq_w_iff : i.r = i.w ↔ x.queue = [] := by
  have hroom := h.room
  rw [eq_comm,h.r,h.w,ofNat_add_eq_iff (by omega),length_eq_zero_iff]

lemma backspace {l : List UInt8} {c : UInt8} (hl : x.line = l++[c]) :
    Ring {i with e := i.e-1} m {x with line := l} ∧ i.char (i.e-1) = c := by
  have hlen : x.line.length = l.length+1 := by simp [hl]
  have hroom := h.room
  have he : i.e-1 = ofNat (m+x.queue.length+l.length) := by
    rw [h.e,hlen,← add_assoc,ofNat_add_one]
    exact UInt32.add_sub_cancel _ _
  refine ⟨⟨h.r,h.w,he,by simp only; omega,fun k a ha => h.data k a ?_,fun hn => h.line ?_⟩,?_⟩
  · rw [hl,← append_assoc]
    exact List.getElem?_append_left (List.getElem?_eq_some_iff.mp ha).1 ▸ ha
  · rw [hl]
    exact mem_append_left _ hn
  · rw [Input.char,he,toNat_index,add_assoc]
    refine h.data _ c ?_
    rw [hl,← append_assoc]
    simp

lemma killLine : Ring (i.killLine x.line.length) m {x with line := []} := by
  generalize hk : x.line.length = k
  induction k generalizing i x with
  | zero =>
    have hl := length_eq_zero_iff.mp hk
    rw [← hl]
    exact h
  | succ k ih =>
    obtain ⟨l,c,hl⟩ := (eq_nil_or_concat' x.line).resolve_left (by rintro h0; simp [h0] at hk)
    obtain ⟨hb,hc⟩ := h.backspace hl
    have hne : i.e ≠ i.w := fun he => by
      rw [h.e_eq_w_iff.mp he] at hl
      simp at hl
    have hcn : c ≠ newline := fun hcn => h.line (by simp [hl,hcn])
    rw [Input.killLine,if_pos ⟨hne,by rw [hc]; exact hcn⟩]
    exact ih (x := {x with line := l}) hb (by simpa [hl] using hk)

lemma data_insert (hroom : x.queue.length+x.line.length < inputBuf) (c : UInt8) {k : ℕ} {a : UInt8}
    (ha : (x.queue++(x.line++[c]))[k]? = some a) : update i.buf (i.e%128).toNat c ((m+k)%inputBuf) = a := by
  rw [h.e,toNat_index]
  rw [← append_assoc] at ha
  by_cases hk : k < (x.queue++x.line).length
  · rw [List.getElem?_append_left hk] at ha
    rw [update_of_ne,h.data k a ha]
    -- two places of the ring less than its size apart
    rw [length_append] at hk
    unfold inputBuf at hroom ⊢
    omega
  · have hk' : k = (x.queue++x.line).length := by
      have := (List.getElem?_eq_some_iff.mp ha).1
      simp only [length_append,length_singleton] at this hk ⊢
      omega
    rw [hk'] at ha ⊢
    rw [length_append,← add_assoc,update_self]
    simpa using ha

end

lemma commit {y : Editor} (hr : i.r = ofNat m) (he : i.e = ofNat (m+y.queue.length+y.line.length))
    (hw : i.w = i.e) (hroom : y.queue.length+y.line.length ≤ inputBuf)
    (hdata : ∀ k a, (y.queue++y.line)[k]? = some a → i.buf ((m+k)%inputBuf) = a) : Ring i m y.commit := by
  refine ⟨hr,?_,?_,?_,?_,by simp [Editor.commit]⟩
  · simp [Editor.commit,hw,he,add_assoc]
  · simp [Editor.commit,he,add_assoc]
  · simpa [Editor.commit] using hroom
  · simpa [Editor.commit] using hdata

lemma full_iff (h : Ring i m x) : i.e+1 = i.r+128 ↔ x.queue.length+x.line.length+1 = inputBuf := by
  have hroom := h.room
  have h1 : i.e+1 = ofNat (m+(x.queue.length+x.line.length+1)) := by
    rw [h.e,← ofNat_add_one]
    congr 1
    omega
  have h2 : i.r+128 = ofNat (m+128) := by
    rw [h.r,ofNat_add]
    rfl
  rw [h1,h2]
  constructor
  · intro h
    have := congrArg toNat h
    simp only [toNat_ofNat'] at this
    unfold inputBuf at hroom ⊢
    omega
  · intro h
    rw [h]
    rfl

lemma insert (h : Ring i m x) (hroom : x.queue.length+x.line.length < inputBuf) (c : UInt8) :
    Ring (i.insert c) m (x.insert c) := by
  have he : i.e+1 = ofNat (m+x.queue.length+(x.line++[c]).length) := by
    rw [length_append,length_singleton,← add_assoc,ofNat_add_one,h.e]
  have hlen : x.queue.length+(x.line++[c]).length = x.queue.length+x.line.length+1 := by simp; omega
  have hdata := fun k a => h.data_insert hroom c (k := k) (a := a)
  unfold Input.insert Editor.insert
  simp only [h.full_iff,hlen]
  split_ifs with hc
  · exact commit (y := {x with line := x.line++[c]}) h.r he rfl (by simp only [hlen]; omega) hdata
  · refine ⟨h.r,h.w,he,by simp only [hlen]; omega,hdata,?_⟩
    have := h.line
    grind

lemma key (h : Ring i m x) (c : UInt8) : Ring (i.key c) m (x.key c) := by
  have hspan : i.e-i.r < 128 ↔ x.queue.length+x.line.length < inputBuf := by
    rw [lt_iff_toNat_lt,h.span]
    rfl
  unfold Input.key Editor.key
  simp only [hspan]
  split_ifs with hP hU hH hne hc hcr
  · exact h
  · rw [h.pending]
    exact h.killLine
  · obtain ⟨l,a,hl⟩ := (eq_nil_or_concat' x.line).resolve_left (fun h0 => hne (h.e_eq_w_iff.mpr h0))
    have : x.line.dropLast = l := by simp [hl]
    rw [this]
    exact (h.backspace hl).1
  · have hl := h.e_eq_w_iff.mp (not_not.mp hne)
    have : x.line.dropLast = x.line := by simp [hl]
    rw [this]
    exact h
  · exact h.insert hc.2 _
  · exact h.insert hc.2 _
  · exact h

lemma take {c : UInt8} {q : List UInt8} (h : Ring i m x) (hq : x.queue = c :: q) :
    Ring {i with r := i.r+1} (m+1) (x.take c q) ∧ i.char i.r = c := by
  have hlen : x.queue.length = q.length+1 := by simp [hq]
  have hroom := h.room
  refine ⟨⟨?_,?_,?_,?_,fun k a ha => ?_,h.line⟩,?_⟩
  · rw [ofNat_add_one,h.r]
  · rw [h.w,hlen]
    congr 1
    simp only [Editor.take]
    omega
  · rw [h.e,hlen]
    congr 1
    simp only [Editor.take]
    omega
  · simp only [Editor.take]
    omega
  · have := h.data (k+1) a (by rw [hq]; exact ha)
    rwa [show m+1+k = m+(k+1) by omega]
  · rw [Input.char,h.r,toNat_index]
    exact h.data 0 c (by rw [hq]; rfl)

/-- A read shows the same bytes and ends the same way. -/
lemma read (h : Ring i m x) (killed : Bool) (target n : ℕ) :
    (∃ m', Ring (i.read killed target n).1 m' (x.read killed target n).1) ∧
    (i.read killed target n).2 = (x.read killed target n).2 := by
  induction n generalizing i m x with
  | zero => exact ⟨⟨m,h⟩,rfl⟩
  | succ n ih =>
    unfold Input.read Editor.read
    cases hq : x.queue with
    | nil =>
      rw [if_pos (h.r_eq_w_iff.mpr hq)]
      exact ⟨⟨m,h⟩,rfl⟩
    | cons c q =>
      obtain ⟨ht,hc⟩ := h.take hq
      have hback : i.r+1-1 = i.r := UInt32.add_sub_cancel _ _
      rw [if_neg (fun he => by rw [h.r_eq_w_iff.mp he] at hq; cases hq)]
      simp only [hc,hback]
      split_ifs
      · exact ⟨⟨m,h⟩,rfl⟩
      · exact ⟨⟨m+1,ht⟩,rfl⟩
      · exact ⟨⟨m+1,ht⟩,rfl⟩
      · obtain ⟨h1,h2⟩ := ih ht
        exact ⟨h1,by rw [h2]⟩

end Ring

lemma killLine_frame (k : ℕ) (i : Input) :
    (i.killLine k).buf = i.buf ∧ (i.killLine k).r = i.r ∧ (i.killLine k).w = i.w := by
  induction k generalizing i with
  | zero => exact ⟨rfl,rfl,rfl⟩
  | succ k ih =>
    unfold Input.killLine
    split_ifs
    · exact ih {i with e := i.e-1}
    · exact ⟨rfl,rfl,rfl⟩

lemma key_frame {i : Input} {c : UInt8} (hc : c = ctrl 'U' ∨ c = ctrl 'H' ∨ c = delete) :
    (i.key c).buf = i.buf ∧ (i.key c).r = i.r ∧ (i.key c).w = i.w := by
  rcases hc with rfl | rfl | rfl
  · exact killLine_frame _ i
  · unfold Input.key
    split_ifs <;> simp_all +decide
  · unfold Input.key
    split_ifs <;> simp_all +decide

/-- No byte ends a read. -/
def Plain (bs : List UInt8) : Prop := ∀ b ∈ bs, b ≠ newline ∧ b ≠ ctrl 'D'

/-- What a stretch of a read with `n` bytes to go has copied when it ends. -/
def Ends (target n : ℕ) (bs : List UInt8) : Outcome → Prop
  | .sleep k => Plain bs ∧ k+bs.length = n
  | .ret .count v => Plain bs ∧ bs.length = n ∧ v = target
  | .ret .newline v => (∃ l, bs = l++[newline] ∧ Plain l) ∧ bs.length ≤ n ∧ v+n = target+bs.length
  | .ret .eof v => Plain bs ∧ bs.length < n ∧ v+n = target+bs.length
  | .ret .killed v => Plain bs ∧ bs.length < n ∧ v = -1

lemma Ends.cons {target n : ℕ} {bs : List UInt8} {o : Outcome} {c : UInt8} (h : Ends target n bs o) (h1 : c ≠ newline)
    (h2 : c ≠ ctrl 'D') : Ends target (n+1) (c :: bs) o := by
  have hplain : ∀ {l}, Plain l → Plain (c :: l) := fun hl b hb => by
    rcases mem_cons.mp hb with rfl | hb
    · exact ⟨h1,h2⟩
    · exact hl b hb
  cases o with
  | sleep k => exact ⟨hplain h.1,by have := h.2; simp only [length_cons]; omega⟩
  | ret why v =>
    cases why with
    | count => exact ⟨hplain h.1,by simp [h.2.1],h.2.2⟩
    | newline =>
      obtain ⟨⟨l,rfl,hl⟩,hn,hv⟩ := h
      refine ⟨⟨c :: l,rfl,hplain hl⟩,?_,?_⟩ <;> simp only [length_cons] at hn hv ⊢ <;> omega
    | eof => exact ⟨hplain h.1,by have := h.2.1; simp only [length_cons]; omega,by
        have := h.2.2
        simp only [length_cons]
        omega⟩
    | killed => exact ⟨hplain h.1,by have := h.2.1; simp only [length_cons]; omega,h.2.2⟩

/-- What a stretch of a read takes off the queue: the bytes that it copies, and a control-D that ends an empty read. -/
structure Takes (x : Editor) (target n : ℕ) (out : Editor × List UInt8 × Outcome) : Prop where
  committed : out.1.committed = x.committed
  line : out.1.line = x.line
  taken : ∃ tk, out.1.taken = x.taken++tk ∧ x.queue = tk++out.1.queue ∧ out.2.1 = tk.filter (· ≠ ctrl 'D')
  ends : Ends target n out.2.1 out.2.2
  kept : ∀ v, out.2.2 = .ret .eof v → v ≠ 0 → out.1.queue.head? = some (ctrl 'D')

lemma read_takes (x : Editor) (killed : Bool) {target n : ℕ} (hn : n ≤ target) :
    Takes x target n (x.read killed target n) := by
  induction n generalizing x with
  | zero => exact ⟨rfl,rfl,⟨[],by simp [Editor.read]⟩,⟨nofun,rfl,rfl⟩,nofun⟩
  | succ n ih =>
    unfold Editor.read
    split
    case h_1 hq =>
      refine ⟨rfl,rfl,⟨[],by simp⟩,?_,?_⟩
      · cases killed
        · exact ⟨nofun,by simp⟩
        · exact ⟨nofun,by simp,rfl⟩
      · cases killed <;> nofun
    case h_2 c q hq =>
      split_ifs with hc ht hnl
      · refine ⟨rfl,rfl,⟨[],by simp⟩,⟨nofun,by simp,by simp⟩,fun v _ _ => ?_⟩
        simp [hq,hc]
      · refine ⟨rfl,rfl,⟨[c],by simp [Editor.take,hq,hc]⟩,⟨nofun,by simp,by simp⟩,fun v hv h0 => ?_⟩
        cases hv
        omega
      · refine ⟨rfl,rfl,⟨[c],by simp [Editor.take,hq,hc]⟩,⟨⟨[],by simp [hnl],nofun⟩,by simp,?_⟩,nofun⟩
        simp only [length_singleton]
        omega
      · obtain ⟨h1,h2,⟨tk,h3,h4,h5⟩,h6,h7⟩ := ih (x.take c q) (by omega)
        refine ⟨h1,h2,⟨c :: tk,?_,?_,?_⟩,h6.cons hnl hc,h7⟩
        · simpa [Editor.take] using h3
        · rw [hq]
          exact congrArg (c :: ·) h4
        · simp [h5,hc]

/-- What a call that has returned has copied, and why it returned. -/
def Return.Ok (r : Return) : Prop :=
  match r.why with
  | .count => Plain r.bytes ∧ r.bytes.length = r.target ∧ r.value = r.bytes.length
  | .newline => (∃ l, r.bytes = l++[newline] ∧ Plain l) ∧ r.bytes.length ≤ r.target ∧ r.value = r.bytes.length
  | .eof => Plain r.bytes ∧ r.bytes.length < r.target ∧ r.value = r.bytes.length
  | .killed => Plain r.bytes ∧ r.bytes.length < r.target ∧ r.value = -1

section
variable {T : Type} [DecidableEq T]

/-- Everything committed has been taken or is in the queue, in order, and what was delivered is what was taken
without the control-Ds. -/
structure Delivers (x : State Editor T) : Prop where
  committed : x.dev.committed = x.dev.taken++x.dev.queue
  delivered : x.delivered = x.dev.taken.filter (· ≠ ctrl 'D')
  reader : ∀ t r, x.reader t = some r → Plain r.bytes ∧ r.n+r.bytes.length = r.target
  returns : ∀ r ∈ x.returns, r.Ok

variable {x : Editor}

section
variable (h : x.committed = x.taken++x.queue)
include h

lemma insert_committed (c : UInt8) :
    (x.insert c).committed = (x.insert c).taken++(x.insert c).queue ∧ (x.insert c).taken = x.taken := by
  unfold Editor.insert Editor.commit
  dsimp only
  split_ifs <;> simp [h]

lemma key_committed (c : UInt8) :
    (x.key c).committed = (x.key c).taken++(x.key c).queue ∧ (x.key c).taken = x.taken := by
  unfold key
  split_ifs <;> first | exact insert_committed h _ | exact ⟨h,rfl⟩

lemma keys_committed (cs : List UInt8) : (cs.foldl key x).committed = (cs.foldl key x).taken++(cs.foldl key x).queue ∧
    (cs.foldl key x).taken = x.taken := by
  induction cs generalizing x with
  | nil => exact ⟨h,rfl⟩
  | cons c cs ih =>
    obtain ⟨h1,h2⟩ := key_committed h c
    obtain ⟨h3,h4⟩ := ih h1
    exact ⟨h3,h4.trans h2⟩

end

lemma Plain.append {a b : List UInt8} (ha : Plain a) (hb : Plain b) : Plain (a++b) := fun c hc =>
  (mem_append.mp hc).elim (ha c) (hb c)

lemma Ends.ok {r : Reader} {bs : List UInt8} {why : Why} {v : Int} (hr : Plain r.bytes ∧ r.n+r.bytes.length = r.target)
    (h : Ends r.target r.n bs (.ret why v)) : Return.Ok ⟨r.target,r.bytes++bs,why,v⟩ := by
  obtain ⟨hp,hn⟩ := hr
  cases why with
  | count | eof =>
    obtain ⟨h1,h2,h3⟩ := h
    refine ⟨hp.append h1,?_,?_⟩ <;> simp only [length_append] <;> omega
  | newline =>
    obtain ⟨⟨l,rfl,hl⟩,h2,h3⟩ := h
    refine ⟨⟨r.bytes++l,by simp,hp.append hl⟩,?_,?_⟩ <;> simp only [length_append,length_singleton] at h2 h3 ⊢ <;> omega
  | killed =>
    obtain ⟨h1,h2,h3⟩ := h
    refine ⟨hp.append h1,?_,h3⟩
    simp only [length_append]
    omega

lemma delivers_advance {x : State Editor T} {t : T} {r : Reader} {out : Editor × List UInt8 × Outcome} (hD : Delivers x)
    (hr : x.reader t = some r) (h : Takes x.dev r.target r.n out) : Delivers (x.advance t r out) := by
  obtain ⟨hplain,hn⟩ := hD.reader t r hr
  obtain ⟨tk,h1,h2,h3⟩ := h.taken
  have hcommitted : out.1.committed = out.1.taken++out.1.queue := by rw [h.committed,hD.committed,h2,h1,append_assoc]
  have hdelivered : x.delivered++out.2.1 = out.1.taken.filter (· ≠ ctrl 'D') := by rw [hD.delivered,h1,h3,filter_append]
  have hends := h.ends
  unfold advance
  split
  case h_1 k ho =>
    rw [ho] at hends
    refine ⟨hcommitted,hdelivered,fun u r' hu => ?_,hD.returns⟩
    by_cases hut : u = t
    · simp only [setReader,hut,update_self] at hu
      cases hu
      refine ⟨hplain.append hends.1,?_⟩
      have := hends.2
      simp only [length_append]
      omega
    · simp only [setReader,update_of_ne hut] at hu
      exact hD.reader u r' hu
  case h_2 why v ho =>
    rw [ho] at hends
    refine ⟨hcommitted,hdelivered,fun u r' hu => ?_,fun r' hr' => ?_⟩
    · by_cases hut : u = t
      · simp [setReader,hut] at hu
      · simp only [setReader,update_of_ne hut] at hu
        exact hD.reader u r' hu
    · rcases mem_append.mp hr' with hr' | hr'
      · exact hD.returns r' hr'
      · rw [mem_singleton.mp hr']
        exact hends.ok ⟨hplain,hn⟩

lemma delivers_step {x x' : State Editor T} {l : Label T} (hD : Delivers x) (h : (editor T).step x l = some x') :
    Delivers x' := by
  cases l with
  | intr cs =>
    cases h
    obtain ⟨h1,h2⟩ := keys_committed hD.committed cs
    exact ⟨h1,by simp only [h2]; exact hD.delivered,hD.reader,hD.returns⟩
  | call t n =>
    simp only [editor,step] at h
    split at h <;> cases h
    refine ⟨hD.committed,hD.delivered,fun u r hu => ?_,hD.returns⟩
    by_cases hut : u = t
    · simp only [setReader,hut,update_self] at hu
      cases hu
      exact ⟨nofun,rfl⟩
    · simp only [setReader,update_of_ne hut] at hu
      exact hD.reader u r hu
  | run t killed =>
    simp only [editor,step] at h
    split at h
    · cases h
    case h_2 r hr =>
      cases h
      have := (hD.reader t r hr).2
      exact delivers_advance hD hr (read_takes x.dev killed (by omega))

/-- The console and the editor show the same. -/
structure Agree (s : State Input T) (x : State Editor T) : Prop where
  dev : ∃ m, Ring s.dev m x.dev
  reader : s.reader = x.reader
  delivered : s.delivered = x.delivered
  returns : s.returns = x.returns

lemma Ring.keys {i : Input} {m : ℕ} (h : Ring i m x) (cs : List UInt8) :
    Ring (cs.foldl Input.key i) m (cs.foldl Editor.key x) := by
  induction cs generalizing i x with
  | nil => exact h
  | cons c cs ih => exact ih (h.key c)

variable {s s' : State Input T}

lemma agree_step {x : State Editor T} {l : Label T} (hA : Agree s x)
    (h : (console T).step s l = some s') : ∃ x', (editor T).step x l = some x' ∧ Agree s' x' := by
  obtain ⟨⟨m,hm⟩,hreader,hdelivered,hreturns⟩ := hA
  cases l with
  | intr cs =>
    cases h
    exact ⟨_,rfl,⟨m,hm.keys cs⟩,hreader,hdelivered,hreturns⟩
  | call t n =>
    simp only [console,step] at h
    split at h
    case h_1 hr =>
      cases h
      refine ⟨x.setReader t (some ⟨n,n,[]⟩),?_,⟨m,hm⟩,by simp [setReader,hreader],hdelivered,hreturns⟩
      simp [editor,step,← hreader,hr]
    · cases h
  | run t killed =>
    simp only [console,step] at h
    split at h
    · cases h
    case h_2 r hr =>
      cases h
      obtain ⟨hdev,hout⟩ := hm.read killed r.target r.n
      refine ⟨x.advance t r (x.dev.read killed r.target r.n),?_,?_⟩
      · simp [editor,step,← hreader,hr]
      · unfold advance
        rw [hout]
        split
        · exact ⟨hdev,by simp [setReader,hreader],by simp [setReader,hdelivered],hreturns⟩
        · exact ⟨hdev,by simp [setReader,hreader],by simp [setReader,hdelivered],by simp [setReader,hreturns]⟩

lemma agree_exec {x : State Editor T} {ls : List (Label T)} (hA : Agree s x) (hD : Delivers x)
    (h : (console T).exec (fun _ _ => true) s ls = some s') :
    ∃ x', (editor T).exec (fun _ _ => true) x ls = some x' ∧ Agree s' x' ∧ Delivers x' := by
  induction ls generalizing s x with
  | nil =>
    cases h
    exact ⟨x,rfl,hA,hD⟩
  | cons l ls ih =>
    simp only [System.exec,if_true] at h
    obtain ⟨t,ht,h⟩ := Option.bind_eq_some_iff.mp h
    obtain ⟨y,hy,hAy⟩ := agree_step hA ht
    obtain ⟨x',hx',hrest⟩ := ih hAy (delivers_step hD hy) h
    exact ⟨x',by simp [System.exec,hy,hx'],hrest⟩

/-- The editor before anything was typed. -/
def blank : State Editor T := ⟨⟨[],[],[],[]⟩,fun _ => none,[],[]⟩

lemma read_eof {i : Input} {m : ℕ} (h : Ring i m x) (hq : x.queue.head? = some (ctrl 'D')) (killed : Bool)
    {n : ℕ} (hn : 0 < n) : (i.read killed n n).2 = ([],.ret .eof 0) := by
  obtain ⟨q,hq⟩ : ∃ q, x.queue = ctrl 'D' :: q := by
    cases hx : x.queue with
    | nil => simp [hx] at hq
    | cons c q => exact ⟨q,by simpa [hx] using hq⟩
  obtain ⟨k,rfl⟩ : ∃ k, n = k+1 := ⟨n-1,by omega⟩
  rw [(h.read killed (k+1) (k+1)).2]
  simp [Editor.read,hq]

/-- The console is the line editor, on every schedule of interrupts and reads: the indices are in order, editing keys
leave the committed bytes alone, the readers get what the editor has committed, in order and without the control-Ds,
each read ends at a newline, at end-of-file or at its count, and a control-D after other bytes is kept for the next. -/
theorem console_line_discipline {s₀ s : State Input T} {ls : List (Label T)} (h₀ : (console T).init s₀)
    (h : (console T).exec (fun _ _ => true) s₀ ls = some s) :
    (s.dev.w-s.dev.r).toNat ≤ (s.dev.e-s.dev.r).toNat ∧ (s.dev.e-s.dev.r).toNat ≤ inputBuf ∧
    (∀ c, c = ctrl 'U' ∨ c = ctrl 'H' ∨ c = delete →
      (s.dev.key c).buf = s.dev.buf ∧ (s.dev.key c).r = s.dev.r ∧ (s.dev.key c).w = s.dev.w) ∧
    ∃ x, (editor T).exec (fun _ _ => true) blank ls = some x ∧ Agree s x ∧
      x.dev.committed = x.dev.taken++x.dev.queue ∧ s.delivered = x.dev.taken.filter (· ≠ ctrl 'D') ∧
      (∀ r ∈ s.returns, r.Ok) ∧
      ∀ t r killed i bs v, s.reader t = some r → s.dev.read killed r.target r.n = (i,bs,.ret .eof v) → r.bytes++bs ≠ [] →
        ∀ killed n, 0 < n → (i.read killed n n).2 = ([],.ret .eof 0) := by
  have hA₀ : Agree s₀ (blank : State Editor T) := by
    refine ⟨⟨0,?_⟩,funext h₀.reader,h₀.delivered,h₀.returns⟩
    rw [h₀.dev]
    exact ⟨rfl,rfl,rfl,Nat.zero_le _,nofun,nofun⟩
  have hD₀ : Delivers (blank : State Editor T) := ⟨rfl,rfl,nofun,nofun⟩
  obtain ⟨x,hx,hA,hD⟩ := agree_exec hA₀ hD₀ h
  obtain ⟨m,hm⟩ := hA.dev
  refine ⟨?_,?_,fun c => key_frame,x,hx,hA,hD.committed,?_,?_,?_⟩
  · rw [hm.ready,hm.span]
    exact Nat.le_add_right ..
  · rw [hm.span]
    exact hm.room
  · rw [hA.delivered]
    exact hD.delivered
  · rw [hA.returns]
    exact hD.returns
  · intro t r killed i bs v hr hread hne killed' n hn
    rw [hA.reader] at hr
    obtain ⟨hplain,hrn⟩ := hD.reader t r hr
    obtain ⟨⟨m',hm'⟩,hout⟩ := hm.read killed r.target r.n
    have hT := read_takes x.dev killed (show r.n ≤ r.target by omega)
    rw [hread] at hm' hout
    have hv : v ≠ 0 := by
      have hends : Ends r.target r.n bs (.ret .eof v) := by
        have := hT.ends
        rwa [← hout] at this
      obtain ⟨-,-,hv⟩ := hends
      have hlen : (r.bytes++bs).length ≠ 0 := by simpa using hne
      simp only [length_append] at hlen
      omega
    exact read_eof hm' (hT.kept v (by rw [← hout]) hv) killed' hn

end

/-- A line with a correction, and a control-D after it, read in pieces. -/
theorem console_reads_line : ∃ s : State Input Unit,
    (console Unit).exec (fun _ _ => true) ⟨⟨fun _ => 0,0,0,0⟩,fun _ => none,[],[]⟩
      [.intr [104,120,8,105,13,97,4],.call () 2,.run () false,.call () 5,.run () false,.call () 9,.run () false] = some s ∧
    s.delivered = [104,105,10,97] ∧ ∀ r ∈ s.returns, r.Ok := by
  have hrun : ∃ s : State Input Unit,
      (console Unit).exec (fun _ _ => true) ⟨⟨fun _ => 0,0,0,0⟩,fun _ => none,[],[]⟩
        [.intr [104,120,8,105,13,97,4],.call () 2,.run () false,.call () 5,.run () false,.call () 9,.run () false] = some s ∧
      s.delivered = [104,105,10,97] := ⟨_,rfl,by decide +kernel⟩
  obtain ⟨s,hs,hd⟩ := hrun
  obtain ⟨-,-,-,x,-,-,-,-,hr,-⟩ := console_line_discipline ⟨rfl,fun _ => rfl,rfl,rfl⟩ hs
  exact ⟨s,hs,hd,hr⟩

end Xv6Threads.Console
