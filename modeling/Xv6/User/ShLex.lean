import Xv6.User.Sh
import Mathlib.Data.List.TakeWhile

namespace Xv6.Sh

-- The line of a buffer: the characters before its first NUL, up to es = s + strlen(s).
def line (buf : List Char) : List Char := buf.takeWhile (· != '\x00')

def Token.tok (buf : List Char) (g : Token) : Option Tok :=
  if g.ret = 'a' then some (.word (slice buf (g.q,g.eq)))
  else if g.ret = '|' then some .bar
  else if g.ret = '&' then some .amp
  else if g.ret = ';' then some .semi
  else if g.ret = '(' then some .lparen
  else if g.ret = ')' then some .rparen
  else if g.ret = '<' then some (.redir .input)
  else if g.ret = '>' then some (.redir .output)
  else if g.ret = '+' then some (.redir .append)
  else none

def Seg (buf : List Char) (p p' : Nat) (ts : List Tok) : Prop :=
  ∀ rest, Lexes ((line buf).drop p') rest → Lexes ((line buf).drop p) (ts ++ rest)

def Span (buf : List Char) (w : Nat × Nat) : Prop :=
  w.1 < w.2 ∧ (∀ i, w.1 ≤ i → i < w.2 → WordChar (deref buf i)) ∧ ¬ WordChar (deref buf w.2)

structure Lexeme (buf : List Char) (s : Nat) (t : Tok) (e : Nat) : Prop where
  advances : s < e
  bounded : e ≤ strlen buf
  text : (line buf).drop s = t.spelling ++ (line buf).drop e
  fits : t.Fits ((line buf).drop e)
  spans : ∀ w, t = .word w → Span buf (s,e)

variable {buf : List Char} {P : Char → Bool} {s p p' q : Nat}

section Line

theorem take_strlen : buf.take (strlen buf) = line buf :=
  (List.prefix_iff_eq_take.mp (List.takeWhile_prefix _)).symm

theorem strlen_le_length : strlen buf ≤ buf.length :=
  (List.takeWhile_prefix _).length_le

theorem deref_eq_line {i : Nat} (h : i < (line buf).length) : deref buf i = (line buf)[i] := by
  have within : i < buf.length := Nat.lt_of_lt_of_le h strlen_le_length
  rw [deref,List.getD_eq_getElem?_getD,List.getElem?_eq_getElem within,Option.getD_some]
  exact ((List.takeWhile_prefix _).getElem h).symm

theorem deref_ne_nul {i : Nat} (h : i < strlen buf) : deref buf i ≠ '\x00' := by
  have kept := List.mem_takeWhile_imp (List.getElem_mem (l := line buf) h)
  rw [← deref_eq_line h] at kept
  simpa using kept

theorem deref_strlen : deref buf (strlen buf) = '\x00' := by
  have stop := List.head?_dropWhile_not (fun c => c != '\x00') buf
  have whole := List.takeWhile_append_dropWhile (p := fun c => c != '\x00') (l := buf)
  have idx : (buf.takeWhile (· != '\x00') ++ buf.dropWhile (· != '\x00'))[(buf.takeWhile (· != '\x00')).length]? =
      (buf.dropWhile (· != '\x00'))[0]? := by
    rw [List.getElem?_append_right (Nat.le_refl _),Nat.sub_self]
  rw [whole] at idx
  unfold deref strlen
  rw [List.getD_eq_getElem?_getD,idx]
  revert stop
  cases buf.dropWhile (· != '\x00') with
  | nil => intro; rfl
  | cons c rest => simp

theorem lt_strlen_of_deref {i : Nat} (hi : i ≤ strlen buf) (h : deref buf i ≠ '\x00') : i < strlen buf := by
  rcases Nat.lt_or_eq_of_le hi with lt | rfl
  · exact lt
  · exact absurd deref_strlen h

theorem drop_line {i : Nat} (h : i < strlen buf) : (line buf).drop i = deref buf i :: (line buf).drop (i + 1) := by
  rw [deref_eq_line h]
  exact List.drop_eq_getElem_cons h

theorem drop_line_end {i : Nat} (h : strlen buf ≤ i) : (line buf).drop i = [] :=
  List.drop_eq_nil_of_le h

theorem drop_line_split {e : Nat} (se : s ≤ e) (bound : e ≤ strlen buf) :
    (line buf).drop s = slice buf (s,e) ++ (line buf).drop e := by
  have front : ((line buf).drop s).take (e - s) = slice buf (s,e) := by
    rw [← take_strlen,List.drop_take,List.take_take,Nat.min_eq_left (by omega)]
    rfl
  have back : ((line buf).drop s).drop (e - s) = (line buf).drop e := by
    rw [List.drop_drop,Nat.add_sub_cancel' se]
  rw [← front,← back,List.take_append_drop]

theorem mem_slice {c : Char} {e : Nat} (bound : e ≤ buf.length) (mem : c ∈ slice buf (s,e)) :
    ∃ i, s ≤ i ∧ i < e ∧ deref buf i = c := by
  obtain ⟨j,lt,rfl⟩ := List.mem_iff_getElem.mp mem
  simp only [slice,List.length_take,List.length_drop] at lt
  refine ⟨s + j,by omega,by omega,?_⟩
  simp [slice,deref,List.getD_eq_getElem?_getD,List.getElem?_eq_getElem (show s + j < buf.length by omega)]

end Line

section Skip

theorem skipWhile_of_le (h : strlen buf ≤ s) : skipWhile P buf (strlen buf) s = s := by
  simp [skipWhile,take_strlen,drop_line_end h]

theorem skipWhile_of_lt (h : s < strlen buf) :
    skipWhile P buf (strlen buf) s = if P (deref buf s) then skipWhile P buf (strlen buf) (s + 1) else s := by
  simp only [skipWhile,take_strlen,drop_line h,List.takeWhile_cons]
  split <;> simp only [List.length_cons,List.length_nil] <;> omega

theorem le_skipWhile : s ≤ skipWhile P buf (strlen buf) s :=
  Nat.le_add_right _ _

theorem skipWhile_le (hs : s ≤ strlen buf) : skipWhile P buf (strlen buf) s ≤ strlen buf := by
  have bound := (List.takeWhile_prefix P (l := (buf.take (strlen buf)).drop s)).length_le
  simp only [List.length_drop,List.length_take,Nat.min_eq_left strlen_le_length] at bound
  simp only [skipWhile]
  omega

-- By induction on what is left of the line.
theorem skipWhile_spec (s : Nat) :
    (∀ i, s ≤ i → i < skipWhile P buf (strlen buf) s → P (deref buf i) = true) ∧
    (skipWhile P buf (strlen buf) s < strlen buf → P (deref buf (skipWhile P buf (strlen buf) s)) = false) := by
  induction h : strlen buf - s generalizing s with
  | zero =>
    rw [skipWhile_of_le (by omega)]
    exact ⟨fun i low high => absurd high (by omega),fun lt => absurd lt (by omega)⟩
  | succ k ih =>
    have lt : s < strlen buf := by omega
    rw [skipWhile_of_lt lt]
    by_cases pass : P (deref buf s) = true
    · obtain ⟨passes,stops⟩ := ih (s + 1) (by omega)
      simp only [pass,if_true]
      refine ⟨fun i low high => ?_,stops⟩
      rcases Nat.lt_or_eq_of_le low with later | rfl
      · exact passes i later high
      · exact pass
    · simp only [pass,Bool.false_eq_true,if_false]
      exact ⟨fun i low high => absurd high (by omega),fun _ => by simp⟩

theorem skipWhile_idem : skipWhile P buf (strlen buf) (skipWhile P buf (strlen buf) s) = skipWhile P buf (strlen buf) s := by
  by_cases lt : skipWhile P buf (strlen buf) s < strlen buf
  · rw [skipWhile_of_lt lt,(skipWhile_spec s).2 lt]
    rfl
  · exact skipWhile_of_le (by omega)

theorem seg_skip (hs : s ≤ strlen buf) : Seg buf s (skipWhile (strchr whitespace) buf (strlen buf) s) [] := by
  induction h : strlen buf - s generalizing s with
  | zero =>
    rw [skipWhile_of_le (by omega)]
    exact fun rest lexes => lexes
  | succ k ih =>
    have lt : s < strlen buf := by omega
    rw [skipWhile_of_lt lt]
    by_cases blank : strchr whitespace (deref buf s) = true
    · simp only [blank,if_true]
      intro rest lexes
      have white : deref buf s ∈ whitespace := by
        simpa [strchr,deref_ne_nul lt] using blank
      rw [drop_line lt]
      exact .blank white (ih (by omega) (by omega) rest lexes)
    · simp only [blank,Bool.false_eq_true,if_false]
      exact fun rest lexes => lexes

end Skip

section Tokens

theorem Seg.refl : Seg buf p p [] := fun _ lexes => lexes

theorem Seg.trans {p'' : Nat} {ts us : List Tok} (first : Seg buf p p' ts) (second : Seg buf p' p'' us) :
    Seg buf p p'' (ts ++ us) := by
  intro rest lexes
  rw [List.append_assoc]
  exact first _ (second rest lexes)

theorem Lexeme.seg {t : Tok} {e : Nat} (read : Lexeme buf s t e) : Seg buf s e [t] := by
  intro rest lexes
  rw [read.text]
  exact .tok read.fits lexes

theorem wordChar_of_scan {c : Char} (scan : (!strchr whitespace c && !strchr symbols c) = true) : WordChar c := by
  simp only [strchr,Bool.and_eq_true,Bool.not_eq_true',Bool.or_eq_false_iff,beq_eq_false_iff_ne] at scan
  obtain ⟨⟨nul,white⟩,-,sym⟩ := scan
  exact ⟨nul,by simpa using white,by simpa using sym⟩

theorem scan_of_wordChar {c : Char} (word : WordChar c) : (!strchr whitespace c && !strchr symbols c) = true := by
  obtain ⟨nul,white,sym⟩ := word
  simp [strchr,nul,white,sym]

theorem not_wordChar_nul : ¬ WordChar '\x00' := fun word => word.1 rfl

theorem lexeme_single {t : Tok} (hs : s < strlen buf) (spelt : t.spelling = [deref buf s])
    (fits : t.Fits ((line buf).drop (s + 1))) (notWord : ∀ w, t ≠ .word w) : Lexeme buf s t (s + 1) :=
  ⟨by omega,hs,by rw [spelt,drop_line hs]; rfl,fits,fun w same => absurd same (notWord w)⟩

theorem lexeme_word (hs : s < strlen buf) (start : WordChar (deref buf s)) :
    Lexeme buf s (.word (slice buf (s,skipWhile (fun c => !strchr whitespace c && !strchr symbols c) buf (strlen buf) s)))
      (skipWhile (fun c => !strchr whitespace c && !strchr symbols c) buf (strlen buf) s) := by
  set e := skipWhile (fun c => !strchr whitespace c && !strchr symbols c) buf (strlen buf) s
  obtain ⟨passes,stops⟩ := @skipWhile_spec buf (fun c => !strchr whitespace c && !strchr symbols c) s
  have advances : s < e := by
    have step : e = skipWhile (fun c => !strchr whitespace c && !strchr symbols c) buf (strlen buf) (s + 1) := by
      simp only [e]
      rw [skipWhile_of_lt hs,if_pos (scan_of_wordChar start)]
    rw [step]
    exact Nat.lt_of_lt_of_le (Nat.lt_succ_self s) le_skipWhile
  have bounded : e ≤ strlen buf := skipWhile_le (Nat.le_of_lt hs)
  have within : e ≤ buf.length := Nat.le_trans bounded strlen_le_length
  have span : Span buf (s,e) := by
    refine ⟨advances,fun i low high => wordChar_of_scan (passes i low high),?_⟩
    by_cases lt : e < strlen buf
    · exact fun word => absurd (scan_of_wordChar word) (by rw [Bool.not_eq_true]; exact stops lt)
    · rw [show e = strlen buf by omega,deref_strlen]
      exact not_wordChar_nul
  refine ⟨advances,bounded,drop_line_split advances.le bounded,⟨?_,fun c mem => ?_,fun c mem => ?_⟩,fun _ _ => span⟩
  · intro empty
    have length := congrArg List.length empty
    simp only [slice,List.length_take,List.length_drop,List.length_nil] at length
    omega
  · obtain ⟨i,low,high,rfl⟩ := mem_slice within mem
    exact span.2.1 i low high
  · by_cases lt : e < strlen buf
    · rw [drop_line lt] at mem
      cases Option.mem_some_iff.mp mem
      exact span.2.2
    · rw [drop_line_end (by omega)] at mem
      cases mem

theorem lexeme_read (hs : s < strlen buf) (start : strchr whitespace (deref buf s) = false) :
    ∃ t, (Token.mk (lexeme buf (strlen buf) s).1 s (lexeme buf (strlen buf) s).2).tok buf = some t ∧
      Lexeme buf s t (lexeme buf (strlen buf) s).2 := by
  have nul := deref_ne_nul hs
  by_cases sym : deref buf s ∈ ['|','(',')',';','&','<']
  · have run : lexeme buf (strlen buf) s = (deref buf s,s + 1) := by simp only [lexeme,nul,sym,↓reduceIte]
    rw [run]
    simp only [List.mem_cons,List.not_mem_nil,or_false] at sym
    rcases sym with c | c | c | c | c | c <;> rw [c]
    · exact ⟨.bar,by simp [Token.tok],lexeme_single hs (by rw [c]; rfl) trivial nofun⟩
    · exact ⟨.lparen,by simp [Token.tok],lexeme_single hs (by rw [c]; rfl) trivial nofun⟩
    · exact ⟨.rparen,by simp [Token.tok],lexeme_single hs (by rw [c]; rfl) trivial nofun⟩
    · exact ⟨.semi,by simp [Token.tok],lexeme_single hs (by rw [c]; rfl) trivial nofun⟩
    · exact ⟨.amp,by simp [Token.tok],lexeme_single hs (by rw [c]; rfl) trivial nofun⟩
    · exact ⟨.redir .input,by simp [Token.tok],lexeme_single hs (by rw [c]; rfl) trivial nofun⟩
  by_cases gt : deref buf s = '>'
  · by_cases twice : deref buf (s + 1) = '>'
    · -- '>>' is one token; deref buf (s + 1) is not NUL, so it is in the line
      have run : lexeme buf (strlen buf) s = ('+',s + 2) := by simp [lexeme,gt,twice]
      have next : s + 1 < strlen buf := lt_strlen_of_deref hs (by rw [twice]; decide)
      rw [run]
      refine ⟨.redir .append,by simp [Token.tok],⟨by omega,next,?_,trivial,nofun⟩⟩
      rw [drop_line hs,drop_line next,gt,twice]
      rfl
    · have run : lexeme buf (strlen buf) s = ('>',s + 1) := by simp [lexeme,gt,twice]
      rw [run]
      refine ⟨.redir .output,by simp [Token.tok],lexeme_single hs (by rw [gt]; rfl) ?_ nofun⟩
      by_cases next : s + 1 < strlen buf
      · simp [Tok.Fits,drop_line next,twice]
      · simp [Tok.Fits,drop_line_end (show strlen buf ≤ s + 1 by omega)]
  · have word : WordChar (deref buf s) := by
      refine ⟨nul,fun white => by simp [strchr,white] at start,fun mem => ?_⟩
      simp only [symbols,List.mem_cons,List.not_mem_nil,or_false] at mem sym
      rcases mem with c | c | c | c | c | c | c <;> simp_all
    have run : lexeme buf (strlen buf) s =
        ('a',skipWhile (fun c => !strchr whitespace c && !strchr symbols c) buf (strlen buf) s) := by
      simp only [lexeme,nul,sym,gt,↓reduceIte]
    rw [run]
    exact ⟨_,by simp [Token.tok],lexeme_word hs word⟩

end Tokens

section Gettoken

variable {g : Token}

theorem seen_iff {c : Char} {toks : List Char} : (c != '\x00' && strchr toks c) = true ↔ c ≠ '\x00' ∧ c ∈ toks := by
  by_cases nul : c = '\x00' <;> simp [strchr,nul]

theorem tok_nul {q e : Nat} : (Token.mk '\x00' q e).tok buf = none := by
  simp [Token.tok]

theorem gettoken_fields (run : gettoken buf (strlen buf) p = .ok (g,p')) :
    g.ret = (lexeme buf (strlen buf) (skipWhile (strchr whitespace) buf (strlen buf) p)).1 ∧
      g.q = skipWhile (strchr whitespace) buf (strlen buf) p ∧
      p' = skipWhile (strchr whitespace) buf (strlen buf) g.eq := by
  simp only [gettoken,Except.ok.injEq,Prod.mk.injEq] at run
  obtain ⟨rfl,rfl⟩ := run
  exact ⟨rfl,rfl,rfl⟩

theorem gettoken_read (hp : p ≤ strlen buf) (run : gettoken buf (strlen buf) p = .ok (g,p'))
    (more : g.ret ≠ '\x00') :
    ∃ t, g.tok buf = some t ∧ Seg buf p p' [t] ∧ p < p' ∧ p' ≤ strlen buf ∧ (g.ret = 'a' → Span buf (g.q,g.eq)) := by
  simp only [gettoken,Except.ok.injEq,Prod.mk.injEq] at run
  obtain ⟨rfl,rfl⟩ := run
  set s := skipWhile (strchr whitespace) buf (strlen buf) p
  have hs : s ≤ strlen buf := skipWhile_le hp
  have lt : s < strlen buf := lt_strlen_of_deref hs fun nul => more (by simp [lexeme,nul])
  obtain ⟨t,tok,read⟩ := lexeme_read lt ((skipWhile_spec p).2 lt)
  have seg := (seg_skip hp).trans (read.seg.trans (seg_skip read.bounded))
  rw [List.nil_append,List.append_nil] at seg
  refine ⟨t,tok,seg,?_,skipWhile_le read.bounded,fun word => ?_⟩
  · exact Nat.lt_of_le_of_lt le_skipWhile (Nat.lt_of_lt_of_le read.advances le_skipWhile)
  · simp only at word
    simp only [Token.tok,word,↓reduceIte,Option.some.injEq] at tok
    exact read.spans _ tok.symm

theorem gettoken_end (hp : p ≤ strlen buf) (run : gettoken buf (strlen buf) p = .ok (g,p'))
    (done : g.ret = '\x00') : p' = strlen buf ∧ Seg buf p (strlen buf) [] := by
  simp only [gettoken,Except.ok.injEq,Prod.mk.injEq] at run
  obtain ⟨rfl,rfl⟩ := run
  set s := skipWhile (strchr whitespace) buf (strlen buf) p
  have hs : s ≤ strlen buf := skipWhile_le hp
  have at_end : s = strlen buf := by
    by_contra other
    have lt : s < strlen buf := Nat.lt_of_le_of_ne hs other
    obtain ⟨t,tok,-⟩ := lexeme_read lt ((skipWhile_spec p).2 lt)
    simp only at done
    rw [done,tok_nul] at tok
    cases tok
  have stays : (lexeme buf (strlen buf) s).2 = s := by simp [lexeme,at_end,deref_strlen]
  refine ⟨?_,?_⟩
  · rw [stays,at_end]
    exact skipWhile_of_le (Nat.le_refl _)
  · rw [← at_end]
    exact seg_skip hp

theorem lexeme_symbol {c : Char} (seen : deref buf s = c) (sym : c ∈ ['|','(',')',';','&','<']) :
    (lexeme buf (strlen buf) s).1 = c := by
  have nul : c ≠ '\x00' := by
    rintro rfl
    simp at sym
  simp [lexeme,seen,nul,sym]

theorem lexeme_gt (seen : deref buf s = '>') :
    (lexeme buf (strlen buf) s).1 = '>' ∨ (lexeme buf (strlen buf) s).1 = '+' := by
  by_cases twice : deref buf (s + 1) = '>' <;> simp [lexeme,seen,twice]

theorem gettoken_after_peek (hp : p ≤ strlen buf)
    (lt : skipWhile (strchr whitespace) buf (strlen buf) p < strlen buf)
    (run : gettoken buf (strlen buf) (skipWhile (strchr whitespace) buf (strlen buf) p) = .ok (g,p')) :
    g.ret = (lexeme buf (strlen buf) (skipWhile (strchr whitespace) buf (strlen buf) p)).1 ∧
      ∃ t, g.tok buf = some t ∧ Seg buf p p' [t] ∧ p < p' ∧ p' ≤ strlen buf := by
  have ret := (gettoken_fields run).1
  rw [skipWhile_idem] at ret
  have more : g.ret ≠ '\x00' := by
    rw [ret]
    intro nul
    obtain ⟨t,tok,-⟩ := lexeme_read lt ((skipWhile_spec p).2 lt)
    rw [nul,tok_nul] at tok
    cases tok
  obtain ⟨t,tok,seg,advance,bounded,-⟩ := gettoken_read (skipWhile_le hp) run more
  have whole := (seg_skip hp).trans seg
  rw [List.nil_append] at whole
  exact ⟨ret,t,tok,whole,Nat.lt_of_le_of_lt le_skipWhile advance,bounded⟩

theorem gettoken_symbol {c : Char} {t : Tok} (hp : p ≤ strlen buf) (sym : c ∈ ['|','(',')',';','&','<'])
    (named : ∀ q e, (Token.mk c q e).tok buf = some t)
    (seen : deref buf (skipWhile (strchr whitespace) buf (strlen buf) p) = c)
    (run : gettoken buf (strlen buf) (skipWhile (strchr whitespace) buf (strlen buf) p) = .ok (g,p')) :
    Seg buf p p' [t] ∧ p < p' ∧ p' ≤ strlen buf := by
  have nul : c ≠ '\x00' := by
    rintro rfl
    simp at sym
  have lt := lt_strlen_of_deref (skipWhile_le hp) (seen ▸ nul)
  obtain ⟨ret,t',tok,seg,advance,bounded⟩ := gettoken_after_peek hp lt run
  rw [lexeme_symbol seen sym] at ret
  have same : g.tok buf = some t := by
    rw [← named g.q g.eq,← ret]
  rw [same,Option.some.injEq] at tok
  rw [tok]
  exact ⟨seg,advance,bounded⟩

end Gettoken

end Xv6.Sh
