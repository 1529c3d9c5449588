import Xv6.User.ShLex

namespace Xv6.Sh

open Frame

-- The panics that report a syntax error.
def Fail.Syntax : Fail → Prop
  | .panic msg => msg = "syntax" ∨ msg = "syntax - missing )" ∨ msg = "missing file for redirection" ∨
      msg = "too many args"
  | .leftovers _ => True
  | .outOfFuel => False

def redirToks (buf : List Char) (rs : List (Redirect × (Nat × Nat))) : List Tok :=
  (rs.map fun r => Item.redir r.1 (slice buf r.2)).flatMap Item.toks

def Redirected (buf : List Char) (p : Nat) (cmd c : Cmd (Nat × Nat)) (p' : Nat) : Prop :=
  p ≤ p' ∧ p' ≤ strlen buf ∧ ∃ rs : List (Redirect × (Nat × Nat)),
    c = wrap rs cmd ∧ (∀ r ∈ rs, Span buf r.2) ∧ Seg buf p p' (redirToks buf rs)

variable {buf : List Char} {p : Nat}

theorem syntax_missing_file : Fail.Syntax (.panic "missing file for redirection") := by
  simp [Fail.Syntax]

theorem redirect_switch (cmd : Cmd (Nat × Nat)) (w : Nat × Nat) {tok : Token} {t : Tok}
    (code : tok.ret = '<' ∨ tok.ret = '>' ∨ tok.ret = '+') (named : tok.tok buf = some t) :
    ∃ r, t = .redir r ∧
      (if tok.ret = '<' then Cmd.redir cmd w O_RDONLY 0
       else if tok.ret = '>' then Cmd.redir cmd w (O_WRONLY ||| O_CREATE ||| O_TRUNC) 1
       else if tok.ret = '+' then Cmd.redir cmd w (O_WRONLY ||| O_CREATE) 1
       else cmd) = .redir cmd w r.mode r.fd := by
  rcases code with code | code | code <;> simp only [Token.tok,code] at named <;> simp at named
  · exact ⟨.input,named.symm,by simp [code,Redirect.mode,Redirect.fd]⟩
  · exact ⟨.output,named.symm,by simp [code,Redirect.mode,Redirect.fd]⟩
  · exact ⟨.append,named.symm,by simp [code,Redirect.mode,Redirect.fd]⟩

theorem parseredirs_ends : ∀ (n : Nat) (cmd : Cmd (Nat × Nat)) {p : Nat}, p ≤ strlen buf → strlen buf - p < n →
    Ends Fail.Syntax (Redirected buf p cmd) (parseredirs buf (strlen buf) n cmd) p
  | 0, _, _, _, fuel => absurd fuel (Nat.not_lt_zero _)
  | n + 1, cmd, p, hp, fuel => by
    rw [parseredirs]
    apply Ends.step rfl
    set s := skipWhile (strchr whitespace) buf (strlen buf) p
    by_cases seen : (deref buf s != '\x00' && strchr ['<','>'] (deref buf s)) = true
    · rw [if_pos seen]
      have found : deref buf s ≠ '\x00' ∧ (deref buf s = '<' ∨ deref buf s = '>') := by
        simpa using seen_iff.mp seen
      have lt : s < strlen buf := lt_strlen_of_deref (skipWhile_le hp) found.1
      obtain ⟨tok,p1,run1⟩ : ∃ g p', gettoken buf (strlen buf) s = .ok (g,p') := ⟨_,_,rfl⟩
      apply Ends.step run1
      obtain ⟨ret1,t1,tok1,seg1,adv1,bound1⟩ := gettoken_after_peek hp lt run1
      have code : tok.ret = '<' ∨ tok.ret = '>' ∨ tok.ret = '+' := by
        rw [ret1]
        rcases found.2 with c | c
        · exact .inl (lexeme_symbol c (by simp))
        · exact .inr (lexeme_gt c)
      obtain ⟨file,p2,run2⟩ : ∃ g p', gettoken buf (strlen buf) p1 = .ok (g,p') := ⟨_,_,rfl⟩
      apply Ends.step run2
      by_cases word : file.ret = 'a'
      · obtain ⟨t2,tok2,seg2,adv2,bound2,span2⟩ := gettoken_read bound1 run2 (by rw [word]; decide)
        obtain ⟨r,rfl,switch⟩ := redirect_switch cmd (file.q,file.eq) code tok1
        simp only [word,bne_self_eq_false,Bool.false_eq_true,↓reduceIte,switch]
        apply (parseredirs_ends n _ bound2 (by omega)).mono
        rintro c p' ⟨le,bounded,rs,rfl,spans,seg⟩
        simp only [Token.tok,word,↓reduceIte,Option.some.injEq] at tok2
        refine ⟨by omega,bounded,(r,(file.q,file.eq)) :: rs,rfl,?_,?_⟩
        · intro x mem
          rcases List.mem_cons.mp mem with rfl | inner
          · exact span2 word
          · exact spans x inner
        · have whole := seg1.trans (seg2.trans seg)
          rw [← tok2] at whole
          exact whole
      · simp only [word,bne_iff_ne,ne_eq,not_false_eq_true,↓reduceIte]
        exact Ends.throw_bind syntax_missing_file
    · rw [if_neg seen]
      exact Ends.pure ⟨le_skipWhile,skipWhile_le hp,[],rfl,fun _ mem => by simp at mem,seg_skip hp⟩

theorem backs_back (k : Nat) (c : Cmd (Nat × Nat)) : backs k (.back c) = backs (k + 1) c := by
  induction k with
  | zero => rfl
  | succ k ih => simp [backs,ih]

theorem parselineLoop_ends : ∀ (n : Nat) (cmd : Cmd (Nat × Nat)) {p : Nat}, p ≤ strlen buf → strlen buf - p < n →
    Ends Fail.Syntax (fun c p' => p ≤ p' ∧ p' ≤ strlen buf ∧ ∃ k, c = backs k cmd ∧ Seg buf p p' (List.replicate k .amp))
      (parselineLoop buf (strlen buf) n cmd) p
  | 0, _, _, _, fuel => absurd fuel (Nat.not_lt_zero _)
  | n + 1, cmd, p, hp, fuel => by
    rw [parselineLoop]
    apply Ends.step rfl
    set s := skipWhile (strchr whitespace) buf (strlen buf) p
    by_cases seen : (deref buf s != '\x00' && strchr ['&'] (deref buf s)) = true
    · rw [if_pos seen]
      obtain ⟨g,p1,run⟩ : ∃ g p', gettoken buf (strlen buf) s = .ok (g,p') := ⟨_,_,rfl⟩
      apply Ends.step run
      obtain ⟨seg,advance,bounded⟩ := gettoken_symbol (c := '&') (t := .amp) hp (by simp)
        (fun _ _ => by simp [Token.tok]) (List.mem_singleton.mp (seen_iff.mp seen).2) run
      apply (parselineLoop_ends n _ bounded (by omega)).mono
      rintro c p' ⟨le,bounded',k,rfl,rest⟩
      refine ⟨by omega,bounded',k + 1,backs_back k cmd,?_⟩
      exact seg.trans rest
    · rw [if_neg seen]
      exact Ends.pure ⟨le_skipWhile,skipWhile_le hp,0,rfl,seg_skip hp⟩

def Item.word {α : Type} : Item α → α
  | .arg w => w
  | .redir _ file => file

theorem mem_simple_words {α : Type} {items : List (Item α)} {w : α} (mem : w ∈ (simple items).words) :
    ∃ i ∈ items, i.word = w := by
  rw [simple_words,List.mem_append] at mem
  rcases mem with arg | file
  · obtain ⟨i,mem,named⟩ := List.mem_filterMap.mp arg
    cases i with
    | arg v => cases named; exact ⟨_,mem,rfl⟩
    | redir _ _ => cases named
  · obtain ⟨r,inner,rfl⟩ := List.mem_map.mp file
    obtain ⟨i,mem,named⟩ := List.mem_filterMap.mp inner
    cases i with
    | arg _ => cases named
    | redir r' f => cases named; exact ⟨_,mem,rfl⟩

theorem wrap_addArg {α : Type} (rs : List (Redirect × α)) (c : Cmd α) (w : α) :
    (wrap rs c).addArg w = wrap rs (c.addArg w) := by
  induction rs generalizing c with
  | nil => rfl
  | cons r rs ih => exact ih (.redir c r.2 r.1.mode r.1.fd)

theorem simple_addArg {α : Type} (items : List (Item α)) (w : α) :
    (simple items).addArg w = simple (items ++ [.arg w]) := by
  have args : (items ++ [Item.arg w]).filterMap Item.arg? = items.filterMap Item.arg? ++ [w] := by
    simp [List.filterMap_append,Item.arg?]
  have redirs : (items ++ [Item.arg w]).filterMap Item.redirect? = items.filterMap Item.redirect? := by
    simp [List.filterMap_append,Item.redirect?]
  rw [simple,simple,args,redirs,wrap_addArg]
  rfl

def itemToks (buf : List Char) (items : List (Item (Nat × Nat))) : List Tok :=
  (items.map (Item.map (slice buf))).flatMap Item.toks

theorem parseexecLoop_ends : ∀ (n : Nat) (items : List (Item (Nat × Nat))) (argc : Nat) {p : Nat},
    p ≤ strlen buf → strlen buf - p < n → argc = (items.filterMap Item.arg?).length →
    (∀ i ∈ items, Span buf i.word) →
    Ends Fail.Syntax (fun c p' => p ≤ p' ∧ p' ≤ strlen buf ∧ ∃ more, c = simple (items ++ more) ∧
        (∀ i ∈ items ++ more, Span buf i.word) ∧ Seg buf p p' (itemToks buf more))
      (parseexecLoop buf (strlen buf) n (simple items) argc) p
  | 0, _, _, _, _, fuel, _, _ => absurd fuel (Nat.not_lt_zero _)
  | n + 1, items, argc, p, hp, fuel, count, spans => by
    have stop : ∀ p', p ≤ p' → p' ≤ strlen buf → Seg buf p p' [] →
        (fun c p' => p ≤ p' ∧ p' ≤ strlen buf ∧ ∃ more, c = simple (items ++ more) ∧
          (∀ i ∈ items ++ more, Span buf i.word) ∧ Seg buf p p' (itemToks buf more)) (simple items) p' :=
      fun p' le bounded seg => ⟨le,bounded,[],by rw [List.append_nil],by rwa [List.append_nil],seg⟩
    rw [parseexecLoop]
    apply Ends.step rfl
    set s := skipWhile (strchr whitespace) buf (strlen buf) p
    by_cases seen : (deref buf s != '\x00' && strchr ['|',')','&',';'] (deref buf s)) = true
    · rw [if_pos seen]
      exact Ends.pure (stop s le_skipWhile (skipWhile_le hp) (seg_skip hp))
    rw [if_neg seen]
    obtain ⟨g,p1,run⟩ : ∃ g p', gettoken buf (strlen buf) s = .ok (g,p') := ⟨_,_,rfl⟩
    apply Ends.step run
    by_cases done : g.ret = '\x00'
    · rw [if_pos done]
      obtain ⟨rfl,seg⟩ := gettoken_end (skipWhile_le hp) run done
      exact Ends.pure (stop _ (Nat.le_trans (le_skipWhile (P := strchr whitespace)) (skipWhile_le hp)) (Nat.le_refl _)
        (by simpa using (seg_skip hp).trans seg))
    rw [if_neg done]
    by_cases word : g.ret = 'a'
    · obtain ⟨t,tok,seg,advance,bounded,span⟩ := gettoken_read (skipWhile_le hp) run (by rw [word]; decide)
      have ps : p ≤ s := le_skipWhile
      simp only [Token.tok,word,↓reduceIte,Option.some.injEq] at tok
      simp only [word,bne_self_eq_false,Bool.false_eq_true,↓reduceIte]
      by_cases many : argc + 1 ≥ MAXARGS
      · rw [if_pos many]
        exact Ends.throw (by simp [Fail.Syntax])
      rw [if_neg many,simple_addArg]
      apply (parseredirs_ends n _ bounded (by omega)).bind
      rintro c1 p2 ⟨le2,bounded2,rs,rfl,spans2,seg2⟩
      rw [← simple_append_redirs]
      set added : List (Item (Nat × Nat)) := [Item.arg (g.q,g.eq)] ++ rs.map fun r => Item.redir r.1 r.2
      have count' : argc + 1 = ((items ++ added).filterMap Item.arg?).length := by
        simp [added,count,List.filterMap_append,List.filterMap_map,Function.comp_def,Item.arg?]
      have spans' : ∀ i ∈ items ++ added, Span buf i.word := by
        intro i mem
        simp only [added,List.singleton_append,List.mem_append,List.mem_cons,List.mem_map] at mem
        rcases mem with old | rfl | ⟨r,mem,rfl⟩
        · exact spans i old
        · exact span word
        · exact spans2 r mem
      rw [List.append_assoc]
      apply (parseexecLoop_ends n _ (argc + 1) bounded2 (by omega) count' spans').mono
      rintro c p' ⟨le3,bounded3,more,rfl,spans3,seg3⟩
      refine ⟨by omega,bounded3,added ++ more,by simp only [List.append_assoc],
        by simpa only [List.append_assoc] using spans3,?_⟩
      have whole := (seg_skip hp).trans (seg.trans (seg2.trans seg3))
      rw [← tok] at whole
      have toks : itemToks buf (added ++ more) =
          [] ++ ([.word (slice buf (g.q,g.eq))] ++ (redirToks buf rs ++ itemToks buf more)) := by
        simp [added,itemToks,redirToks,Item.toks,Item.map,Function.comp_def]
      rw [toks]
      exact whole
    · simp only [word,bne_iff_ne,ne_eq,not_false_eq_true,↓reduceIte]
      exact Ends.throw (by simp [Fail.Syntax])

-- What a parse function guarantees when it returns c at p' from p: the line between is tokens that
-- derive c by X, and the strings of c are words of the line.
structure Parsed (buf : List Char) (X : List Tok → Cmd (List Char) → Prop) (p : Nat) (c : Cmd (Nat × Nat))
    (p' : Nat) : Prop where
  le : p ≤ p'
  bounded : p' ≤ strlen buf
  spans : ∀ w ∈ c.words, Span buf w
  derives : ∃ ts, Seg buf p p' ts ∧ X ts (c.map (slice buf))

-- The four parse functions end with fuel for four calls per character left.
def LineEnds (buf : List Char) (n : Nat) : Prop :=
  ∀ p, p ≤ strlen buf → 4 * (strlen buf - p) + 3 < n →
    Ends Fail.Syntax (Parsed buf Line p) (parseline buf (strlen buf) n) p

def PipeEnds (buf : List Char) (n : Nat) : Prop :=
  ∀ p, p ≤ strlen buf → 4 * (strlen buf - p) + 2 < n →
    Ends Fail.Syntax (Parsed buf Pipe p) (parsepipe buf (strlen buf) n) p

def ExecEnds (buf : List Char) (n : Nat) : Prop :=
  ∀ p, p ≤ strlen buf → 4 * (strlen buf - p) + 1 < n →
    Ends Fail.Syntax (Parsed buf Exec p) (parseexec buf (strlen buf) n) p

def BlockEnds (buf : List Char) (n : Nat) : Prop :=
  ∀ p, p ≤ strlen buf → 4 * (strlen buf - p) < n → deref buf (skipWhile (strchr whitespace) buf (strlen buf) p) = '(' →
    Ends Fail.Syntax (Parsed buf Exec p) (parseblock buf (strlen buf) n) p

variable {n : Nat}

theorem redirToks_eq (rs : List (Redirect × (Nat × Nat))) :
    redirToks buf rs = ((rs.map fun r => (r.1,slice buf r.2)).map fun r => Item.redir r.1 r.2).flatMap Item.toks := by
  simp [redirToks,Function.comp_def]

theorem parseblock_step (line : LineEnds buf n) : BlockEnds buf (n + 1) := by
  intro p hp fuel paren
  rw [parseblock]
  apply Ends.step rfl
  set s := skipWhile (strchr whitespace) buf (strlen buf) p
  have seen : (deref buf s != '\x00' && strchr ['('] (deref buf s)) = true :=
    seen_iff.mpr ⟨by rw [paren]; decide,by simp [paren]⟩
  simp only [seen,Bool.not_true,Bool.false_eq_true,↓reduceIte]
  obtain ⟨g1,p1,run1⟩ : ∃ g p', gettoken buf (strlen buf) s = .ok (g,p') := ⟨_,_,rfl⟩
  apply Ends.step run1
  obtain ⟨seg1,adv1,b1⟩ := gettoken_symbol (c := '(') (t := .lparen) hp (by simp)
    (fun _ _ => by simp [Token.tok]) paren run1
  apply (line p1 b1 (by omega)).bind
  rintro c p2 ⟨le2,b2,spans2,ts,seg2,der2⟩
  apply Ends.step rfl
  set s2 := skipWhile (strchr whitespace) buf (strlen buf) p2
  by_cases close : (deref buf s2 != '\x00' && strchr [')'] (deref buf s2)) = true
  · simp only [close,Bool.not_true,Bool.false_eq_true,↓reduceIte]
    obtain ⟨g3,p3,run3⟩ : ∃ g p', gettoken buf (strlen buf) s2 = .ok (g,p') := ⟨_,_,rfl⟩
    apply Ends.step run3
    obtain ⟨seg3,adv3,b3⟩ := gettoken_symbol (c := ')') (t := .rparen) b2 (by simp)
      (fun _ _ => by simp [Token.tok]) (List.mem_singleton.mp (seen_iff.mp close).2) run3
    apply (parseredirs_ends n c b3 (by omega)).mono
    rintro c' p' ⟨le4,b4,rs,rfl,spans4,seg4⟩
    refine ⟨by omega,b4,fun w mem => ?_,.lparen :: ts ++ .rparen :: redirToks buf rs,?_,?_⟩
    · rw [wrap_words,List.mem_append,List.mem_map] at mem
      rcases mem with inner | ⟨r,mem,rfl⟩
      · exact spans2 w inner
      · exact spans4 r mem
    · have whole := seg1.trans (seg2.trans (seg3.trans seg4))
      simpa using whole
    · rw [wrap_map,redirToks_eq]
      exact Exec.block _ der2
  · simp only [close,Bool.not_false,↓reduceIte]
    exact Ends.throw_bind (by simp [Fail.Syntax])

theorem parseexec_step (block : BlockEnds buf n) : ExecEnds buf (n + 1) := by
  intro p hp fuel
  rw [parseexec]
  apply Ends.step rfl
  set s := skipWhile (strchr whitespace) buf (strlen buf) p
  have ps : p ≤ s := le_skipWhile
  by_cases paren : (deref buf s != '\x00' && strchr ['('] (deref buf s)) = true
  · rw [if_pos paren]
    have found : deref buf (skipWhile (strchr whitespace) buf (strlen buf) s) = '(' := by
      rw [skipWhile_idem]
      exact List.mem_singleton.mp (seen_iff.mp paren).2
    apply (block s (skipWhile_le hp) (by omega) found).mono
    rintro c p' ⟨le,bounded,spans,ts,seg,der⟩
    exact ⟨Nat.le_trans ps le,bounded,spans,ts,by simpa using (seg_skip hp).trans seg,der⟩
  rw [if_neg paren]
  apply (parseredirs_ends n (.exec []) (skipWhile_le hp) (by omega)).bind
  rintro c1 p1 ⟨le1,b1,rs,rfl,spans1,seg1⟩
  have start : wrap rs (Cmd.exec []) = simple (rs.map fun r => Item.redir r.1 r.2) := by
    rw [← List.nil_append (rs.map _),simple_append_redirs]
    rfl
  rw [start]
  have spans' : ∀ i ∈ rs.map (fun r => Item.redir r.1 r.2), Span buf i.word := by
    intro i mem
    obtain ⟨r,inner,rfl⟩ := List.mem_map.mp mem
    exact spans1 r inner
  apply (parseexecLoop_ends n _ 0 b1 (by omega) (by simp [List.filterMap_map,Function.comp_def,Item.arg?]) spans').mono
  rintro c p' ⟨le2,b2,more,rfl,spans2,seg2⟩
  refine ⟨by omega,b2,fun w mem => ?_,itemToks buf ((rs.map fun r => Item.redir r.1 r.2) ++ more),?_,?_⟩
  · obtain ⟨i,inner,rfl⟩ := mem_simple_words mem
    exact spans2 i inner
  · have toks : itemToks buf ((rs.map fun r => Item.redir r.1 r.2) ++ more) =
        [] ++ (redirToks buf rs ++ itemToks buf more) := by
      simp [itemToks,redirToks,Item.map,Function.comp_def]
    rw [toks]
    exact (seg_skip hp).trans (seg1.trans seg2)
  · rw [simple_map]
    exact Exec.simple _

theorem parsepipe_step (exec : ExecEnds buf n) (pipe : PipeEnds buf n) : PipeEnds buf (n + 1) := by
  intro p hp fuel
  rw [parsepipe]
  apply (exec p hp (by omega)).bind
  rintro c1 p1 ⟨le1,b1,spans1,ts1,seg1,der1⟩
  apply Ends.step rfl
  set s := skipWhile (strchr whitespace) buf (strlen buf) p1
  by_cases bar : (deref buf s != '\x00' && strchr ['|'] (deref buf s)) = true
  · rw [if_pos bar]
    obtain ⟨g,p2,run⟩ : ∃ g p', gettoken buf (strlen buf) s = .ok (g,p') := ⟨_,_,rfl⟩
    apply Ends.step run
    obtain ⟨seg2,adv2,b2⟩ := gettoken_symbol (c := '|') (t := .bar) b1 (by simp)
      (fun _ _ => by simp [Token.tok]) (List.mem_singleton.mp (seen_iff.mp bar).2) run
    apply (pipe p2 b2 (by omega)).bind
    rintro c2 p3 ⟨le3,b3,spans3,ts3,seg3,der3⟩
    apply Ends.pure
    refine ⟨by omega,b3,fun w mem => ?_,ts1 ++ .bar :: ts3,?_,.pipe der1 der3⟩
    · rcases List.mem_append.mp mem with left | right
      · exact spans1 w left
      · exact spans3 w right
    · simpa using seg1.trans (seg2.trans seg3)
  · rw [if_neg bar]
    apply Ends.pure
    exact ⟨Nat.le_trans le1 le_skipWhile,skipWhile_le b1,spans1,ts1,by simpa using seg1.trans (seg_skip b1),.exec der1⟩

theorem parseline_step (pipe : PipeEnds buf n) (line : LineEnds buf n) : LineEnds buf (n + 1) := by
  intro p hp fuel
  rw [parseline]
  apply (pipe p hp (by omega)).bind
  rintro c1 p1 ⟨le1,b1,spans1,ts1,seg1,der1⟩
  apply (parselineLoop_ends n c1 b1 (by omega)).bind
  rintro c2 p2 ⟨le2,b2,k,rfl,seg2⟩
  apply Ends.step rfl
  set s := skipWhile (strchr whitespace) buf (strlen buf) p2
  have spans2 : ∀ w ∈ (backs k c1).words, Span buf w := by
    rw [backs_words]
    exact spans1
  by_cases semi : (deref buf s != '\x00' && strchr [';'] (deref buf s)) = true
  · rw [if_pos semi]
    obtain ⟨g,p3,run⟩ : ∃ g p', gettoken buf (strlen buf) s = .ok (g,p') := ⟨_,_,rfl⟩
    apply Ends.step run
    obtain ⟨seg3,adv3,b3⟩ := gettoken_symbol (c := ';') (t := .semi) b2 (by simp)
      (fun _ _ => by simp [Token.tok]) (List.mem_singleton.mp (seen_iff.mp semi).2) run
    apply (line p3 b3 (by omega)).bind
    rintro c4 p4 ⟨le4,b4,spans4,ts4,seg4,der4⟩
    apply Ends.pure
    refine ⟨by omega,b4,fun w mem => ?_,ts1 ++ List.replicate k .amp ++ .semi :: ts4,?_,?_⟩
    · rcases List.mem_append.mp mem with left | right
      · exact spans2 w left
      · exact spans4 w right
    · simpa using seg1.trans (seg2.trans (seg3.trans seg4))
    · rw [Cmd.map,backs_map]
      exact .list k der1 der4
  · rw [if_neg semi]
    apply Ends.pure
    have after : p2 ≤ s := le_skipWhile
    refine ⟨by omega,skipWhile_le b2,spans2,ts1 ++ List.replicate k .amp,?_,?_⟩
    · simpa using seg1.trans (seg2.trans (seg_skip b2))
    · rw [backs_map]
      exact .pipe k der1

-- By induction on the fuel: each function at n + 1 calls the others at n.
theorem parsers_end (n : Nat) : LineEnds buf n ∧ PipeEnds buf n ∧ ExecEnds buf n ∧ BlockEnds buf n := by
  induction n with
  | zero =>
    exact ⟨fun _ _ fuel => absurd fuel (Nat.not_lt_zero _),fun _ _ fuel => absurd fuel (Nat.not_lt_zero _),
      fun _ _ fuel => absurd fuel (Nat.not_lt_zero _),fun _ _ fuel => absurd fuel (Nat.not_lt_zero _)⟩
  | succ n ih =>
    obtain ⟨line,pipe,exec,block⟩ := ih
    exact ⟨parseline_step pipe line,parsepipe_step exec pipe,parseexec_step block,parseblock_step line⟩

section Nulterminate

theorem deref_set_nul (b : List Char) (j i : Nat) :
    deref (b.set j '\x00') i = if i = j then '\x00' else deref b i := by
  unfold deref
  rw [List.getD_eq_getElem?_getD,List.getD_eq_getElem?_getD,List.getElem?_set]
  by_cases same : j = i
  · subst same
    simp only [if_true]
    split <;> rfl
  · simp [same,Ne.symm same]

theorem deref_foldl_set (argv : List (Nat × Nat)) (b : List Char) (i : Nat) :
    deref (argv.foldl (fun b w => b.set w.2 '\x00') b) i =
      if i ∈ argv.map Prod.snd then '\x00' else deref b i := by
  induction argv generalizing b with
  | nil => simp
  | cons w argv ih =>
    rw [List.foldl_cons,ih,deref_set_nul,List.map_cons]
    by_cases here : i = w.2
    · simp [here]
    · simp only [List.mem_cons,here,false_or,if_false]

theorem deref_nulterminate (c : Cmd (Nat × Nat)) (b : List Char) (i : Nat) :
    deref (nulterminate c b) i = if i ∈ c.words.map Prod.snd then '\x00' else deref b i := by
  induction c generalizing b with
  | exec argv => exact deref_foldl_set argv b i
  | redir cmd file mode fd ih =>
    rw [nulterminate,deref_set_nul,ih,Cmd.words,List.map_append,List.map_singleton]
    by_cases here : i = file.2
    · simp [here]
    · simp only [List.mem_append,List.mem_singleton,here,or_false,if_false]
  | pipe left right ihl ihr | list left right ihl ihr =>
    rw [nulterminate,ihr,ihl]
    by_cases l : i ∈ left.words.map Prod.snd <;> by_cases r : i ∈ right.words.map Prod.snd <;>
      simp_all [Cmd.words]
  | back cmd ih => exact ih b

theorem cstr_eq_slice {b : List Char} {e : Nat} (ends : deref b e = '\x00') :
    ∀ q, q ≤ e → (∀ i, q ≤ i → i < e → deref b i = deref buf i ∧ deref buf i ≠ '\x00') →
      cstr b q = slice buf (q,e) := by
  intro q le agree
  induction h : e - q generalizing q with
  | zero =>
    have same : q = e := by omega
    subst same
    have empty : slice buf (q,q) = [] := by simp [slice]
    rw [empty,cstr]
    by_cases within : q < b.length
    · rw [List.drop_eq_getElem_cons within]
      have nul : b[q] = '\x00' := by
        rw [← ends,deref,List.getD_eq_getElem?_getD,List.getElem?_eq_getElem within,Option.getD_some]
      simp [nul]
    · rw [List.drop_eq_nil_of_le (by omega)]
      rfl
  | succ k ih =>
    obtain ⟨same,nul⟩ := agree q (Nat.le_refl q) (by omega)
    have inb : q < b.length := by
      by_contra out
      exact nul (by rw [← same,deref,List.getD_eq_getElem?_getD,List.getElem?_eq_none (by omega)]; rfl)
    have inbuf : q < buf.length := by
      by_contra out
      exact nul (by rw [deref,List.getD_eq_getElem?_getD,List.getElem?_eq_none (by omega)]; rfl)
    have head : b[q] = buf[q] := by
      have := same
      rw [deref,deref,List.getD_eq_getElem?_getD,List.getD_eq_getElem?_getD,List.getElem?_eq_getElem inb,
        List.getElem?_eq_getElem inbuf] at this
      exact this
    have next := ih (q + 1) (by omega) (fun i low high => agree i (by omega) high) (by omega)
    have front : slice buf (q,e) = buf[q] :: slice buf (q + 1,e) := by
      rw [slice,slice,List.drop_eq_getElem_cons inbuf,show e - q = (e - (q + 1)) + 1 by omega,List.take_succ_cons]
    have nul' : b[q] ≠ '\x00' := by
      rw [head]
      intro zero
      exact nul (by rw [deref,List.getD_eq_getElem?_getD,List.getElem?_eq_getElem inbuf,zero]; rfl)
    rw [front,← next,cstr,cstr,List.drop_eq_getElem_cons inb,List.takeWhile_cons,head]
    simp only [head] at nul'
    simp [nul']

theorem nulterminate_read {c : Cmd (Nat × Nat)} (spans : ∀ w ∈ c.words, Span buf w) :
    c.read (nulterminate c buf) = c.map (slice buf) := by
  apply Cmd.map_congr
  intro w mem
  obtain ⟨lt,word,stop⟩ := spans w mem
  have written : deref (nulterminate c buf) w.2 = '\x00' := by
    rw [deref_nulterminate,if_pos (List.mem_map.mpr ⟨w,mem,rfl⟩)]
  apply cstr_eq_slice written w.1 (Nat.le_of_lt lt)
  intro i low high
  refine ⟨?_,(word i low high).1⟩
  rw [deref_nulterminate,if_neg]
  -- a written position is the end of a string, which is not a word character
  intro ended
  obtain ⟨v,memv,rfl⟩ := List.mem_map.mp ended
  exact (spans v memv).2.2 (word _ low high)

end Nulterminate

theorem parsecmd_grammar (buf : List Char) :
    (∃ c buf', parsecmd buf = .ok (c,buf') ∧ ∃ ts, Lexes (line buf) ts ∧ Line ts (c.read buf')) ∨
    ∃ f, parsecmd buf = .error f ∧ f.Syntax := by
  obtain ⟨line,-,-,-⟩ := @parsers_end buf (4 * strlen buf + 4)
  rcases line 0 (Nat.zero_le _) (by omega) with ⟨c,p,run,parsed⟩ | ⟨f,run,syn⟩
  · obtain ⟨le,bounded,spans,ts,seg,derives⟩ := parsed
    by_cases at_end : skipWhile (strchr whitespace) buf (strlen buf) p = strlen buf
    · left
      refine ⟨c,nulterminate c buf,?_,ts,?_,?_⟩
      · simp only [parsecmd,run,bind,Except.bind,peek,at_end,bne_self_eq_false,Bool.false_eq_true,↓reduceIte]
        rfl
      · have whole := seg.trans (seg_skip bounded)
        rw [at_end,List.append_nil] at whole
        have lexes := whole [] (by rw [drop_line_end (Nat.le_refl _)]; exact .nil)
        rwa [List.append_nil,List.drop_zero] at lexes
      · rw [nulterminate_read spans]
        exact derives
    · right
      refine ⟨.leftovers (cstr buf (skipWhile (strchr whitespace) buf (strlen buf) p)),?_,trivial⟩
      simp only [parsecmd,run,bind,Except.bind,peek,bne_iff_ne,ne_eq,at_end,not_false_eq_true,↓reduceIte]
      rfl
  · right
    refine ⟨f,?_,syn⟩
    rw [parsecmd,run]
    rfl

end Xv6.Sh
