import Xv6.User.ShParse

namespace Xv6.Sh

open Frame

def Tok.first (t : Tok) : Char := t.spelling.headD '\x00'

def Tok.code : Tok → Char
  | .word _ => 'a'
  | .bar => '|'
  | .amp => '&'
  | .semi => ';'
  | .lparen => '('
  | .rparen => ')'
  | .redir .input => '<'
  | .redir .output => '>'
  | .redir .append => '+'

-- Maximal munch as a function: not the shell's code, only the reason a text lexes one way.
def readTok : List Char → Option (Tok × List Char)
  | [] => none
  | c :: s =>
    if c = '|' then some (.bar,s)
    else if c = '&' then some (.amp,s)
    else if c = ';' then some (.semi,s)
    else if c = '(' then some (.lparen,s)
    else if c = ')' then some (.rparen,s)
    else if c = '<' then some (.redir .input,s)
    else if c = '>' then
      if s.head? = some '>' then some (.redir .append,s.tail) else some (.redir .output,s)
    else if WordChar c then
      some (.word (c :: s.takeWhile fun d => decide (WordChar d)),s.dropWhile fun d => decide (WordChar d))
    else none

-- The argument vectors of a command's execcmds: parseexec panics at the MAXARGS-th word of one.
def Cmd.argvs {α : Type} : Cmd α → List (List α)
  | .exec argv => [argv]
  | .redir cmd _ _ _ => cmd.argvs
  | .pipe left right | .list left right => left.argvs ++ right.argvs
  | .back cmd => cmd.argvs

def ArgsFit {α : Type} (c : Cmd α) : Prop := ∀ argv ∈ c.argvs, argv.length < MAXARGS

instance {α : Type} (c : Cmd α) : Decidable (ArgsFit c) :=
  inferInstanceAs (Decidable (∀ argv ∈ c.argvs, argv.length < MAXARGS))

-- The tokens that may follow a line, a pipe and an exec in the grammar.
def Ahead (F rest : List Tok) : Prop := ∀ t ∈ rest.head?, t ∈ F

def lineFollow : List Tok := [.rparen]
def pipeFollow : List Tok := [.amp,.semi,.rparen]
def execFollow : List Tok := [.bar,.amp,.semi,.rparen]

def Stops (buf : List Char) (p : Nat) (rest : List Tok) (p' : Nat) : Prop :=
  p ≤ p' ∧ p' ≤ strlen buf ∧ Lexes ((line buf).drop p') rest

section Munch

variable {t t' : Tok} {s s' : List Char}

theorem readTok_spelling (fits : t.Fits s) : readTok (t.spelling ++ s) = some (t,s) := by
  cases t with
  | word w =>
    obtain ⟨nonempty,word,stop⟩ := fits
    obtain ⟨c,cs,rfl⟩ := List.exists_cons_of_ne_nil nonempty
    have head : WordChar c := word c (by simp)
    have rest : ∀ d ∈ cs, decide (WordChar d) = true := fun d mem => by simpa using word d (by simp [mem])
    have stops : s.takeWhile (fun d => decide (WordChar d)) = [] ∧ s.dropWhile (fun d => decide (WordChar d)) = s := by
      cases s with
      | nil => exact ⟨rfl,rfl⟩
      | cons d ds =>
        have no : decide (WordChar d) = false := by simpa using stop d rfl
        exact ⟨by simp [no],by simp [no]⟩
    have sym := head.2.2
    simp only [symbols,List.mem_cons,List.not_mem_nil,or_false,not_or] at sym
    obtain ⟨lt,bar,gt,amp,semi,lp,rp⟩ := sym
    simp [readTok,Tok.spelling,head,lt,bar,gt,amp,semi,lp,rp,List.takeWhile_append_of_pos rest,
      List.dropWhile_append_of_pos rest,stops]
  | redir r =>
    cases r with
    | input | append => simp [readTok,Tok.spelling]
    | output =>
      have stop : s.head? ≠ some '>' := fits
      simp [readTok,Tok.spelling,stop]
  | bar | amp | semi | lparen | rparen => simp [readTok,Tok.spelling]

theorem Tok.munch (fits : t.Fits s) (fits' : t'.Fits s') (same : t.spelling ++ s = t'.spelling ++ s') :
    t = t' ∧ s = s' := by
  have read := readTok_spelling fits
  rw [same,readTok_spelling fits',Option.some.injEq,Prod.mk.injEq] at read
  exact ⟨read.1.symm,read.2.symm⟩

theorem Tok.spelling_cons (fits : t.Fits s) : ∃ c cs, t.spelling = c :: cs ∧ c ∉ whitespace ∧ c ≠ '\x00' := by
  cases t with
  | word w =>
    obtain ⟨nonempty,word,-⟩ := fits
    obtain ⟨c,cs,rfl⟩ := List.exists_cons_of_ne_nil nonempty
    obtain ⟨nul,white,-⟩ := word c (by simp)
    exact ⟨c,cs,rfl,white,nul⟩
  | redir r => cases r <;> exact ⟨_,_,rfl,by simp [whitespace],by decide⟩
  | bar | amp | semi | lparen | rparen => exact ⟨_,_,rfl,by simp [whitespace],by decide⟩

theorem Tok.first_eq {c : Char} {cs : List Char} (spelt : t.spelling = c :: cs) : t.first = c := by
  simp [Tok.first,spelt]

theorem contains_first_word {w : List Char} {toks : List Char} (fits : (Tok.word w).Fits s)
    (sub : ∀ c ∈ toks, c ∈ symbols) : toks.contains (Tok.word w).first = false := by
  obtain ⟨c,cs,spelt,-,-⟩ := Tok.spelling_cons fits
  have word : WordChar c := fits.2.1 c (by simp only [Tok.spelling] at spelt; simp [spelt])
  rw [Tok.first_eq spelt]
  simpa using fun mem => word.2.2 (sub c mem)

theorem contains_redir_first (fits : t.Fits s) (other : ∀ r, t ≠ .redir r) : ['<','>'].contains t.first = false := by
  cases t with
  | word w => exact contains_first_word fits (by simp [symbols])
  | redir r => exact absurd rfl (other r)
  | bar | amp | semi | lparen | rparen => rfl

theorem Lexes.inv {l : List Char} {ts : List Tok} (lexes : Lexes l ts) :
    (l = [] ∧ ts = []) ∨ (∃ c r, l = c :: r ∧ c ∈ whitespace ∧ Lexes r ts) ∨
      ∃ t r us, l = t.spelling ++ r ∧ ts = t :: us ∧ t.Fits r ∧ Lexes r us := by
  cases lexes with
  | nil => exact .inl ⟨rfl,rfl⟩
  | blank white rest => exact .inr (.inl ⟨_,_,rfl,white,rest⟩)
  | tok fits rest => exact .inr (.inr ⟨_,_,_,rfl,rfl,fits,rest⟩)

theorem Lexes.tail_blank {c : Char} {ts : List Tok} (white : c ∈ whitespace) (lexes : Lexes (c :: s) ts) :
    Lexes s ts := by
  rcases lexes.inv with ⟨text,-⟩ | ⟨d,r,text,-,rest⟩ | ⟨t,r,us,text,rfl,fits,-⟩
  · cases text
  · cases text
    exact rest
  · obtain ⟨d,ds,spelt,notWhite,-⟩ := Tok.spelling_cons fits
    rw [spelt,List.cons_append,List.cons.injEq] at text
    exact absurd (text.1 ▸ white) notWhite

theorem Lexes.head_tok {c : Char} {ts : List Tok} (notWhite : c ∉ whitespace) (lexes : Lexes (c :: s) (t :: ts)) :
    ∃ r, c :: s = t.spelling ++ r ∧ t.Fits r ∧ Lexes r ts := by
  rcases lexes.inv with ⟨text,-⟩ | ⟨d,r,text,white,-⟩ | ⟨t',r,us,text,same,fits,rest⟩
  · cases text
  · cases text
    exact absurd white notWhite
  · cases same
    exact ⟨r,text,fits,rest⟩

theorem Lexes.nil_blank {c : Char} (lexes : Lexes (c :: s) []) : c ∈ whitespace ∧ Lexes s [] := by
  rcases lexes.inv with ⟨text,-⟩ | ⟨d,r,text,white,rest⟩ | ⟨t,r,us,-,toks,-,-⟩
  · cases text
  · cases text
    exact ⟨white,rest⟩
  · cases toks

theorem Lexes.not_nil {ts : List Tok} (lexes : Lexes [] (t :: ts)) : False := by
  rcases lexes.inv with ⟨-,toks⟩ | ⟨d,r,text,-,-⟩ | ⟨t',r,us,text,-,fits,-⟩
  · cases toks
  · cases text
  · obtain ⟨d,ds,spelt,-,-⟩ := Tok.spelling_cons fits
    rw [spelt,List.cons_append] at text
    cases text

theorem Lexes.head_fits {l : List Char} {ts : List Tok} (lexes : Lexes l (t :: ts)) : ∃ r, t.Fits r := by
  generalize toks : t :: ts = us at lexes
  induction lexes with
  | nil => cases toks
  | blank _ _ ih => exact ih toks
  | tok fits _ _ =>
    cases toks
    exact ⟨_,fits⟩

end Munch

section Grammar

variable {α : Type}

theorem argvs_wrap (rs : List (Redirect × α)) (c : Cmd α) : (wrap rs c).argvs = c.argvs := by
  induction rs generalizing c with
  | nil => rfl
  | cons r rs ih => exact (ih _).trans rfl

theorem argvs_backs (k : Nat) (c : Cmd α) : (backs k c).argvs = c.argvs := by
  induction k with
  | zero => rfl
  | succ k ih => exact ih

theorem argsFit_split {l r : Cmd α} (fit : ∀ argv ∈ l.argvs ++ r.argvs, argv.length < MAXARGS) :
    ArgsFit l ∧ ArgsFit r :=
  ⟨fun argv mem => fit argv (List.mem_append_left _ mem),fun argv mem => fit argv (List.mem_append_right _ mem)⟩

theorem items_split (items : List (Item α)) :
    ∃ (rs : List (Redirect × α)) (more : List (Item α)), items = (rs.map fun r => Item.redir r.1 r.2) ++ more ∧ ∀ i ∈ more.head?, ∃ w, i = .arg w := by
  induction items with
  | nil => exact ⟨[],[],rfl,fun _ mem => by simp at mem⟩
  | cons i items ih =>
    cases i with
    | arg w => exact ⟨[],.arg w :: items,rfl,fun i mem => ⟨w,(Option.mem_some_iff.mp mem).symm⟩⟩
    | redir r file =>
      obtain ⟨rs,more,rfl,first⟩ := ih
      exact ⟨(r,file) :: rs,more,rfl,first⟩

theorem Ahead.mono {F G rest : List Tok} (ahead : Ahead F rest) (sub : ∀ t ∈ F, t ∈ G) : Ahead G rest :=
  fun t mem => sub t (ahead t mem)

theorem ahead_amps {rest : List Tok} (k : Nat) (ahead : Ahead pipeFollow rest) :
    Ahead pipeFollow (List.replicate k .amp ++ rest) := by
  cases k with
  | zero => simpa using ahead
  | succ k => simp [Ahead,pipeFollow,List.replicate_succ]

theorem no_redir_ahead {more : List (Item (List Char))} {rest : List Tok} (first : ∀ i ∈ more.head?, ∃ w, i = .arg w)
    (ahead : Ahead execFollow rest) : ∀ t ∈ (more.flatMap Item.toks ++ rest).head?, ∀ r, t ≠ .redir r := by
  intro t mem r
  cases more with
  | cons i more =>
    obtain ⟨w,rfl⟩ := first i rfl
    simp only [List.flatMap_cons,Item.toks,List.cons_append,List.head?_cons,Option.mem_some_iff] at mem
    rw [← mem]
    exact Tok.noConfusion
  | nil =>
    have inside := ahead t (by simpa using mem)
    simp only [execFollow,List.mem_cons,List.not_mem_nil,or_false] at inside
    rcases inside with rfl | rfl | rfl | rfl <;> exact Tok.noConfusion

end Grammar

section Reading

variable {buf : List Char} {p : Nat} {t : Tok} {ts : List Tok}

theorem lexes_skip (hp : p ≤ strlen buf) (lexes : Lexes ((line buf).drop p) ts) :
    Lexes ((line buf).drop (skipWhile (strchr whitespace) buf (strlen buf) p)) ts := by
  induction h : strlen buf - p generalizing p with
  | zero =>
    rw [skipWhile_of_le (by omega)]
    exact lexes
  | succ k ih =>
    have lt : p < strlen buf := by omega
    rw [skipWhile_of_lt lt]
    by_cases blank : strchr whitespace (deref buf p) = true
    · simp only [blank,if_true]
      have white : deref buf p ∈ whitespace := by simpa [strchr,deref_ne_nul lt] using blank
      rw [drop_line lt] at lexes
      exact ih (by omega) (lexes.tail_blank white) (by omega)
    · simp only [blank,Bool.false_eq_true,if_false]
      exact lexes

theorem skip_end (hp : p ≤ strlen buf) (lexes : Lexes ((line buf).drop p) []) :
    skipWhile (strchr whitespace) buf (strlen buf) p = strlen buf := by
  induction h : strlen buf - p generalizing p with
  | zero =>
    rw [skipWhile_of_le (by omega)]
    omega
  | succ k ih =>
    have lt : p < strlen buf := by omega
    rw [drop_line lt] at lexes
    obtain ⟨white,rest⟩ := lexes.nil_blank
    rw [skipWhile_of_lt lt,if_pos (by simp [strchr,white])]
    exact ih (by omega) rest (by omega)

theorem stops_skip {rest : List Tok} (hp : p ≤ strlen buf) (lexes : Lexes ((line buf).drop p) rest) :
    Stops buf p rest (skipWhile (strchr whitespace) buf (strlen buf) p) :=
  ⟨le_skipWhile,skipWhile_le hp,lexes_skip hp lexes⟩

theorem Stops.from {rest : List Tok} {p1 p2 : Nat} (stops : Stops buf p1 rest p2) (le : p ≤ p1) : Stops buf p rest p2 :=
  ⟨Nat.le_trans le stops.1,stops.2⟩

theorem not_white {c : Char} (stop : strchr whitespace c = false) : c ∉ whitespace := fun white => by
  simp [strchr,white] at stop

theorem next_first (hp : p ≤ strlen buf) (lexes : Lexes ((line buf).drop p) (t :: ts)) :
    skipWhile (strchr whitespace) buf (strlen buf) p < strlen buf ∧
      deref buf (skipWhile (strchr whitespace) buf (strlen buf) p) = t.first := by
  set s := skipWhile (strchr whitespace) buf (strlen buf) p
  have at_s := lexes_skip hp lexes
  have lt : s < strlen buf := by
    by_contra past
    rw [drop_line_end (by omega)] at at_s
    exact at_s.not_nil
  have stop := (skipWhile_spec p).2 lt
  rw [drop_line lt] at at_s
  obtain ⟨r,text,fits,-⟩ := at_s.head_tok (not_white stop)
  obtain ⟨c,cs,spelt,-,-⟩ := Tok.spelling_cons fits
  rw [spelt,List.cons_append,List.cons.injEq] at text
  exact ⟨lt,by rw [Tok.first_eq spelt,text.1]⟩

theorem peek_next {toks : List Char} (hp : p ≤ strlen buf) (lexes : Lexes ((line buf).drop p) (t :: ts)) :
    peek buf (strlen buf) toks p = .ok (toks.contains t.first,skipWhile (strchr whitespace) buf (strlen buf) p) := by
  obtain ⟨lt,first⟩ := next_first hp lexes
  have nul := deref_ne_nul lt
  rw [first] at nul
  simp [peek,first,strchr,beq_eq_false_iff_ne.mpr nul,bne_iff_ne.mpr nul]

theorem peek_end {toks : List Char} (hp : p ≤ strlen buf) (lexes : Lexes ((line buf).drop p) []) :
    peek buf (strlen buf) toks p = .ok (false,strlen buf) := by
  simp [peek,skip_end hp lexes,deref_strlen]

theorem peek_ahead {toks : List Char} {F rest : List Tok} (hp : p ≤ strlen buf) (lexes : Lexes ((line buf).drop p) rest)
    (ahead : Ahead F rest) (unseen : ∀ t ∈ F, toks.contains t.first = false) :
    peek buf (strlen buf) toks p = .ok (false,skipWhile (strchr whitespace) buf (strlen buf) p) := by
  cases rest with
  | nil => rw [peek_end hp lexes,skip_end hp lexes]
  | cons t rest => rw [peek_next hp lexes,unseen t (ahead t rfl)]

theorem gettoken_next (hp : p ≤ strlen buf) (lexes : Lexes ((line buf).drop p) (t :: ts)) :
    ∃ g p', gettoken buf (strlen buf) p = .ok (g,p') ∧ g.tok buf = some t ∧ p < p' ∧ p' ≤ strlen buf ∧
      Lexes ((line buf).drop p') ts := by
  set s := skipWhile (strchr whitespace) buf (strlen buf) p
  obtain ⟨lt,-⟩ := next_first hp lexes
  have stop := (skipWhile_spec p).2 lt
  obtain ⟨t0,tok,read⟩ := lexeme_read lt stop
  have at_s := lexes_skip hp lexes
  rw [drop_line lt] at at_s
  obtain ⟨r,text,fits,rest⟩ := at_s.head_tok (not_white stop)
  have text0 := read.text
  rw [drop_line lt] at text0
  obtain ⟨rfl,rfl⟩ := Tok.munch fits read.fits (text.symm.trans text0)
  refine ⟨_,_,rfl,tok,?_,skipWhile_le read.bounded,lexes_skip read.bounded rest⟩
  exact Nat.lt_of_le_of_lt le_skipWhile (Nat.lt_of_lt_of_le read.advances le_skipWhile)

theorem gettoken_last (hp : p ≤ strlen buf) (lexes : Lexes ((line buf).drop p) []) :
    ∃ g, gettoken buf (strlen buf) p = .ok (g,strlen buf) ∧ g.ret = '\x00' := by
  refine ⟨⟨'\x00',strlen buf,strlen buf⟩,?_,rfl⟩
  simp [gettoken,skip_end hp lexes,lexeme,deref_strlen,skipWhile_of_le]

theorem tok_code {g : Token} (named : g.tok buf = some t) : g.ret = t.code := by
  unfold Token.tok at named
  iterate 9
    rcases ite_eq_iff.mp named with ⟨code,same⟩ | ⟨-,named⟩
    · cases same
      exact code
  cases named

theorem tok_word {g : Token} {w : List Char} (named : g.tok buf = some (.word w)) :
    g.ret = 'a' ∧ slice buf (g.q,g.eq) = w := by
  have code : g.ret = 'a' := tok_code named
  rw [Token.tok,if_pos code,Option.some.injEq,Tok.word.injEq] at named
  exact ⟨code,named⟩

theorem tok_redir {g : Token} {r : Redirect} (named : g.tok buf = some (.redir r)) :
    g.ret = '<' ∨ g.ret = '>' ∨ g.ret = '+' := by
  have code := tok_code named
  cases r <;> simp [code,Tok.code]

end Reading

section Accepts

variable {buf : List Char}

theorem parseredirs_accepts : ∀ (n : Nat) (cmd : Cmd (Nat × Nat)) (rs : List (Redirect × List Char)) {p : Nat}
    {rest : List Tok}, p ≤ strlen buf → strlen buf - p < n →
    Lexes ((line buf).drop p) ((rs.map fun r => Item.redir r.1 r.2).flatMap Item.toks ++ rest) →
    (∀ t ∈ rest.head?, ∀ r, t ≠ .redir r) →
    Ends (fun _ => False) (fun c p' => (∃ rs', c = wrap rs' cmd ∧ rs'.map (fun r => (r.1,slice buf r.2)) = rs) ∧
        Stops buf p rest p')
      (parseredirs buf (strlen buf) n cmd) p
  | 0, _, _, _, _, _, fuel, _, _ => absurd fuel (Nat.not_lt_zero _)
  | n + 1, cmd, [], p, rest, hp, _, lexes, other => by
    rw [List.map_nil,List.flatMap_nil,List.nil_append] at lexes
    have unseen : peek buf (strlen buf) ['<','>'] p = .ok (false,skipWhile (strchr whitespace) buf (strlen buf) p) := by
      cases rest with
      | nil => rw [peek_end hp lexes,skip_end hp lexes]
      | cons t rest =>
        obtain ⟨r,fits⟩ := lexes.head_fits
        rw [peek_next hp lexes,contains_redir_first fits (other t rfl)]
    rw [parseredirs]
    apply Ends.step unseen
    simp only [Bool.false_eq_true,↓reduceIte]
    exact Ends.pure ⟨⟨[],rfl,rfl⟩,stops_skip hp lexes⟩
  | n + 1, cmd, (dir,name) :: rs, p, rest, hp, fuel, lexes, other => by
    simp only [List.map_cons,List.flatMap_cons,Item.toks,List.cons_append,List.nil_append] at lexes
    have seen : peek buf (strlen buf) ['<','>'] p = .ok (true,skipWhile (strchr whitespace) buf (strlen buf) p) := by
      rw [peek_next hp lexes]
      cases dir <;> rfl
    rw [parseredirs]
    apply Ends.step seen
    simp only [↓reduceIte]
    have ps : p ≤ skipWhile (strchr whitespace) buf (strlen buf) p := le_skipWhile
    obtain ⟨tok,p1,run1,named1,adv1,b1,lexes1⟩ := gettoken_next (skipWhile_le hp) (lexes_skip hp lexes)
    apply Ends.step run1
    obtain ⟨file,p2,run2,named2,adv2,b2,lexes2⟩ := gettoken_next b1 lexes1
    apply Ends.step run2
    obtain ⟨word,sliced⟩ := tok_word named2
    obtain ⟨r,same,switch⟩ := redirect_switch cmd (file.q,file.eq) (tok_redir named1) named1
    cases same
    simp only [word,bne_self_eq_false,Bool.false_eq_true,↓reduceIte,switch]
    apply (parseredirs_accepts n _ rs b2 (by omega) lexes2 other).mono
    rintro c p' ⟨⟨rs',rfl,named⟩,stops⟩
    exact ⟨⟨(dir,(file.q,file.eq)) :: rs',rfl,by simp [named,sliced]⟩,stops.from (by omega)⟩

theorem parselineLoop_accepts : ∀ (n : Nat) (cmd : Cmd (Nat × Nat)) (k : Nat) {p : Nat} {rest : List Tok},
    p ≤ strlen buf → strlen buf - p < n → Lexes ((line buf).drop p) (List.replicate k .amp ++ rest) →
    Ahead [.semi,.rparen] rest →
    Ends (fun _ => False) (fun c p' => c = backs k cmd ∧ Stops buf p rest p') (parselineLoop buf (strlen buf) n cmd) p
  | 0, _, _, _, _, _, fuel, _, _ => absurd fuel (Nat.not_lt_zero _)
  | n + 1, cmd, 0, p, rest, hp, _, lexes, ahead => by
    rw [List.replicate_zero,List.nil_append] at lexes
    rw [parselineLoop]
    apply Ends.step (peek_ahead hp lexes ahead (by decide))
    simp only [Bool.false_eq_true,↓reduceIte]
    exact Ends.pure ⟨rfl,stops_skip hp lexes⟩
  | n + 1, cmd, k + 1, p, rest, hp, fuel, lexes, ahead => by
    rw [List.replicate_succ,List.cons_append] at lexes
    rw [parselineLoop]
    apply Ends.step (peek_next hp lexes)
    simp only [show ['&'].contains Tok.amp.first = true from rfl,↓reduceIte]
    have ps : p ≤ skipWhile (strchr whitespace) buf (strlen buf) p := le_skipWhile
    obtain ⟨g,p1,run,-,adv,b1,lexes1⟩ := gettoken_next (skipWhile_le hp) (lexes_skip hp lexes)
    apply Ends.step run
    apply (parselineLoop_accepts n (.back cmd) k b1 (by omega) lexes1 ahead).mono
    rintro c p' ⟨rfl,stops⟩
    exact ⟨backs_back k cmd,stops.from (by omega)⟩

theorem parseexecLoop_accepts : ∀ (n : Nat) (items : List (Item (Nat × Nat))) (more : List (Item (List Char)))
    {p : Nat} {rest : List Tok}, p ≤ strlen buf → strlen buf - p < n →
    (items.filterMap Item.arg?).length + (more.filterMap Item.arg?).length < MAXARGS →
    (∀ i ∈ more.head?, ∃ w, i = .arg w) →
    Lexes ((line buf).drop p) (more.flatMap Item.toks ++ rest) → Ahead execFollow rest →
    Ends (fun _ => False)
      (fun c p' => (∃ more', c = simple (items ++ more') ∧ more'.map (Item.map (slice buf)) = more) ∧ Stops buf p rest p')
      (parseexecLoop buf (strlen buf) n (simple items) (items.filterMap Item.arg?).length) p
  | 0, _, _, _, _, _, fuel, _, _, _, _ => absurd fuel (Nat.not_lt_zero _)
  | n + 1, items, [], p, rest, hp, _, _, _, lexes, ahead => by
    rw [List.flatMap_nil,List.nil_append] at lexes
    have done : ∃ more', simple items = simple (items ++ more') ∧ more'.map (Item.map (slice buf)) = [] :=
      ⟨[],by rw [List.append_nil],rfl⟩
    rw [parseexecLoop]
    cases rest with
    | nil =>
      apply Ends.step (peek_end hp lexes)
      simp only [Bool.false_eq_true,↓reduceIte]
      have ends : Lexes ((line buf).drop (strlen buf)) [] := by
        rw [drop_line_end (Nat.le_refl _)]
        exact .nil
      obtain ⟨g,run,nul⟩ := gettoken_last (Nat.le_refl _) ends
      apply Ends.step run
      rw [if_pos nul]
      exact Ends.pure ⟨done,hp,Nat.le_refl _,ends⟩
    | cons t rest =>
      have seen : ['|',')','&',';'].contains t.first = true := by
        have mem := ahead t rfl
        simp only [execFollow,List.mem_cons,List.not_mem_nil,or_false] at mem
        rcases mem with rfl | rfl | rfl | rfl <;> rfl
      apply Ends.step (peek_next hp lexes)
      rw [seen]
      exact Ends.pure ⟨done,stops_skip hp lexes⟩
  | n + 1, items, .redir _ _ :: _, _, _, _, _, _, first, _, _ => by
    obtain ⟨w,named⟩ := first _ rfl
    cases named
  | n + 1, items, .arg w :: more, p, rest, hp, fuel, count, _, lexes, ahead => by
    simp only [List.flatMap_cons,Item.toks,List.cons_append,List.nil_append] at lexes
    obtain ⟨r0,fits⟩ := lexes.head_fits
    rw [parseexecLoop]
    apply Ends.step (peek_next hp lexes)
    rw [contains_first_word fits (by simp [symbols])]
    simp only [Bool.false_eq_true,↓reduceIte]
    have ps : p ≤ skipWhile (strchr whitespace) buf (strlen buf) p := le_skipWhile
    obtain ⟨g,p1,run,named,adv,b1,lexes1⟩ := gettoken_next (skipWhile_le hp) (lexes_skip hp lexes)
    apply Ends.step run
    obtain ⟨word,sliced⟩ := tok_word named
    have counted : (items.filterMap Item.arg?).length + 1 + (more.filterMap Item.arg?).length < MAXARGS := by
      simpa [Item.arg?,Nat.add_assoc,Nat.add_comm 1] using count
    have room : ¬ (items.filterMap Item.arg?).length + 1 ≥ MAXARGS := by omega
    simp only [word,show ('a' = '\x00') = False by decide,bne_self_eq_false,Bool.false_eq_true,↓reduceIte,
      if_neg room,simple_addArg]
    obtain ⟨rs,more',rfl,first⟩ := items_split more
    rw [List.flatMap_append,List.append_assoc] at lexes1
    apply (parseredirs_accepts n _ rs b1 (by omega) lexes1 (no_redir_ahead first ahead)).bind
    rintro c1 p2 ⟨⟨rs',rfl,named'⟩,le2,b2,lexes2⟩
    rw [← simple_append_redirs]
    set added : List (Item (Nat × Nat)) := [Item.arg (g.q,g.eq)] ++ rs'.map fun r => Item.redir r.1 r.2
    have count' : ((items ++ added).filterMap Item.arg?).length = (items.filterMap Item.arg?).length + 1 := by
      simp [added,List.filterMap_append,List.filterMap_map,Function.comp_def,Item.arg?]
    have left : ((items ++ added).filterMap Item.arg?).length + (more'.filterMap Item.arg?).length < MAXARGS := by
      have none : ((rs.map fun r => Item.redir r.1 r.2).filterMap Item.arg?) = [] := by
        simp [List.filterMap_map,Function.comp_def,Item.arg?]
      simp only [List.filterMap_append,none,List.nil_append] at counted
      omega
    have loop := parseexecLoop_accepts n (items ++ added) more' b2 (by omega) left first lexes2 ahead
    rw [count'] at loop
    rw [List.append_assoc]
    apply loop.mono
    rintro c p' ⟨⟨more'',rfl,named''⟩,stops⟩
    refine ⟨⟨added ++ more'',by simp only [List.append_assoc],?_⟩,stops.from (by omega)⟩
    simp [added,named'',sliced,← named',Item.map,Function.comp_def]

def LineAccepts (buf : List Char) (n : Nat) : Prop :=
  ∀ p ts rest c, p ≤ strlen buf → 4 * (strlen buf - p) + 3 < n → Lexes ((line buf).drop p) (ts ++ rest) →
    Line ts c → ArgsFit c → Ahead lineFollow rest →
    Ends (fun _ => False) (fun c' p' => c'.map (slice buf) = c ∧ Stops buf p rest p') (parseline buf (strlen buf) n) p

def PipeAccepts (buf : List Char) (n : Nat) : Prop :=
  ∀ p ts rest c, p ≤ strlen buf → 4 * (strlen buf - p) + 2 < n → Lexes ((line buf).drop p) (ts ++ rest) →
    Pipe ts c → ArgsFit c → Ahead pipeFollow rest →
    Ends (fun _ => False) (fun c' p' => c'.map (slice buf) = c ∧ Stops buf p rest p') (parsepipe buf (strlen buf) n) p

def ExecAccepts (buf : List Char) (n : Nat) : Prop :=
  ∀ p ts rest c, p ≤ strlen buf → 4 * (strlen buf - p) + 1 < n → Lexes ((line buf).drop p) (ts ++ rest) →
    Exec ts c → ArgsFit c → Ahead execFollow rest →
    Ends (fun _ => False) (fun c' p' => c'.map (slice buf) = c ∧ Stops buf p rest p') (parseexec buf (strlen buf) n) p

def BlockAccepts (buf : List Char) (n : Nat) : Prop :=
  ∀ p ts (rs : List (Redirect × List Char)) rest c, p ≤ strlen buf → 4 * (strlen buf - p) < n →
    Lexes ((line buf).drop p) ((.lparen :: ts ++ .rparen :: (rs.map fun r => Item.redir r.1 r.2).flatMap Item.toks) ++ rest) →
    Line ts c → ArgsFit c → Ahead execFollow rest →
    Ends (fun _ => False) (fun c' p' => c'.map (slice buf) = wrap rs c ∧ Stops buf p rest p') (parseblock buf (strlen buf) n) p

variable {n : Nat}

theorem parseblock_accepts (line : LineAccepts buf n) : BlockAccepts buf (n + 1) := by
  intro p ts rs rest c hp fuel lexes derives fit ahead
  simp only [List.cons_append,List.append_assoc] at lexes
  rw [parseblock]
  apply Ends.step (peek_next hp lexes)
  simp only [show ['('].contains Tok.lparen.first = true from rfl,Bool.not_true,Bool.false_eq_true,↓reduceIte]
  have ps : p ≤ skipWhile (strchr whitespace) buf (strlen buf) p := le_skipWhile
  obtain ⟨g1,p1,run1,-,adv1,b1,lexes1⟩ := gettoken_next (skipWhile_le hp) (lexes_skip hp lexes)
  apply Ends.step run1
  apply (line p1 ts _ c b1 (by omega) lexes1 derives fit (by simp [Ahead,lineFollow])).bind
  rintro c1 p2 ⟨tree1,le2,b2,lexes2⟩
  apply Ends.step (peek_next b2 lexes2)
  simp only [show [')'].contains Tok.rparen.first = true from rfl,Bool.not_true,Bool.false_eq_true,↓reduceIte]
  have ps2 : p2 ≤ skipWhile (strchr whitespace) buf (strlen buf) p2 := le_skipWhile
  obtain ⟨g3,p3,run3,-,adv3,b3,lexes3⟩ := gettoken_next (skipWhile_le b2) (lexes_skip b2 lexes2)
  apply Ends.step run3
  apply (parseredirs_accepts n c1 rs b3 (by omega) lexes3 (@no_redir_ahead [] _ (by simp) ahead)).mono
  rintro c2 p4 ⟨⟨rs',rfl,named⟩,stops⟩
  exact ⟨by rw [wrap_map,named,tree1],stops.from (by omega)⟩

theorem parseexec_accepts (block : BlockAccepts buf n) : ExecAccepts buf (n + 1) := by
  intro p ts rest c hp fuel lexes derives fit ahead
  have ps : p ≤ skipWhile (strchr whitespace) buf (strlen buf) p := le_skipWhile
  rw [parseexec]
  cases derives with
  | block rs line =>
    have lexes' := lexes
    rw [List.cons_append] at lexes'
    apply Ends.step (peek_next hp lexes')
    simp only [show ['('].contains Tok.lparen.first = true from rfl,↓reduceIte]
    rw [ArgsFit,argvs_wrap] at fit
    apply (block _ _ rs rest _ (skipWhile_le hp) (by omega) (lexes_skip hp lexes) line fit ahead).mono
    rintro c' p' ⟨tree,stops⟩
    exact ⟨tree,stops.from ps⟩
  | simple items =>
    obtain ⟨rs,more,rfl,first⟩ := items_split items
    rw [List.flatMap_append,List.append_assoc] at lexes
    have unseen : peek buf (strlen buf) ['('] p = .ok (false,skipWhile (strchr whitespace) buf (strlen buf) p) := by
      cases rs with
      | cons r rs =>
        obtain ⟨dir,name⟩ := r
        simp only [List.map_cons,List.flatMap_cons,Item.toks,List.cons_append,List.nil_append] at lexes
        rw [peek_next hp lexes]
        cases dir <;> rfl
      | nil =>
        rw [List.map_nil,List.flatMap_nil,List.nil_append] at lexes
        cases more with
        | cons i more =>
          obtain ⟨w,rfl⟩ := first i rfl
          simp only [List.flatMap_cons,Item.toks,List.cons_append] at lexes
          obtain ⟨r,fits⟩ := lexes.head_fits
          rw [peek_next hp lexes,contains_first_word fits (by simp [symbols])]
        | nil =>
          rw [List.flatMap_nil,List.nil_append] at lexes
          exact peek_ahead hp lexes ahead (by decide)
    apply Ends.step unseen
    simp only [Bool.false_eq_true,↓reduceIte]
    apply (parseredirs_accepts n (.exec []) rs (skipWhile_le hp) (by omega) (lexes_skip hp lexes)
      (no_redir_ahead first ahead)).bind
    rintro c1 p1 ⟨⟨rs',rfl,named⟩,le1,b1,lexes1⟩
    have start : wrap rs' (Cmd.exec []) = simple (rs'.map fun r => Item.redir r.1 r.2) := by
      rw [← List.nil_append (rs'.map _),simple_append_redirs]
      rfl
    have none : ∀ rs : List (Redirect × (Nat × Nat)),
        ((rs.map fun r => Item.redir r.1 r.2).filterMap Item.arg?).length = 0 := by
      intro rs
      simp [List.filterMap_map,Function.comp_def,Item.arg?]
    have count : ((rs'.map fun r => Item.redir r.1 r.2).filterMap Item.arg?).length +
        (more.filterMap Item.arg?).length < MAXARGS := by
      have own := fit (((rs.map fun r => Item.redir r.1 r.2) ++ more).filterMap Item.arg?)
        (by simp only [simple,argvs_wrap,Cmd.argvs,List.mem_singleton])
      simpa [none,List.filterMap_append,List.filterMap_map,Function.comp_def,Item.arg?] using own
    have loop := parseexecLoop_accepts n _ more b1 (by omega) count first lexes1 ahead
    rw [none] at loop
    rw [start]
    apply loop.mono
    rintro c p' ⟨⟨more',rfl,named'⟩,stops⟩
    refine ⟨?_,stops.from (by omega)⟩
    rw [simple_map,List.map_append,named',← named]
    simp [Item.map,Function.comp_def]

theorem parsepipe_accepts (exec : ExecAccepts buf n) (pipe : PipeAccepts buf n) : PipeAccepts buf (n + 1) := by
  intro p ts rest c hp fuel lexes derives fit ahead
  rw [parsepipe]
  cases derives with
  | exec d =>
    apply (exec p _ rest c hp (by omega) lexes d fit (ahead.mono (by decide))).bind
    rintro c1 p1 ⟨tree1,le1,b1,lexes1⟩
    apply Ends.step (peek_ahead b1 lexes1 ahead (by decide))
    simp only [Bool.false_eq_true,↓reduceIte]
    exact Ends.pure ⟨tree1,(stops_skip b1 lexes1).from le1⟩
  | pipe d1 d2 =>
    rw [List.append_assoc,List.cons_append] at lexes
    obtain ⟨fit1,fit2⟩ := argsFit_split fit
    apply (exec p _ _ _ hp (by omega) lexes d1 fit1 (by simp [Ahead,execFollow])).bind
    rintro c1 p1 ⟨tree1,le1,b1,lexes1⟩
    apply Ends.step (peek_next b1 lexes1)
    simp only [show ['|'].contains Tok.bar.first = true from rfl,↓reduceIte]
    have ps1 : p1 ≤ skipWhile (strchr whitespace) buf (strlen buf) p1 := le_skipWhile
    obtain ⟨g,p2,run,-,adv,b2,lexes2⟩ := gettoken_next (skipWhile_le b1) (lexes_skip b1 lexes1)
    apply Ends.step run
    apply (pipe p2 _ rest _ b2 (by omega) lexes2 d2 fit2 ahead).bind
    rintro c2 p3 ⟨tree2,le3,stops3⟩
    exact Ends.pure ⟨by rw [Cmd.map,tree1,tree2],by omega,stops3⟩

theorem parseline_accepts (pipe : PipeAccepts buf n) (line : LineAccepts buf n) : LineAccepts buf (n + 1) := by
  intro p ts rest c hp fuel lexes derives fit ahead
  rw [parseline]
  cases derives with
  | pipe k d =>
    rw [List.append_assoc] at lexes
    rw [ArgsFit,argvs_backs] at fit
    apply (pipe p _ _ _ hp (by omega) lexes d fit (ahead_amps k (ahead.mono (by decide)))).bind
    rintro c1 p1 ⟨tree1,le1,b1,lexes1⟩
    apply (parselineLoop_accepts n c1 k b1 (by omega) lexes1 (ahead.mono (by decide))).bind
    rintro c2 p2 ⟨rfl,le2,b2,lexes2⟩
    apply Ends.step (peek_ahead b2 lexes2 ahead (by decide))
    simp only [Bool.false_eq_true,↓reduceIte]
    exact Ends.pure ⟨by rw [backs_map,tree1],(stops_skip b2 lexes2).from (by omega)⟩
  | list k d1 d2 =>
    simp only [List.append_assoc,List.cons_append] at lexes
    obtain ⟨fit1,fit2⟩ := argsFit_split fit
    rw [ArgsFit,argvs_backs] at fit1
    apply (pipe p _ _ _ hp (by omega) lexes d1 fit1 (ahead_amps k (by simp [Ahead,pipeFollow]))).bind
    rintro c1 p1 ⟨tree1,le1,b1,lexes1⟩
    apply (parselineLoop_accepts n c1 k b1 (by omega) lexes1 (by simp [Ahead])).bind
    rintro c2 p2 ⟨rfl,le2,b2,lexes2⟩
    apply Ends.step (peek_next b2 lexes2)
    simp only [show [';'].contains Tok.semi.first = true from rfl,↓reduceIte]
    have ps2 : p2 ≤ skipWhile (strchr whitespace) buf (strlen buf) p2 := le_skipWhile
    obtain ⟨g,p3,run,-,adv,b3,lexes3⟩ := gettoken_next (skipWhile_le b2) (lexes_skip b2 lexes2)
    apply Ends.step run
    apply (line p3 _ rest _ b3 (by omega) lexes3 d2 fit2 ahead).bind
    rintro c4 p4 ⟨tree4,le4,stops4⟩
    exact Ends.pure ⟨by rw [Cmd.map,backs_map,tree1,tree4],by omega,stops4⟩

-- By induction on the fuel, as for parsers_end.
theorem parsers_accept (n : Nat) : LineAccepts buf n ∧ PipeAccepts buf n ∧ ExecAccepts buf n ∧ BlockAccepts buf n := by
  induction n with
  | zero =>
    exact ⟨fun _ _ _ _ _ fuel => absurd fuel (Nat.not_lt_zero _),fun _ _ _ _ _ fuel => absurd fuel (Nat.not_lt_zero _),
      fun _ _ _ _ _ fuel => absurd fuel (Nat.not_lt_zero _),fun _ _ _ _ _ _ fuel => absurd fuel (Nat.not_lt_zero _)⟩
  | succ n ih =>
    obtain ⟨line,pipe,exec,block⟩ := ih
    exact ⟨parseline_accepts pipe line,parsepipe_accepts exec pipe,parseexec_accepts block,parseblock_accepts line⟩

end Accepts

theorem parsecmd_accepts {buf : List Char} {ts : List Tok} {c : Cmd (List Char)} (lexes : Lexes (line buf) ts)
    (derives : Line ts c) (fit : ArgsFit c) : ∃ cmd buf', parsecmd buf = .ok (cmd,buf') ∧ cmd.read buf' = c := by
  obtain ⟨accepts,-,-,-⟩ := @parsers_accept buf (4 * strlen buf + 4)
  have start : Lexes ((line buf).drop 0) (ts ++ []) := by simpa using lexes
  rcases accepts 0 ts [] c (Nat.zero_le _) (by omega) start derives fit (by simp [Ahead]) with
    ⟨cmd,p,run,tree,-,bounded,rest⟩ | ⟨_,_,never⟩
  · obtain ⟨ends,-,-,-⟩ := @parsers_end buf (4 * strlen buf + 4)
    have parsed := (ends 0 (Nat.zero_le _) (by omega)).ok run
    have at_end := skip_end bounded rest
    refine ⟨cmd,nulterminate cmd buf,?_,?_⟩
    · simp only [parsecmd,run,bind,Except.bind,peek,at_end,bne_self_eq_false,Bool.false_eq_true,↓reduceIte]
      rfl
    · rw [nulterminate_read parsed.spans,tree]
  · exact never.elim

theorem parsecmd_complete (buf : List Char) (ts : List Tok) (c : Cmd (List Char)) (lexes : Lexes (line buf) ts)
    (derives : Line ts c) (fit : ArgsFit c) : ∃ cmd buf', parsecmd buf = .ok (cmd,buf') ∧ cmd.read buf' = c :=
  parsecmd_accepts lexes derives fit

theorem parsecmd_complete_cat : ∃ cmd buf', parsecmd "cat < in".toList = .ok (cmd,buf') ∧
    cmd.read buf' = .redir (.exec ["cat".toList]) "in".toList O_RDONLY 0 :=
  parsecmd_complete "cat < in".toList [.word "cat".toList,.redir .input,.word "in".toList] _
    (.tok (t := .word "cat".toList) (s := " < in".toList)
      ⟨by simp,by simp [WordChar,whitespace,symbols],by simp [WordChar,whitespace,symbols]⟩ (.blank (by decide)
      (.tok (t := .redir .input) (s := " in".toList) trivial (.blank (by decide)
        (.tok (t := .word "in".toList) (s := []) ⟨by simp,by simp [WordChar,whitespace,symbols],by simp⟩ .nil)))))
    (.pipe 0 (.exec (.simple [.arg "cat".toList,.redir .input "in".toList])))
    (by decide)

theorem parsecmd_exactly_grammar (buf : List Char) :
    ((∃ c buf', parsecmd buf = .ok (c,buf') ∧ ∃ ts, Lexes (line buf) ts ∧ Line ts (c.read buf')) ∨
      ∃ f, parsecmd buf = .error f ∧ f.Syntax) ∧
    ∀ ts c, Lexes (line buf) ts → Line ts c → ArgsFit c →
      ∃ cmd buf', parsecmd buf = .ok (cmd,buf') ∧ cmd.read buf' = c :=
  ⟨parsecmd_grammar buf,fun _ _ lexes derives fit => parsecmd_accepts lexes derives fit⟩

theorem parsecmd_exactly_grammar_pipe : ∃ cmd buf', parsecmd "ls | wc&".toList = .ok (cmd,buf') ∧
    cmd.read buf' = .back (.pipe (.exec ["ls".toList]) (.exec ["wc".toList])) :=
  (parsecmd_exactly_grammar "ls | wc&".toList).2 [.word "ls".toList,.bar,.word "wc".toList,.amp] _
    (.tok (t := .word "ls".toList) (s := " | wc&".toList)
      ⟨by simp,by simp [WordChar,whitespace,symbols],by simp [WordChar,whitespace,symbols]⟩ (.blank (by decide)
      (.tok (t := .bar) (s := " wc&".toList) trivial (.blank (by decide)
        (.tok (t := .word "wc".toList) (s := "&".toList)
          ⟨by simp,by simp [WordChar,whitespace,symbols],by simp [WordChar,whitespace,symbols]⟩
          (.tok (t := .amp) (s := []) trivial .nil))))))
    (.pipe 1 (.pipe (.simple [.arg "ls".toList]) (.exec (.simple [.arg "wc".toList]))))
    (by decide)

end Xv6.Sh
