import Mathlib.Data.List.Basic

namespace Xv6.Sh

-- struct cmd of user/sh.c over the type α of its strings: the parser keeps a string as its start
-- and end in the line (argv[i] with eargv[i]).
inductive Cmd (α : Type) where
  | exec (argv : List α)
  | redir (cmd : Cmd α) (file : α) (mode fd : Nat)
  | pipe (left right : Cmd α)
  | list (left right : Cmd α)
  | back (cmd : Cmd α)
deriving DecidableEq, Repr

variable {α β γ : Type}

def Cmd.map (f : α → β) : Cmd α → Cmd β
  | .exec argv => .exec (argv.map f)
  | .redir cmd file mode fd => .redir (cmd.map f) (f file) mode fd
  | .pipe left right => .pipe (left.map f) (right.map f)
  | .list left right => .list (left.map f) (right.map f)
  | .back cmd => .back (cmd.map f)

def Cmd.words : Cmd α → List α
  | .exec argv => argv
  | .redir cmd file _ _ => cmd.words ++ [file]
  | .pipe left right | .list left right => left.words ++ right.words
  | .back cmd => cmd.words

theorem Cmd.map_congr {f g : α → β} {c : Cmd α} (same : ∀ w ∈ c.words, f w = g w) : c.map f = c.map g := by
  induction c with
  | exec argv => simpa [Cmd.map,Cmd.words] using List.map_congr_left same
  | redir cmd file mode fd ih =>
    simp only [Cmd.words,List.mem_append,List.mem_singleton] at same
    simp only [Cmd.map,ih fun w mem => same w (.inl mem),same file (.inr rfl)]
  | pipe left right ihl ihr | list left right ihl ihr =>
    simp only [Cmd.words,List.mem_append] at same
    simp only [Cmd.map,ihl fun w mem => same w (.inl mem),ihr fun w mem => same w (.inr mem)]
  | back cmd ih => simpa [Cmd.map,Cmd.words] using ih same

theorem Cmd.map_map (f : α → β) (g : β → γ) : ∀ c : Cmd α, (c.map f).map g = c.map (g ∘ f)
  | .exec argv => by simp [Cmd.map]
  | .redir cmd file mode fd => by simp [Cmd.map,map_map f g cmd]
  | .pipe left right | .list left right => by simp [Cmd.map,map_map f g left,map_map f g right]
  | .back cmd => by simp [Cmd.map,map_map f g cmd]

-- kernel/fcntl.h
def O_RDONLY : Nat := 0x000
def O_WRONLY : Nat := 0x001
def O_CREATE : Nat := 0x200
def O_TRUNC : Nat := 0x400

-- char whitespace[] and char symbols[] of sh.c.
def whitespace : List Char := [' ','\t','\r','\n','\x0b']
def symbols : List Char := ['<','|','>','&',';','(',')']

def WordChar (c : Char) : Prop := c ≠ '\x00' ∧ c ∉ whitespace ∧ c ∉ symbols

instance : DecidablePred WordChar := fun _ => inferInstanceAs (Decidable (_ ∧ _))

inductive Redirect where
  | input
  | output
  | append
deriving DecidableEq, Repr

def Redirect.mode : Redirect → Nat
  | .input => O_RDONLY
  | .output => O_WRONLY ||| O_CREATE ||| O_TRUNC
  | .append => O_WRONLY ||| O_CREATE

def Redirect.fd : Redirect → Nat
  | .input => 0
  | .output | .append => 1

inductive Tok where
  | word (w : List Char)
  | redir (r : Redirect)
  | bar
  | amp
  | semi
  | lparen
  | rparen
deriving DecidableEq, Repr

def Tok.spelling : Tok → List Char
  | .word w => w
  | .redir .input => ['<']
  | .redir .output => ['>']
  | .redir .append => ['>','>']
  | .bar => ['|']
  | .amp => ['&']
  | .semi => [';']
  | .lparen => ['(']
  | .rparen => [')']

-- Maximal munch: a word is a whole run of word characters, '>' alone only where no '>' follows.
def Tok.Fits : Tok → List Char → Prop
  | .word w, rest => w ≠ [] ∧ (∀ c ∈ w, WordChar c) ∧ ∀ c ∈ rest.head?, ¬ WordChar c
  | .redir .output, rest => rest.head? ≠ some '>'
  | _, _ => True

inductive Lexes : List Char → List Tok → Prop
  | nil : Lexes [] []
  | blank {c : Char} {s : List Char} {ts : List Tok} : c ∈ whitespace → Lexes s ts → Lexes (c :: s) ts
  | tok {t : Tok} {s : List Char} {ts : List Tok} : t.Fits s → Lexes s ts → Lexes (t.spelling ++ s) (t :: ts)

-- exec := redir* (word redir*)*, which is any run of words and redirections.
inductive Item (α : Type) where
  | arg (w : α)
  | redir (r : Redirect) (file : α)
deriving DecidableEq, Repr

def Item.map (f : α → β) : Item α → Item β
  | .arg w => .arg (f w)
  | .redir r file => .redir r (f file)

def Item.toks : Item (List Char) → List Tok
  | .arg w => [.word w]
  | .redir r file => [.redir r,.word file]

def Item.arg? : Item α → Option α
  | .arg w => some w
  | .redir _ _ => none

def Item.redirect? : Item α → Option (Redirect × α)
  | .arg _ => none
  | .redir r file => some (r,file)

def wrap (rs : List (Redirect × α)) (c : Cmd α) : Cmd α :=
  rs.foldl (fun c r => .redir c r.2 r.1.mode r.1.fd) c

def simple (items : List (Item α)) : Cmd α :=
  wrap (items.filterMap Item.redirect?) (.exec (items.filterMap Item.arg?))

def backs : Nat → Cmd α → Cmd α
  | 0, c => c
  | n + 1, c => .back (backs n c)

-- line := pipe ('&')* (';' line)?, pipe := exec ('|' pipe)?,
-- exec := '(' line ')' redir* | redir* (word redir*)*, and the tree each derives.
mutual

inductive Line : List Tok → Cmd (List Char) → Prop
  | pipe {ts : List Tok} {c : Cmd (List Char)} (n : Nat) : Pipe ts c → Line (ts ++ List.replicate n .amp) (backs n c)
  | list {ts us : List Tok} {c d : Cmd (List Char)} (n : Nat) : Pipe ts c → Line us d →
      Line (ts ++ List.replicate n .amp ++ .semi :: us) (.list (backs n c) d)

inductive Pipe : List Tok → Cmd (List Char) → Prop
  | exec {ts : List Tok} {c : Cmd (List Char)} : Exec ts c → Pipe ts c
  | pipe {ts us : List Tok} {c d : Cmd (List Char)} : Exec ts c → Pipe us d → Pipe (ts ++ .bar :: us) (.pipe c d)

inductive Exec : List Tok → Cmd (List Char) → Prop
  | block {ts : List Tok} {c : Cmd (List Char)} (rs : List (Redirect × List Char)) : Line ts c →
      Exec (.lparen :: ts ++ .rparen :: (rs.map fun r => Item.redir r.1 r.2).flatMap Item.toks) (wrap rs c)
  | simple (items : List (Item (List Char))) : Exec (items.flatMap Item.toks) (simple items)

end

section Trees

theorem wrap_append (rs rs' : List (Redirect × α)) (c : Cmd α) : wrap (rs ++ rs') c = wrap rs' (wrap rs c) := by
  simp [wrap,List.foldl_append]

theorem wrap_map (f : α → β) (rs : List (Redirect × α)) (c : Cmd α) :
    (wrap rs c).map f = wrap (rs.map fun r => (r.1,f r.2)) (c.map f) := by
  induction rs generalizing c with
  | nil => rfl
  | cons r rs ih => exact ih (.redir c r.2 r.1.mode r.1.fd)

theorem wrap_words (rs : List (Redirect × α)) (c : Cmd α) : (wrap rs c).words = c.words ++ rs.map Prod.snd := by
  induction rs generalizing c with
  | nil => simp [wrap]
  | cons r rs ih => simp [wrap] at ih ⊢; simp [ih,Cmd.words]

theorem simple_map (f : α → β) (items : List (Item α)) : (simple items).map f = simple (items.map (Item.map f)) := by
  have args : (items.map (Item.map f)).filterMap Item.arg? = (items.filterMap Item.arg?).map f := by
    rw [List.filterMap_map,List.map_filterMap]
    congr 1; funext i; cases i <;> rfl
  have redirs : (items.map (Item.map f)).filterMap Item.redirect? =
      (items.filterMap Item.redirect?).map fun r => (r.1,f r.2) := by
    rw [List.filterMap_map,List.map_filterMap]
    congr 1; funext i; cases i <;> rfl
  rw [simple,simple,wrap_map,args,redirs]
  rfl

theorem simple_append_redirs (items : List (Item α)) (rs : List (Redirect × α)) :
    simple (items ++ rs.map fun r => Item.redir r.1 r.2) = wrap rs (simple items) := by
  have args : (rs.map fun r => Item.redir r.1 r.2).filterMap Item.arg? = [] := by simp [Item.arg?]
  have redirs : (rs.map fun r => Item.redir r.1 r.2).filterMap Item.redirect? = rs := by
    rw [List.filterMap_map]
    exact List.filterMap_some
  simp only [simple,List.filterMap_append,args,redirs,List.append_nil,wrap_append]

theorem simple_words (items : List (Item α)) :
    (simple items).words = items.filterMap Item.arg? ++ (items.filterMap Item.redirect?).map Prod.snd := by
  simp [simple,wrap_words,Cmd.words]

theorem backs_map (f : α → β) (n : Nat) (c : Cmd α) : (backs n c).map f = backs n (c.map f) := by
  induction n with
  | zero => rfl
  | succ n ih => simp [backs,Cmd.map,ih]

theorem backs_words (n : Nat) (c : Cmd α) : (backs n c).words = c.words := by
  induction n with
  | zero => rfl
  | succ n ih => simp [backs,Cmd.words,ih]

end Trees

section Lexing

theorem lexes_blanks {s : List Char} {ts : List Tok} :
    ∀ {b : List Char}, (∀ c ∈ b, c ∈ whitespace) → Lexes s ts → Lexes (b ++ s) ts
  | [], _, lexes => lexes
  | c :: b, blank, lexes => .blank (blank c (by simp)) (lexes_blanks (fun d mem => blank d (by simp [mem])) lexes)

end Lexing

end Xv6.Sh
