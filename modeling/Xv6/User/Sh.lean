import Xv6.User.ShGrammar
import Xv6.Lib.Total

namespace Xv6.Sh

open Frame

-- *s: the byte at s, with NUL past the end of the buffer.
def deref (buf : List Char) (s : Nat) : Char := buf.getD s '\x00'

-- strchr(str, c) is non-null when c is in str, and also for c = 0, where it finds the terminator.
def strchr (str : List Char) (c : Char) : Bool := c == '\x00' || str.contains c

def strlen (buf : List Char) : Nat := (buf.takeWhile (· != '\x00')).length

def cstr (buf : List Char) (q : Nat) : List Char := (buf.drop q).takeWhile (· != '\x00')

def slice (buf : List Char) (w : Nat × Nat) : List Char := (buf.drop w.1).take (w.2 - w.1)

-- while(s < es && P(*s)) s++;
def skipWhile (P : Char → Bool) (buf : List Char) (es s : Nat) : Nat :=
  s + (((buf.take es).drop s).takeWhile P).length

structure Token where
  ret : Char
  q : Nat
  eq : Nat
deriving DecidableEq, Repr

-- The switch of gettoken on *s: the code it returns and where the token ends.
def lexeme (buf : List Char) (es s : Nat) : Char × Nat :=
  let c := deref buf s
  if c = '\x00' then (c,s)
  else if c ∈ ['|','(',')',';','&','<'] then (c,s + 1)
  else if c = '>' then
    if deref buf (s + 1) = '>' then ('+',s + 2) else ('>',s + 1)
  else ('a',skipWhile (fun c => !strchr whitespace c && !strchr symbols c) buf es s)

-- How the parser stops: panic(msg), or the leftovers message before panic("syntax"); running out
-- of fuel is a third way that the C recursion does not have.
inductive Fail where
  | panic (msg : String)
  | leftovers (rest : List Char)
  | outOfFuel
deriving DecidableEq, Repr

def MAXARGS : Nat := 10

abbrev Parse := StateT Nat (Except Fail)

-- cmd->argv[argc] = q: the ret of parseexec is redircmds around its execcmd.
def Cmd.addArg {α : Type} (w : α) : Cmd α → Cmd α
  | .exec argv => .exec (argv ++ [w])
  | .redir cmd file mode fd => .redir (cmd.addArg w) file mode fd
  | c => c

section Parser

variable (buf : List Char) (es : Nat)

def gettoken : Parse Token := fun ps =>
  let s := skipWhile (strchr whitespace) buf es ps
  let l := lexeme buf es s
  .ok (⟨l.1,s,l.2⟩,skipWhile (strchr whitespace) buf es l.2)

def peek (toks : List Char) : Parse Bool := fun ps =>
  let s := skipWhile (strchr whitespace) buf es ps
  .ok (deref buf s != '\x00' && strchr toks (deref buf s),s)

-- Each loop and call takes one unit of fuel.
def parseredirs : Nat → Cmd (Nat × Nat) → Parse (Cmd (Nat × Nat))
  | 0, _ => throw .outOfFuel
  | n + 1, cmd => do
    if (← peek buf es ['<','>']) then
      let tok ← gettoken buf es
      let file ← gettoken buf es
      if file.ret != 'a' then throw (.panic "missing file for redirection")
      let cmd :=
        if tok.ret = '<' then .redir cmd (file.q,file.eq) O_RDONLY 0
        else if tok.ret = '>' then .redir cmd (file.q,file.eq) (O_WRONLY ||| O_CREATE ||| O_TRUNC) 1
        else if tok.ret = '+' then .redir cmd (file.q,file.eq) (O_WRONLY ||| O_CREATE) 1
        else cmd
      parseredirs n cmd
    else
      pure cmd

def parselineLoop : Nat → Cmd (Nat × Nat) → Parse (Cmd (Nat × Nat))
  | 0, _ => throw .outOfFuel
  | n + 1, cmd => do
    if (← peek buf es ['&']) then
      let _ ← gettoken buf es
      parselineLoop n (.back cmd)
    else
      pure cmd

def parseexecLoop : Nat → Cmd (Nat × Nat) → Nat → Parse (Cmd (Nat × Nat))
  | 0, _, _ => throw .outOfFuel
  | n + 1, ret, argc => do
    if (← peek buf es ['|',')','&',';']) then pure ret
    else
      let t ← gettoken buf es
      if t.ret = '\x00' then pure ret
      else if t.ret != 'a' then throw (.panic "syntax")
      else if argc + 1 ≥ MAXARGS then throw (.panic "too many args")
      else
        let ret ← parseredirs buf es n (ret.addArg (t.q,t.eq))
        parseexecLoop n ret (argc + 1)

mutual

def parseline : Nat → Parse (Cmd (Nat × Nat))
  | 0 => throw .outOfFuel
  | n + 1 => do
    let cmd ← parsepipe n
    let cmd ← parselineLoop buf es n cmd
    if (← peek buf es [';']) then
      let _ ← gettoken buf es
      let right ← parseline n
      pure (.list cmd right)
    else
      pure cmd

def parsepipe : Nat → Parse (Cmd (Nat × Nat))
  | 0 => throw .outOfFuel
  | n + 1 => do
    let cmd ← parseexec n
    if (← peek buf es ['|']) then
      let _ ← gettoken buf es
      let right ← parsepipe n
      pure (.pipe cmd right)
    else
      pure cmd

def parseblock : Nat → Parse (Cmd (Nat × Nat))
  | 0 => throw .outOfFuel
  | n + 1 => do
    if !(← peek buf es ['(']) then throw (.panic "parseblock")
    let _ ← gettoken buf es
    let cmd ← parseline n
    if !(← peek buf es [')']) then throw (.panic "syntax - missing )")
    let _ ← gettoken buf es
    parseredirs buf es n cmd

def parseexec : Nat → Parse (Cmd (Nat × Nat))
  | 0 => throw .outOfFuel
  | n + 1 => do
    if (← peek buf es ['(']) then parseblock n
    else
      let ret ← parseredirs buf es n (.exec [])
      parseexecLoop buf es n ret 0

end

end Parser

-- NUL-terminate all the counted strings: *eargv[i] = 0 and *efile = 0.
def nulterminate : Cmd (Nat × Nat) → List Char → List Char
  | .exec argv, buf => argv.foldl (fun buf w => buf.set w.2 '\x00') buf
  | .redir cmd file _ _, buf => (nulterminate cmd buf).set file.2 '\x00'
  | .pipe left right, buf | .list left right, buf => nulterminate right (nulterminate left buf)
  | .back cmd, buf => nulterminate cmd buf

-- The fuel is enough for every line (parsecmd_grammar).
def parsecmd (buf : List Char) : Except Fail (Cmd (Nat × Nat) × List Char) := do
  let es := strlen buf
  let (cmd,s) ← parseline buf es (4 * es + 4) 0
  let (_,s) ← peek buf es [] s
  if s != es then throw (.leftovers (cstr buf s))
  pure (cmd,nulterminate cmd buf)

def Cmd.read (buf : List Char) (c : Cmd (Nat × Nat)) : Cmd (List Char) := c.map (cstr buf ·.1)

example : (parsecmd "cat < in | wc > out &".toList).map (fun r => r.1.read r.2) =
    .ok (.back (.pipe (.redir (.exec ["cat".toList]) "in".toList O_RDONLY 0)
      (.redir (.exec ["wc".toList]) "out".toList (O_WRONLY ||| O_CREATE ||| O_TRUNC) 1))) := by
  rfl

end Xv6.Sh
