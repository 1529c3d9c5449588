import Xv6.Param
import Xv6.Lib.Ring
import Xv6.Lib.Runs

namespace Xv6

open Transition Ring

-- kernel/console.c. The echo of a character is the list of values consputc is called with; a
-- step runs under the lock and ends where the code sleeps or returns.
def INPUT_BUF : Nat := 128

def BACKSPACE : Nat := 0x100

-- Control-x
def C (x : Char) : UInt8 := x.toUInt8 - '@'.toUInt8

structure Cons where
  buf : Nat → UInt8
  r : UInt32
  w : UInt32
  e : UInt32

def inputSlot (x : UInt32) : Nat := (x % INPUT_BUF.toUInt32).toNat

-- The kill-line loop, one erased character a pass; e - w bounds its passes.
def killLine : Nat → Cons → Cons × List Nat
  | 0,cons => (cons,[])
  | fuel + 1,cons =>
    if cons.e ≠ cons.w ∧ cons.buf (inputSlot (cons.e - 1)) ≠ '\n'.toUInt8 then
      let (cons,echo) := killLine fuel {cons with e := cons.e - 1}
      (cons,BACKSPACE :: echo)
    else (cons,[])

-- procdump only prints.
def consoleintr (c : UInt8) (cons : Cons) : Cons × List Nat :=
  if c = C 'P' then (cons,[])
  else if c = C 'U' then killLine (cons.e - cons.w).toNat cons
  else if c = C 'H' ∨ c = 0x7f then
    if cons.e ≠ cons.w then ({cons with e := cons.e - 1},[BACKSPACE]) else (cons,[])
  else if c ≠ 0 ∧ cons.e - cons.r < INPUT_BUF.toUInt32 then
    let c := if c = '\r'.toUInt8 then '\n'.toUInt8 else c
    let cons := {cons with buf := Function.update cons.buf (inputSlot cons.e) c,e := cons.e + 1}
    if c = '\n'.toUInt8 ∨ c = C 'D' ∨ cons.e = cons.r + INPUT_BUF.toUInt32 then ({cons with w := cons.e},[c.toNat])
    else (cons,[c.toNat])
  else (cons,[])

inductive ConsRead
  | sleeps (n : Int) (out : List UInt8)
  | returns (r : Int) (out : List UInt8)

def ConsRead.out : ConsRead → List UInt8
  | .sleeps _ out | .returns _ out => out

-- consoleread's loop with n bytes still wanted; dst i says whether the copyout of byte i succeeds.
def consolereadLoop (dst : Nat → Bool) (killed : Bool) (target : Int) :
    Nat → Int → List UInt8 → Cons → Cons × ConsRead
  | 0,n,out,cons => (cons,.returns (target - n) out)
  | fuel + 1,n,out,cons =>
    if 0 < n then
      if cons.r = cons.w then
        if killed then (cons,.returns (-1) out) else (cons,.sleeps n out)
      else
        let c := cons.buf (inputSlot cons.r)
        let cons := {cons with r := cons.r + 1}
        if c = C 'D' then
          -- Save ^D for next time, so the caller gets a 0-byte result.
          (if n < target then {cons with r := cons.r - 1} else cons,.returns (target - n) out)
        else if dst out.length then
          if c = '\n'.toUInt8 then (cons,.returns (target - (n - 1)) (out ++ [c]))
          else consolereadLoop dst killed target fuel (n - 1) (out ++ [c]) cons
        else (cons,.returns (target - n) out)
    else (cons,.returns (target - n) out)

def consoleread (dst : Nat → Bool) (killed : Bool) (target n : Int) (out : List UInt8) (cons : Cons) :
    Cons × ConsRead :=
  consolereadLoop dst killed target (n.toNat + 1) n out cons

-- What the console is for: the committed bytes readers take, in order, and the line being edited.
structure Line where
  committed : List UInt8
  editing : List UInt8

def Line.intr (c : UInt8) (l : Line) : Line :=
  if c = C 'P' then l
  else if c = C 'U' then {l with editing := []}
  else if c = C 'H' ∨ c = 0x7f then {l with editing := l.editing.dropLast}
  else if c ≠ 0 ∧ l.committed.length + l.editing.length < INPUT_BUF then
    let c := if c = '\r'.toUInt8 then '\n'.toUInt8 else c
    if c = '\n'.toUInt8 ∨ c = C 'D' ∨ l.committed.length + l.editing.length + 1 = INPUT_BUF then
      ⟨l.committed ++ l.editing ++ [c],[]⟩
    else {l with editing := l.editing ++ [c]}
  else l

def takeLine (dst : Nat → Bool) (killed : Bool) (target : Int) : Int → List UInt8 → List UInt8 → List UInt8 × ConsRead
  | n,out,[] =>
    if 0 < n then
      if killed then ([],.returns (-1) out) else ([],.sleeps n out)
    else ([],.returns (target - n) out)
  | n,out,c :: q =>
    if 0 < n then
      if c = C 'D' then (if n < target then c :: q else q,.returns (target - n) out)
      else if dst out.length then
        if c = '\n'.toUInt8 then (q,.returns (target - (n - 1)) (out ++ [c]))
        else takeLine dst killed target (n - 1) (out ++ [c]) q
      else (q,.returns (target - n) out)
    else (c :: q,.returns (target - n) out)

def Cons.line (cons : Cons) : Line :=
  ⟨window INPUT_BUF cons.buf cons.r cons.w,window INPUT_BUF cons.buf cons.w cons.e⟩

-- r ≤ w ≤ e ≤ r + INPUT_BUF, as unsigned differences.
structure Cons.Ordered (cons : Cons) : Prop where
  between : cons.w - cons.r ≤ cons.e - cons.r
  room : cons.e - cons.r ≤ INPUT_BUF.toUInt32

-- No newline waits in the line being edited: a newline commits the line.
structure Cons.Wf (cons : Cons) : Prop where
  ordered : cons.Ordered
  plain : '\n'.toUInt8 ∉ cons.line.editing

section Line

variable {cons : Cons}

theorem inputSlot_eq (x : UInt32) : inputSlot x = x.toNat % INPUT_BUF := UInt32.toNat_mod x _

theorem input_divides : INPUT_BUF ∣ 2 ^ 32 := ⟨2 ^ 25,by decide⟩

theorem toNat_input : INPUT_BUF.toUInt32.toNat = INPUT_BUF := rfl

theorem Cons.Ordered.split (ordered : cons.Ordered) :
    (cons.e - cons.r).toNat = (cons.w - cons.r).toNat + (cons.e - cons.w).toNat :=
  toNat_sub_split (UInt32.le_iff_toNat_le.mp ordered.between)

theorem Cons.Ordered.fits (ordered : cons.Ordered) : (cons.e - cons.r).toNat ≤ INPUT_BUF :=
  UInt32.le_iff_toNat_le.mp ordered.room

theorem Cons.ordered_of (between : (cons.w - cons.r).toNat ≤ (cons.e - cons.r).toNat)
    (fits : (cons.e - cons.r).toNat ≤ INPUT_BUF) : cons.Ordered :=
  ⟨UInt32.le_iff_toNat_le.mpr between,UInt32.le_iff_toNat_le.mpr fits⟩

theorem Cons.Ordered.length (ordered : cons.Ordered) :
    cons.line.committed.length + cons.line.editing.length = (cons.e - cons.r).toNat := by
  simp [Cons.line,ordered.split]

theorem line_store (ordered : cons.Ordered) (room : (cons.e - cons.r).toNat < INPUT_BUF) (c : UInt8) :
    Cons.line {cons with buf := Function.update cons.buf (inputSlot cons.e) c,e := cons.e + 1} =
      ⟨cons.line.committed,cons.line.editing ++ [c]⟩ := by
  have split := ordered.split
  simp only [Cons.line,inputSlot_eq]
  rw [window_update_beyond input_divides (by omega) room,window_push input_divides (by omega) (by decide)]

theorem Cons.Ordered.store (ordered : cons.Ordered) (room : (cons.e - cons.r).toNat < INPUT_BUF) (c : UInt8) :
    Cons.Ordered {cons with buf := Function.update cons.buf (inputSlot cons.e) c,e := cons.e + 1} := by
  have split := ordered.split
  have next : (cons.e + 1 - cons.r).toNat = (cons.e - cons.r).toNat + 1 := toNat_succ_sub (by unfold INPUT_BUF at room; omega)
  exact Cons.ordered_of (by simp only; omega) (by simp only; omega)

theorem line_commit (ordered : cons.Ordered) :
    Cons.line {cons with w := cons.e} = ⟨cons.line.committed ++ cons.line.editing,[]⟩ := by
  simp only [Cons.line,window_self]
  rw [window_append input_divides (UInt32.le_iff_toNat_le.mp ordered.between)]

theorem Cons.Ordered.commit (ordered : cons.Ordered) : Cons.Ordered {cons with w := cons.e} :=
  Cons.ordered_of (Nat.le_refl _) ordered.fits

theorem line_erase (apart : cons.e ≠ cons.w) :
    Cons.line {cons with e := cons.e - 1} = ⟨cons.line.committed,cons.line.editing.dropLast⟩ := by
  simp only [Cons.line]
  rw [@window_last _ _ cons.buf cons.w cons.e input_divides (Ne.symm apart),List.dropLast_concat]

theorem Cons.Ordered.erase (ordered : cons.Ordered) (apart : cons.e ≠ cons.w) : Cons.Ordered {cons with e := cons.e - 1} := by
  have split := ordered.split
  have fits := ordered.fits
  have some : (cons.e - cons.w).toNat ≠ 0 := fun none => apart (toNat_sub_eq_zero_iff.mp none)
  have edited := toNat_pred_sub apart
  have nonempty : (cons.e - cons.r).toNat ≠ 0 := by omega
  have whole := toNat_pred_sub fun same => nonempty (toNat_sub_eq_zero_iff.mpr same)
  exact Cons.ordered_of (by simp only; omega) (by simp only; omega)

theorem room_iff (ordered : cons.Ordered) :
    cons.e - cons.r < INPUT_BUF.toUInt32 ↔ cons.line.committed.length + cons.line.editing.length < INPUT_BUF := by
  rw [UInt32.lt_iff_toNat_lt,toNat_input,ordered.length]

theorem full_iff_length (ordered : cons.Ordered) (room : (cons.e - cons.r).toNat < INPUT_BUF) :
    cons.e + 1 = cons.r + INPUT_BUF.toUInt32 ↔ cons.line.committed.length + cons.line.editing.length + 1 = INPUT_BUF := by
  have x := cons.r.toNat_lt
  have y := cons.e.toNat_lt
  rw [ordered.length,← UInt32.toNat_inj,UInt32.toNat_add,UInt32.toNat_add,toNat_input,UInt32.toNat_one]
  rw [UInt32.toNat_sub] at room ⊢
  unfold INPUT_BUF at room ⊢
  omega

theorem editing_eq_nil (same : cons.e = cons.w) : cons.line.editing = [] := by
  simp [Cons.line,same]

theorem killLine_eq : ∀ fuel (cons : Cons), (cons.e - cons.w).toNat = fuel → '\n'.toUInt8 ∉ cons.line.editing →
    killLine fuel cons = ({cons with e := cons.w},List.replicate fuel BACKSPACE)
  | 0,⟨buf,r,w,e⟩,empty,_ => by
    have same : e = w := toNat_sub_eq_zero_iff.mp empty
    subst same
    rfl
  | fuel + 1,cons,count,plain => by
    have apart : cons.e ≠ cons.w := fun same => by simp [same] at count
    have last : cons.buf (inputSlot (cons.e - 1)) ≠ '\n'.toUInt8 := by
      intro newline
      apply plain
      rw [Cons.line,window_last input_divides (Ne.symm apart),← inputSlot_eq,newline]
      exact List.mem_concat_self
    have rest : '\n'.toUInt8 ∉ (Cons.line {cons with e := cons.e - 1}).editing := by
      rw [line_erase apart]
      exact fun mem => plain (List.dropLast_subset _ mem)
    have count' : (cons.e - 1 - cons.w).toNat = fuel := by
      rw [toNat_pred_sub apart]
      omega
    rw [killLine,if_pos ⟨apart,last⟩,killLine_eq fuel _ count' rest]
    rfl

theorem Cons.Wf.kill (wf : cons.Wf) :
    (killLine (cons.e - cons.w).toNat cons).1.line = {cons.line with editing := []} ∧
      (killLine (cons.e - cons.w).toNat cons).1.Wf := by
  rw [killLine_eq _ cons rfl wf.plain]
  have line : Cons.line {cons with e := cons.w} = {cons.line with editing := []} := by simp [Cons.line]
  refine ⟨line,Cons.ordered_of (by simp) ?_,by rw [line]; simp⟩
  have split := wf.ordered.split
  have fits := wf.ordered.fits
  simp only
  omega

theorem Cons.Wf.erase (wf : cons.Wf) :
    (if cons.e ≠ cons.w then ({cons with e := cons.e - 1},[BACKSPACE]) else (cons,[])).1.line =
        {cons.line with editing := cons.line.editing.dropLast} ∧
      (if cons.e ≠ cons.w then ({cons with e := cons.e - 1},[BACKSPACE]) else (cons,[])).1.Wf := by
  by_cases apart : cons.e ≠ cons.w
  · rw [if_pos apart,line_erase apart]
    refine ⟨rfl,wf.ordered.erase apart,?_⟩
    rw [line_erase apart]
    exact fun mem => wf.plain (List.dropLast_subset _ mem)
  · rw [if_neg apart]
    have empty := editing_eq_nil (not_not.mp apart)
    refine ⟨?_,wf⟩
    calc cons.line = ⟨cons.line.committed,cons.line.editing⟩ := rfl
      _ = {cons.line with editing := cons.line.editing.dropLast} := by rw [empty]; rfl

theorem Cons.Wf.put (wf : cons.Wf) (room : (cons.e - cons.r).toNat < INPUT_BUF) (d : UInt8) :
    (if d = '\n'.toUInt8 ∨ d = C 'D' ∨ cons.e + 1 = cons.r + INPUT_BUF.toUInt32 then
        ({cons with buf := Function.update cons.buf (inputSlot cons.e) d,e := cons.e + 1,w := cons.e + 1},[d.toNat])
      else ({cons with buf := Function.update cons.buf (inputSlot cons.e) d,e := cons.e + 1},[d.toNat])).1.line =
      (if d = '\n'.toUInt8 ∨ d = C 'D' ∨ cons.line.committed.length + cons.line.editing.length + 1 = INPUT_BUF then
        ⟨cons.line.committed ++ cons.line.editing ++ [d],[]⟩
      else {cons.line with editing := cons.line.editing ++ [d]}) ∧
    (if d = '\n'.toUInt8 ∨ d = C 'D' ∨ cons.e + 1 = cons.r + INPUT_BUF.toUInt32 then
        ({cons with buf := Function.update cons.buf (inputSlot cons.e) d,e := cons.e + 1,w := cons.e + 1},[d.toNat])
      else ({cons with buf := Function.update cons.buf (inputSlot cons.e) d,e := cons.e + 1},[d.toNat])).1.Wf := by
  have stored := line_store wf.ordered room d
  have ordered := wf.ordered.store room d
  simp only [full_iff_length wf.ordered room]
  by_cases ends : d = '\n'.toUInt8 ∨ d = C 'D' ∨ cons.line.committed.length + cons.line.editing.length + 1 = INPUT_BUF
  · rw [if_pos ends,if_pos ends]
    have committed := line_commit ordered
    rw [stored] at committed
    exact ⟨by rw [← List.append_assoc] at committed; exact committed,ordered.commit,by rw [committed]; simp⟩
  · rw [if_neg ends,if_neg ends,stored]
    refine ⟨rfl,ordered,?_⟩
    rw [stored]
    simp only [List.mem_append,List.mem_singleton,not_or]
    exact ⟨wf.plain,fun same => ends (.inl same.symm)⟩

theorem consoleintr_line (wf : cons.Wf) (c : UInt8) :
    (consoleintr c cons).1.line = cons.line.intr c ∧ (consoleintr c cons).1.Wf := by
  unfold consoleintr Line.intr
  by_cases print : c = C 'P'
  · rw [if_pos print,if_pos print]
    exact ⟨rfl,wf⟩
  rw [if_neg print,if_neg print]
  by_cases kill : c = C 'U'
  · rw [if_pos kill,if_pos kill]
    exact wf.kill
  rw [if_neg kill,if_neg kill]
  by_cases erase : c = C 'H' ∨ c = 0x7f
  · rw [if_pos erase,if_pos erase]
    exact wf.erase
  rw [if_neg erase,if_neg erase]
  simp only [room_iff wf.ordered]
  by_cases put : c ≠ 0 ∧ cons.line.committed.length + cons.line.editing.length < INPUT_BUF
  · rw [if_pos put,if_pos put]
    exact wf.put (by rw [← wf.ordered.length]; exact put.2) _
  · rw [if_neg put,if_neg put]
    exact ⟨rfl,wf⟩

theorem committed_eq_nil (same : cons.r = cons.w) : cons.line.committed = [] := by
  simp [Cons.line,same]

theorem line_pop (apart : cons.r ≠ cons.w) :
    cons.line.committed = cons.buf (inputSlot cons.r) :: (Cons.line {cons with r := cons.r + 1}).committed := by
  simp only [Cons.line]
  rw [window_pop input_divides apart,inputSlot_eq]

theorem Cons.Ordered.pop (ordered : cons.Ordered) (apart : cons.r ≠ cons.w) : Cons.Ordered {cons with r := cons.r + 1} := by
  have split := ordered.split
  have fits := ordered.fits
  have some : (cons.w - cons.r).toNat ≠ 0 := fun none => apart (toNat_sub_eq_zero_iff.mp none).symm
  have committed := toNat_sub_succ (Ne.symm apart)
  have nonempty : (cons.e - cons.r).toNat ≠ 0 := by omega
  have whole := toNat_sub_succ fun same => nonempty (toNat_sub_eq_zero_iff.mpr same)
  exact Cons.ordered_of (by simp only; omega) (by simp only; omega)

end Line

section Read

variable (dst : Nat → Bool) (killed : Bool) (target : Int)

theorem consolereadLoop_line : ∀ fuel n out (cons : Cons), cons.Ordered → n.toNat < fuel →
    (consolereadLoop dst killed target fuel n out cons).1 =
        {cons with r := (consolereadLoop dst killed target fuel n out cons).1.r} ∧
      (consolereadLoop dst killed target fuel n out cons).1.Ordered ∧
      ((consolereadLoop dst killed target fuel n out cons).1.line.committed,
        (consolereadLoop dst killed target fuel n out cons).2) = takeLine dst killed target n out cons.line.committed
  | 0,_,_,_,_,enough => absurd enough (Nat.not_lt_zero _)
  | fuel + 1,n,out,cons,ordered,enough => by
    unfold consolereadLoop
    by_cases wanted : 0 < n
    · rw [if_pos wanted]
      by_cases empty : cons.r = cons.w
      · rw [if_pos empty,committed_eq_nil empty,takeLine,if_pos wanted]
        cases killed <;> exact ⟨rfl,ordered,by simp [committed_eq_nil empty]⟩
      · rw [if_neg empty,line_pop empty,takeLine,if_pos wanted]
        have popped := ordered.pop empty
        dsimp only
        by_cases eof : cons.buf (inputSlot cons.r) = C 'D'
        · rw [if_pos eof,if_pos eof]
          by_cases early : n < target
          · have back : ({cons with r := cons.r + 1 - 1} : Cons) = cons := by simp
            rw [if_pos early,if_pos early,back,← line_pop empty]
            exact ⟨rfl,ordered,rfl⟩
          · rw [if_neg early,if_neg early]
            exact ⟨rfl,popped,rfl⟩
        · rw [if_neg eof,if_neg eof]
          by_cases copied : dst out.length = true
          · rw [if_pos copied,if_pos copied]
            by_cases newline : cons.buf (inputSlot cons.r) = '\n'.toUInt8
            · rw [if_pos newline,if_pos newline]
              exact ⟨rfl,popped,rfl⟩
            · rw [if_neg newline,if_neg newline]
              obtain ⟨moved,ordered',taken⟩ :=
                consolereadLoop_line fuel (n - 1) (out ++ [cons.buf (inputSlot cons.r)]) _ popped (by omega)
              exact ⟨by rw [moved],ordered',taken⟩
          · rw [if_neg copied,if_neg copied]
            exact ⟨rfl,popped,rfl⟩
    · rw [if_neg wanted]
      refine ⟨rfl,ordered,?_⟩
      cases committed : cons.line.committed <;> simp [takeLine,wanted]

variable {dst killed target}

-- A ^D is consumed only by a read that has copied nothing; after some bytes it stays for the next.
theorem takeLine_takes : ∀ (q : List UInt8) (n : Int) (out : List UInt8), (out.length : Int) + n = target →
    ∃ consumed new, q = consumed ++ (takeLine dst killed target n out q).1 ∧
      (takeLine dst killed target n out q).2.out = out ++ new ∧ new.Sublist consumed ∧ C 'D' ∉ new ∧
      '\n'.toUInt8 ∉ new.dropLast ∧ (C 'D' ∈ consumed → out = [] ∧ new = [] ∧ consumed = [C 'D']) ∧
      ∀ m o, (takeLine dst killed target n out q).2 = .sleeps m o → '\n'.toUInt8 ∉ new
  | [],n,out,_ => by
    unfold takeLine
    split_ifs <;> exact ⟨[],[],rfl,by simp [ConsRead.out],List.Sublist.slnil,by simp,by simp,by simp,by simp⟩
  | c :: q,n,out,counted => by
    unfold takeLine
    by_cases wanted : 0 < n
    · rw [if_pos wanted]
      by_cases eof : c = C 'D'
      · rw [if_pos eof]
        by_cases early : n < target
        · rw [if_pos early]
          exact ⟨[],[],rfl,by simp [ConsRead.out],List.Sublist.slnil,by simp,by simp,by simp,by simp⟩
        · rw [if_neg early]
          have none : out = [] := List.eq_nil_of_length_eq_zero (by omega)
          exact ⟨[c],[],rfl,by simp [ConsRead.out],List.nil_sublist _,by simp,by simp,fun _ => ⟨none,rfl,by rw [eof]⟩,
            by simp⟩
      · rw [if_neg eof]
        by_cases copied : dst out.length = true
        · rw [if_pos copied]
          by_cases newline : c = '\n'.toUInt8
          · rw [if_pos newline]
            refine ⟨[c],[c],rfl,rfl,List.Sublist.refl _,by simpa using Ne.symm eof,by simp,?_,by simp⟩
            intro present
            exact absurd (List.mem_singleton.mp present).symm eof
          · rw [if_neg newline]
            obtain ⟨consumed,new,split,copies,sub,plain,ended,eofs,sleeping⟩ :=
              takeLine_takes q (n - 1) (out ++ [c]) (by simp; omega)
            refine ⟨c :: consumed,c :: new,by rw [List.cons_append,← split],by rw [copies]; simp,sub.cons_cons c,?_,?_,?_,?_⟩
            · simp [Ne.symm eof,plain]
            · cases new with
              | nil => simp
              | cons b new => simpa [Ne.symm newline] using ended
            · intro present
              have later : C 'D' ∈ consumed := by
                rcases List.mem_cons.mp present with same | later
                · exact absurd same.symm eof
                · exact later
              simp at eofs
              exact absurd (eofs later) (by simp)
            · intro m o sleeps
              simpa [Ne.symm newline] using sleeping m o sleeps
        · rw [if_neg copied]
          refine ⟨[c],[],rfl,by simp [ConsRead.out],List.nil_sublist _,by simp,by simp,?_,by simp⟩
          intro present
          exact absurd (List.mem_singleton.mp present).symm eof
    · rw [if_neg wanted]
      exact ⟨[],[],rfl,by simp [ConsRead.out],List.Sublist.slnil,by simp,by simp,by simp,by simp⟩

theorem takeLine_ends : ∀ (q : List UInt8) (n : Int) (out : List UInt8), (out.length : Int) + n = target →
    (∀ r o, (takeLine dst killed target n out q).2 = .returns r o → r = -1 ∨ r = o.length) ∧
      ∀ m o, (takeLine dst killed target n out q).2 = .sleeps m o →
        (takeLine dst killed target n out q).1 = [] ∧ (o.length : Int) + m = target ∧ 0 < m
  | [],n,out,counted => by
    unfold takeLine
    split_ifs <;> simp <;> omega
  | c :: q,n,out,counted => by
    unfold takeLine
    by_cases wanted : 0 < n
    · rw [if_pos wanted]
      split_ifs
      · simp; omega
      · simp; omega
      · simp; omega
      · exact takeLine_ends q (n - 1) (out ++ [c]) (by simp; omega)
      · simp; omega
    · rw [if_neg wanted]
      simp
      omega

end Read

theorem Line.committed_prefix_intr (l : Line) (c : UInt8) : l.committed <+: (l.intr c).committed := by
  unfold Line.intr
  dsimp only
  split_ifs <;> simp

-- Processes reading the console while bytes arrive; a read in progress is where its process sleeps.
inductive ConsCall
  | idle
  | reading (dst : Nat → Bool) (target n : Int) (out : List UInt8)

structure ConsSystem where
  cons : Cons
  calls : Fin NPROC → ConsCall
  killed : Fin NPROC → Bool
  accepted : List UInt8
  taken : List UInt8
  returned : List UInt8

def ConsSystem.init (junk : Nat → UInt8) : ConsSystem := ⟨⟨junk,0,0,0⟩,fun _ => .idle,fun _ => false,[],[],[]⟩

-- A wakeup may come at any time: a sleeping read rechecks its condition.
inductive ConsEvent
  | intr (c : UInt8)
  | read (p : Fin NPROC) (dst : Nat → Bool) (n : Int)
  | wake (p : Fin NPROC)
  | kill (p : Fin NPROC)

def ConsSystem.runIntr (s : ConsSystem) (c : UInt8) : ConsSystem :=
  let cons := (consoleintr c s.cons).1
  {s with cons := cons,accepted := s.accepted ++ cons.line.committed.drop s.cons.line.committed.length}

def ConsSystem.runRead (s : ConsSystem) (p : Fin NPROC) (dst : Nat → Bool) (target n : Int) (out : List UInt8) :
    ConsSystem :=
  let (cons,result) := consoleread dst (s.killed p) target n out s.cons
  {s with
    cons := cons
    calls := Function.update s.calls p (match result with
      | .sleeps n out => .reading dst target n out
      | .returns _ _ => .idle)
    taken := s.taken ++ s.cons.line.committed.take (s.cons.line.committed.length - cons.line.committed.length)
    returned := s.returned ++ result.out.drop out.length}

def consStep (s : ConsSystem) : ConsEvent → Option ConsSystem
  | .intr c => some (s.runIntr c)
  | .read p dst n =>
    match s.calls p with
    | .idle => some (s.runRead p dst n n [])
    | _ => none
  | .wake p =>
    match s.calls p with
    | .reading dst target n out => some (s.runRead p dst target n out)
    | .idle => none
  | .kill p => some {s with killed := Function.update s.killed p true}

def ConsCall.Wf : ConsCall → Prop
  | .idle => True
  | .reading _ target n out => (out.length : Int) + n = target ∧ 0 < n ∧ '\n'.toUInt8 ∉ out ∧ C 'D' ∉ out

structure ConsSystem.Wf (s : ConsSystem) : Prop where
  cons : s.cons.Wf
  fifo : s.taken ++ s.cons.line.committed = s.accepted
  sub : s.returned.Sublist s.taken
  calls : ∀ p, (s.calls p).Wf

theorem init_wf (junk : Nat → UInt8) : (ConsSystem.init junk).Wf := by
  refine ⟨⟨Cons.ordered_of (by simp [ConsSystem.init]) (by simp [ConsSystem.init]),by simp [ConsSystem.init,Cons.line]⟩,?_,.slnil,
    fun _ => trivial⟩
  simp [ConsSystem.init,Cons.line]

theorem runIntr_wf {s : ConsSystem} (wf : s.Wf) (c : UInt8) : (s.runIntr c).Wf := by
  obtain ⟨line,cons⟩ := consoleintr_line wf.cons c
  have grows := s.cons.line.committed_prefix_intr c
  rw [← line] at grows
  refine ⟨cons,?_,wf.sub,wf.calls⟩
  simp only [ConsSystem.runIntr]
  rw [← wf.fifo,List.append_assoc,List.prefix_iff_eq_append.mp grows]

theorem editing_of_moved {cons cons' : Cons} (moved : cons' = {cons with r := cons'.r}) :
    cons'.line.editing = cons.line.editing := by
  rw [moved]
  rfl

theorem runRead_wf {s : ConsSystem} (wf : s.Wf) (p : Fin NPROC) (dst : Nat → Bool) {target n : Int} {out : List UInt8}
    (counted : (out.length : Int) + n = target) (plain : '\n'.toUInt8 ∉ out) (clean : C 'D' ∉ out) :
    (s.runRead p dst target n out).Wf := by
  obtain ⟨moved,ordered,refines⟩ :=
    consolereadLoop_line dst (s.killed p) target (n.toNat + 1) n out s.cons wf.cons.ordered (Nat.lt_succ_self _)
  obtain ⟨consumed,new,split,copies,sub,noEof,-,-,sleeping⟩ :=
    @takeLine_takes dst (s.killed p) target s.cons.line.committed n out counted
  have ends := (@takeLine_ends dst (s.killed p) target s.cons.line.committed n out counted).2
  rw [← refines] at split copies sleeping ends
  unfold ConsSystem.runRead consoleread
  generalize consolereadLoop dst (s.killed p) target (n.toNat + 1) n out s.cons = result at moved ordered split copies sleeping ends
  obtain ⟨cons,res⟩ := result
  simp only at moved ordered split copies sleeping ends ⊢
  have took : s.cons.line.committed.take (s.cons.line.committed.length - cons.line.committed.length) = consumed := by
    rw [split]
    simp
  refine ⟨⟨ordered,by rw [editing_of_moved moved]; exact wf.cons.plain⟩,?_,?_,?_⟩
  · rw [took,List.append_assoc,← split,wf.fifo]
  · rw [took,copies,List.drop_left]
    exact wf.sub.append sub
  · intro q
    dsimp only
    by_cases same : q = p
    · subst same
      rw [Function.update_self]
      cases res with
      | returns r o => trivial
      | sleeps m o =>
        obtain ⟨-,counted',positive⟩ := ends m o rfl
        simp only [ConsRead.out] at copies
        subst copies
        have fresh := sleeping m _ rfl
        exact ⟨counted',positive,by simp [plain,fresh],by simp [clean,noEof]⟩
    · rw [Function.update_of_ne same]
      exact wf.calls q

theorem consStep_wf {s t : ConsSystem} {ev : ConsEvent} (wf : s.Wf) (step : consStep s ev = some t) : t.Wf := by
  cases ev with
  | intr c =>
    cases step
    exact runIntr_wf wf c
  | read p dst n =>
    cases called : s.calls p <;> simp only [consStep,called,reduceCtorEq,Option.some.injEq] at step
    exact step ▸ runRead_wf wf p dst (by simp) (by simp) (by simp)
  | wake p =>
    cases called : s.calls p with
    | idle => simp [consStep,called] at step
    | reading dst target n out =>
      simp only [consStep,called,Option.some.injEq] at step
      have call := wf.calls p
      rw [called] at call
      obtain ⟨counted,-,plain,clean⟩ := call
      exact step ▸ runRead_wf wf p dst counted plain clean
  | kill p =>
    simp only [consStep,Option.some.injEq] at step
    exact step ▸ ⟨wf.cons,wf.fifo,wf.sub,wf.calls⟩

theorem console_reached_wf {junk : Nat → UInt8} {events : List ConsEvent} {t : ConsSystem}
    (path : Runs (Taken consStep) (ConsSystem.init junk) events t) : t.Wf :=
  path.invariant (fun _ _ _ wf step => consStep_wf wf step) (init_wf junk)

def consoleintrs (cs : List UInt8) (cons : Cons) : Cons := cs.foldl (fun cons c => (consoleintr c cons).1) cons

theorem consoleintrs_prefix : ∀ (cs : List UInt8) (cons : Cons), cons.Wf →
    (consoleintrs cs cons).Wf ∧ cons.line.committed <+: (consoleintrs cs cons).line.committed
  | [],cons,wf => ⟨wf,List.prefix_refl _⟩
  | c :: cs,cons,wf => by
    obtain ⟨line,wf'⟩ := consoleintr_line wf c
    obtain ⟨wf'',grows⟩ := consoleintrs_prefix cs _ wf'
    refine ⟨wf'',List.IsPrefix.trans ?_ grows⟩
    rw [line]
    exact cons.line.committed_prefix_intr c

theorem consoleread_line {cons : Cons} (ordered : cons.Ordered) (dst : Nat → Bool) (killed : Bool) (target n : Int)
    (out : List UInt8) :
    (consoleread dst killed target n out cons).1 = {cons with r := (consoleread dst killed target n out cons).1.r} ∧
      ((consoleread dst killed target n out cons).1.line.committed,(consoleread dst killed target n out cons).2) =
        takeLine dst killed target n out cons.line.committed := by
  obtain ⟨moved,-,refines⟩ := consolereadLoop_line dst killed target (n.toNat + 1) n out cons ordered (Nat.lt_succ_self _)
  exact ⟨moved,refines⟩

theorem takeLine_copies {dst : Nat → Bool} {killed : Bool} {target : Int} (q : List UInt8) :
    ∀ (new out : List UInt8) (n : Int), (∀ i < new.length, dst (out.length + i) = true) → '\n'.toUInt8 ∉ new →
      C 'D' ∉ new → (new.length : Int) < n →
      takeLine dst killed target n out (new ++ q) = takeLine dst killed target (n - new.length) (out ++ new) q
  | [],out,n,_,_,_,_ => by simp
  | c :: new,out,n,copies,plain,clean,wanted => by
    have first : dst out.length = true := copies 0 (by simp)
    simp only [List.mem_cons,not_or] at plain clean
    have notEof : c ≠ C 'D' := fun same => clean.1 same.symm
    have notNewline : c ≠ '\n'.toUInt8 := fun same => plain.1 same.symm
    have positive : 0 < n := by simp at wanted; omega
    rw [List.cons_append,takeLine.eq_2,if_pos positive,if_neg notEof,if_pos first,if_neg notNewline,
      takeLine_copies q new (out ++ [c]) (n - 1) (fun i within => ?_) plain.2 clean.2 (by simp at wanted; omega)]
    · simp [Int.sub_sub,Int.add_comm]
    · have later := copies (i + 1) (by simp; omega)
      simpa [Nat.add_assoc,Nat.add_comm 1] using later

theorem consoleread_leaves_eof {cons : Cons} (ordered : cons.Ordered) {dst : Nat → Bool} {killed : Bool} {n : Int}
    {new rest : List UInt8} (committed : cons.line.committed = new ++ C 'D' :: rest) (some : new ≠ [])
    (wanted : (new.length : Int) < n) (plain : '\n'.toUInt8 ∉ new) (clean : C 'D' ∉ new)
    (copies : ∀ i < new.length, dst i = true) :
    (consoleread dst killed n n [] cons).2 = .returns new.length new ∧
      (consoleread dst killed n n [] cons).1.line.committed = C 'D' :: rest := by
  have refines := (consoleread_line ordered dst killed n n []).2
  rw [committed,takeLine_copies _ new [] n (by simpa using copies) plain clean wanted] at refines
  have positive : (0 : Int) < new.length := by
    have := List.length_pos_iff.mpr some
    omega
  rw [takeLine.eq_2,if_pos (by omega),if_pos rfl,if_pos (by omega)] at refines
  simp only [Prod.mk.injEq,List.nil_append] at refines
  refine ⟨?_,refines.1⟩
  rw [refines.2]
  congr
  omega

theorem consoleread_at_eof {cons : Cons} (ordered : cons.Ordered) {dst : Nat → Bool} {killed : Bool} {n : Int}
    {rest : List UInt8} (committed : cons.line.committed = C 'D' :: rest) (positive : 0 < n) :
    (consoleread dst killed n n [] cons).2 = .returns 0 [] ∧ (consoleread dst killed n n [] cons).1.line.committed = rest := by
  have refines := (consoleread_line ordered dst killed n n []).2
  rw [committed,takeLine.eq_2,if_pos positive,if_pos rfl,if_neg (Int.lt_irrefl n),Int.sub_self] at refines
  simp only [Prod.mk.injEq] at refines
  exact ⟨refines.2,refines.1⟩

theorem console_orders_indices_and_hands_out_lines :
    (∀ (junk : Nat → UInt8) (events : List ConsEvent) (t : ConsSystem),
      Runs (Taken consStep) (ConsSystem.init junk) events t →
        (t.cons.w - t.cons.r ≤ t.cons.e - t.cons.r ∧ t.cons.e - t.cons.r ≤ INPUT_BUF.toUInt32) ∧
        t.cons.Wf ∧ t.taken ++ t.cons.line.committed = t.accepted ∧ t.returned.Sublist t.taken ∧ ∀ p, (t.calls p).Wf) ∧
    (∀ (cons cons' : Cons) (dst : Nat → Bool) (killed : Bool) (target n r : Int) (out o : List UInt8), cons.Wf →
      (out.length : Int) + n = target → '\n'.toUInt8 ∉ out → C 'D' ∉ out →
      consoleread dst killed target n out cons = (cons',.returns r o) →
        (r = -1 ∨ r = o.length) ∧ '\n'.toUInt8 ∉ o.dropLast ∧ C 'D' ∉ o ∧
        ∃ consumed, cons.line.committed = consumed ++ cons'.line.committed ∧ (o.drop out.length).Sublist consumed ∧
          (C 'D' ∈ consumed → o = [])) ∧
    (∀ (cons : Cons) (dst dst' : Nat → Bool) (killed killed' : Bool) (n n' : Int) (new rest cs : List UInt8), cons.Wf →
      cons.line.committed = new ++ C 'D' :: rest → new ≠ [] → (new.length : Int) < n → '\n'.toUInt8 ∉ new →
      C 'D' ∉ new → (∀ i < new.length, dst i = true) → 0 < n' →
        (consoleread dst killed n n [] cons).2 = .returns new.length new ∧
        (consoleread dst' killed' n' n' [] (consoleintrs cs (consoleread dst killed n n [] cons).1)).2 = .returns 0 []) := by
  refine ⟨?_,?_,?_⟩
  · intro junk events t path
    have wf := console_reached_wf path
    exact ⟨⟨wf.cons.ordered.between,wf.cons.ordered.room⟩,wf.cons,wf.fifo,wf.sub,wf.calls⟩
  · intro cons cons' dst killed target n r out o wf counted plain clean ran
    have refines := (consoleread_line wf.ordered dst killed target n out).2
    obtain ⟨consumed,new,split,copies,_,noEof,ended,eofs,-⟩ :=
      @takeLine_takes dst killed target cons.line.committed n out counted
    have returns := (@takeLine_ends dst killed target cons.line.committed n out counted).1
    rw [← refines,ran] at split copies returns
    simp only [ConsRead.out] at copies
    subst copies
    refine ⟨returns r _ rfl,?_,by simp [clean,noEof],consumed,split,by simpa using ‹new.Sublist consumed›,?_⟩
    · cases new with
      | nil => exact fun mem => plain (List.dropLast_subset _ (by simpa using mem))
      | cons b new =>
        rw [List.dropLast_append_of_ne_nil (List.cons_ne_nil b new)]
        simp [plain,ended]
    · intro present
      obtain ⟨none,nothing,-⟩ := eofs present
      simp [none,nothing]
  · intro cons dst dst' killed killed' n n' new rest cs wf committed some wanted plain clean copies positive
    obtain ⟨returned,left⟩ := consoleread_leaves_eof wf.ordered committed some wanted plain clean copies
    have moved := (consoleread_line wf.ordered dst killed n n []).1
    have wf' : (consoleread dst killed n n [] cons).1.Wf := by
      obtain ⟨-,ordered,-⟩ :=
        consolereadLoop_line dst killed n (n.toNat + 1) n [] cons wf.ordered (Nat.lt_succ_self _)
      exact ⟨ordered,by rw [editing_of_moved moved]; exact wf.plain⟩
    obtain ⟨wf'',grows⟩ := consoleintrs_prefix cs _ wf'
    rw [left] at grows
    obtain ⟨more,extended⟩ := grows
    have front : (consoleintrs cs (consoleread dst killed n n [] cons).1).line.committed = C 'D' :: (rest ++ more) := by
      rw [← extended]
      rfl
    exact ⟨returned,(consoleread_at_eof wf''.ordered front positive).1⟩

-- "ab" then ^D committed: a read of 10 returns the two bytes, the next read 0.
def eofCons : Cons := ⟨fun i => [0x61,0x62,C 'D'].getD i 0,0,3,3⟩

theorem eof_after_bytes_reads_zero_next :
    (consoleread (fun _ => true) false 10 10 [] eofCons).2 = .returns 2 [0x61,0x62] ∧
      (consoleread (fun _ => true) false 5 5 [] (consoleintrs [] (consoleread (fun _ => true) false 10 10 [] eofCons).1)).2 =
        .returns 0 [] :=
  console_orders_indices_and_hands_out_lines.2.2 eofCons _ _ _ _ 10 5 [0x61,0x62] [] [] ⟨⟨by decide,by decide⟩,by decide⟩
    (by decide) (by simp) (by decide) (by decide) (by decide) (by decide) (by decide)

end Xv6
