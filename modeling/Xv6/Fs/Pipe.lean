import Xv6.Param
import Xv6.Lib.Ring
import Xv6.Lib.Runs

namespace Xv6

open Transition

-- kernel/pipe.c. The lock is held by every step below; a step ends where the code sleeps or returns.
def PIPESIZE : Nat := 512

structure Pipe where
  data : Nat → UInt8
  nread : UInt32
  nwrite : UInt32
  readopen : Bool
  writeopen : Bool

-- pipealloc: the kalloc'd page holds whatever it held.
def pipealloc (junk : Nat → UInt8) : Pipe := ⟨junk,0,0,true,true⟩

def slot (c : UInt32) : Nat := (c % PIPESIZE.toUInt32).toNat

inductive Wrote
  | sleeps (i : Nat)
  | returns (i : Nat) (r : Int)

def Wrote.taken : Wrote → Nat
  | .sleeps i | .returns i _ => i

-- pipewrite's loop from byte i. src i is copyin of byte i, none when it fails.
def pipewriteLoop (src : Nat → Option UInt8) (killed : Bool) (n : Int) : Nat → Nat → Pipe → Pipe × Wrote
  | 0,i,pi => (pi,.returns i i)
  | fuel + 1,i,pi =>
    if (i : Int) < n then
      if !pi.readopen || killed then (pi,.returns i (-1))
      else if pi.nwrite = pi.nread + PIPESIZE.toUInt32 then (pi,.sleeps i)
      else
        match src i with
        | none => (pi,.returns i i)
        | some ch => pipewriteLoop src killed n fuel (i + 1)
            {pi with data := Function.update pi.data (slot pi.nwrite) ch,nwrite := pi.nwrite + 1}
    else (pi,.returns i i)

-- On entry (i = 0) and after each wakeup, with i the bytes already taken.
def pipewrite (src : Nat → Option UInt8) (killed : Bool) (n : Int) (i : Nat) (pi : Pipe) : Pipe × Wrote :=
  pipewriteLoop src killed n (n.toNat - i + 1) i pi

inductive Read
  | sleeps
  | returns (r : Int) (bytes : List UInt8)

-- piperead's copy loop; a byte is taken from the pipe before its copyout.
def pipereadCopy (dst : Nat → Bool) (n : Int) : Nat → Nat → Pipe → List UInt8 → Pipe × Nat × List UInt8
  | 0,i,pi,out => (pi,i,out)
  | fuel + 1,i,pi,out =>
    if (i : Int) < n then
      if pi.nread = pi.nwrite then (pi,i,out)
      else
        let ch := pi.data (slot pi.nread)
        let taken := {pi with nread := pi.nread + 1}
        if dst i then pipereadCopy dst n fuel (i + 1) taken (out ++ [ch]) else (taken,i,out)
    else (pi,i,out)

def piperead (dst : Nat → Bool) (killed : Bool) (n : Int) (pi : Pipe) : Pipe × Read :=
  if pi.nread = pi.nwrite && pi.writeopen then
    if killed then (pi,.returns (-1) []) else (pi,.sleeps)
  else
    let (pi,i,out) := pipereadCopy dst n (n.toNat + 1) 0 pi []
    (pi,.returns i out)

-- The page is freed once both ends are closed; no file refers to it then.
def pipeclose (pi : Pipe) (writable : Bool) : Pipe :=
  if writable then {pi with writeopen := false} else {pi with readopen := false}

-- nwrite - nread bytes (mod 2^32) from nread on; 512 divides 2^32, so the slots stay right.
def Pipe.count (pi : Pipe) : Nat := (pi.nwrite - pi.nread).toNat

def Pipe.contents (pi : Pipe) : List UInt8 := Ring.cells PIPESIZE pi.data pi.nread.toNat pi.count

-- Processes sharing one pipe; a call in progress is where its process sleeps.
inductive Call
  | idle
  | writing (src : Nat → Option UInt8) (n : Int) (i : Nat)
  | reading (dst : Nat → Bool) (n : Int)

structure PipeSystem where
  pipe : Pipe
  calls : Fin NPROC → Call
  killed : Fin NPROC → Bool
  accepted : List UInt8
  returned : List UInt8
  wrote : List (Int × List UInt8)

def PipeSystem.init (junk : Nat → UInt8) : PipeSystem :=
  ⟨pipealloc junk,fun _ => .idle,fun _ => false,[],[],[]⟩

-- A wakeup may come at any time: a sleeping call rechecks its condition.
inductive PipeEvent
  | write (p : Fin NPROC) (src : Nat → Option UInt8) (n : Int)
  | read (p : Fin NPROC) (dst : Nat → Bool) (n : Int)
  | wake (p : Fin NPROC)
  | kill (p : Fin NPROC)
  | close (writable : Bool)

def PipeSystem.runWrite (s : PipeSystem) (p : Fin NPROC) (src : Nat → Option UInt8) (n : Int) (i : Nat) :
    PipeSystem :=
  let (pi,result) := pipewrite src (s.killed p) n i s.pipe
  {s with
    pipe := pi
    calls := Function.update s.calls p (match result with
      | .sleeps j => .writing src n j
      | .returns _ _ => .idle)
    accepted := s.accepted ++ (List.range' i (result.taken - i)).filterMap src
    wrote := match result with
      | .sleeps _ => s.wrote
      | .returns j r => s.wrote ++ [(r,(List.range j).filterMap src)]}

def PipeSystem.runRead (s : PipeSystem) (p : Fin NPROC) (dst : Nat → Bool) (n : Int) : PipeSystem :=
  match piperead dst (s.killed p) n s.pipe with
  | (pi,.sleeps) => {s with pipe := pi,calls := Function.update s.calls p (.reading dst n)}
  | (pi,.returns _ bytes) =>
    {s with pipe := pi,calls := Function.update s.calls p .idle,returned := s.returned ++ bytes}

def pipeStep (s : PipeSystem) : PipeEvent → Option PipeSystem
  | .write p src n =>
    match s.calls p with
    | .idle => some (s.runWrite p src n 0)
    | _ => none
  | .read p dst n =>
    match s.calls p with
    | .idle => some (s.runRead p dst n)
    | _ => none
  | .wake p =>
    match s.calls p with
    | .writing src n i => some (s.runWrite p src n i)
    | .reading dst n => some (s.runRead p dst n)
    | .idle => none
  | .kill p => some {s with killed := Function.update s.killed p true}
  | .close writable => some {s with pipe := pipeclose s.pipe writable}

theorem runs_of_run {s t : PipeSystem} {events : List PipeEvent} (ran : (run pipeStep s events).isSome)
    (ended : t = (run pipeStep s events).getD s) : Runs (Taken pipeStep) s events t := by
  obtain ⟨u,taken⟩ := Option.isSome_iff_exists.mp ran
  rw [ended,taken,Option.getD_some]
  exact run_exact.mp taken

end Xv6
