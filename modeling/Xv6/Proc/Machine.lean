import Xv6.Proc.Exec
import Xv6.Lib.Runs

namespace Xv6

open Frame Transition

-- The hardware's side of a user access (RISC-V Sv39); riscv.h does not name D, the kernel never reads it.
def PTE_D : UInt64 := (1 : UInt64) <<< 7

-- Levels 2, 1, 0 from the root; a leaf above level 0 is a superpage, which must be aligned.
def mmuLevel (words : UInt64 → UInt64) (va : UInt64) (store : Bool) : Nat → UInt64 → Option (UInt64 × UInt64)
  | level,table =>
    let slot := table + 8 * PX level.toUInt64 va
    let e := words slot
    if !has e PTE_V || (!has e PTE_R && has e PTE_W) then none
    else if e &&& (PTE_R ||| PTE_W ||| PTE_X) ≠ 0 then
      let span : UInt64 := (1 : UInt64) <<< (12 + 9 * level.toUInt64)
      if !has e PTE_U || !has e (if store then PTE_W else PTE_R) || PTE2PA e % span ≠ 0 then none
      else some (slot,PTE2PA e + va % span)
    else
      match level with
      | 0 => none
      | next + 1 => mmuLevel words va store next (PTE2PA e)

-- Only canonical addresses (bits 63..39 equal to bit 38) are translated.
def mmu (words : UInt64 → UInt64) (pagetable va : UInt64) (store : Bool) : Option (UInt64 × UInt64) :=
  if va < (1 : UInt64) <<< 38 || va ≥ (0 : UInt64) - (1 : UInt64) <<< 38 then mmuLevel words va store 2 pagetable
  else none

inductive Outcome
  | value (v : UInt8)
  | fault
  | ret (r : Int)
  | blocked
  | exited
deriving DecidableEq, Repr

-- One load or store by the current process: done by the hardware when the translation allows it,
-- else a page fault that usertrap handles; the instruction runs again as a later event.
def userAccess (va : UInt64) (store : Option UInt8) : KM Outcome := do
  let k ← get
  match mmu k.words (k.proc k.cur).pagetable va store.isSome with
  | some (pte,pa) =>
    modify fun k => k.setWord pte (k.words pte ||| PTE_A ||| (if store.isSome then PTE_D else 0))
    match store with
    | some v =>
      modify fun k => k.setByte pa v
      return .value v
    | none => return .value ((← get).bytes pa)
  | none =>
    usertrap (if store.isSome then 15 else 13) va
    if (← getProc (← myproc)).killed then
      exit (-1)
      return .exited
    return .fault

-- usertrap's system-call path: a killed process exits before and after the call.
def syscall (call : KM Int) : KM Outcome := do
  let p ← myproc
  if (← getProc p).killed then
    exit (-1)
    return .exited
  let r ← call
  if (← getProc p).killed then
    exit (-1)
    return .exited
  return .ret r

def sys_sbrk (n : Int) : KM Int := do
  let addr := toCInt (← getProc (← myproc)).sz
  if (← growproc n) < 0 then return -1
  return addr

theorem sys_sbrk_shrink_keeps (n : Int) (shrink : n ≤ 0) : Keeps (Same swapSlots) (sys_sbrk n) := by
  unfold sys_sbrk
  refine Keeps.get.bind fun k => Keeps.get.bind fun pr => ?_
  refine (growproc_shrink_keeps n shrink).bind fun r => Keeps.ite (Keeps.pure _) (Keeps.pure _)

theorem syscall_alive {call : KM Int} {s t : Kernel} {o : Outcome} (kept : Keeps (Same swapSlots) call)
    (alive : (s.proc s.cur).killed = false) (ran : syscall call s = .ok (o,t)) :
    ∃ r, call s = .ok (r,t) ∧ o = .ret r := by
  simp only [syscall,myproc_bind,getProc_bind,alive,Bool.false_eq_true,if_false] at ran
  obtain ⟨r,u,called,rest⟩ := bind_ok.mp ran
  have still : (u.proc s.cur).killed = false := by
    have same := congrArg (fun slots => (slots.1 s.cur).2) (kept s r u called)
    simpa [swapSlots,alive] using same
  simp only [getProc_bind,still,Bool.false_eq_true,if_false,pure_run,Except.ok.injEq,Prod.mk.injEq] at rest
  obtain ⟨rfl,rfl⟩ := rest
  exact ⟨r,called,rfl⟩

-- Events of the whole system, in any interleaving, and the end of a time slice, after which the
-- scheduler ages the pages of the process that ran.
inductive Event
  | load (p : Fin NPROC) (va : UInt64)
  | store (p : Fin NPROC) (va : UInt64) (v : UInt8)
  | sbrk (p : Fin NPROC) (n : Int)
  | fork (p : Fin NPROC)
  | exec (p : Fin NPROC) (path : String) (argv : List (List UInt8))
  | exit (p : Fin NPROC) (status : Int)
  | wait (p : Fin NPROC) (addr : UInt64)
  | tick (p : Fin NPROC)

def Event.proc : Event → Fin NPROC
  | .load p _ | .store p _ _ | .sbrk p _ | .fork p | .exec p _ _ | .exit p _ | .wait p _ | .tick p => p

def Event.run : Event → KM Outcome
  | .load _ va => userAccess va none
  | .store _ va v => userAccess va (some v)
  | .sbrk _ n => syscall (sys_sbrk n)
  | .fork _ => syscall Xv6.fork
  | .exec _ path argv => syscall (Xv6.exec path argv)
  | .exit _ status => do
    Xv6.exit status
    return .exited
  | .wait _ addr => do
    match ← Xv6.wait addr with
    | some r => return .ret r
    | none => return .blocked
  | .tick p => do
    let sel := (← get).config.selection
    if sel = .NFUA || sel = .LAPA then update_access_counter p
    return .ret 0

def Runnable (k : Kernel) (p : Fin NPROC) : Bool :=
  (k.proc p).state = .RUNNABLE || (k.proc p).state = .RUNNING

-- The scheduler gives the CPU to a runnable process, which causes the event; an error is a panic.
def sysStep (k : Kernel) (e : Event) : Option (Except String (Outcome × Kernel)) :=
  if Runnable k e.proc then some (e.run {k with cur := e.proc}) else none

def okStep (k : Kernel) (e : Event) : Option Kernel :=
  match sysStep k e with
  | some (.ok (_,k')) => some k'
  | _ => none

def Step : Kernel → Event → Kernel → Prop := Taken okStep

def Panics (k : Kernel) (e : Event) (msg : String) : Prop := sysStep k e = some (.error msg)

def panicOf (k : Kernel) (e : Event) : Option String :=
  match sysStep k e with
  | some (.error msg) => some msg
  | _ => none

theorem panics_iff (k : Kernel) (e : Event) (msg : String) : Panics k e msg ↔ panicOf k e = some msg := by
  unfold Panics panicOf
  split
  · rename_i m stepped
    simp [stepped]
  · rename_i stepped
    constructor
    · intro panicked
      exact absurd panicked (stepped msg)
    · intro never
      cases never

instance (k : Kernel) (e : Event) (msg : String) : Decidable (Panics k e msg) :=
  decidable_of_iff _ (panics_iff k e msg).symm

def outcomes : Kernel → List Event → List Outcome
  | _,[] => []
  | k,e :: rest =>
    match sysStep k e with
    | some (.ok (o,k')) => o :: outcomes k' rest
    | _ => []

def reach (k : Kernel) (evs : List Event) : Kernel := (run okStep k evs).getD k

theorem sysStep_reach {k : Kernel} {e : Event} (taken : (okStep k e).isSome) :
    ∃ o, sysStep k e = some (.ok (o,reach k [e])) := by
  unfold okStep at taken
  split at taken
  · rename_i o k' ran
    refine ⟨o,?_⟩
    simp [reach,run_cons,okStep,ran]
  · cases taken

-- kinit: freerange(end, PHYSTOP) pushes every page onto the free list, lowest first, filled with 1s.
def freerangeFrom (top : UInt64) : Nat → List UInt64
  | 0 => []
  | n + 1 => top :: freerangeFrom (top - PGSIZE) n

def freerange (pa_start pa_end : UInt64) : List UInt64 :=
  let first := PGROUNDUP pa_start
  let count := ((pa_end - first) / PGSIZE).toNat
  freerangeFrom (first + PGSIZE * (count - 1).toUInt64) count

def boot (config : Config) (root : List Dirent) (inode : Nat → Inode) : Kernel where
  config := config
  freelist := freerange config.kernelEnd PHYSTOP
  bytes := fun _ => 1
  words := fun _ => fill 1
  proc := fun _ => .unused
  cur := ⟨0,NPROC_pos⟩
  initproc := none
  nextpid := 1
  file := fun _ => .unused
  inode := inode
  root := root
  oplog := []

end Xv6
