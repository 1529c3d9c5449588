import Xv6.Paging.Fault

namespace Xv6

open Frame

-- kernel/proc.c
def allocpid : KM Int := do
  let pid := (← get).nextpid
  modify fun k => {k with nextpid := pid + 1}
  return pid

def proc_pagetable (p : Fin NPROC) : KM UInt64 := do
  let pagetable ← uvmcreate
  if pagetable = 0 then return 0
  if (← mappages pagetable TRAMPOLINE PGSIZE (← get).config.trampoline (PTE_R ||| PTE_X)) < 0 then
    uvmfree pagetable 0
    return 0
  if (← mappages pagetable TRAPFRAME PGSIZE (← getProc p).trapframe (PTE_R ||| PTE_W)) < 0 then
    uvmunmap pagetable TRAMPOLINE 1 false
    uvmfree pagetable 0
    return 0
  return pagetable

def proc_freepagetable (pagetable sz : UInt64) : KM Unit := do
  uvmunmap pagetable TRAMPOLINE 1 false
  uvmunmap pagetable TRAPFRAME 1 false
  uvmfree pagetable sz

-- Neither the swap file nor the paging metadata is released here.
def freeproc (p : Fin NPROC) : KM Unit := do
  let pr ← getProc p
  if pr.trapframe ≠ 0 then kfree pr.trapframe
  modifyProc p fun pr => {pr with trapframe := 0}
  if pr.pagetable ≠ 0 then proc_freepagetable pr.pagetable pr.sz
  modifyProc p fun pr => {pr with
    pagetable := 0,sz := 0,pid := 0,parent := none,killed := false,xstate := 0,state := .UNUSED}

def allocproc : KM (Option (Fin NPROC)) := do
  let procs := (← get).proc
  match (List.finRange NPROC).find? fun i => (procs i).state = .UNUSED with
  | none => return none
  | some p =>
    let pid ← allocpid
    modifyProc p fun pr => {pr with pid := pid,state := .USED}
    let trapframe ← kalloc
    modifyProc p fun pr => {pr with trapframe := trapframe}
    if trapframe = 0 then
      freeproc p
      return none
    let pagetable ← proc_pagetable p
    modifyProc p fun pr => {pr with pagetable := pagetable}
    if pagetable = 0 then
      freeproc p
      return none
    if pid > 2 && !(← is_none_policy) then
      let _ ← createSwapFile p
    return some p

-- uvminit and userinit, with initcode as the image of the first process.
def initcode : List UInt8 :=
  [0x17,0x05,0x00,0x00,0x13,0x05,0x45,0x02,0x97,0x05,0x00,0x00,0x93,0x85,0x35,0x02,
   0x93,0x08,0x70,0x00,0x73,0x00,0x00,0x00,0x93,0x08,0x20,0x00,0x73,0x00,0x00,0x00,
   0xef,0xf0,0x9f,0xff,0x2f,0x69,0x6e,0x69,0x74,0x00,0x00,0x24,0x00,0x00,0x00,0x00,
   0x00,0x00,0x00,0x00]

def uvminit (pagetable : UInt64) (src : List UInt8) : KM Unit := do
  if src.length ≥ 4096 then throw "inituvm: more than a page"
  let mem ← kalloc
  memset mem 0
  let _ ← mappages pagetable 0 PGSIZE mem (PTE_W ||| PTE_R ||| PTE_X ||| PTE_U)
  writeBytes mem (fun i => src.getD i 0) src.length.toUInt64

def userinit : KM Unit := do
  match ← allocproc with
  | none => throw "kerneltrap"
  | some p =>
    modify fun k => {k with initproc := some p}
    uvminit (← getProc p).pagetable initcode
    modifyProc p fun pr => {pr with sz := PGSIZE,state := .RUNNABLE}

-- growproc's size is a uint, and sz + n is computed in uint.
def growproc (n : Int) : KM Int := do
  let p ← myproc
  let pr ← getProc p
  let sz : UInt32 := pr.sz.toUInt32
  let target : UInt32 := sz + (uintOf n).toUInt32
  let mut sz := sz
  if n > 0 then
    let grown ← uvmalloc pr.pagetable sz.toUInt64 target.toUInt64
    if grown = 0 then return -1
    sz := grown.toUInt32
  else if n < 0 then
    sz := (← uvmdealloc pr.pagetable sz.toUInt64 target.toUInt64).toUInt32
  modifyProc p fun pr => {pr with sz := sz.toUInt64}
  return 0

-- A shrink only unmaps: the swap-file slots and killed flags stay.
theorem growproc_shrink_keeps (n : Int) (shrink : n ≤ 0) : Keeps (Same swapSlots) (growproc n) := by
  unfold growproc
  refine Keeps.get.bind fun k => Keeps.get.bind fun pr => ?_
  dsimp only
  rw [if_neg (by omega)]
  have resize (sz : UInt32) := modifyProc_keeps_swapSlots k.cur (fun pr => {pr with sz := sz.toUInt64})
    (fun _ => rfl) (fun _ => rfl)
  refine Keeps.ite ?_ ((resize _).bind fun _ => Keeps.pure _)
  exact (uvmdealloc_keeps _ _ _).bind fun _ => (resize _).bind fun _ => Keeps.pure _

-- The registers, open files, working directory and name that fork also
-- copies are not modelled.
def fork : KM Int := do
  let p ← myproc
  match ← allocproc with
  | none => return -1
  | some np =>
    let pr ← getProc p
    if (← uvmcopy pr.pagetable (← getProc np).pagetable pr.sz) < 0 then
      freeproc np
      return -1
    modifyProc np fun child => {child with sz := pr.sz}
    if pr.pid > 2 then
      copy_swap_file p np
      let pr ← getProc p
      modifyProc np fun child => {child with
        pageFaultCounter := 0,pageOrderCounter := pr.pageOrderCounter,
        pagesInFileCounter := pr.pagesInFileCounter,pagesInMemoryCounter := pr.pagesInMemoryCounter,
        memoryPages := pr.memoryPages,filePages := pr.filePages}
    modifyProc np fun child => {child with parent := some p,state := .RUNNABLE}
    return (← getProc np).pid

def reparent (p : Fin NPROC) : KM Unit := do
  let init := (← get).initproc
  modify fun k => {k with proc := fun pp => if (k.proc pp).parent = some p then {k.proc pp with parent := init} else k.proc pp}

-- exit up to sched(): the process is a zombie for its parent to reap. The
-- cwd that exit puts back inside its transaction is not modelled.
def exit (status : Int) : KM Unit := do
  let p ← myproc
  if (← get).initproc = some p then throw "init exiting"
  if (← getProc p).pid > 2 && !(← is_none_policy) then
    let _ ← removeSwapFile p
    clear_memory_metadata
  begin_op
  end_op
  reparent p
  modifyProc p fun pr => {pr with xstate := status,state := .ZOMBIE}

-- The four bytes of an int, little end first.
def intBytes (x : Int) : Nat → UInt8 := fun i => ((uintOf x) / 256 ^ i % 256).toUInt8

-- wait: the pid of a reaped zombie child, -1, or none when the caller sleeps.
def wait (addr : UInt64) : KM (Option Int) := do
  let p ← myproc
  let k ← get
  let kids := (List.finRange NPROC).filter fun np => (k.proc np).parent = some p
  match kids.find? fun np => (k.proc np).state = .ZOMBIE with
  | some np =>
    let child := k.proc np
    if addr ≠ 0 && (← copyout (k.proc p).pagetable addr (intBytes child.xstate) 4) < 0 then
      return some (-1)
    freeproc np
    return some child.pid
  | none =>
    if kids.isEmpty || (k.proc p).killed then return some (-1)
    return none

end Xv6
