import Xv6.Proc.Machine
import Xv6.Paging.Invariant

namespace Xv6

open Frame Transition

-- A file-system image for the runs below: the root, an ELF program "prog" with one loadable
-- segment (16 bytes of code in a page at address 0) and a text file "README".
def leBytes (x width : Nat) : List UInt8 := (List.range width).map fun i => (x / 256 ^ i % 256).toUInt8

def progElf : List UInt8 :=
  leBytes ELF_MAGIC 4 ++ List.replicate 20 0 ++ leBytes 0 8 ++ leBytes 64 8 ++ List.replicate 16 0 ++
    leBytes 1 2 ++ List.replicate 6 0 ++
  leBytes ELF_PROG_LOAD 4 ++ leBytes 0 4 ++ leBytes 128 8 ++ leBytes 0 8 ++ leBytes 0 8 ++ leBytes 16 8 ++
    leBytes 4096 8 ++ leBytes 4096 8 ++
  List.replicate 8 0 ++ List.replicate 16 0x13

def sampleInode : Nat → Inode
  | 1 => ⟨.T_DIR,1,64,fun _ => 0,0⟩
  | 2 => ⟨.T_FILE,1,progElf.length,fun i => progElf.getD i 0,0⟩
  | 3 => ⟨.T_FILE,1,100,fun _ => 0x78,0⟩
  | _ => .free

def sampleRoot : List Dirent := [⟨1,"."⟩,⟨1,".."⟩,⟨2,"prog"⟩,⟨3,"README"⟩]

def sampleConfig (selection : Selection) : Config := ⟨selection,0x80022000,0x80007000⟩

-- main(): kinit, then userinit makes the first process.
def started (selection : Selection) : Kernel :=
  let booted := boot (sampleConfig selection) sampleRoot sampleInode
  match userinit booted with
  | .ok (_,k) => k
  | .error _ => booted

def initSlot : Fin NPROC := ⟨0,NPROC_pos⟩
def shSlot : Fin NPROC := ⟨1,one_lt_NPROC⟩
def procSlot : Fin NPROC := ⟨2,by decide⟩
def childSlot : Fin NPROC := ⟨3,by decide⟩

def hello : List UInt8 := [0x68,0x65,0x6c,0x6c,0x6f]

-- init forks the shell (pid 2), and the shell forks pid 3, the first process that pages.
def shell : Kernel := reach (started .SCFIFO) [.fork initSlot]

def forked : Kernel := reach shell [.fork shSlot]

theorem mmu_noncanonical (words : UInt64 → UInt64) (pagetable va : UInt64) (store : Bool)
    (beyond : MAXVA ≤ va) (lower : va < (0 : UInt64) - (1 : UInt64) <<< 38) : mmu words pagetable va store = none := by
  have wide : MAXVA = (1 : UInt64) <<< 38 := by decide
  have above : ¬ va < (1 : UInt64) <<< 38 := by rw [← wide]; exact UInt64.not_lt.mpr beyond
  have below : ¬ (0 : UInt64) - (1 : UInt64) <<< 38 ≤ va := UInt64.not_le.mpr lower
  unfold mmu
  rw [if_neg]
  simp only [Bool.or_eq_true,decide_eq_true_eq,not_or]
  exact ⟨above,below⟩

theorem usertrap_beyond_maxva (k : Kernel) (scause va : UInt64)
    (paging : k.config.selection ≠ .NONE) (pid : 2 < (k.proc k.cur).pid)
    (fault : scause = 13 ∨ scause = 15 ∨ scause = 12) (beyond : MAXVA ≤ va) :
    usertrap scause va k = .error "walk" := by
  have cause : (scause = 13 || scause = 15 || scause = 12) = true := by
    rcases fault with rfl | rfl | rfl <;> decide
  simp [usertrap,is_none_policy,paging,pid,cause,page_in_file,bind_of_error (walk_panics _ _ _ _ beyond),myproc,getProc]

theorem access_beyond_maxva_panics (k : Kernel) (p : Fin NPROC) (va : UInt64) (v : UInt8)
    (runnable : Runnable k p = true) (paging : k.config.selection ≠ .NONE) (pid : 2 < (k.proc p).pid)
    (beyond : MAXVA ≤ va) (lower : va < (0 : UInt64) - (1 : UInt64) <<< 38) :
    Panics k (.load p va) "walk" ∧ Panics k (.store p va v) "walk" := by
  have trap (scause : UInt64) (fault : scause = 13 ∨ scause = 15 ∨ scause = 12) :=
    usertrap_beyond_maxva {k with cur := p} scause va paging pid fault beyond
  constructor
  · simp [Panics,sysStep,runnable,Event.proc,Event.run,userAccess,
      mmu_noncanonical _ _ _ _ beyond lower,bind_of_error (trap 13 (by decide))]
  · simp [Panics,sysStep,runnable,Event.proc,Event.run,userAccess,
      mmu_noncanonical _ _ _ _ beyond lower,bind_of_error (trap 15 (by decide))]

theorem fault_beyond_maxva_panics :
    Panics forked (.load procSlot MAXVA) "walk" ∧ Panics forked (.store procSlot MAXVA 1) "walk" := by
  have runnable : Runnable forked procSlot = true := by decide +kernel
  have paging : forked.config.selection ≠ .NONE := by decide +kernel
  have pid : 2 < (forked.proc procSlot).pid := by decide +kernel
  have lower : MAXVA < (0 : UInt64) - (1 : UInt64) <<< 38 := by decide
  exact access_beyond_maxva_panics forked procSlot MAXVA 1 runnable paging pid (UInt64.le_refl _) lower

theorem paged_out_copy_fails (k : Kernel) (p : Fin NPROC) (va len : UInt64) (src : Nat → UInt8)
    (some : len ≠ 0) (paged : PagedOut k (k.proc p) (PGROUNDDOWN va)) :
    copyout (k.proc p).pagetable va src len k = .ok (-1,k) ∧
      copyin (k.proc p).pagetable va len k = .ok ((-1,fun _ => 0),k) ∧
      copyinstr (k.proc p).pagetable va len k = .ok ((-1,fun _ => 0),k) := by
  have missing := walkaddrOf_pagedOut paged
  exact ⟨copyout_rejects k _ va src len some missing,copyin_rejects k _ va len some missing,
    copyinstr_rejects k _ va len some missing⟩

-- pid 3 gives its page back and grows by seventeen pages: the seventeenth finds the sixteen
-- memory slots full, and SCFIFO sends page 0 to file slot 0.
def grown : Kernel := reach forked [.sbrk procSlot (-4096),.sbrk procSlot (17 * 4096)]

theorem copy_from_paged_out_page_fails :
    (PagingInvariant grown procSlot ∧ PagedOut grown (grown.proc procSlot) (PGROUNDDOWN 0x10) ∧
      0x10 + 5 ≤ (grown.proc procSlot).sz) ∧
    (copyout (grown.proc procSlot).pagetable 0x10 (fun _ => 0) 5 grown = .ok (-1,grown) ∧
      copyin (grown.proc procSlot).pagetable 0x10 5 grown = .ok ((-1,fun _ => 0),grown) ∧
      copyinstr (grown.proc procSlot).pagetable 0x10 5 grown = .ok ((-1,fun _ => 0),grown)) := by
  have reached : PagingInvariant grown procSlot ∧ PagedOut grown (grown.proc procSlot) (PGROUNDDOWN 0x10) ∧
      0x10 + 5 ≤ (grown.proc procSlot).sz := by decide +kernel
  exact ⟨reached,paged_out_copy_fails grown procSlot 0x10 5 (fun _ => 0) (by decide) reached.2.1⟩

theorem sbrk_shrink_keeps_file_slots {k k' : Kernel} {p : Fin NPROC} {n : Int} {o : Outcome}
    (step : sysStep k (.sbrk p n) = some (.ok (o,k'))) (alive : (k.proc p).killed = false) (shrink : n ≤ 0) :
    (k'.proc p).filePages = (k.proc p).filePages := by
  by_cases runnable : Runnable k p = true
  · simp only [sysStep,Event.proc,runnable,if_true,Option.some.injEq] at step
    have kept := sys_sbrk_shrink_keeps n shrink
    obtain ⟨r,called,-⟩ := syscall_alive kept alive step
    exact congrArg (fun slots => (slots.1 p).1) (kept _ r k' called)
  · simp [sysStep,Event.proc,runnable] at step

theorem sbrk_shrink_strands_file_slot {k k' : Kernel} {p : Fin NPROC} {n : Int} {o : Outcome}
    {i : Fin (MAX_TOTAL_PAGES - MAX_PYSC_PAGES)}
    (step : sysStep k (.sbrk p n) = some (.ok (o,k'))) (alive : (k.proc p).killed = false) (shrink : n ≤ 0)
    (used : ((k.proc p).filePages i).state = .P_USED)
    (above : (k'.proc p).sz ≤ ((k.proc p).filePages i).userPageVA) : ¬ PagingInvariant k' p := by
  intro inv
  have slot := inv.fileSlots i
  rw [sbrk_shrink_keeps_file_slots step alive shrink] at slot
  exact absurd (slot used).2 (UInt64.not_lt.mpr above)

theorem shrink_over_paged_out_page_breaks_invariant :
    PagingInvariant grown procSlot ∧ outcomes grown [.sbrk procSlot (-(17 * 4096))] = [.ret 69632] ∧
      ¬ PagingInvariant (reach grown [.sbrk procSlot (-(17 * 4096))]) procSlot := by
  obtain ⟨o,step⟩ := sysStep_reach (k := grown) (e := .sbrk procSlot (-(17 * 4096))) (by decide +kernel)
  -- file slot 0 holds the paged-out page at VA 0, and the shrink takes sz to 0
  have facts : PagingInvariant grown procSlot ∧ outcomes grown [.sbrk procSlot (-(17 * 4096))] = [.ret 69632] ∧
      (grown.proc procSlot).killed = false ∧ ((grown.proc procSlot).filePages ⟨0,by decide⟩).state = .P_USED ∧
      ((reach grown [.sbrk procSlot (-(17 * 4096))]).proc procSlot).sz ≤
        ((grown.proc procSlot).filePages ⟨0,by decide⟩).userPageVA := by
    decide +kernel
  obtain ⟨inv,outs,alive,used,above⟩ := facts
  exact ⟨inv,outs,sbrk_shrink_strands_file_slot step alive (by decide) used above⟩

-- The shell forks pid 3, which exits; the shell reaps it. freeproc's uvmunmap
-- clears pid 3's resident page without freeing its frame.
def reaped : Kernel := reach shell [.fork shSlot,.exit procSlot 0,.wait shSlot 0]

theorem fork_exit_wait_loses_frame :
    outcomes shell [.fork shSlot,.exit procSlot 0,.wait shSlot 0] = [.ret 3,.exited,.ret 3] ∧
      reaped.freelist.length + 1 = shell.freelist.length := by
  decide +kernel

-- pid 3 runs exec("prog", ["hello"]) and grows by fifteen pages: SCFIFO sends pages 1 and 2 to
-- file slots 0 and 1. A shrink frees a memory slot and the fault on page 1 brings it back. fork
-- then copies slot 1 to offset 4096 of the child's empty swap file, which writei refuses, and
-- the child's fault on the stack page reads nothing back.
def evictRun : List Event :=
  [.exec procSlot "prog" [hello],.load procSlot 0,.sbrk procSlot (14 * 4096),.sbrk procSlot 4096,
    .sbrk procSlot (-4096),.load procSlot 4096,.load procSlot 4096,.fork procSlot]

theorem child_reads_zero_after_fork :
    outcomes forked (evictRun ++ [.load procSlot 0x2ff0,.load procSlot 0x2ff0,.load childSlot 0x2ff0,
      .load childSlot 0x2ff0]) =
      [.ret 1,.value 0x13,.ret 12288,.ret 69632,.ret 73728,.fault,.value 0,.ret 4,
        .fault,.value 0x68,.fault,.value 0] := by
  decide +kernel

-- pid 3 runs exec on a file that is not an ELF image: bad: closes the swap file, but p->swapFile
-- still names the closed entry, and exit closes it a second time.
def badExec : Kernel := reach forked [.exec procSlot "README" []]

theorem failed_exec_then_exit_panics :
    outcomes forked [.exec procSlot "README" []] = [.ret (-1)] ∧
      (badExec.proc procSlot).swapFile.map (fun f => (badExec.file f).ref) = some 0 ∧
      Panics badExec (.exit procSlot 0) "fileclose" := by
  decide +kernel

theorem exec_nests_log_operations :
    (reach forked [.exec procSlot "prog" [hello]]).oplog =
      forked.oplog ++ [.begin 2,.begin 2,.finish 2,.begin 2,.finish 2,.begin 2,.finish 2,.finish 2] := by
  decide +kernel

-- The same image on a machine with 29 free frames.
def cramped : Kernel :=
  let booted := boot ⟨.SCFIFO,PHYSTOP - 29 * PGSIZE,0x80007000⟩ sampleRoot sampleInode
  match userinit booted with
  | .ok (_,k) => k
  | .error _ => booted

-- fork of grown meets paged-out page 0 before any resident page made the child's leaf table; on
-- cramped, copy_swap_file's kalloc'd buffer is null, which kfree refuses.
theorem fork_of_paged_parent_panics :
    ((PagingInvariant grown procSlot ∧ 2 < (grown.proc procSlot).pid ∧ PagedOut grown (grown.proc procSlot) 0) ∧
      Panics grown (.fork procSlot) "PTE of swapped out page is missing\n") ∧
    let tight := reach cramped [.fork initSlot,.fork shSlot,.sbrk procSlot (-4096),.sbrk procSlot 4096]
    (PagingInvariant tight procSlot ∧ 2 < (tight.proc procSlot).pid) ∧ Panics tight (.fork procSlot) "kfree" := by
  decide +kernel

theorem failed_exec_loses_paged_out_page :
    PagedOut grown (grown.proc procSlot) 0 ∧ outcomes grown [.exec procSlot "README" []] = [.ret (-1)] ∧
      Panics (reach grown [.exec procSlot "README" []]) (.load procSlot 0) "fileread" := by
  decide +kernel

theorem growth_past_total_pages_panics :
    PagingInvariant grown procSlot ∧ (grown.proc procSlot).pagesInMemoryCounter = 16 ∧
      (grown.proc procSlot).pagesInFileCounter = 1 ∧
      Panics grown (.sbrk procSlot (16 * 4096)) "uvmalloc(): Proc is too big\n" := by
  decide +kernel

theorem guard_page_readable_after_page_in :
    outcomes forked [.exec procSlot "prog" [hello],.load procSlot 4096] = [.ret 1,.exited] ∧
      outcomes forked (evictRun.take 7) =
        [.ret 1,.value 0x13,.ret 12288,.ret 69632,.ret 73728,.fault,.value 0] := by
  decide +kernel

end Xv6
