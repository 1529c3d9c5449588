import Xv6.Paging.Uvm

namespace Xv6

open Frame

-- kernel/vm.c
def get_page_from_file (r_stval : UInt64) : KM Int := do
  let p ← myproc
  modifyProc p fun pr => {pr with pageFaultCounter := pr.pageFaultCounter + 1}
  let user_page_va := PGROUNDDOWN r_stval
  let new_page ← kalloc
  if new_page = 0 then return 0
  memset new_page 0
  match ← get_free_memory_page_index with
  | some free_index =>
    update_page_in_pte (← getProc p).pagetable user_page_va new_page (some free_index)
    let _ ← read_page_from_file p (some free_index) user_page_va new_page
    return 1
  | none =>
    let out_index ← get_swap_out_page_index
    let out_page := (← getProc p).memoryPages (← memorySlot out_index)
    let pagetable := (← getProc p).pagetable
    update_page_in_pte pagetable user_page_va new_page out_index
    let _ ← read_page_from_file p out_index user_page_va new_page
    let _ ← write_page_to_file p out_page.userPageVA pagetable
    update_page_out_pte pagetable out_page.userPageVA
    -- the entry was just cleared of its address, so this reads 0
    let pte ← walk pagetable out_page.userPageVA false
    let out_page_pa := PTE2PA (← loadPte pte)
    if out_page_pa ≠ 0 then kfree out_page_pa
    return 1

def page_in_file (user_page_va pagetable : UInt64) : KM UInt64 := do
  let pte ← walk pagetable user_page_va false
  return (← loadPte pte) &&& PTE_PG

-- kernel/trap.c, usertrap's branches for exceptions (not system calls or
-- device interrupts): a page fault of a paging process is served from its
-- swap file, anything else kills the process.
def usertrap (scause stval : UInt64) : KM Unit := do
  let p ← myproc
  let pr ← getProc p
  if !(← is_none_policy) && pr.pid > 2 && (scause = 13 || scause = 15 || scause = 12) then
    if (← page_in_file stval pr.pagetable) ≠ 0 then
      let _ ← get_page_from_file stval
    else
      modifyProc p fun pr => {pr with killed := true}
  else
    modifyProc p fun pr => {pr with killed := true}

end Xv6
