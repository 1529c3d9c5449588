import Xv6.Vm.Walk
import Xv6.Fs.SwapFile

namespace Xv6

open Frame

-- A uint64 counter read into a C int (old_num_of_pages_in_mem in uvmalloc).
def toCInt (c : UInt64) : Int := c.toUInt32.toInt32.toInt

def Proc.setMemoryPage (pr : Proc) (i : Fin MAX_PYSC_PAGES) (m : PageMetadata) : Proc :=
  {pr with memoryPages := fun j => if j = i then m else pr.memoryPages j}

def Proc.setFilePage (pr : Proc) (i : Fin (MAX_TOTAL_PAGES - MAX_PYSC_PAGES)) (m : PageMetadata) : Proc :=
  {pr with filePages := fun j => if j = i then m else pr.filePages j}

-- Slot indices are C ints with -1 for none; indexing with -1 is undefined behaviour, a stop here.
def memorySlot : Option (Fin MAX_PYSC_PAGES) → KM (Fin MAX_PYSC_PAGES)
  | some i => return i
  | none => throw "memory_pages[-1]"

def fileSlot : Option (Fin (MAX_TOTAL_PAGES - MAX_PYSC_PAGES)) → KM (Fin (MAX_TOTAL_PAGES - MAX_PYSC_PAGES))
  | some i => return i
  | none => throw "file_pages[-1]"

def slotOffset : Option (Fin (MAX_TOTAL_PAGES - MAX_PYSC_PAGES)) → Nat
  | some i => uintOf (4096 * i.val)
  | none => uintOf (-4096)

-- kernel/vm.c
def get_free_memory_page_index : KM (Option (Fin MAX_PYSC_PAGES)) := do
  let pr ← getProc (← myproc)
  return (List.finRange MAX_PYSC_PAGES).find? fun i => (pr.memoryPages i).state = .P_UNUSED

def update_page_out_pte (pagetable va : UInt64) : KM Unit := do
  let pte ← walk pagetable va false
  if pte = 0 then throw "PTE of swapped out page is missing\n"
  let entry ← loadPte pte
  storePte pte (((entry &&& PTE_FLAGS entry) ||| PTE_PG) &&& ~~~PTE_V)

def update_page_in_pte (pagetable va pa : UInt64) (index : Option (Fin MAX_PYSC_PAGES)) : KM Unit := do
  let pte ← walk pagetable va false
  if pte = 0 then throw "PTE of swapped in page is missing\n"
  let entry ← loadPte pte
  if has entry PTE_V then throw "in update_paged_in_flags page is Valid!\n"
  storePte pte (((entry ||| PA2PTE pa) ||| (PTE_W ||| PTE_X ||| PTE_R ||| PTE_U ||| PTE_V)) &&& ~~~PTE_PG)
  -- the aging policies restart the slot's counter
  let start : Option UInt32 := match (← get).config.selection with
    | .NFUA => some 0
    | .LAPA => some 0xFFFFFFFF
    | _ => none
  if let some count := start then
    let i ← memorySlot index
    let p ← myproc
    modifyProc p fun pr => pr.setMemoryPage i {pr.memoryPages i with accessCount := count}

-- The page table argument is unused in the source as well.
def add_to_memory_page_metadata (_pagetable va : UInt64) : KM Unit := do
  let p ← myproc
  let i ← memorySlot (← get_free_memory_page_index)
  let sel := (← get).config.selection
  modifyProc p fun pr =>
    let old := pr.memoryPages i
    let count := if sel = .NFUA then 0 else if sel = .LAPA then 0xFFFFFFFF else old.accessCount
    {pr.setMemoryPage i ⟨.P_USED,va,pr.pageOrderCounter.toUInt32,count⟩ with
      pageOrderCounter := pr.pageOrderCounter + 1,
      pagesInMemoryCounter := pr.pagesInMemoryCounter + 1}

-- Matches the process's own page table only: exec builds the new image in a second table.
def remove_from_memory_meta_data (va pagetable : UInt64) : KM Unit := do
  let p ← myproc
  let pr ← getProc p
  let found := (List.finRange MAX_PYSC_PAGES).find? fun i =>
    (pr.memoryPages i).state = .P_USED && (pr.memoryPages i).userPageVA = va && pr.pagetable = pagetable
  if let some i := found then
    setProc p {pr.setMemoryPage i {pr.memoryPages i with accessCount := 0,pageOrder := 0,state := .P_UNUSED} with
      pagesInMemoryCounter := pr.pagesInMemoryCounter - 1}

theorem remove_from_memory_meta_data_run (va pagetable : UInt64) (s : Kernel) :
    ∃ t, remove_from_memory_meta_data va pagetable s = .ok ((),t) ∧ t.freelist = s.freelist ∧ t.words = s.words ∧
      t.config = s.config := by
  simp only [remove_from_memory_meta_data,myproc_bind,getProc_bind]
  generalize List.find? _ _ = found
  cases found with
  | none => exact ⟨s,rfl,rfl,rfl,rfl⟩
  | some i => exact ⟨_,rfl,rfl,rfl,rfl⟩

theorem remove_from_memory_meta_data_keeps (va pagetable : UInt64) :
    Keeps (Same swapSlots) (remove_from_memory_meta_data va pagetable) := by
  intro s a t ran
  simp only [remove_from_memory_meta_data,myproc_bind,getProc_bind] at ran
  generalize List.find? _ _ = found at ran
  cases found with
  | none => cases ran; rfl
  | some i =>
    cases ran
    simp only [Same,swapSlots,Kernel.setProc,Prod.mk.injEq,and_true]
    funext q
    by_cases same : q = s.cur <;> simp [same,Proc.setMemoryPage]

-- kernel/fs.c
def get_free_file_index (p : Fin NPROC) : KM (Option (Fin (MAX_TOTAL_PAGES - MAX_PYSC_PAGES))) := do
  let pr ← getProc p
  return (List.finRange _).find? fun i => (pr.filePages i).state = .P_UNUSED

def write_page_to_file (p : Fin NPROC) (va pagetable : UInt64) : KM Int := do
  let free ← get_free_file_index p
  let pte ← walk pagetable va false
  let pa := PTE2PA (← loadPte pte)
  let result ← writeToSwapFile p pa (slotOffset free) 4096
  if result = -1 then return -1
  let i ← fileSlot free
  modifyProc p fun pr =>
    {pr.setFilePage i {pr.filePages i with state := .P_USED,userPageVA := va,pageOrder := 0} with
      pagesInFileCounter := pr.pagesInFileCounter + 1,
      pagesInMemoryCounter := pr.pagesInMemoryCounter - 1}
  return result

def read_page_from_file (p : Fin NPROC) (memoryIndex : Option (Fin MAX_PYSC_PAGES)) (va buff : UInt64) :
    KM Int := do
  let pr ← getProc p
  match (List.finRange _).find? fun i => (pr.filePages i).userPageVA = va with
  | none => return -1
  | some i =>
    let result ← readFromSwapFile p buff (slotOffset (some i)) 4096
    if result = -1 then return -1
    let m ← memorySlot memoryIndex
    modifyProc p fun pr =>
      let moved := {pr.filePages i with pageOrder := pr.pageOrderCounter.toUInt32}
      {(pr.setMemoryPage m moved).setFilePage i {pr.filePages i with state := .P_UNUSED} with
        pageOrderCounter := pr.pageOrderCounter + 1,
        pagesInFileCounter := pr.pagesInFileCounter - 1,
        pagesInMemoryCounter := pr.pagesInMemoryCounter + 1}
    return result

-- The results are only printed.
def copy_swap_file (source target : Fin NPROC) : KM Unit := do
  if (← getProc source).pid < 3 then return
  let buffer ← kalloc
  (List.finRange (MAX_TOTAL_PAGES - MAX_PYSC_PAGES)).forM fun i => do
    if ((← getProc source).filePages i).state = .P_USED then
      let _ ← readFromSwapFile source buffer (slotOffset (some i)) 4096
      let _ ← writeToSwapFile target buffer (slotOffset (some i)) 4096
  kfree buffer

-- kernel/proc.c
def clear_memory_metadata : KM Unit := do
  let p ← myproc
  modifyProc p fun pr => {pr with
    pageOrderCounter := 0,pagesInFileCounter := 0,pagesInMemoryCounter := 0,pageFaultCounter := 0,
    memoryPages := fun _ => .unused,filePages := fun _ => .unused}

end Xv6
