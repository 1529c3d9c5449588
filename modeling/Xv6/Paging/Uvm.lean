import Xv6.Paging.Policy

namespace Xv6

open Frame

-- kernel/vm.c. uvmunmap's loop runs while a < va + npages*PGSIZE: at most npages passes.
def uvmunmapLoop (pagetable bound : UInt64) (do_free : Bool) : Nat → UInt64 → KM Unit
  | 0,_ => return
  | fuel + 1,a => do
    if a ≥ bound then return
    let pte ← walk pagetable a false
    if pte = 0 then throw "uvmunmap: walk"
    let entry ← loadPte pte
    if !has entry PTE_V && !has entry PTE_PG then throw "uvmunmap: not mapped"
    if PTE_FLAGS entry = PTE_V then throw "uvmunmap: not a leaf"
    -- the source's test: free only if the entry is NOT valid
    if do_free && !has entry PTE_V then
      let pa := PTE2PA entry
      if pa ≠ 0 then kfree pa
    if !(← is_none_policy) && has entry PTE_V then
      remove_from_memory_meta_data a pagetable
    storePte pte 0
    uvmunmapLoop pagetable bound do_free fuel (a + PGSIZE)

def uvmunmap (pagetable va npages : UInt64) (do_free : Bool) : KM Unit := do
  if va % PGSIZE ≠ 0 then throw "uvmunmap: not aligned"
  uvmunmapLoop pagetable (va + npages * PGSIZE) do_free npages.toNat va

def uvmdealloc (pagetable oldsz newsz : UInt64) : KM UInt64 := do
  if newsz ≥ oldsz then return oldsz
  if PGROUNDUP newsz < PGROUNDUP oldsz then
    let npages := (PGROUNDUP oldsz - PGROUNDUP newsz) / PGSIZE
    uvmunmap pagetable (PGROUNDUP newsz) npages true
  return newsz

theorem uvmunmapLoop_keeps (pagetable bound : UInt64) (do_free : Bool) :
    ∀ fuel a, Keeps (Same swapSlots) (uvmunmapLoop pagetable bound do_free fuel a)
  | 0,_ => Keeps.pure _
  | fuel + 1,a => by
    have rest := uvmunmapLoop_keeps pagetable bound do_free fuel (a + PGSIZE)
    unfold uvmunmapLoop
    dsimp only
    refine Keeps.ite (Keeps.pure _) ((keeps_swapSlots (walk_keeps_procs _ _ _)).bind fun pte => ?_)
    refine Keeps.ite (Keeps.throw_bind _ _) ((keeps_swapSlots (loadPte_keeps_procs _)).bind fun entry => ?_)
    refine Keeps.ite (Keeps.throw_bind _ _) (Keeps.ite (Keeps.throw_bind _ _) ?_)
    have clear : Keeps (Same swapSlots) (do
        storePte pte 0
        uvmunmapLoop pagetable bound do_free fuel (a + PGSIZE)) :=
      (keeps_swapSlots (storePte_keeps_procs _ _)).bind fun _ => rest
    have drop : Keeps (Same swapSlots) (do
        let nonePolicy ← is_none_policy
        if (!nonePolicy && has entry PTE_V) = true then do
          remove_from_memory_meta_data a pagetable
          storePte pte 0
          uvmunmapLoop pagetable bound do_free fuel (a + PGSIZE)
        else do
          storePte pte 0
          uvmunmapLoop pagetable bound do_free fuel (a + PGSIZE)) :=
      Keeps.get.bind fun _ => Keeps.ite ((remove_from_memory_meta_data_keeps _ _).bind fun _ => clear) clear
    exact Keeps.ite (Keeps.ite ((keeps_swapSlots (kfree_keeps_procs _)).bind fun _ => drop) drop) drop

theorem uvmunmap_keeps (pagetable va npages : UInt64) (do_free : Bool) :
    Keeps (Same swapSlots) (uvmunmap pagetable va npages do_free) := by
  unfold uvmunmap
  dsimp only
  exact Keeps.ite (Keeps.throw_bind _ _) (uvmunmapLoop_keeps _ _ _ _ _)

theorem uvmdealloc_keeps (pagetable oldsz newsz : UInt64) :
    Keeps (Same swapSlots) (uvmdealloc pagetable oldsz newsz) := by
  unfold uvmdealloc
  dsimp only
  refine Keeps.ite (Keeps.pure _) (Keeps.ite ?_ (Keeps.pure _))
  exact (uvmunmap_keeps _ _ _ _).bind fun _ => Keeps.pure _

-- uvmunmap(pagetable, va, 1, 1) on a resident page clears its entry without returning the frame:
-- the source frees only entries without PTE_V.

def swap (pagetable user_page_va : UInt64) : KM Unit := do
  let p ← myproc
  let out ← memorySlot (← get_swap_out_page_index)
  let pr ← getProc p
  let pte ← walk pr.pagetable (pr.memoryPages out).userPageVA false
  let out_page_pa := PTE2PA (← loadPte pte)
  let _ ← write_page_to_file p (pr.memoryPages out).userPageVA pr.pagetable
  kfree out_page_pa
  modifyProc p fun pr => pr.setMemoryPage out {pr.memoryPages out with state := .P_UNUSED}
  let pr ← getProc p
  update_page_out_pte pr.pagetable (pr.memoryPages out).userPageVA
  add_to_memory_page_metadata pagetable user_page_va

-- uvmalloc's loop counts the new pages against the resident count the process had on entry.
def uvmallocLoop (pagetable oldsz newsz : UInt64) (old_num_of_pages_in_mem : Int) :
    Nat → UInt64 → Int → KM UInt64
  | 0,_,_ => return newsz
  | fuel + 1,a,num_of_new_page => do
    if a ≥ newsz then return newsz
    let num_of_new_page := num_of_new_page + 1
    let mem ← kalloc
    if mem = 0 then
      let _ ← uvmdealloc pagetable a oldsz
      return 0
    memset mem 0
    if (← mappages pagetable a PGSIZE mem (PTE_W ||| PTE_X ||| PTE_R ||| PTE_U)) ≠ 0 then
      kfree mem
      let _ ← uvmdealloc pagetable a oldsz
      return 0
    let pr ← getProc (← myproc)
    if pr.pid > 2 && !(← is_none_policy) then
      if pr.pagesInMemoryCounter + pr.pagesInFileCounter = MAX_TOTAL_PAGES.toUInt64 then
        kfree mem
        let _ ← uvmdealloc pagetable a oldsz
        throw "uvmalloc(): Proc is too big\n"
      else if old_num_of_pages_in_mem + num_of_new_page > MAX_PYSC_PAGES then
        swap pagetable a
      else
        add_to_memory_page_metadata pagetable a
    uvmallocLoop pagetable oldsz newsz old_num_of_pages_in_mem fuel (a + PGSIZE) num_of_new_page

def uvmalloc (pagetable oldsz newsz : UInt64) : KM UInt64 := do
  if newsz < oldsz then return oldsz
  let oldsz := PGROUNDUP oldsz
  let old_num_of_pages_in_mem := toCInt (← getProc (← myproc)).pagesInMemoryCounter
  uvmallocLoop pagetable oldsz newsz old_num_of_pages_in_mem (((newsz - oldsz) / PGSIZE).toNat + 1) oldsz 0

def freewalkEntries (freewalk : UInt64 → KM Unit) (pagetable : UInt64) : List Nat → KM Unit
  | [] => return
  | i :: rest => do
    let slot := pagetable + 8 * i.toUInt64
    let pte := (← get).words slot
    if has pte PTE_V && pte &&& (PTE_R ||| PTE_W ||| PTE_X) = 0 then
      freewalk (PTE2PA pte)
      modify fun k => k.setWord slot 0
    else if has pte PTE_V then
      throw "freewalk: leaf"
    freewalkEntries freewalk pagetable rest

-- vm.c recurses on every valid entry without R, W or X; each level takes a frame of at least 16
-- bytes on the one-page kernel stack, so deeper than KSTACKFRAMES the guard page faults and panics.
def KSTACKFRAMES : Nat := 4096 / 16

def freewalk : Nat → UInt64 → KM Unit
  | 0,_ => throw "kerneltrap"
  | depth + 1,pagetable => do
    freewalkEntries (freewalk depth) pagetable (List.range 512)
    kfree pagetable

def uvmfree (pagetable sz : UInt64) : KM Unit := do
  if sz > 0 then uvmunmap pagetable 0 (PGROUNDUP sz / PGSIZE) true
  freewalk KSTACKFRAMES pagetable

def uvmcopyLoop (old new sz : UInt64) : Nat → UInt64 → KM Int
  | 0,_ => return 0
  | fuel + 1,i => do
    if i ≥ sz then return 0
    let pte ← walk old i false
    if pte = 0 then throw "uvmcopy: pte should exist"
    let entry ← loadPte pte
    -- a paged-out page is only marked in the child's table
    if has entry PTE_PG then
      update_page_out_pte new i
      uvmcopyLoop old new sz fuel (i + PGSIZE)
    else
      if !has entry PTE_V then throw "uvmcopy: page not present"
      let pa := PTE2PA entry
      let flags := PTE_FLAGS entry
      let mem ← kalloc
      if mem = 0 then
        uvmunmap new 0 (i / PGSIZE) true
        return -1
      memmove mem pa PGSIZE
      if (← mappages new i PGSIZE mem flags) ≠ 0 then
        kfree mem
        uvmunmap new 0 (i / PGSIZE) true
        return -1
      uvmcopyLoop old new sz fuel (i + PGSIZE)

def uvmcopy (old new sz : UInt64) : KM Int :=
  uvmcopyLoop old new sz ((sz / PGSIZE).toNat + 1) 0

end Xv6
