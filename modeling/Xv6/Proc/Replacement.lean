import Xv6.Proc.Paging

namespace Xv6

-- pid 3 under NFUA, grown to sixteen tracked pages.
def nfuaFull : Kernel := reach (started .NFUA) [.fork initSlot,.fork shSlot,.sbrk procSlot (16 * 4096)]

-- Its counts after 32 aging steps that each found every page accessed.
def saturated : Kernel :=
  let pr := nfuaFull.proc procSlot
  {nfuaFull.setProc procSlot {pr with memoryPages := fun i => {pr.memoryPages i with accessCount := 0xFFFFFFFF}} with
    cur := procSlot}

theorem nfua_saturated_names_no_slot :
    (∀ i, ((saturated.proc procSlot).memoryPages i).state = .P_USED) ∧ Prod.fst <$> NFUA_algorithm saturated = .ok none := by
  have used : ∀ i, ((saturated.proc procSlot).memoryPages i).state = .P_USED := by decide +kernel
  obtain ⟨r,ran,result⟩ := NFUA_algorithm_first_least saturated
  refine ⟨used,?_⟩
  rw [ran]
  rcases result with ⟨-,none⟩ | ⟨i,-,below,-⟩
  · rw [none]
    rfl
  · -- every count is saturated: none is below the sentinel
    simp [saturated,Kernel.setProc] at below

-- pid 3 under LAPA fills its sixteen slots, grows by one page (page 1 goes to
-- file slot 0) and faults page 1 back in: update_page_in_pte gives the slot
-- 0xFFFFFFFF, and read_page_from_file then copies file slot 0 over it.
def lapaRun : List Event := [.sbrk procSlot (16 * 4096),.sbrk procSlot 4096,.load procSlot 4096]

def lapaPagedIn : Kernel := reach (started .LAPA) ([.fork initSlot,.fork shSlot] ++ lapaRun)

theorem lapa_page_in_takes_file_count :
    outcomes (reach (started .LAPA) [.fork initSlot,.fork shSlot]) lapaRun = [.ret 4096,.ret 69632,.fault] ∧
      (lapaPagedIn.proc procSlot).memoryPages ⟨1,by decide⟩ = ⟨.P_USED,4096,17,0⟩ := by
  decide +kernel

-- grown with its page-order clock moved on by 2^32 - 18, orders and counter
-- alike, and its two oldest pages (slots 1 and 2) accessed.
def nearWrap : Kernel :=
  let pr := grown.proc procSlot
  let shift : UInt64 := 2 ^ 32 - 18
  let aged : Proc := {pr with
    pageOrderCounter := pr.pageOrderCounter + shift,
    memoryPages := fun i => {pr.memoryPages i with pageOrder := (pr.memoryPages i).pageOrder + shift.toUInt32}}
  let touch (k : Kernel) (va : UInt64) : Kernel :=
    k.setWord (lookup k.words pr.pagetable va) (k.words (lookup k.words pr.pagetable va) ||| PTE_A)
  {touch (touch (grown.setProc procSlot aged) 4096) 8192 with cur := procSlot}

-- Slot 1 is rotated to order 0xFFFFFFFF, slot 2 to order 2^32, which the
-- 32-bit field stores as 0: slot 2 is then the oldest again and is returned.
theorem scfifo_order_wrap_returns_rotated_page :
    ((∀ i, ((nearWrap.proc procSlot).memoryPages i).state = .P_USED) ∧
      (∀ i j, i ≠ j → ((nearWrap.proc procSlot).memoryPages i).pageOrder ≠
        ((nearWrap.proc procSlot).memoryPages j).pageOrder) ∧
      ∀ i, ((nearWrap.proc procSlot).memoryPages i).pageOrder.toUInt64 < (nearWrap.proc procSlot).pageOrderCounter) ∧
    Prod.fst <$> SCFIFO_algorithm nearWrap = .ok (some ⟨2,by decide⟩) ∧
    Fifo.secondChance (MAX_PYSC_PAGES + 1) (fifoQueue (nearWrap.proc procSlot))
      (accessedIn nearWrap (nearWrap.proc procSlot)) = some ⟨3,by decide⟩ := by
  decide +kernel

end Xv6
