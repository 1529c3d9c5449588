import Xv6.Paging.Fault

namespace Xv6

-- How many used slots of each array name the page v, and how many are used.
def memoryUses (pr : Proc) (v : UInt64) : Nat :=
  ((List.finRange MAX_PYSC_PAGES).filter fun i =>
    (pr.memoryPages i).state = .P_USED && (pr.memoryPages i).userPageVA = v).length

def fileUses (pr : Proc) (v : UInt64) : Nat :=
  ((List.finRange (MAX_TOTAL_PAGES - MAX_PYSC_PAGES)).filter fun i =>
    (pr.filePages i).state = .P_USED && (pr.filePages i).userPageVA = v).length

def usedMemory (pr : Proc) : Nat :=
  ((List.finRange MAX_PYSC_PAGES).filter fun i => (pr.memoryPages i).state = .P_USED).length

def usedFile (pr : Proc) : Nat :=
  ((List.finRange (MAX_TOTAL_PAGES - MAX_PYSC_PAGES)).filter fun i => (pr.filePages i).state = .P_USED).length

def swapFileSize (k : Kernel) (pr : Proc) : Nat :=
  match pr.swapFile with
  | some f => (k.inode (k.file f).ip).size
  | none => 0

-- The two ways a page below sz may be represented.
def Resident (k : Kernel) (pr : Proc) (v : UInt64) : Prop :=
  let pte := lookup k.words pr.pagetable v
  pte ≠ 0 ∧ has (k.words pte) PTE_V ∧ !has (k.words pte) PTE_PG ∧ memoryUses pr v = 1 ∧ fileUses pr v = 0

def PagedOut (k : Kernel) (pr : Proc) (v : UInt64) : Prop :=
  let pte := lookup k.words pr.pagetable v
  pte ≠ 0 ∧ has (k.words pte) PTE_PG ∧ !has (k.words pte) PTE_V ∧ fileUses pr v = 1 ∧ memoryUses pr v = 0

def SlotBelow (pr : Proc) (m : PageMetadata) : Prop :=
  m.state = .P_USED → m.userPageVA % PGSIZE = 0 ∧ m.userPageVA < pr.sz

instance (k : Kernel) (pr : Proc) (v : UInt64) : Decidable (Resident k pr v) :=
  inferInstanceAs (Decidable (_ ∧ _))

instance (k : Kernel) (pr : Proc) (v : UInt64) : Decidable (PagedOut k pr v) :=
  inferInstanceAs (Decidable (_ ∧ _))

instance (pr : Proc) (m : PageMetadata) : Decidable (SlotBelow pr m) :=
  inferInstanceAs (Decidable (_ → _))

-- The representation invariant of a paging process (pid > 2, a policy other
-- than NONE): every page below sz is resident or paged out, and the slot
-- arrays, their counters and the swap file agree with the page table. The
-- counts are of sixteen slots, so the counters are at most 16.
structure PagingInvariant (k : Kernel) (p : Fin NPROC) : Prop where
  pages : ∀ j < ((k.proc p).sz.toNat + 4095) / 4096,
    Resident k (k.proc p) (4096 * j).toUInt64 ∨ PagedOut k (k.proc p) (4096 * j).toUInt64
  memorySlots : ∀ i, SlotBelow (k.proc p) ((k.proc p).memoryPages i)
  fileSlots : ∀ i, SlotBelow (k.proc p) ((k.proc p).filePages i)
  memoryCount : (k.proc p).pagesInMemoryCounter.toNat = usedMemory (k.proc p)
  fileCount : (k.proc p).pagesInFileCounter.toNat = usedFile (k.proc p)
  backed : ∀ i, ((k.proc p).filePages i).state = .P_USED → 4096 * (i.val + 1) ≤ swapFileSize k (k.proc p)

instance (k : Kernel) (p : Fin NPROC) : Decidable (PagingInvariant k p) :=
  decidable_of_iff
    ((∀ j < ((k.proc p).sz.toNat + 4095) / 4096,
        Resident k (k.proc p) (4096 * j).toUInt64 ∨ PagedOut k (k.proc p) (4096 * j).toUInt64) ∧
      (∀ i, SlotBelow (k.proc p) ((k.proc p).memoryPages i)) ∧
      (∀ i, SlotBelow (k.proc p) ((k.proc p).filePages i)) ∧
      (k.proc p).pagesInMemoryCounter.toNat = usedMemory (k.proc p) ∧
      (k.proc p).pagesInFileCounter.toNat = usedFile (k.proc p) ∧
      ∀ i, ((k.proc p).filePages i).state = .P_USED → 4096 * (i.val + 1) ≤ swapFileSize k (k.proc p))
    ⟨fun ⟨a,b,c,d,e,f⟩ => ⟨a,b,c,d,e,f⟩,fun h => ⟨h.pages,h.memorySlots,h.fileSlots,h.memoryCount,h.fileCount,h.backed⟩⟩

theorem walkaddrOf_pagedOut {k : Kernel} {pr : Proc} {v : UInt64} (paged : PagedOut k pr v) :
    walkaddrOf k.words pr.pagetable v = 0 := by
  obtain ⟨present,_,invalid,_⟩ := paged
  simp_all [walkaddrOf]

end Xv6
