import Mathlib.Data.Nat.Basic

namespace Xv6

-- kernel/riscv.h: Sv39 pages and page-table entries. Addresses and entries are
-- uint64 in the source, so they are UInt64 here and wrap as the C code does.
def PGSIZE : UInt64 := 4096
def PGSHIFT : UInt64 := 12

def PGROUNDUP (sz : UInt64) : UInt64 := (sz + PGSIZE - 1) &&& ~~~(PGSIZE - 1)
def PGROUNDDOWN (a : UInt64) : UInt64 := a &&& ~~~(PGSIZE - 1)

def PTE_V : UInt64 := (1 : UInt64) <<< 0
def PTE_R : UInt64 := (1 : UInt64) <<< 1
def PTE_W : UInt64 := (1 : UInt64) <<< 2
def PTE_X : UInt64 := (1 : UInt64) <<< 3
def PTE_U : UInt64 := (1 : UInt64) <<< 4
def PTE_A : UInt64 := (1 : UInt64) <<< 6
-- The assignment's own bit: the page lives in the swap file.
def PTE_PG : UInt64 := (1 : UInt64) <<< 9

def PA2PTE (pa : UInt64) : UInt64 := (pa >>> 12) <<< 10
def PTE2PA (pte : UInt64) : UInt64 := (pte >>> 10) <<< 12
def PTE_FLAGS (pte : UInt64) : UInt64 := pte &&& 0x3FF

def PXMASK : UInt64 := 0x1FF
def PXSHIFT (level : UInt64) : UInt64 := PGSHIFT + 9 * level
def PX (level va : UInt64) : UInt64 := (va >>> PXSHIFT level) &&& PXMASK

def MAXVA : UInt64 := (1 : UInt64) <<< (9 + 9 + 9 + 12 - 1)

-- kernel/memlayout.h
def KERNBASE : UInt64 := 0x80000000
def PHYSTOP : UInt64 := KERNBASE + 128 * 1024 * 1024
def TRAMPOLINE : UInt64 := MAXVA - PGSIZE
def TRAPFRAME : UInt64 := TRAMPOLINE - PGSIZE

-- A bit test as the C code writes it: (pte & FLAG) != 0.
def has (pte flag : UInt64) : Bool := pte &&& flag != 0

end Xv6
