import Mathlib

namespace Xv6.Umalloc

-- user/umalloc.c, K&R's allocator. A Header is a pointer and a uint aligned as a long: 16 bytes on
-- RV64; the headers in memory are a function on their addresses.
def HEADER : Nat := 16

structure Header where
  ptr : Nat
  size : UInt32

-- sz is the process size growproc keeps (a uint), and limit the size up to which memory is found.
structure Heap where
  hdr : Nat → Header
  base : Nat
  freep : Nat
  sz : UInt32
  limit : Nat

def Heap.set (h : Heap) (a : Nat) (x : Header) : Heap := {h with hdr := Function.update h.hdr a x}

-- sys_sbrk and growproc: sz + n is computed in uint.
def sbrk (n : Int) (h : Heap) : Option (Nat × Heap) :=
  let addr := h.sz.toNat
  let newsz := h.sz + UInt32.ofInt n
  if 0 < n then
    if newsz.toNat < addr then some (addr,h)
    else if newsz.toNat ≤ h.limit then some (addr,{h with sz := newsz})
    else none
  else if n < 0 then
    if newsz.toNat ≥ addr then some (addr,h) else some (addr,{h with sz := newsz})
  else some (addr,h)

-- The int parameter of sbrk receives a size_t.
def toInt (x : Nat) : Int := (UInt32.ofNat x).toInt32.toInt

def freeFind (bp : Nat) (h : Heap) : Nat → Nat → Nat
  | 0,p => p
  | fuel + 1,p =>
    let next := (h.hdr p).ptr
    if bp > p ∧ bp < next then p
    else if p ≥ next ∧ (bp > p ∨ bp < next) then p
    else freeFind bp h fuel next

def free (ap : Nat) (fuel : Nat) (h : Heap) : Heap :=
  let bp := ap - HEADER
  let p := freeFind bp h fuel h.freep
  -- join to the upper neighbour
  let h :=
    if bp + (h.hdr bp).size.toNat * HEADER = (h.hdr p).ptr then
      h.set bp ⟨(h.hdr (h.hdr p).ptr).ptr,(h.hdr bp).size + (h.hdr (h.hdr p).ptr).size⟩
    else h.set bp {h.hdr bp with ptr := (h.hdr p).ptr}
  -- join to the lower neighbour
  let h :=
    if p + (h.hdr p).size.toNat * HEADER = bp then h.set p ⟨(h.hdr bp).ptr,(h.hdr p).size + (h.hdr bp).size⟩
    else h.set p {h.hdr p with ptr := bp}
  {h with freep := p}

def morecore (nu : UInt32) (fuel : Nat) (h : Heap) : Nat × Heap :=
  let nu := if nu < 4096 then 4096 else nu
  match sbrk (toInt (nu.toNat * HEADER)) h with
  | none => (0,h)
  | some (p,h) =>
    let h := free (p + HEADER) fuel (h.set p {h.hdr p with size := nu})
    (h.freep,h)

-- The first-fit loop from prevp; none is a walk that has not ended within the fuel.
def mallocLoop (nunits : UInt32) : Nat → Nat → Nat → Heap → Option Nat × Heap
  | 0,_,_,h => (none,h)
  | fuel + 1,prevp,p,h =>
    if (h.hdr p).size ≥ nunits then
      if (h.hdr p).size = nunits then
        let h := h.set prevp {h.hdr prevp with ptr := (h.hdr p).ptr}
        (some (p + HEADER),{h with freep := prevp})
      else
        -- Split from the tail.
        let h := h.set p {h.hdr p with size := (h.hdr p).size - nunits}
        let p := p + (h.hdr p).size.toNat * HEADER
        let h := h.set p {h.hdr p with size := nunits}
        (some (p + HEADER),{h with freep := prevp})
    else if p = h.freep then
      match morecore nunits fuel h with
      | (0,h) => (some 0,h)
      | (p,h) => mallocLoop nunits fuel p (h.hdr p).ptr h
    else mallocLoop nunits fuel p (h.hdr p).ptr h

-- nbytes + sizeof(Header) - 1 is a size_t, stored back into a uint.
def nunitsOf (nbytes : UInt32) : UInt32 := ((nbytes.toNat + HEADER - 1) / HEADER + 1).toUInt32

def malloc (nbytes : UInt32) (fuel : Nat) (h : Heap) : Option Nat × Heap :=
  let h := if h.freep = 0 then {h.set h.base ⟨h.base,0⟩ with freep := h.base} else h
  mallocLoop (nunitsOf nbytes) fuel h.freep (h.hdr h.freep).ptr h

-- A process of 16 KiB whose heap is still empty, with memory up to 128 KiB.
def freshHeap : Heap := ⟨fun _ => ⟨0,0⟩,0x1000,0,0x4000,0x20000⟩

theorem malloc_max_returns_block_past_sbrk :
    nunitsOf 0xFFFFFFFF = 2 ^ 28 + 1 ∧ toInt ((2 ^ 28 + 1) * HEADER) = 16 ∧
      (malloc 0xFFFFFFFF 8 freshHeap).1 = some 0x4010 ∧ (malloc 0xFFFFFFFF 8 freshHeap).2.sz = 0x4010 := by
  decide

end Xv6.Umalloc
