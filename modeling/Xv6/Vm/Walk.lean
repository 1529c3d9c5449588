import Xv6.Vm.State

namespace Xv6

open Frame

-- kernel/vm.c. One pass of walk's loop at a level: the next page-table page, or none where walk
-- returns 0; no caller passes a null page table.
def walkLevel (pagetable va : UInt64) (alloc : Bool) (level : UInt64) : KM (Option UInt64) := do
  let pte := pagetable + 8 * PX level va
  let entry := (← get).words pte
  if has entry PTE_V then return some (PTE2PA entry)
  if !alloc then return none
  let fresh ← kalloc
  if fresh = 0 then return none
  memset fresh 0
  modify fun k => k.setWord pte (PA2PTE fresh ||| PTE_V)
  return some fresh

def walk (pagetable va : UInt64) (alloc : Bool) : KM UInt64 := do
  if va ≥ MAXVA then throw "walk"
  match ← walkLevel pagetable va alloc 2 with
  | none => return 0
  | some mid =>
    match ← walkLevel mid va alloc 1 with
    | none => return 0
    | some leaf => return leaf + 8 * PX 0 va

-- What walk finds without allocating: 0 when level 2 or level 1 has no valid entry.
def lookup (words : UInt64 → UInt64) (pagetable va : UInt64) : UInt64 :=
  let top := words (pagetable + 8 * PX 2 va)
  if !has top PTE_V then 0 else
  let mid := words (PTE2PA top + 8 * PX 1 va)
  if !has mid PTE_V then 0 else PTE2PA mid + 8 * PX 0 va

def walkaddr (pagetable va : UInt64) : KM UInt64 := do
  if va ≥ MAXVA then return 0
  let pte ← walk pagetable va false
  if pte = 0 then return 0
  let entry ← loadPte pte
  if !has entry PTE_V then return 0
  if !has entry PTE_U then return 0
  return PTE2PA entry

-- mappages's for (;;) runs once per page from PGROUNDDOWN(va) to last.
def mappagesLoop (pagetable last perm : UInt64) : Nat → UInt64 → UInt64 → KM Int
  | 0,_,_ => return 0
  | fuel + 1,a,pa => do
    let pte ← walk pagetable a true
    if pte = 0 then return -1
    if has (← loadPte pte) PTE_V then throw "remap"
    storePte pte (PA2PTE pa ||| perm ||| PTE_V)
    if a = last then return 0
    mappagesLoop pagetable last perm fuel (a + PGSIZE) (pa + PGSIZE)

def mappages (pagetable va size pa perm : UInt64) : KM Int :=
  let a := PGROUNDDOWN va
  let last := PGROUNDDOWN (va + size - 1)
  mappagesLoop pagetable last perm (((last - a) / PGSIZE).toNat + 1) a pa

def uvmcreate : KM UInt64 := do
  let pagetable ← kalloc
  if pagetable = 0 then return 0
  memset pagetable 0
  return pagetable

def uvmclear (pagetable va : UInt64) : KM Unit := do
  let pte ← walk pagetable va false
  if pte = 0 then throw "uvmclear"
  storePte pte ((← loadPte pte) &&& ~~~PTE_U)

-- copyout's while (len > 0): every pass moves at least one byte, so len + 1 passes suffice.
def copyoutLoop (pagetable : UInt64) : Nat → UInt64 → (Nat → UInt8) → UInt64 → KM Int
  | 0,_,_,_ => return 0
  | fuel + 1,dstva,src,len => do
    if len = 0 then return 0
    let va0 := PGROUNDDOWN dstva
    let pa0 ← walkaddr pagetable va0
    if pa0 = 0 then return -1
    let n := min (PGSIZE - (dstva - va0)) len
    writeBytes (pa0 + (dstva - va0)) src n
    copyoutLoop pagetable fuel (va0 + PGSIZE) (fun i => src (i + n.toNat)) (len - n)

def copyout (pagetable dstva : UInt64) (src : Nat → UInt8) (len : UInt64) : KM Int :=
  copyoutLoop pagetable (len.toNat + 1) dstva src len

def copyinLoop (pagetable : UInt64) : Nat → (Nat → UInt8) → Nat → UInt64 → UInt64 → KM (Int × (Nat → UInt8))
  | 0,dst,_,_,_ => return (0,dst)
  | fuel + 1,dst,done,srcva,len => do
    if len = 0 then return (0,dst)
    let va0 := PGROUNDDOWN srcva
    let pa0 ← walkaddr pagetable va0
    if pa0 = 0 then return (-1,dst)
    let n := min (PGSIZE - (srcva - va0)) len
    let bytes := (← get).bytes
    let from_ := pa0 + (srcva - va0)
    let dst' := fun i => if done ≤ i && i < done + n.toNat then bytes (from_ + (i - done).toUInt64) else dst i
    copyinLoop pagetable fuel dst' (done + n.toNat) (va0 + PGSIZE) (len - n)

def copyin (pagetable srcva len : UInt64) : KM (Int × (Nat → UInt8)) :=
  copyinLoop pagetable (len.toNat + 1) (fun _ => 0) 0 srcva len

-- copyinstr's inner while (n > 0): some count when it met the NUL, none after n bytes.
def copyinstrBytes (bytes : UInt64 → UInt8) : Nat → UInt64 → Nat → (Nat → UInt8) → Option Nat × (Nat → UInt8)
  | 0,_,_,dst => (none,dst)
  | n + 1,p,done,dst =>
    let c := bytes p
    let dst' := fun i => if i = done then c else dst i
    if c = 0 then (some done,dst') else copyinstrBytes bytes n (p + 1) (done + 1) dst'

def copyinstrLoop (pagetable : UInt64) : Nat → (Nat → UInt8) → Nat → UInt64 → UInt64 → KM (Int × (Nat → UInt8))
  | 0,dst,_,_,_ => return (-1,dst)
  | fuel + 1,dst,done,srcva,max => do
    if max = 0 then return (-1,dst)
    let va0 := PGROUNDDOWN srcva
    let pa0 ← walkaddr pagetable va0
    if pa0 = 0 then return (-1,dst)
    let n := min (PGSIZE - (srcva - va0)) max
    let copied := copyinstrBytes (← get).bytes n.toNat (pa0 + (srcva - va0)) done dst
    if copied.1.isSome then return (0,copied.2)
    copyinstrLoop pagetable fuel copied.2 (done + n.toNat) (va0 + PGSIZE) (max - n)

def copyinstr (pagetable srcva max : UInt64) : KM (Int × (Nat → UInt8)) :=
  copyinstrLoop pagetable (max.toNat + 1) (fun _ => 0) 0 srcva max

def walkaddrOf (words : UInt64 → UInt64) (pagetable va : UInt64) : UInt64 :=
  let pte := lookup words pagetable va
  if va ≥ MAXVA || pte = 0 then 0
  else if !has (words pte) PTE_V || !has (words pte) PTE_U then 0
  else PTE2PA (words pte)

section Lemmas

variable (s : Kernel) (pagetable va : UInt64)

theorem walkLevel_noalloc (level : UInt64) :
    walkLevel pagetable va false level s =
      .ok ((if has (s.words (pagetable + 8 * PX level va)) PTE_V then
        some (PTE2PA (s.words (pagetable + 8 * PX level va))) else none),s) := by
  unfold walkLevel
  by_cases valid : has (s.words (pagetable + 8 * PX level va)) PTE_V <;> simp [valid]

theorem walk_panics (alloc : Bool) (beyond : MAXVA ≤ va) : walk pagetable va alloc s = .error "walk" := by
  simp [walk,beyond]

theorem walk_noalloc (below : va < MAXVA) : walk pagetable va false s = .ok (lookup s.words pagetable va,s) := by
  have inside : ¬ MAXVA ≤ va := UInt64.not_le.mpr below
  simp only [walk,inside,if_false,bind_of_ok (walkLevel_noalloc _ _ _ _),lookup]
  by_cases top : has (s.words (pagetable + 8 * PX 2 va)) PTE_V
  · by_cases mid : has (s.words (PTE2PA (s.words (pagetable + 8 * PX 2 va)) + 8 * PX 1 va)) PTE_V <;>
      simp [top,mid,bind_of_ok (walkLevel_noalloc _ _ _ _)]
  · simp [top]

theorem walkaddr_eq : walkaddr pagetable va s = .ok (walkaddrOf s.words pagetable va,s) := by
  by_cases beyond : MAXVA ≤ va
  · simp [walkaddr,walkaddrOf,beyond]
  · have below : va < MAXVA := UInt64.not_le.mp beyond
    by_cases null : lookup s.words pagetable va = 0
    · simp [walkaddr,walkaddrOf,beyond,bind_of_ok (walk_noalloc s pagetable va below),null]
    · by_cases valid : has (s.words (lookup s.words pagetable va)) PTE_V <;>
        by_cases user : has (s.words (lookup s.words pagetable va)) PTE_U <;>
        simp [walkaddr,walkaddrOf,beyond,bind_of_ok (walk_noalloc s pagetable va below),null,loadPte,valid,user]

theorem copyout_rejects (dstva : UInt64) (src : Nat → UInt8) (len : UInt64) (some : len ≠ 0)
    (missing : walkaddrOf s.words pagetable (PGROUNDDOWN dstva) = 0) :
    copyout pagetable dstva src len s = .ok (-1,s) := by
  simp [copyout,copyoutLoop,some,bind_of_ok (walkaddr_eq _ _ _),missing]

theorem copyin_rejects (srcva len : UInt64) (some : len ≠ 0)
    (missing : walkaddrOf s.words pagetable (PGROUNDDOWN srcva) = 0) :
    copyin pagetable srcva len s = .ok ((-1,fun _ => 0),s) := by
  simp [copyin,copyinLoop,some,bind_of_ok (walkaddr_eq _ _ _),missing]

theorem copyinstr_rejects (srcva max : UInt64) (some : max ≠ 0)
    (missing : walkaddrOf s.words pagetable (PGROUNDDOWN srcva) = 0) :
    copyinstr pagetable srcva max s = .ok ((-1,fun _ => 0),s) := by
  simp [copyinstr,copyinstrLoop,some,bind_of_ok (walkaddr_eq _ _ _),missing]

end Lemmas

theorem walkLevel_keeps_procs (pagetable va : UInt64) (alloc : Bool) (level : UInt64) :
    Keeps (Same procsOf) (walkLevel pagetable va alloc level) := by
  unfold walkLevel
  refine Keeps.get.bind fun k => Keeps.ite (Keeps.pure _) (Keeps.ite (Keeps.pure _) ?_)
  refine kalloc_keeps_procs.bind fun fresh => Keeps.ite (Keeps.pure _) ?_
  refine (memset_keeps_procs _ _).bind fun _ => ?_
  exact Keeps.bind (Keeps.modify fun _ => rfl) fun _ => Keeps.pure _

theorem walk_keeps_procs (pagetable va : UInt64) (alloc : Bool) :
    Keeps (Same procsOf) (walk pagetable va alloc) := by
  unfold walk
  dsimp only
  refine Keeps.ite (Keeps.throw_bind _ _) ((walkLevel_keeps_procs _ _ _ _).bind fun top => ?_)
  split
  · exact Keeps.pure _
  · refine (walkLevel_keeps_procs _ _ _ _).bind fun mid => ?_
    split <;> exact Keeps.pure _

end Xv6
