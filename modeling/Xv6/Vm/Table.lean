import Xv6.Vm.Walk

namespace Xv6

open Frame

-- The page table as a map from pages to leaf entries; entry i of a table sits at its address plus 8 * i.
def entryAddr (t : UInt64) (i : Fin 512) : UInt64 := t + 8 * i.val.toUInt64

section Bits

theorem low_bit_of_aligned {r : UInt64} (aligned : r.toNat % 4096 = 0) {i : Nat} (low : i < 12) :
    r.toBitVec.getLsbD i = false := by
  rw [BitVec.getLsbD,UInt64.toNat_toBitVec]
  obtain ⟨k,spread⟩ : ∃ k, r.toNat = 2 ^ 12 * k := ⟨r.toNat / 4096,by omega⟩
  rw [spread,Nat.testBit_two_pow_mul]
  simp [Nat.not_le.mpr low]

theorem PTE2PA_PA2PTE {r : UInt64} (aligned : r.toNat % 4096 = 0) : PTE2PA (PA2PTE r ||| PTE_V) = r := by
  apply UInt64.toBitVec_inj.mp
  apply BitVec.eq_of_getLsbD_eq
  intro i lt
  simp [PTE2PA,PA2PTE,PTE_V]
  by_cases low : i < 12
  · simp [low,low_bit_of_aligned aligned low]
  · have back : 12 + (i - 12) = i := by omega
    have within : 10 + (i - 12) < 64 := by omega
    simp [low,back,lt,within]

theorem has_PA2PTE (r : UInt64) : has (PA2PTE r ||| PTE_V) PTE_V = true := by
  unfold has
  simp only [bne_iff_ne,ne_eq]
  intro zero
  have bit := congrArg (fun y : UInt64 => y.toBitVec.getLsbD 0) zero
  simp [PA2PTE,PTE_V] at bit

theorem PA2PTE_leafBits (r : UInt64) : (PA2PTE r ||| PTE_V) &&& (PTE_R ||| PTE_W ||| PTE_X) = 0 := by
  apply UInt64.toBitVec_inj.mp
  apply BitVec.eq_of_getLsbD_eq
  intro i lt
  simp only [PA2PTE,PTE_V,PTE_R,PTE_W,PTE_X,UInt64.toBitVec_and,UInt64.toBitVec_or,BitVec.getLsbD_and,
    BitVec.getLsbD_or]
  simp
  rintro (⟨⟨-,big⟩,-⟩ | rfl)
  · have large : 2 ^ 10 ≤ 2 ^ i := Nat.pow_le_pow_right (by decide) big
    simp only [BitVec.getLsbD_ofNat,Bool.and_eq_false_iff]
    exact ⟨⟨.inr (Nat.testBit_lt_two_pow (by omega)),.inr (Nat.testBit_lt_two_pow (by omega))⟩,
      .inr (Nat.testBit_lt_two_pow (by omega))⟩
  · decide

@[simp]
theorem has_zero (flag : UInt64) : has 0 flag = false := by
  simp [has]

theorem PGROUNDDOWN_toNat (a : UInt64) : (PGROUNDDOWN a).toNat = a.toNat / 4096 * 4096 := by
  unfold PGROUNDDOWN PGSIZE
  apply Nat.eq_of_testBit_eq
  intro i
  have complement : (~~~(4096 - 1 : UInt64)).toNat = 2 ^ 12 * (2 ^ 52 - 1) := by decide
  have spread : a.toNat / 4096 * 4096 = 2 ^ 12 * (a.toNat / 2 ^ 12) := by omega
  rw [UInt64.toNat_and,Nat.testBit_and,complement,spread,Nat.testBit_two_pow_mul,Nat.testBit_two_pow_mul,
    Nat.testBit_two_pow_sub_one,Nat.testBit_div_two_pow]
  by_cases low : i < 12
  · simp [Nat.not_le.mpr low]
  · have back : i - 12 + 12 = i := by omega
    by_cases inside : i - 12 < 52
    · simp [Nat.not_lt.mp low,inside,back]
    · have beyond : a.toNat.testBit i = false :=
        Nat.testBit_lt_two_pow (Nat.lt_of_lt_of_le a.toNat_lt (Nat.pow_le_pow_right (by decide) (by omega)))
      simp [Nat.not_lt.mp low,inside,back,beyond]

theorem PX_toNat (l va : UInt64) : (PX l va).toNat = va.toNat / 2 ^ ((PXSHIFT l).toNat % 64) % 512 := by
  unfold PX PXMASK
  rw [UInt64.toNat_and,UInt64.toNat_shiftRight,Nat.shiftRight_eq_div_pow]
  exact Nat.and_two_pow_sub_one_eq_mod _ 9

theorem PX_lt (l va : UInt64) : (PX l va).toNat < 512 := by
  rw [PX_toNat]
  exact Nat.mod_lt _ (by decide)

end Bits

def ix (l va : UInt64) : Fin 512 := ⟨(PX l va).toNat,PX_lt l va⟩

section Addresses

variable {t t' r : UInt64} {i j : Fin 512}

theorem entryAddr_toNat (aligned : t.toNat % 4096 = 0) (i : Fin 512) : (entryAddr t i).toNat = t.toNat + 8 * i.val := by
  have small := t.toNat_lt
  have index := i.isLt
  have word : (8 * i.val.toUInt64).toNat = 8 * i.val := by
    rw [UInt64.toNat_mul,Nat.toUInt64_eq,UInt64.toNat_ofNat']
    simp only [UInt64.toNat_ofNat,Nat.reducePow,Nat.reduceMod]
    omega
  rw [entryAddr,UInt64.toNat_add,word]
  omega

theorem entryAddr_inj (aligned : t.toNat % 4096 = 0) (aligned' : t'.toNat % 4096 = 0)
    (same : entryAddr t i = entryAddr t' j) : t = t' ∧ i = j := by
  have numbers := congrArg UInt64.toNat same
  rw [entryAddr_toNat aligned,entryAddr_toNat aligned'] at numbers
  have index := i.isLt
  have index' := j.isLt
  exact ⟨UInt64.toNat_inj.mp (by omega),Fin.ext (by omega)⟩

theorem entryAddr_ne_of_ne (aligned : t.toNat % 4096 = 0) (aligned' : t'.toNat % 4096 = 0) (apart : t ≠ t') :
    entryAddr t i ≠ entryAddr t' j :=
  fun same => apart (entryAddr_inj aligned aligned' same).1

theorem samePage_entryAddr (aligned : r.toNat % 4096 = 0) (aligned' : t.toNat % 4096 = 0) :
    samePage r (entryAddr t i) = decide (r = t) := by
  have index := i.isLt
  rw [Bool.eq_iff_iff,samePage,Nat.beq_eq,entryAddr_toNat aligned',decide_eq_true_iff,← UInt64.toNat_inj]
  omega

theorem PX_eq_ix (l va : UInt64) : PX l va = (ix l va).val.toUInt64 := by
  simp [ix]

end Addresses


-- The table pages of a three-level page table, named by the indices that lead to them from the root.
inductive Node where
  | root
  | mid (i : Fin 512)
  | leaf (i j : Fin 512)
deriving DecidableEq

def down (w : UInt64 → UInt64) (t : UInt64) (i : Fin 512) : Option UInt64 :=
  if has (w (entryAddr t i)) PTE_V then some (PTE2PA (w (entryAddr t i))) else none

def Node.addr (w : UInt64 → UInt64) (pt : UInt64) : Node → Option UInt64
  | .root => some pt
  | .mid i => down w pt i
  | .leaf i j => (down w pt i).bind fun m => down w m j

def Node.child : Node → Fin 512 → Option Node
  | .root,i => some (.mid i)
  | .mid i,j => some (.leaf i j)
  | .leaf _ _,_ => none

def Node.below : Node → Node → Bool
  | .root,_ => true
  | .mid i,.mid i' => i = i'
  | .mid i,.leaf i' _ => i = i'
  | .leaf i j,.leaf i' j' => i = i' && j = j'
  | _,_ => false

section Nodes

variable {w w' : UInt64 → UInt64} {pt : UInt64} {n m c c' : Node} {i j : Fin 512}

theorem addr_child (link : n.child i = some c) : c.addr w pt = (n.addr w pt).bind fun a => down w a i := by
  cases n <;> simp only [Node.child,Option.some.injEq,reduceCtorEq] at link <;> subst link <;> rfl

theorem child_inj (link : n.child i = some c) (link' : m.child j = some c') : c' = c ↔ m = n ∧ j = i := by
  cases n <;> cases m <;> simp only [Node.child,Option.some.injEq,reduceCtorEq] at link link' <;>
    subst link link' <;> simp [and_comm]

theorem child_ne_root (link : n.child i = some c) : c ≠ .root := by
  cases n <;> simp only [Node.child,Option.some.injEq,reduceCtorEq] at link <;> subst link <;> simp

theorem addr_congr (n : Node)
    (same : ∀ (m : Node) (i : Fin 512) (c : Node) (a : UInt64), m.child i = some c → c.below n →
      m.addr w pt = some a → w' (entryAddr a i) = w (entryAddr a i)) :
    n.addr w' pt = n.addr w pt := by
  have top : ∀ i, (Node.mid i).below n → down w' pt i = down w pt i := fun i under => by
    simp only [down,same .root i (.mid i) pt rfl under rfl]
  cases n with
  | root => rfl
  | mid i => exact top i (by simp [Node.below])
  | leaf i j =>
    simp only [Node.addr,top i (by simp [Node.below])]
    cases midAt : down w pt i with
    | none => rfl
    | some a => simp only [Option.bind_some,down,same (.mid i) j (.leaf i j) a rfl (by simp [Node.below]) midAt]

end Nodes

structure Usable (kernelEnd r : UInt64) : Prop where
  aligned : r.toNat % 4096 = 0
  nonzero : r ≠ 0
  above : kernelEnd ≤ r
  below : r < PHYSTOP

def Interior (e : UInt64) : Prop := has e PTE_V = true → e &&& (PTE_R ||| PTE_W ||| PTE_X) = 0

-- The page-table pages of pt: usable, apart from each other and from the free list, and the valid
-- entries of the upper ones lead to tables.
structure Tree (k : Kernel) (pt : UInt64) : Prop where
  placed : ∀ (n : Node) (a : UInt64), n.addr k.words pt = some a → Usable k.config.kernelEnd a
  apart : ∀ (n n' : Node) (a : UInt64), n.addr k.words pt = some a → n'.addr k.words pt = some a → n = n'
  upper : ∀ (n : Node) (i : Fin 512) (c : Node) (a : UInt64), n.child i = some c → n.addr k.words pt = some a → Interior (k.words (entryAddr a i))
  fresh : ∀ r ∈ k.freelist, Usable k.config.kernelEnd r ∧ ∀ n : Node, n.addr k.words pt ≠ some r
  nodup : k.freelist.Nodup

def leafOf (w : UInt64 → UInt64) (pt va : UInt64) : Option UInt64 := (Node.leaf (ix 2 va) (ix 1 va)).addr w pt

def pteAt (w : UInt64 → UInt64) (pt va : UInt64) : UInt64 :=
  ((leafOf w pt va).map fun t => w (entryAddr t (ix 0 va))).getD 0

def Grows (s t : Kernel) (pt : UInt64) : Prop := ∀ (n : Node) (a : UInt64), n.addr s.words pt = some a → n.addr t.words pt = some a

section Map

variable {w : UInt64 → UInt64} {pt va va' : UInt64} {s t u : Kernel}

theorem lookup_eq (w : UInt64 → UInt64) (pt va : UInt64) :
    lookup w pt va = ((leafOf w pt va).map fun t => entryAddr t (ix 0 va)).getD 0 := by
  simp only [lookup,PX_eq_ix,← entryAddr.eq_1,leafOf,Node.addr,down]
  by_cases top : has (w (entryAddr pt (ix 2 va))) PTE_V
  · by_cases mid : has (w (entryAddr (PTE2PA (w (entryAddr pt (ix 2 va)))) (ix 1 va))) PTE_V <;> simp [top,mid]
  · simp [top]

theorem leafOf_of_lookup (found : lookup w pt va ≠ 0) : ∃ l, leafOf w pt va = some l ∧ lookup w pt va = entryAddr l (ix 0 va) := by
  rw [lookup_eq] at found ⊢
  cases leaf : leafOf w pt va with
  | none => simp [leaf] at found
  | some l => exact ⟨l,rfl,rfl⟩

theorem words_lookup (found : lookup w pt va ≠ 0) : w (lookup w pt va) = pteAt w pt va := by
  obtain ⟨l,leaf,slot⟩ := leafOf_of_lookup found
  simp [slot,pteAt,leaf]

theorem Grows.refl (s : Kernel) (pt : UInt64) : Grows s s pt := fun _ _ node => node

theorem Grows.trans (first : Grows s t pt) (second : Grows t u pt) : Grows s u pt :=
  fun n a node => second n a (first n a node)

theorem lookup_grows (grows : Grows s t pt) (found : lookup s.words pt va ≠ 0) : lookup t.words pt va = lookup s.words pt va := by
  obtain ⟨l,leaf,slot⟩ := leafOf_of_lookup found
  rw [slot,lookup_eq,leafOf,grows _ l leaf]
  rfl

theorem ix_of_page (same : va.toNat / 4096 = va'.toNat / 4096) :
    ix 2 va = ix 2 va' ∧ ix 1 va = ix 1 va' ∧ ix 0 va = ix 0 va' := by
  have two : (PXSHIFT 2).toNat % 64 = 30 := by decide
  have one : (PXSHIFT 1).toNat % 64 = 21 := by decide
  have zero : (PXSHIFT 0).toNat % 64 = 12 := by decide
  simp only [ix,Fin.mk.injEq,PX_toNat,two,one,zero]
  omega

theorem toNat_lt_of_MAXVA (below : va < MAXVA) : va.toNat < 2 ^ 39 := by
  have top : MAXVA.toNat = 2 ^ 38 := by decide
  have small := UInt64.lt_iff_toNat_lt.mp below
  omega

theorem page_of_ix (below : va.toNat < 2 ^ 39) (below' : va'.toNat < 2 ^ 39)
    (same : ix 2 va = ix 2 va' ∧ ix 1 va = ix 1 va' ∧ ix 0 va = ix 0 va') : va.toNat / 4096 = va'.toNat / 4096 := by
  have two : (PXSHIFT 2).toNat % 64 = 30 := by decide
  have one : (PXSHIFT 1).toNat % 64 = 21 := by decide
  have zero : (PXSHIFT 0).toNat % 64 = 12 := by decide
  simp only [ix,Fin.mk.injEq,PX_toNat,two,one,zero] at same
  omega

theorem pteAt_page (same : va.toNat / 4096 = va'.toNat / 4096) : pteAt w pt va = pteAt w pt va' := by
  obtain ⟨two,one,zero⟩ := ix_of_page same
  simp only [pteAt,leafOf,two,one,zero]

theorem lookup_page (same : va.toNat / 4096 = va'.toNat / 4096) : lookup w pt va = lookup w pt va' := by
  obtain ⟨two,one,zero⟩ := ix_of_page same
  simp only [lookup_eq,leafOf,two,one,zero]

end Map

theorem entryAddr_ne_zero {kernelEnd t : UInt64} (usable : Usable kernelEnd t) (i : Fin 512) : entryAddr t i ≠ 0 := by
  intro zero
  have numbers := congrArg UInt64.toNat zero
  have positive : t.toNat ≠ 0 := fun same => usable.nonzero (UInt64.toNat_inj.mp same)
  rw [entryAddr_toNat usable.aligned] at numbers
  simp only [UInt64.toNat_zero] at numbers
  omega

def allocAt (s : Kernel) (slot r : UInt64) (rest : List UInt64) : Kernel :=
  ((({s with freelist := rest} : Kernel).memset r 5).memset r 0).setWord slot (PA2PTE r ||| PTE_V)

section Level

variable (s : Kernel) (t va level : UInt64)

@[simp] theorem allocAt_freelist (slot r : UInt64) (rest : List UInt64) : (allocAt s slot r rest).freelist = rest := rfl
@[simp] theorem allocAt_config (slot r : UInt64) (rest : List UInt64) : (allocAt s slot r rest).config = s.config := rfl

theorem allocAt_words (slot r : UInt64) (rest : List UInt64) (a : UInt64) :
    (allocAt s slot r rest).words a = if a = slot then PA2PTE r ||| PTE_V else if samePage r a then 0 else s.words a := by
  have clear : fill 0 = 0 := by decide
  simp only [allocAt,setWord_words,Kernel.memset,clear]
  cases samePage r a <;> rfl

theorem walkLevel_valid (alloc : Bool) (valid : has (s.words (t + 8 * PX level va)) PTE_V = true) :
    walkLevel t va alloc level s = .ok (some (PTE2PA (s.words (t + 8 * PX level va))),s) := by
  simp [walkLevel,valid]

theorem walkLevel_empty (absent : has (s.words (t + 8 * PX level va)) PTE_V = false) (empty : s.freelist = []) :
    walkLevel t va true level s = .ok (none,s) := by
  simp [walkLevel,absent,kalloc,empty]

theorem walkLevel_fresh {r : UInt64} {rest : List UInt64} (absent : has (s.words (t + 8 * PX level va)) PTE_V = false)
    (top : s.freelist = r :: rest) (nonzero : r ≠ 0) :
    walkLevel t va true level s = .ok (some r,allocAt s (t + 8 * PX level va) r rest) := by
  simp [walkLevel,absent,kalloc,top,nonzero,memset,allocAt]
  rfl

end Level

-- walk with alloc links the head r of the free list below entry i of the table of n.
section Alloc

variable {s : Kernel} {pt p r : UInt64} {rest : List UInt64} {n c : Node} {i : Fin 512}
variable (tree : Tree s pt) (top : s.freelist = r :: rest) (parent : n.addr s.words pt = some p)
include tree top parent

theorem alloc_entry {m : Node} {a : UInt64} (node : m.addr s.words pt = some a) (j : Fin 512) :
    (allocAt s (entryAddr p i) r rest).words (entryAddr a j) =
      if m = n ∧ j = i then PA2PTE r ||| PTE_V else s.words (entryAddr a j) := by
  obtain ⟨usable,fresh⟩ := tree.fresh r (by simp [top])
  have aligned := (tree.placed m a node).aligned
  have other : r ≠ a := fun same => fresh m (same ▸ node)
  rw [allocAt_words,samePage_entryAddr usable.aligned aligned,decide_eq_false other]
  by_cases hit : m = n ∧ j = i
  · obtain ⟨rfl,rfl⟩ := hit
    have same : a = p := Option.some.inj (node.symm.trans parent)
    simp [same]
  · have apart : entryAddr a j ≠ entryAddr p i := fun same => by
      obtain ⟨ap,ji⟩ := entryAddr_inj aligned (tree.placed n p parent).aligned same
      exact hit ⟨tree.apart m n p (ap ▸ node) parent,ji⟩
    simp [apart,hit]

theorem alloc_new_entry (j : Fin 512) : (allocAt s (entryAddr p i) r rest).words (entryAddr r j) = 0 := by
  obtain ⟨usable,fresh⟩ := tree.fresh r (by simp [top])
  have apart : entryAddr r j ≠ entryAddr p i :=
    entryAddr_ne_of_ne usable.aligned (tree.placed n p parent).aligned fun same => fresh n (same ▸ parent)
  rw [allocAt_words,if_neg apart,samePage_entryAddr usable.aligned usable.aligned]
  simp

theorem down_alloc {m : Node} {a : UInt64} (node : m.addr s.words pt = some a) (j : Fin 512) :
    down (allocAt s (entryAddr p i) r rest).words a j = if m = n ∧ j = i then some r else down s.words a j := by
  obtain ⟨usable,-⟩ := tree.fresh r (by simp [top])
  unfold down
  rw [alloc_entry tree top parent node j]
  by_cases hit : m = n ∧ j = i
  · simp [hit,has_PA2PTE,PTE2PA_PA2PTE usable.aligned]
  · simp [hit]

theorem down_new (j : Fin 512) : down (allocAt s (entryAddr p i) r rest).words r j = none := by
  simp [down,alloc_new_entry tree top parent j]

variable (link : n.child i = some c) (absent : has (s.words (entryAddr p i)) PTE_V = false)
include link absent

omit tree top in
theorem child_absent : c.addr s.words pt = none := by
  rw [addr_child link,parent]
  simp [down,absent]

theorem addr_alloc (m : Node) :
    m.addr (allocAt s (entryAddr p i) r rest).words pt = if m = c then some r else m.addr s.words pt := by
  have rootAt : Node.root.addr s.words pt = some pt := rfl
  cases m with
  | root => rw [if_neg (child_ne_root link).symm]; rfl
  | mid i' =>
    have iff := child_inj link (rfl : Node.root.child i' = some (.mid i'))
    rw [Node.addr,down_alloc tree top parent rootAt i']
    by_cases hit : Node.root = n ∧ i' = i
    · rw [if_pos hit,if_pos (iff.mpr hit)]
    · rw [if_neg hit,if_neg fun same => hit (iff.mp same)]
      rfl
  | leaf i' j =>
    have iff := child_inj link (rfl : (Node.mid i').child j = some (.leaf i' j))
    simp only [Node.addr]
    rw [down_alloc tree top parent rootAt i']
    by_cases hit : Node.root = n ∧ i' = i
    · -- mid i' is the new table, which has no valid entry yet
      have isChild : Node.mid i' = c := (child_inj link rfl).mpr hit
      have other : Node.leaf i' j ≠ c := fun same => by rw [← isChild] at same; cases same
      have old : down s.words pt i' = none := by
        rw [← child_absent parent link absent,← isChild]
        rfl
      rw [if_pos hit,if_neg other,old,Option.bind_some,down_new tree top parent]
      rfl
    · rw [if_neg hit]
      cases midAt : down s.words pt i' with
      | none =>
        have other : Node.leaf i' j ≠ c := fun same => by
          obtain ⟨rfl,-⟩ := iff.mp same
          change down s.words pt i' = some p at parent
          rw [midAt] at parent
          cases parent
        rw [if_neg other]
        rfl
      | some a =>
        simp only [Option.bind_some]
        rw [down_alloc tree top parent (m := .mid i') midAt j]
        by_cases hit' : Node.mid i' = n ∧ j = i
        · rw [if_pos hit',if_pos (iff.mpr hit')]
        · rw [if_neg hit',if_neg fun same => hit' (iff.mp same)]

theorem Tree.alloc : Tree (allocAt s (entryAddr p i) r rest) pt := by
  obtain ⟨usable,fresh⟩ := tree.fresh r (by simp [top])
  have addrs := addr_alloc tree top parent link absent
  have tail : r ∉ rest ∧ rest.Nodup := List.nodup_cons.mp (top ▸ tree.nodup)
  constructor
  case placed =>
    intro m a node
    rw [addrs] at node
    split_ifs at node with hm
    · cases node
      exact usable
    · exact tree.placed m a node
  case apart =>
    intro m m' a node node'
    rw [addrs] at node node'
    split_ifs at node node' with hm hm'
    · rw [hm,hm']
    · cases node
      exact absurd node' (fresh m')
    · cases node'
      exact absurd node (fresh m)
    · exact tree.apart m m' a node node'
  case upper =>
    intro m j c' a link' node
    rw [addrs] at node
    split_ifs at node with hm
    · cases node
      rw [alloc_new_entry tree top parent j]
      intro valid
      simp at valid
    · rw [alloc_entry tree top parent node j]
      split_ifs with hit
      · exact fun _ => PA2PTE_leafBits r
      · exact tree.upper m j c' a link' node
  case fresh =>
    intro r' mem
    obtain ⟨usable',fresh'⟩ := tree.fresh r' (by rw [top]; exact List.mem_cons_of_mem r mem)
    refine ⟨usable',fun m node => ?_⟩
    rw [addrs] at node
    split_ifs at node with hm
    · cases node
      exact tail.1 mem
    · exact fresh' m node
  case nodup => exact tail.2

theorem grows_alloc : Grows s (allocAt s (entryAddr p i) r rest) pt := by
  intro m a node
  rw [addr_alloc tree top parent link absent,if_neg]
  · exact node
  · rintro rfl
    rw [child_absent parent link absent] at node
    cases node

theorem pteAt_alloc (va : UInt64) : pteAt (allocAt s (entryAddr p i) r rest).words pt va = pteAt s.words pt va := by
  unfold pteAt leafOf
  rw [addr_alloc tree top parent link absent]
  split_ifs with hm
  · rw [hm,child_absent parent link absent]
    simp [alloc_new_entry tree top parent]
  · cases node : (Node.leaf (ix 2 va) (ix 1 va)).addr s.words pt with
    | none => rfl
    | some l =>
      simp only [Option.map_some,Option.getD_some]
      rw [alloc_entry tree top parent node,if_neg]
      rintro ⟨rfl,-⟩
      simp [Node.child] at link

end Alloc

section Walk

variable {s : Kernel} {pt va va' : UInt64}

theorem walkLevel_tree {p level : UInt64} {n c : Node} (tree : Tree s pt) (parent : n.addr s.words pt = some p)
    (link : n.child (ix level va) = some c) :
    ∃ t, walkLevel p va true level s = .ok (c.addr t.words pt,t) ∧ Tree t pt ∧ Grows s t pt ∧
      (∀ va', pteAt t.words pt va' = pteAt s.words pt va') ∧ t.config = s.config ∧
      (∃ d ≤ 1, t.freelist = s.freelist.drop d) ∧ (c.addr t.words pt = none → s.freelist = []) := by
  have slot : p + 8 * PX level va = entryAddr p (ix level va) := by rw [PX_eq_ix]; rfl
  cases valid : has (s.words (entryAddr p (ix level va))) PTE_V with
  | true =>
    have found : c.addr s.words pt = some (PTE2PA (s.words (entryAddr p (ix level va)))) := by
      rw [addr_child link,parent]
      simp [down,valid]
    refine ⟨s,?_,tree,Grows.refl s pt,fun _ => rfl,rfl,⟨0,by omega,rfl⟩,fun none => ?_⟩
    · rw [walkLevel_valid _ _ _ _ true (by rw [slot]; exact valid),found,slot]
    · rw [found] at none
      cases none
  | false =>
    cases list : s.freelist with
    | nil =>
      refine ⟨s,?_,tree,Grows.refl s pt,fun _ => rfl,rfl,⟨0,by omega,by simp [list]⟩,fun _ => rfl⟩
      rw [walkLevel_empty _ _ _ _ (by rw [slot]; exact valid) list,child_absent parent link valid]
    | cons r rest =>
      have usable := (tree.fresh r (by simp [list])).1
      have made := addr_alloc tree list parent link valid c
      rw [if_pos rfl] at made
      refine ⟨allocAt s (entryAddr p (ix level va)) r rest,?_,tree.alloc list parent link valid,
        grows_alloc tree list parent link valid,pteAt_alloc tree list parent link valid,rfl,⟨1,le_refl 1,by simp⟩,
        fun none => ?_⟩
      · rw [walkLevel_fresh _ _ _ _ (by rw [slot]; exact valid) list usable.nonzero,made,slot]
      · rw [made] at none
        cases none

theorem walk_tree (tree : Tree s pt) (below : va < MAXVA) :
    ∃ t, walk pt va true s = .ok (lookup t.words pt va,t) ∧ Tree t pt ∧ Grows s t pt ∧
      (∀ va', pteAt t.words pt va' = pteAt s.words pt va') ∧ t.config = s.config ∧
      (∃ d ≤ 2, t.freelist = s.freelist.drop d) ∧ (lookup t.words pt va = 0 → s.freelist.length < 2) := by
  have inside : ¬ MAXVA ≤ va := UInt64.not_le.mpr below
  obtain ⟨t,run,tree',grows,same,config,⟨d,few,drop⟩,short⟩ :=
    walkLevel_tree (n := .root) (c := .mid (ix 2 va)) tree rfl rfl
  simp only [walk,inside,if_false,bind_of_ok run]
  cases midAt : (Node.mid (ix 2 va)).addr t.words pt with
  | none =>
    have missing : lookup t.words pt va = 0 := by
      simp only [lookup_eq,leafOf,Node.addr]
      simp only [Node.addr] at midAt
      simp [midAt]
    refine ⟨t,?_,tree',grows,same,config,⟨d,by omega,drop⟩,fun _ => by simp [short midAt]⟩
    rw [missing]
    rfl
  | some m =>
    obtain ⟨u,run',tree'',grows',same',config',⟨d',few',drop'⟩,short'⟩ :=
      walkLevel_tree (n := .mid (ix 2 va)) (c := .leaf (ix 2 va) (ix 1 va)) tree' midAt rfl
    have leafAt : leafOf u.words pt va = (Node.leaf (ix 2 va) (ix 1 va)).addr u.words pt := rfl
    refine ⟨u,?_,tree'',grows.trans grows',fun va' => (same' va').trans (same va'),config'.trans config,
      ⟨d + d',by omega,by rw [drop',drop,List.drop_drop]⟩,fun zero => ?_⟩
    · simp only [bind_of_ok run']
      cases node : (Node.leaf (ix 2 va) (ix 1 va)).addr u.words pt with
      | none => simp [lookup_eq,leafAt,node]
      | some l => simp [lookup_eq,leafAt,node,entryAddr,PX_eq_ix]
    · cases node : (Node.leaf (ix 2 va) (ix 1 va)).addr u.words pt with
      | none =>
        have empty := short' node
        rw [drop,List.drop_eq_nil_iff] at empty
        omega
      | some l =>
        rw [lookup_eq,leafAt,node] at zero
        exact absurd zero (entryAddr_ne_zero (tree''.placed _ l node) _)

theorem walk_found (alloc : Bool) (below : va < MAXVA) (found : lookup s.words pt va ≠ 0) :
    walk pt va alloc s = .ok (lookup s.words pt va,s) := by
  have inside : ¬ MAXVA ≤ va := UInt64.not_le.mpr below
  have top : has (s.words (pt + 8 * PX 2 va)) PTE_V = true := by
    by_contra invalid
    exact found (by simp [lookup,invalid])
  have mid : has (s.words (PTE2PA (s.words (pt + 8 * PX 2 va)) + 8 * PX 1 va)) PTE_V = true := by
    by_contra invalid
    exact found (by simp [lookup,top,invalid])
  simp only [walk,inside,if_false,bind_of_ok (walkLevel_valid _ _ _ _ alloc top),
    bind_of_ok (walkLevel_valid _ _ _ _ alloc mid)]
  simp [lookup,top,mid]

theorem walk_slot_stays (tree : Tree s pt) (below : va < MAXVA) :
    ∃ t, walk pt va true s = .ok (lookup t.words pt va,t) ∧ Tree t pt ∧ Grows s t pt ∧
      (lookup t.words pt va = 0 → s.freelist.length < 2) ∧
      ∀ u, Grows t u pt → ∀ va' : UInt64, va'.toNat / 4096 = va.toNat / 4096 → ∀ alloc, lookup t.words pt va ≠ 0 →
        walk pt va' alloc u = .ok (lookup t.words pt va,u) := by
  obtain ⟨t,run,tree',grows,-,-,-,short⟩ := walk_tree tree below
  refine ⟨t,run,tree',grows,short,fun u later va' page alloc found => ?_⟩
  have top : MAXVA.toNat = 2 ^ 38 := by decide
  have small := UInt64.lt_iff_toNat_lt.mp below
  have below' : va' < MAXVA := UInt64.lt_iff_toNat_lt.mpr (by omega)
  have same : lookup u.words pt va' = lookup t.words pt va := by
    rw [lookup_page page,lookup_grows later found]
  rw [walk_found alloc below' (same ▸ found),same]

theorem Tree.upper_ne_leaf (tree : Tree s pt) {n c : Node} {i j : Fin 512} {b l : UInt64} (link : n.child i = some c)
    (node : n.addr s.words pt = some b) (leaf : leafOf s.words pt va = some l) : entryAddr b i ≠ entryAddr l j := by
  intro same
  obtain ⟨bl,-⟩ := entryAddr_inj (tree.placed n b node).aligned (tree.placed _ l leaf).aligned same
  rw [bl] at node
  have leafNode := tree.apart n _ l node leaf
  subst leafNode
  simp [Node.child] at link

theorem lookup_apart (tree : Tree s pt) (below : va < MAXVA) (below' : va' < MAXVA)
    (pages : va.toNat / 4096 ≠ va'.toNat / 4096) (found : lookup s.words pt va ≠ 0) :
    lookup s.words pt va ≠ lookup s.words pt va' := by
  intro same
  have found' : lookup s.words pt va' ≠ 0 := same ▸ found
  obtain ⟨l,leaf,slot⟩ := leafOf_of_lookup found
  obtain ⟨l',leaf',slot'⟩ := leafOf_of_lookup found'
  rw [slot,slot'] at same
  obtain ⟨ll,zero⟩ := entryAddr_inj (tree.placed _ l leaf).aligned (tree.placed _ l' leaf').aligned same
  rw [ll] at leaf
  have nodes := tree.apart _ _ l' leaf leaf'
  simp only [Node.leaf.injEq] at nodes
  exact pages (page_of_ix (toNat_lt_of_MAXVA below) (toNat_lt_of_MAXVA below') ⟨nodes.1,nodes.2,zero⟩)

end Walk

-- A store to the leaf entry of a: mappages's and uvmunmap's only write.
section Store

variable {s : Kernel} {pt a : UInt64} (tree : Tree s pt) (found : lookup s.words pt a ≠ 0)
include tree found

theorem addr_store (v : UInt64) (n : Node) : n.addr (s.setWord (lookup s.words pt a) v).words pt = n.addr s.words pt := by
  obtain ⟨l,leaf,slot⟩ := leafOf_of_lookup found
  apply addr_congr
  intro m i c b link _ node
  rw [setWord_words,slot,if_neg (tree.upper_ne_leaf link node leaf)]

theorem Tree.store (v : UInt64) : Tree (s.setWord (lookup s.words pt a) v) pt := by
  have addrs := addr_store tree found v
  obtain ⟨l,leaf,slot⟩ := leafOf_of_lookup found
  constructor
  case placed =>
    intro n b node
    rw [addrs] at node
    exact tree.placed n b node
  case apart =>
    intro n n' b node node'
    rw [addrs] at node node'
    exact tree.apart n n' b node node'
  case upper =>
    intro n i c b link node
    rw [addrs] at node
    rw [setWord_words,slot,if_neg (tree.upper_ne_leaf link node leaf)]
    exact tree.upper n i c b link node
  case fresh =>
    intro r mem
    obtain ⟨usable,fresh⟩ := tree.fresh r mem
    exact ⟨usable,fun n node => fresh n (by rwa [addrs] at node)⟩
  case nodup => exact tree.nodup

theorem grows_store (v : UInt64) : Grows s (s.setWord (lookup s.words pt a) v) pt := by
  intro n b node
  rwa [addr_store tree found v]

theorem pteAt_store (below : a.toNat < 2 ^ 39) (v : UInt64) {va : UInt64} (below' : va.toNat < 2 ^ 39) :
    pteAt (s.setWord (lookup s.words pt a) v).words pt va =
      if va.toNat / 4096 = a.toNat / 4096 then v else pteAt s.words pt va := by
  obtain ⟨l,leaf,slot⟩ := leafOf_of_lookup found
  have sameLeaf : leafOf (s.setWord (lookup s.words pt a) v).words pt va = leafOf s.words pt va :=
    addr_store tree found v _
  unfold pteAt
  rw [sameLeaf]
  by_cases page : va.toNat / 4096 = a.toNat / 4096
  · obtain ⟨two,one,zero⟩ := ix_of_page page
    have here : leafOf s.words pt va = some l := by
      rw [← leaf]
      simp only [leafOf,two,one]
    simp [here,zero,slot,page]
  · rw [if_neg page]
    cases other : leafOf s.words pt va with
    | none => rfl
    | some t =>
      simp only [Option.map_some,Option.getD_some,setWord_words]
      rw [if_neg]
      intro same
      rw [slot] at same
      obtain ⟨tl,zero⟩ := entryAddr_inj (tree.placed _ t other).aligned (tree.placed _ l leaf).aligned same
      rw [tl] at other
      have nodes := tree.apart _ _ l other leaf
      simp only [Node.leaf.injEq] at nodes
      exact page (page_of_ix below' below ⟨nodes.1,nodes.2,zero⟩)

end Store

def InRange (first : UInt64) (n : Nat) (va : UInt64) : Prop :=
  first.toNat / 4096 ≤ va.toNat / 4096 ∧ va.toNat / 4096 ≤ first.toNat / 4096 + n

instance (first : UInt64) (n : Nat) (va : UInt64) : Decidable (InRange first n va) :=
  inferInstanceAs (Decidable (_ ∧ _))

def frameOf (first pa va : UInt64) : UInt64 := pa + PGSIZE * (va.toNat / 4096 - first.toNat / 4096).toUInt64

-- What mapping the pages first .. first + n may end in: all mapped to consecutive frames, none valid
-- before; -1 when the free list could not hold the tables; the remap panic at a valid page.
def MapOutcome (s : Kernel) (pt first : UInt64) (n : Nat) (pa perm : UInt64) : Except String (Int × Kernel) → Prop
  | .ok (r,t) => Tree t pt ∧ Grows s t pt ∧ t.config = s.config ∧
    ((r = 0 ∧ (∀ va < MAXVA, InRange first n va → has (pteAt s.words pt va) PTE_V = false) ∧
      ∀ va < MAXVA, pteAt t.words pt va =
        if InRange first n va then PA2PTE (frameOf first pa va) ||| perm ||| PTE_V else pteAt s.words pt va) ∨
     (r = -1 ∧ s.freelist.length < 2 * (n + 1)))
  | .error e => e = "remap" ∧ ∃ va < MAXVA, InRange first n va ∧ has (pteAt s.words pt va) PTE_V = true

section Mappages

variable {s t : Kernel} {pt a pa perm last : UInt64}

theorem frameOf_first {va : UInt64} (here : va.toNat / 4096 = a.toNat / 4096) : frameOf a pa va = pa := by
  simp [frameOf,here]

theorem frameOf_next {a' va : UInt64} (next : a'.toNat = a.toNat + 4096) (inside : a.toNat / 4096 < va.toNat / 4096) :
    frameOf a' (pa + PGSIZE) va = frameOf a pa va := by
  have count : va.toNat / 4096 - a.toNat / 4096 = (va.toNat / 4096 - a'.toNat / 4096) + 1 := by omega
  unfold frameOf
  rw [count]
  simp only [Nat.toUInt64_eq,UInt64.ofNat_add,UInt64.ofNat_one]
  rw [UInt64.mul_add,UInt64.mul_one,UInt64.add_assoc,UInt64.add_comm PGSIZE]

theorem MapOutcome.short {n : Nat} (tree : Tree t pt) (grows : Grows s t pt) (config : t.config = s.config)
    (short : s.freelist.length < 2) : MapOutcome s pt a n pa perm (.ok (-1,t)) :=
  ⟨tree,grows,config,.inr ⟨rfl,by omega⟩⟩

theorem MapOutcome.remap {n : Nat} (below : a < MAXVA) (valid : has (pteAt s.words pt a) PTE_V = true) :
    MapOutcome s pt a n pa perm (.error "remap") :=
  ⟨rfl,a,below,⟨le_refl _,by omega⟩,valid⟩

theorem MapOutcome.remap_iff {n : Nat} {res : Except String (Int × Kernel)} (outcome : MapOutcome s pt a n pa perm res)
    (enough : 2 * (n + 1) ≤ s.freelist.length) :
    res = .error "remap" ↔ ∃ va < MAXVA, InRange a n va ∧ has (pteAt s.words pt va) PTE_V = true := by
  cases res with
  | error e =>
    obtain ⟨remap,valid⟩ := outcome
    rw [remap]
    exact ⟨fun _ => valid,fun _ => rfl⟩
  | ok result =>
    obtain ⟨r,t⟩ := result
    obtain ⟨-,-,-,⟨-,free,-⟩ | ⟨-,short⟩⟩ := outcome
    · refine ⟨fun wrong => (by cases wrong),fun ⟨va,below,inside,valid⟩ => ?_⟩
      rw [free va below inside] at valid
      cases valid
    · omega

theorem mappagesLoop_step {k : Nat} (run : walk pt a true s = .ok (lookup t.words pt a,t))
    (same : pteAt t.words pt a = pteAt s.words pt a) :
    mappagesLoop pt last perm (k + 1) a pa s =
      if lookup t.words pt a = 0 then .ok (-1,t)
      else if has (pteAt s.words pt a) PTE_V then .error "remap"
      else if a = last then .ok (0,t.setWord (lookup t.words pt a) (PA2PTE pa ||| perm ||| PTE_V))
      else mappagesLoop pt last perm k (a + PGSIZE) (pa + PGSIZE) (t.setWord (lookup t.words pt a) (PA2PTE pa ||| perm ||| PTE_V)) := by
  simp only [mappagesLoop,bind_of_ok run]
  by_cases zero : lookup t.words pt a = 0
  · simp [zero]
  · have entry : t.words (lookup t.words pt a) = pteAt s.words pt a := (words_lookup zero).trans same
    by_cases valid : has (pteAt s.words pt a) PTE_V
    · simp [zero,loadPte,entry,valid]
    · by_cases isLast : a = last
      · subst isLast
        simp [zero,loadPte,storePte,entry,valid]
        rfl
      · simp [zero,loadPte,storePte,entry,valid,isLast]

theorem MapOutcome.cons {n : Nat} {res : Except String (Int × Kernel)} (grows : Grows s t pt) (config : t.config = s.config)
    (free : has (pteAt s.words pt a) PTE_V = false)
    (stored : ∀ va < MAXVA, pteAt t.words pt va =
      if va.toNat / 4096 = a.toNat / 4096 then PA2PTE pa ||| perm ||| PTE_V else pteAt s.words pt va)
    (used : s.freelist.length ≤ t.freelist.length + 2) {a' : UInt64} (next : a'.toNat = a.toNat + 4096)
    (rest : MapOutcome t pt a' n (pa + PGSIZE) perm res) : MapOutcome s pt a (n + 1) pa perm res := by
  have step : a'.toNat / 4096 = a.toNat / 4096 + 1 := by omega
  cases res with
  | error e =>
    obtain ⟨remap,va,below,inside,valid⟩ := rest
    unfold InRange at inside
    have other : va.toNat / 4096 ≠ a.toNat / 4096 := by omega
    rw [stored va below,if_neg other] at valid
    exact ⟨remap,va,below,by unfold InRange; omega,valid⟩
  | ok result =>
    obtain ⟨r,u⟩ := result
    obtain ⟨tree,grows',config',outcome⟩ := rest
    refine ⟨tree,grows.trans grows',config'.trans config,?_⟩
    rcases outcome with ⟨rfl,free',mapped⟩ | ⟨rfl,short⟩
    · refine .inl ⟨rfl,fun va below inside => ?_,fun va below => ?_⟩
      · by_cases here : va.toNat / 4096 = a.toNat / 4096
        · rw [pteAt_page here]
          exact free
        · unfold InRange at inside
          have later := free' va below (by unfold InRange; omega)
          rwa [stored va below,if_neg here] at later
      · rw [mapped va below,stored va below]
        by_cases here : va.toNat / 4096 = a.toNat / 4096
        · rw [if_neg (by unfold InRange; omega),if_pos here,if_pos (by unfold InRange; omega),frameOf_first here]
        · by_cases inside : InRange a' n va
          · have inside' : InRange a (n + 1) va := by unfold InRange at inside ⊢; omega
            unfold InRange at inside
            rw [if_pos (by unfold InRange; omega),if_pos inside',frameOf_next next (by omega)]
          · have outside : ¬ InRange a (n + 1) va := by unfold InRange at inside ⊢; omega
            rw [if_neg inside,if_neg here,if_neg outside]
    · exact .inr ⟨rfl,by omega⟩

-- The outcome is named res, so that the loop is never unfolded inside MapOutcome.
theorem mappagesLoop_tree (n : Nat) :
    ∀ a pa s res, Tree s pt → a.toNat % 4096 = 0 → a.toNat + n * 4096 < MAXVA.toNat → last.toNat = a.toNat + n * 4096 →
      mappagesLoop pt last perm (n + 1) a pa s = res → MapOutcome s pt a n pa perm res := by
  induction n with
  | zero =>
    intro a pa s res tree aligned room ends ran
    have below : a < MAXVA := UInt64.lt_iff_toNat_lt.mpr (by omega)
    obtain ⟨t,run,tree',grows,same,config,-,short⟩ := walk_tree tree below
    rw [mappagesLoop_step run (same a)] at ran
    split_ifs at ran with zero valid isLast
    · subst ran
      exact MapOutcome.short tree' grows config (short zero)
    · subst ran
      exact MapOutcome.remap below valid
    · -- the one page of the range
      subst ran
      refine ⟨Tree.store tree' zero _,grows.trans (grows_store tree' zero _),config,
        .inl ⟨rfl,fun va below' inside => ?_,fun va below' => ?_⟩⟩
      · unfold InRange at inside
        rw [pteAt_page (by omega : va.toNat / 4096 = a.toNat / 4096)]
        simpa using valid
      · rw [pteAt_store tree' zero (toNat_lt_of_MAXVA below) _ (toNat_lt_of_MAXVA below'),same va]
        by_cases here : va.toNat / 4096 = a.toNat / 4096
        · rw [if_pos here,if_pos (by unfold InRange; omega),frameOf_first here]
        · rw [if_neg here,if_neg (by unfold InRange; omega)]
    · exact absurd (UInt64.toNat_inj.mp (by omega)) isLast
  | succ n ih =>
    intro a pa s res tree aligned room ends ran
    have below : a < MAXVA := UInt64.lt_iff_toNat_lt.mpr (by omega)
    obtain ⟨t,run,tree',grows,same,config,⟨d,few,drop⟩,short⟩ := walk_tree tree below
    rw [mappagesLoop_step run (same a)] at ran
    split_ifs at ran with zero valid isLast
    · subst ran
      exact MapOutcome.short tree' grows config (short zero)
    · subst ran
      exact MapOutcome.remap below valid
    · subst isLast
      omega
    · have next : (a + PGSIZE).toNat = a.toNat + 4096 := by
        have top : MAXVA.toNat = 2 ^ 38 := by decide
        rw [UInt64.toNat_add]
        simp only [PGSIZE,UInt64.reduceToNat]
        omega
      have used : s.freelist.length ≤ (t.setWord (lookup t.words pt a) (PA2PTE pa ||| perm ||| PTE_V)).freelist.length + 2 := by
        rw [setWord_freelist,drop,List.length_drop]
        omega
      have rest := ih (a + PGSIZE) (pa + PGSIZE) _ res (Tree.store tree' zero (PA2PTE pa ||| perm ||| PTE_V))
        (by rw [next]; omega) (by rw [next]; omega) (by rw [next]; omega) ran
      exact MapOutcome.cons (grows.trans (grows_store tree' zero _)) config (by simpa using valid)
        (fun va below' => by rw [pteAt_store tree' zero (toNat_lt_of_MAXVA below) _ (toNat_lt_of_MAXVA below'),same va])
        used next rest

def lastPage (va size : UInt64) : Nat := (va.toNat + size.toNat - 1) / 4096 - va.toNat / 4096

theorem mappages_tree {va size : UInt64} {res : Except String (Int × Kernel)} (tree : Tree s pt) (nonempty : 0 < size)
    (room : va.toNat + size.toNat ≤ MAXVA.toNat) (ran : mappages pt va size pa perm s = res) :
    MapOutcome s pt (PGROUNDDOWN va) (lastPage va size) pa perm res := by
  unfold lastPage
  have top : MAXVA.toNat = 2 ^ 38 := by decide
  have positive := UInt64.lt_iff_toNat_lt.mp nonempty
  simp only [UInt64.toNat_zero] at positive
  have sum : (va + size).toNat = va.toNat + size.toNat := by
    rw [UInt64.toNat_add]
    omega
  have ending : (va + size - 1).toNat = va.toNat + size.toNat - 1 := by
    rw [UInt64.toNat_sub_of_le _ _ (UInt64.le_iff_toNat_le.mpr (by simp only [UInt64.toNat_one]; omega)),sum]
    rfl
  have first := PGROUNDDOWN_toNat va
  have last := PGROUNDDOWN_toNat (va + size - 1)
  rw [ending] at last
  have ordered : PGROUNDDOWN va ≤ PGROUNDDOWN (va + size - 1) := by
    rw [UInt64.le_iff_toNat_le,first,last]
    apply Nat.mul_le_mul_right
    omega
  have count : ((PGROUNDDOWN (va + size - 1) - PGROUNDDOWN va) / PGSIZE).toNat =
      (va.toNat + size.toNat - 1) / 4096 - va.toNat / 4096 := by
    rw [UInt64.toNat_div,UInt64.toNat_sub_of_le _ _ ordered,first,last]
    simp only [PGSIZE,UInt64.reduceToNat]
    omega
  unfold mappages at ran
  rw [count] at ran
  exact mappagesLoop_tree _ _ _ _ _ tree (by omega) (by omega) (by omega) ran

end Mappages

theorem Tree.root_only {s : Kernel} {pt : UInt64} (blank : ∀ i, has (s.words (entryAddr pt i)) PTE_V = false)
    (usable : Usable s.config.kernelEnd pt) (fresh : ∀ r ∈ s.freelist, Usable s.config.kernelEnd r ∧ r ≠ pt)
    (nodup : s.freelist.Nodup) : Tree s pt := by
  have only : ∀ (n : Node) (a : UInt64), n.addr s.words pt = some a → n = .root ∧ a = pt := by
    intro n a node
    cases n with
    | root => exact ⟨rfl,(Option.some.inj node).symm⟩
    | mid i => simp [Node.addr,down,blank] at node
    | leaf i j => simp [Node.addr,down,blank] at node
  refine ⟨fun n a node => ?_,fun n n' a node node' => ?_,fun n i c a _ node => ?_,fun r mem => ?_,nodup⟩
  · rw [(only n a node).2]
    exact usable
  · rw [(only n a node).1,(only n' a node').1]
  · rw [(only n a node).2,Interior,blank i]
    intro wrong
    cases wrong
  · exact ⟨(fresh r mem).1,fun n node => (fresh r mem).2 (only n r node).2⟩

theorem uvmcreate_tree {s : Kernel} {r : UInt64} {rest : List UInt64} (top : s.freelist = r :: rest)
    (usable : ∀ x ∈ s.freelist, Usable s.config.kernelEnd x) (nodup : s.freelist.Nodup) :
    ∃ t, uvmcreate s = .ok (r,t) ∧ Tree t r ∧ t.freelist = rest := by
  have head := usable r (by simp [top])
  have tail : r ∉ rest ∧ rest.Nodup := List.nodup_cons.mp (top ▸ nodup)
  have clear : fill 0 = 0 := by decide
  refine ⟨((({s with freelist := rest} : Kernel).memset r 5).memset r 0),?_,Tree.root_only (fun i => ?_) head
    (fun x mem => ⟨usable x (by rw [top]; exact List.mem_cons_of_mem r mem),fun same => tail.1 (same ▸ mem)⟩) tail.2,rfl⟩
  · simp [uvmcreate,kalloc,top,head.nonzero,memset]
    rfl
  · simp [Kernel.memset,samePage_entryAddr head.aligned head.aligned,clear]

end Xv6
