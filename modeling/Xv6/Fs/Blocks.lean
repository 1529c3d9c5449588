import Xv6.Fs.SwapFile
import Xv6.Fs.Tree
import Xv6.Lib.Bytes
import Xv6.Lib.Alloc

namespace Xv6

namespace Block

open Frame

-- kernel/fs.c below the inode layer, with the buffer cache and the log taken as a block store:
-- a block is read as bytes or, as an indirect block, as uint addresses; bzero clears both.
structure Store where
  data : Nat → Nat → UInt8
  words : Nat → Nat → Nat
  marked : Nat → Bool
  size : Nat
  addrs : Nat → Nat

abbrev BM := StateT Store (Except String)

def Store.setAddr (s : Store) (k b : Nat) : Store := {s with addrs := Function.update s.addrs k b}

def Store.setWord (s : Store) (blk j b : Nat) : Store :=
  {s with words := Function.update s.words blk (Function.update (s.words blk) j b)}

-- balloc's effect on block b: its bitmap bit set, then bzero.
def Store.claim (s : Store) (b : Nat) : Store :=
  {s with
    marked := Function.update s.marked b true
    data := Function.update s.data b fun _ => 0
    words := Function.update s.words b fun _ => 0}

-- m bytes copied into block b at offset off, then log_write.
def Store.writeBlock (s : Store) (b off m : Nat) (src : Nat → UInt8) : Store :=
  {s with data := Function.update s.data b (Bytes.put (s.data b) off m src)}

@[simp] theorem Store.setAddr_size (s : Store) (k b : Nat) : (s.setAddr k b).size = s.size := rfl
@[simp] theorem Store.setAddr_marked (s : Store) (k b : Nat) : (s.setAddr k b).marked = s.marked := rfl
@[simp] theorem Store.setAddr_data (s : Store) (k b : Nat) : (s.setAddr k b).data = s.data := rfl
@[simp] theorem Store.setWord_size (s : Store) (blk j b : Nat) : (s.setWord blk j b).size = s.size := rfl
@[simp] theorem Store.setWord_marked (s : Store) (blk j b : Nat) : (s.setWord blk j b).marked = s.marked := rfl
@[simp] theorem Store.setWord_data (s : Store) (blk j b : Nat) : (s.setWord blk j b).data = s.data := rfl
@[simp] theorem Store.setWord_addrs (s : Store) (blk j b : Nat) : (s.setWord blk j b).addrs = s.addrs := rfl
@[simp] theorem Store.claim_size (s : Store) (b : Nat) : (s.claim b).size = s.size := rfl
@[simp] theorem Store.claim_addrs (s : Store) (b : Nat) : (s.claim b).addrs = s.addrs := rfl
@[simp] theorem Store.claim_marked (s : Store) (b : Nat) :
    (s.claim b).marked = Function.update s.marked b true := rfl
@[simp] theorem Store.writeBlock_size (s : Store) (b off m : Nat) (src : Nat → UInt8) :
    (s.writeBlock b off m src).size = s.size := rfl
@[simp] theorem Store.writeBlock_marked (s : Store) (b off m : Nat) (src : Nat → UInt8) :
    (s.writeBlock b off m src).marked = s.marked := rfl
@[simp] theorem Store.writeBlock_addrs (s : Store) (b off m : Nat) (src : Nat → UInt8) :
    (s.writeBlock b off m src).addrs = s.addrs := rfl
@[simp] theorem Store.writeBlock_words (s : Store) (b off m : Nat) (src : Nat → UInt8) :
    (s.writeBlock b off m src).words = s.words := rfl

-- The bitmap scan over blocks 0 .. sb.size - 1; FSSIZE is below BPB, so within one bitmap block.
def balloc : BM Nat := do
  let s ← get
  match (List.range FSSIZE).find? fun b => !s.marked b with
  | none => throw "balloc: out of blocks"
  | some b =>
    set (s.claim b)
    return b

-- if((addr = slot) == 0) slot = addr = balloc(dev), for a direct address, the indirect block and an entry.
def fill (read : Store → Nat) (write : Nat → Store → Store) : BM Nat := do
  let addr := read (← get)
  if addr = 0 then
    let addr ← balloc
    modify (write addr)
    return addr
  else
    return addr

def bmap (bn : Nat) : BM Nat := do
  if bn < NDIRECT then
    fill (·.addrs bn) fun b s => s.setAddr bn b
  else if bn - NDIRECT < NINDIRECT then
    let ind ← fill (·.addrs NDIRECT) fun b s => s.setAddr NDIRECT b
    fill (·.words ind (bn - NDIRECT)) fun b s => s.setWord ind (bn - NDIRECT) b
  else
    throw "bmap: out of range"

-- What bmap answers where it allocates nothing: 0 where it would allocate.
def Store.blockAt (s : Store) (bn : Nat) : Nat :=
  if bn < NDIRECT then s.addrs bn
  else if bn < MAXFILE ∧ s.addrs NDIRECT ≠ 0 then s.words (s.addrs NDIRECT) (bn - NDIRECT)
  else 0

-- The blocks the inode holds by logical number, and its indirect block in slot MAXFILE.
def Store.refAt (s : Store) (k : Nat) : Nat := if k = MAXFILE then s.addrs NDIRECT else s.blockAt k

def Store.contents (s : Store) (i : Nat) : UInt8 := s.data (s.blockAt (i / BSIZE)) (i % BSIZE)

structure Inv (s : Store) : Prop where
  boot : s.marked 0 = true
  owned : Alloc.Owned s.refAt s.marked
  filled : ∀ bn, bn * BSIZE < s.size → s.blockAt bn ≠ 0
  sized : s.size ≤ MAXFILE * BSIZE

-- The slots a file of upto bytes fills, the indirect block once it is past the direct ones.
def span (upto : Nat) : List Nat :=
  List.range ((upto + BSIZE - 1) / BSIZE) ++ if NDIRECT * BSIZE < upto then [MAXFILE] else []

-- A free block for every slot of a file of upto bytes that the inode does not hold yet.
def Room (upto : Nat) (s : Store) : Prop :=
  (span upto).length ≤ Alloc.freeCount s.marked FSSIZE + Alloc.refCount s.refAt (span upto)

variable {upto : Nat}

theorem mem_span {bn : Nat} (held : bn * BSIZE < upto) : bn ∈ span upto := by
  simp only [span,List.mem_append,List.mem_range]
  left
  simp only [BSIZE] at *
  omega

theorem indirect_mem_span {bn : Nat} (held : bn * BSIZE < upto) (lo : NDIRECT ≤ bn) : MAXFILE ∈ span upto := by
  have past : NDIRECT * BSIZE < upto := lt_of_le_of_lt (Nat.mul_le_mul_right _ lo) held
  simp [span,past]

theorem span_nodup (spans : upto ≤ MAXFILE * BSIZE) : (span upto).Nodup := by
  have short : (upto + BSIZE - 1) / BSIZE ≤ MAXFILE := by simp only [MAXFILE,NINDIRECT,NDIRECT,BSIZE] at *; omega
  unfold span
  split_ifs
  · exact List.nodup_append.mpr ⟨List.nodup_range,List.nodup_singleton _,by simp; omega⟩
  · simpa using List.nodup_range

theorem span_length (spans : upto ≤ MAXFILE * BSIZE) : (span upto).length ≤ MAXFILE + 1 := by
  have short : (upto + BSIZE - 1) / BSIZE ≤ MAXFILE := by simp only [MAXFILE,NINDIRECT,NDIRECT,BSIZE] at *; omega
  unfold span
  split_ifs <;> simp <;> omega

theorem blockAt_eq_refAt {s : Store} {bn : Nat} (other : bn ≠ MAXFILE) : s.blockAt bn = s.refAt bn := by
  simp [Store.refAt,other]

theorem blockAt_beyond {s : Store} {bn : Nat} (beyond : MAXFILE ≤ bn) : s.blockAt bn = 0 := by
  have direct : ¬ bn < NDIRECT := by simp only [MAXFILE] at beyond; omega
  simp [Store.blockAt,direct,Nat.not_lt.mpr beyond]

theorem blockAt_maxfile (s : Store) : s.blockAt MAXFILE = 0 := blockAt_beyond (Nat.le_refl _)

theorem blockAt_inj {s : Store} (inv : Inv s) {bn bn' : Nat} (held : s.blockAt bn ≠ 0)
    (same : s.blockAt bn = s.blockAt bn') : bn = bn' := by
  have first : bn ≠ MAXFILE := fun eq => held (by rw [eq,blockAt_maxfile])
  have second : bn' ≠ MAXFILE := fun eq => held (by rw [same,eq,blockAt_maxfile])
  rw [blockAt_eq_refAt first] at held same
  rw [blockAt_eq_refAt second] at same
  exact inv.owned.unique bn bn' held same

theorem refAt_direct (s : Store) {k : Nat} (direct : k < NDIRECT) : s.refAt k = s.addrs k := by
  have short : k ≠ MAXFILE := by simp only [MAXFILE]; omega
  simp [Store.refAt,Store.blockAt,short,direct]

theorem refAt_indirect (s : Store) {k : Nat} (lo : NDIRECT ≤ k) (hi : k < MAXFILE) :
    s.refAt k = if s.addrs NDIRECT = 0 then 0 else s.words (s.addrs NDIRECT) (k - NDIRECT) := by
  have short : k ≠ MAXFILE := by omega
  have direct : ¬ k < NDIRECT := by omega
  by_cases empty : s.addrs NDIRECT = 0 <;> simp [Store.refAt,Store.blockAt,short,direct,hi,empty]

theorem refAt_maxfile (s : Store) : s.refAt MAXFILE = s.addrs NDIRECT := by
  simp [Store.refAt]

theorem refAt_beyond (s : Store) {k : Nat} (beyond : MAXFILE < k) : s.refAt k = 0 := by
  rw [← blockAt_eq_refAt (by omega),blockAt_beyond (by omega)]

theorem slot_cases (k : Nat) : k < NDIRECT ∨ (NDIRECT ≤ k ∧ k < MAXFILE) ∨ k = MAXFILE ∨ MAXFILE < k := by
  have : NDIRECT ≤ MAXFILE := by simp [MAXFILE]
  omega

theorem refAt_setAddr_direct (s : Store) {bn : Nat} (direct : bn < NDIRECT) (b : Nat) :
    (s.setAddr bn b).refAt = Function.update s.refAt bn b := by
  have other : NDIRECT ≠ bn := by omega
  funext k
  rcases slot_cases k with low | ⟨lo,hi⟩ | rfl | high
  · rw [refAt_direct _ low]
    by_cases same : k = bn
    · subst same
      simp [Store.setAddr]
    · simp [Store.setAddr,Function.update_of_ne same,refAt_direct _ low]
  · rw [refAt_indirect _ lo hi,Function.update_of_ne (show k ≠ bn by omega),refAt_indirect _ lo hi]
    simp [Store.setAddr,Function.update_of_ne other]
  · rw [refAt_maxfile,Function.update_of_ne (show MAXFILE ≠ bn by simp only [MAXFILE]; omega),refAt_maxfile]
    simp [Store.setAddr,Function.update_of_ne other]
  · rw [refAt_beyond _ high,Function.update_of_ne (show k ≠ bn by simp only [MAXFILE] at high; omega),
      refAt_beyond _ high]

theorem refAt_setAddr_indirect {s : Store} (empty : s.addrs NDIRECT = 0) {b : Nat} (zeroed : s.words b = fun _ => 0) :
    (s.setAddr NDIRECT b).refAt = Function.update s.refAt MAXFILE b := by
  funext k
  rcases slot_cases k with low | ⟨lo,hi⟩ | rfl | high
  · rw [refAt_direct _ low,Function.update_of_ne (show k ≠ MAXFILE by simp only [MAXFILE]; omega),refAt_direct _ low]
    simp [Store.setAddr,Function.update_of_ne (show k ≠ NDIRECT by omega)]
  · rw [refAt_indirect _ lo hi,Function.update_of_ne (show k ≠ MAXFILE by omega),refAt_indirect _ lo hi]
    simp [Store.setAddr,empty,zeroed]
  · simp [refAt_maxfile,Store.setAddr]
  · rw [refAt_beyond _ high,Function.update_of_ne (show k ≠ MAXFILE by omega),refAt_beyond _ high]

theorem refAt_setWord {s : Store} {ind : Nat} (loaded : s.addrs NDIRECT = ind) (held : ind ≠ 0) {j : Nat}
    (entry : j < NINDIRECT) (b : Nat) :
    (s.setWord ind j b).refAt = Function.update s.refAt (NDIRECT + j) b := by
  have short : NDIRECT + j < MAXFILE := by simp only [MAXFILE]; omega
  funext k
  rcases slot_cases k with low | ⟨lo,hi⟩ | rfl | high
  · rw [refAt_direct _ low,Function.update_of_ne (show k ≠ NDIRECT + j by omega),refAt_direct _ low]
    rfl
  · rw [refAt_indirect _ lo hi]
    by_cases same : k = NDIRECT + j
    · subst same
      simp [Store.setWord,loaded,held]
    · rw [Function.update_of_ne same,refAt_indirect _ lo hi]
      simp [Store.setWord,loaded,held,Function.update_of_ne (show k - NDIRECT ≠ j by omega)]
  · rw [refAt_maxfile,Function.update_of_ne (by omega),refAt_maxfile]
    rfl
  · rw [refAt_beyond _ high,Function.update_of_ne (show k ≠ NDIRECT + j by omega),refAt_beyond _ high]

theorem indirect_ne_free {s : Store} (inv : Inv s) {b : Nat} (free : s.marked b = false)
    (held : s.addrs NDIRECT ≠ 0) : s.addrs NDIRECT ≠ b := by
  intro same
  have mine := inv.owned.marked_of_ref MAXFILE (by simpa [Store.refAt] using held)
  simp [Store.refAt,same,free] at mine

theorem blockAt_claim {s : Store} (inv : Inv s) {b : Nat} (free : s.marked b = false) :
    (s.claim b).blockAt = s.blockAt := by
  funext bn
  by_cases held : s.addrs NDIRECT = 0
  · simp [Store.blockAt,held]
  · have other := indirect_ne_free inv free held
    simp [Store.blockAt,Store.claim,Function.update_of_ne other]

theorem refAt_claim {s : Store} (inv : Inv s) {b : Nat} (free : s.marked b = false) :
    (s.claim b).refAt = s.refAt := by
  funext k
  simp [Store.refAt,blockAt_claim inv free]

theorem data_claim {s : Store} {b b' : Nat} (free : s.marked b = false) (used : s.marked b' = true) :
    (s.claim b).data b' = s.data b' := by
  have other : b' ≠ b := fun same => by rw [same,free] at used; cases used
  simp [Store.claim,Function.update_of_ne other]

theorem blockAt_of_refs {s t : Store} {k b : Nat} (empty : s.refAt k = 0)
    (refs : t.refAt = Function.update s.refAt k b) {bn : Nat} (held : s.blockAt bn ≠ 0) : t.blockAt bn = s.blockAt bn := by
  have short : bn ≠ MAXFILE := fun eq => held (by rw [eq,blockAt_maxfile])
  have other : bn ≠ k := fun eq => held (by rw [blockAt_eq_refAt short,eq,empty])
  rw [blockAt_eq_refAt short,blockAt_eq_refAt short,refs,Function.update_of_ne other]

theorem inv_claim {s t : Store} (inv : Inv s) (room : Room upto s) (spans : upto ≤ MAXFILE * BSIZE) {k b : Nat}
    (slot : k ∈ span upto) (empty : s.refAt k = 0) (free : s.marked b = false) (below : b < FSSIZE)
    (refs : t.refAt = Function.update s.refAt k b) (marks : t.marked = Function.update s.marked b true)
    (sized : t.size = s.size) : Inv t ∧ Room upto t := by
  have nonzero : b ≠ 0 := fun zero => by rw [zero,inv.boot] at free; cases free
  refine ⟨⟨?_,?_,?_,?_⟩,?_⟩
  · rw [marks,Function.update_of_ne (Ne.symm nonzero),inv.boot]
  · rw [refs,marks]
    exact inv.owned.claim empty free
  · intro bn within
    have held := inv.filled bn (sized ▸ within)
    rw [blockAt_of_refs empty refs held]
    exact held
  · rw [sized]
    exact inv.sized
  · have fewer := Alloc.freeCount_mark free below
    have more := Alloc.refCount_claim (span_nodup spans) slot empty nonzero
    unfold Room at room ⊢
    rw [marks,refs]
    omega

structure Extends (s t : Store) : Prop where
  size : t.size = s.size
  held : ∀ bn, s.blockAt bn ≠ 0 → t.blockAt bn = s.blockAt bn
  marks : ∀ b, s.marked b = true → t.marked b = true
  kept : ∀ b, s.marked b = true → t.data b = s.data b

theorem Extends.refl (s : Store) : Extends s s := ⟨rfl,fun _ _ => rfl,fun _ used => used,fun _ _ => rfl⟩

theorem Extends.trans {s t u : Store} (first : Extends s t) (second : Extends t u) : Extends s u := by
  refine ⟨by rw [second.size,first.size],fun bn held => ?_,fun b used => second.marks b (first.marks b used),
    fun b used => by rw [second.kept b (first.marks b used),first.kept b used]⟩
  rw [second.held bn (by rw [first.held bn held]; exact held),first.held bn held]

theorem marked_of_held {s : Store} (inv : Inv s) {bn : Nat} (held : s.blockAt bn ≠ 0) :
    s.marked (s.blockAt bn) = true := by
  have short : bn ≠ MAXFILE := fun eq => held (by rw [eq,blockAt_maxfile])
  rw [blockAt_eq_refAt short] at held ⊢
  exact inv.owned.marked_of_ref bn held

theorem contents_of_extends {s t : Store} (inv : Inv s) (ext : Extends s t) {i : Nat}
    (held : s.blockAt (i / BSIZE) ≠ 0) : t.contents i = s.contents i := by
  simp only [Store.contents]
  rw [ext.held _ held,ext.kept _ (marked_of_held inv held)]

theorem balloc_run {s : Store} (room : Room upto s) {k : Nat} (slot : k ∈ span upto) (empty : s.refAt k = 0) :
    ∃ b, balloc s = .ok (b,s.claim b) ∧ s.marked b = false ∧ b < FSSIZE := by
  have fewer := Alloc.refCount_lt slot empty
  have some_free : 0 < Alloc.freeCount s.marked FSSIZE := by
    unfold Room at room
    omega
  cases found : (List.range FSSIZE).find? (fun c => !s.marked c) with
  | none => exact absurd (Alloc.freeCount_of_find_none found) (by omega)
  | some b =>
    obtain ⟨free,below⟩ := Alloc.find_free found
    exact ⟨b,by simp only [balloc,get_bind,found]; rfl,free,below⟩

theorem fill_held {s : Store} {read : Store → Nat} {write : Nat → Store → Store} (held : read s ≠ 0) :
    fill read write s = .ok (read s,s) := by
  simp [fill,held]

theorem fill_empty {s t : Store} {read : Store → Nat} {write : Nat → Store → Store} (empty : read s = 0) {b : Nat}
    (allocated : balloc s = .ok (b,t)) : fill read write s = .ok (b,write b t) := by
  simp only [fill,get_bind,empty,if_true]
  rw [bind_of_ok allocated]
  rfl

theorem fill_spec {s : Store} (inv : Inv s) (room : Room upto s) (spans : upto ≤ MAXFILE * BSIZE) {k : Nat}
    (slot : k ∈ span upto)
    {read : Store → Nat} {write : Nat → Store → Store} (reads : read s = s.refAt k)
    (writes : ∀ b, s.refAt k = 0 → s.marked b = false →
      (write b (s.claim b)).refAt = Function.update s.refAt k b ∧
        (write b (s.claim b)).marked = Function.update s.marked b true ∧
        (write b (s.claim b)).data = (s.claim b).data ∧ (write b (s.claim b)).size = s.size) :
    ∃ t, fill read write s = .ok (t.refAt k,t) ∧ Inv t ∧ Room upto t ∧ Extends s t ∧ t.refAt k ≠ 0 := by
  by_cases empty : s.refAt k = 0
  · obtain ⟨b,allocated,free,below⟩ := balloc_run room slot empty
    obtain ⟨refs,marks,datas,sized⟩ := writes b empty free
    have nonzero : b ≠ 0 := fun zero => by rw [zero,inv.boot] at free; cases free
    obtain ⟨inv',room'⟩ := inv_claim inv room spans slot empty free below refs marks sized
    have filled : (write b (s.claim b)).refAt k = b := by rw [refs,Function.update_self]
    refine ⟨write b (s.claim b),by rw [fill_empty (reads.trans empty) allocated,filled],inv',room',?_,
      by rw [filled]; exact nonzero⟩
    refine ⟨sized,fun bn held => blockAt_of_refs empty refs held,fun b' used => ?_,fun b' used => ?_⟩
    · have other : b' ≠ b := fun same => by rw [same,free] at used; cases used
      rw [marks,Function.update_of_ne other,used]
    · rw [datas]
      exact data_claim free used
  · exact ⟨s,by rw [fill_held (reads ▸ empty),reads],inv,room,Extends.refl s,empty⟩

theorem bmap_spec {s : Store} (inv : Inv s) (room : Room upto s) (spans : upto ≤ MAXFILE * BSIZE) {bn : Nat}
    (wanted : bn * BSIZE < upto) :
    ∃ t, bmap bn s = .ok (t.blockAt bn,t) ∧ Inv t ∧ Room upto t ∧ Extends s t ∧ t.blockAt bn ≠ 0 := by
  have within : bn < MAXFILE := Nat.lt_of_mul_lt_mul_right (lt_of_lt_of_le wanted spans)
  have short : bn ≠ MAXFILE := by omega
  by_cases direct : bn < NDIRECT
  · obtain ⟨t,ran,inv',room',ext,filled⟩ := @fill_spec upto s inv room spans bn (mem_span wanted)
      (·.addrs bn) (fun b s => s.setAddr bn b) (refAt_direct s direct).symm
      fun b _ free => ⟨by rw [refAt_setAddr_direct _ direct,refAt_claim inv free],by simp,rfl,rfl⟩
    rw [← blockAt_eq_refAt short] at ran filled
    exact ⟨t,by simp only [bmap,direct,if_true]; exact ran,inv',room',ext,filled⟩
  · have entry : bn - NDIRECT < NINDIRECT := by simp only [MAXFILE] at within; omega
    have lo : NDIRECT ≤ bn := by omega
    obtain ⟨u,loaded,inv₁,room₁,ext₁,present⟩ := @fill_spec upto s inv room spans MAXFILE (indirect_mem_span wanted lo)
      (·.addrs NDIRECT) (fun b s => s.setAddr NDIRECT b) (refAt_maxfile s).symm
      fun b empty free => ⟨by rw [refAt_setAddr_indirect (by rw [Store.claim_addrs,← refAt_maxfile]; exact empty)
        (by simp [Store.claim]),refAt_claim inv free],by simp,rfl,rfl⟩
    rw [refAt_maxfile] at loaded present
    obtain ⟨t,ran,inv',room',ext,filled⟩ := @fill_spec upto u inv₁ room₁ spans bn (mem_span wanted)
      (·.words (u.addrs NDIRECT) (bn - NDIRECT))
      (fun b s => s.setWord (u.addrs NDIRECT) (bn - NDIRECT) b)
      (by rw [refAt_indirect _ lo within,if_neg present])
      fun b _ free => ⟨by rw [refAt_setWord (by simp) present entry,refAt_claim inv₁ free,
        show NDIRECT + (bn - NDIRECT) = bn by omega],by simp,rfl,rfl⟩
    rw [← blockAt_eq_refAt short] at ran filled
    refine ⟨t,?_,inv',room',ext₁.trans ext,filled⟩
    simp only [bmap,direct,entry,if_false,if_true]
    rw [bind_of_ok loaded]
    exact ran

theorem bmap_held {s : Store} {bn : Nat} (held : s.blockAt bn ≠ 0) : bmap bn s = .ok (s.blockAt bn,s) := by
  by_cases direct : bn < NDIRECT
  · simp only [Store.blockAt,direct,if_true] at held ⊢
    simp only [bmap,direct,if_true]
    exact fill_held held
  · have inside : bn < MAXFILE ∧ s.addrs NDIRECT ≠ 0 := by
      by_contra outside
      simp [Store.blockAt,direct,outside] at held
    have entry : bn - NDIRECT < NINDIRECT := by simp only [MAXFILE] at inside; omega
    simp only [Store.blockAt,direct,inside,if_false,if_true,ne_eq,not_false_eq_true,and_self] at held ⊢
    simp only [bmap,direct,entry,if_false,if_true]
    rw [bind_of_ok (fill_held inside.2)]
    exact fill_held held

-- writei's loop: each pass copies min(n - tot, BSIZE - off % BSIZE) ≥ 1 bytes, so n + 1 passes suffice.
def writeiLoop (src : Nat → UInt8) (n : Nat) : Nat → Nat → Nat → BM Nat
  | 0,tot,_ => return tot
  | fuel + 1,tot,off => do
    if tot < n then
      let b ← bmap (off / BSIZE)
      let m := min (n - tot) (BSIZE - off % BSIZE)
      modify fun s => s.writeBlock b (off % BSIZE) m fun j => src (tot + j)
      writeiLoop src n fuel (tot + m) (off + m)
    else
      return tot

-- writei from kernel memory (user_src = 0); offsets and counts are uint.
def writei (src : Nat → UInt8) (off n : Nat) : BM Int := do
  if off > (← get).size || off + n ≥ 2 ^ 32 then return -1
  if off + n > MAXFILE * BSIZE then return -1
  let tot ← writeiLoop src n (n + 1) 0 off
  -- off has moved on by tot; iupdate writes the inode back either way.
  if off + tot > (← get).size then modify fun s => {s with size := off + tot}
  return tot

@[simp] theorem Store.blockAt_writeBlock (s : Store) (b off m : Nat) (src : Nat → UInt8) :
    (s.writeBlock b off m src).blockAt = s.blockAt := rfl

@[simp] theorem Store.refAt_writeBlock (s : Store) (b off m : Nat) (src : Nat → UInt8) :
    (s.writeBlock b off m src).refAt = s.refAt := rfl

@[simp] theorem Store.writeBlock_data (s : Store) (b off m : Nat) (src : Nat → UInt8) :
    (s.writeBlock b off m src).data = Function.update s.data b (Bytes.put (s.data b) off m src) := rfl

theorem inv_writeBlock {s : Store} (inv : Inv s) (b off m : Nat) (src : Nat → UInt8) :
    Inv (s.writeBlock b off m src) := by
  refine ⟨inv.boot,?_,?_,inv.sized⟩
  · rw [Store.refAt_writeBlock,Store.writeBlock_marked]
    exact inv.owned
  · rw [Store.blockAt_writeBlock,Store.writeBlock_size]
    exact inv.filled

theorem room_writeBlock {s : Store} (room : Room upto s) (b off m : Nat) (src : Nat → UInt8) :
    Room upto (s.writeBlock b off m src) := by
  unfold Room
  rw [Store.refAt_writeBlock,Store.writeBlock_marked]
  exact room

theorem contents_writeBlock (s : Store) (b off m : Nat) (src : Nat → UInt8) (i : Nat) :
    (s.writeBlock b off m src).contents i =
      if s.blockAt (i / BSIZE) = b then Bytes.put (s.data b) off m src (i % BSIZE) else s.contents i := by
  simp only [Store.contents,Store.blockAt_writeBlock,Store.writeBlock_data]
  by_cases same : s.blockAt (i / BSIZE) = b
  · rw [if_pos same,same,Function.update_self]
  · rw [if_neg same,Function.update_of_ne same]

theorem chunk_inside {o m i : Nat} (fits : m ≤ BSIZE - o % BSIZE) (lo : o ≤ i) (hi : i < o + m) :
    i / BSIZE = o / BSIZE ∧ o % BSIZE ≤ i % BSIZE ∧ i % BSIZE < o % BSIZE + m ∧ i % BSIZE - o % BSIZE = i - o := by
  simp only [BSIZE] at *
  omega

theorem chunk_outside {o m i : Nat} (same : i / BSIZE = o / BSIZE)
    (out : i < o ∨ o + m ≤ i) : i % BSIZE < o % BSIZE ∨ o % BSIZE + m ≤ i % BSIZE := by
  simp only [BSIZE] at *
  omega

theorem block_below {i k : Nat} (below : i < k) : i / BSIZE * BSIZE < k := by
  simp only [BSIZE]
  omega

-- writei's loop after its first tot bytes.
structure Progress (s₀ : Store) (off : Nat) (src : Nat → UInt8) (tot : Nat) (s : Store) : Prop where
  inv : Inv s
  size : s.size = s₀.size
  covered : ∀ bn, bn * BSIZE < off + tot → s.blockAt bn ≠ 0
  written : ∀ i, i < max s₀.size (off + tot) → s.contents i = Bytes.put s₀.contents off tot src i

theorem progress_start {s : Store} (inv : Inv s) {off : Nat} (start : off ≤ s.size)
    (src : Nat → UInt8) : Progress s off src 0 s := by
  refine ⟨inv,rfl,fun bn below => inv.filled bn (by omega),fun i _ => ?_⟩
  rw [Bytes.put_zero]

theorem held_of_progress {s₀ s : Store} {off tot : Nat} {src : Nat → UInt8} (prog : Progress s₀ off src tot s)
    {i : Nat} (below : i < max s₀.size (off + tot)) : s.blockAt (i / BSIZE) ≠ 0 := by
  by_cases old : i < s₀.size
  · exact prog.inv.filled _ (by rw [prog.size]; exact block_below old)
  · exact prog.covered _ (block_below (by omega))

theorem progress_step {s₀ s : Store} {off n tot : Nat} {src : Nat → UInt8} (prog : Progress s₀ off src tot s)
    (room : Room upto s) (spans : upto ≤ MAXFILE * BSIZE) (more : tot < n) (enough : off + n ≤ upto) :
    ∃ t, bmap ((off + tot) / BSIZE) s = .ok (t.blockAt ((off + tot) / BSIZE),t) ∧ Room upto t ∧
      Progress s₀ off src (tot + min (n - tot) (BSIZE - (off + tot) % BSIZE))
        (t.writeBlock (t.blockAt ((off + tot) / BSIZE)) ((off + tot) % BSIZE)
          (min (n - tot) (BSIZE - (off + tot) % BSIZE)) fun j => src (tot + j)) := by
  obtain ⟨t,ran,inv,room',ext,present⟩ := bmap_spec prog.inv room spans (block_below (by omega : off + tot < upto))
  refine ⟨t,ran,room',⟨inv_writeBlock inv _ _ _ _,by rw [Store.writeBlock_size,ext.size,prog.size],?_,?_⟩⟩
  · intro bn below
    rw [Store.blockAt_writeBlock]
    by_cases earlier : bn * BSIZE < off + tot
    · rw [ext.held bn (prog.covered bn earlier)]
      exact prog.covered bn earlier
    · have same : bn = (off + tot) / BSIZE := by simp only [BSIZE] at *; omega
      rw [same]
      exact present
  · intro i below
    have fits : min (n - tot) (BSIZE - (off + tot) % BSIZE) ≤ BSIZE - (off + tot) % BSIZE := Nat.min_le_right _ _
    rw [contents_writeBlock]
    by_cases chunk : off + tot ≤ i ∧ i < off + tot + min (n - tot) (BSIZE - (off + tot) % BSIZE)
    · obtain ⟨same,lo,hi,shift⟩ := chunk_inside fits chunk.1 chunk.2
      rw [if_pos (by rw [same]),Bytes.put_inside lo hi,Bytes.put_inside (by omega) (by omega),shift]
      congr 1
      omega
    · -- a byte the pass does not copy: still the one the first tot bytes left
      have kept : i < max s₀.size (off + tot) := by omega
      have untouched : Bytes.put s₀.contents off tot src i =
          Bytes.put s₀.contents off (tot + min (n - tot) (BSIZE - (off + tot) % BSIZE)) src i := by
        by_cases first : off ≤ i ∧ i < off + tot
        · rw [Bytes.put_inside first.1 first.2,Bytes.put_inside first.1 (by omega)]
        · rw [Bytes.put_outside (by omega),Bytes.put_outside (by omega)]
      have held := held_of_progress prog kept
      rw [← untouched,← prog.written i kept,← contents_of_extends prog.inv ext held]
      split_ifs with hit
      · have same := blockAt_inj inv (by rw [hit]; exact present) hit
        rw [Bytes.put_outside (chunk_outside same (by omega))]
        simp only [Store.contents,hit]
      · rfl

theorem writeiLoop_spec {s₀ : Store} {off n : Nat} {src : Nat → UInt8} (spans : upto ≤ MAXFILE * BSIZE)
    (enough : off + n ≤ upto) :
    ∀ fuel tot s, Progress s₀ off src tot s → Room upto s → tot ≤ n → n - tot < fuel →
      ∃ t, writeiLoop src n fuel tot (off + tot) s = .ok (n,t) ∧ Progress s₀ off src n t ∧ Room upto t := by
  intro fuel
  induction fuel with
  | zero => intro tot s _ _ _ bound; omega
  | succ fuel ih =>
    intro tot s prog room done bound
    by_cases more : tot < n
    · obtain ⟨t,ran,room',next⟩ := progress_step prog room spans more enough
      have moved : 0 < min (n - tot) (BSIZE - (off + tot) % BSIZE) := by simp only [BSIZE]; omega
      obtain ⟨u,rest,last⟩ := ih _ _ next (room_writeBlock room' _ _ _ _) (by omega) (by omega)
      refine ⟨u,?_,last⟩
      simp only [writeiLoop,more,if_true]
      rw [bind_of_ok ran,modify_bind,← rest,Nat.add_assoc]
    · have finished : tot = n := by omega
      subst finished
      exact ⟨s,by simp [writeiLoop],prog,room⟩

theorem inv_resize {s₀ u : Store} {off n : Nat} {src : Nat → UInt8} (prog : Progress s₀ off src n u)
    (fits : off + n ≤ MAXFILE * BSIZE) : Inv {u with size := max s₀.size (off + n)} := by
  have sized := prog.inv.sized
  rw [prog.size] at sized
  refine ⟨prog.inv.boot,prog.inv.owned,fun bn below => ?_,show max s₀.size (off + n) ≤ MAXFILE * BSIZE by omega⟩
  by_cases old : bn * BSIZE < s₀.size
  · exact prog.inv.filled bn (by rw [prog.size]; exact old)
  · exact prog.covered bn (by simp only at below; omega)

theorem writei_spec {s : Store} (inv : Inv s) (room : Room upto s) (spans : upto ≤ MAXFILE * BSIZE) {off n : Nat}
    (start : off ≤ s.size) (enough : off + n ≤ upto) (src : Nat → UInt8) :
    ∃ t, writei src off n s = .ok (n,t) ∧ Inv t ∧ Room upto t ∧ t.size = max s.size (off + n) ∧
      ∀ i < t.size, t.contents i = Bytes.put s.contents off n src i := by
  have fits : off + n ≤ MAXFILE * BSIZE := le_trans enough spans
  have nowrap : off + n < 2 ^ 32 := by simp only [MAXFILE,NINDIRECT,NDIRECT,BSIZE] at fits; omega
  obtain ⟨u,looped,prog,room'⟩ := writeiLoop_spec spans enough (n + 1) 0 s (progress_start inv start src) room
    (Nat.zero_le _) (by omega)
  have ran : writeiLoop src n (n + 1) 0 off s = .ok (n,u) := by simpa using looped
  have grown : (if off + n > u.size then {u with size := off + n} else u) = {u with size := max s.size (off + n)} := by
    split_ifs with past
    · rw [prog.size] at past
      congr 1
      omega
    · rw [prog.size] at past
      have same : max s.size (off + n) = u.size := by rw [prog.size]; omega
      rw [same]
  refine ⟨{u with size := max s.size (off + n)},?_,inv_resize prog fits,room',rfl,fun i below => prog.written i below⟩
  have guard : (decide (off > s.size) || decide (off + n ≥ 2 ^ 32)) = false := by simp; omega
  have bound : ¬ off + n > MAXFILE * BSIZE := by omega
  simp only [writei,get_bind,guard,Bool.false_eq_true,bound,if_false,bind_of_ok ran]
  rw [← grown]
  split_ifs <;> rfl

-- readi's loop: each pass copies m bytes of one block out to dst at tot.
def readiLoop (n : Nat) : Nat → Nat → Nat → (Nat → UInt8) → BM (Nat × (Nat → UInt8))
  | 0,tot,_,dst => return (tot,dst)
  | fuel + 1,tot,off,dst => do
    if tot < n then
      let b ← bmap (off / BSIZE)
      let m := min (n - tot) (BSIZE - off % BSIZE)
      let block := (← get).data b
      readiLoop n fuel (tot + m) (off + m) (Bytes.put dst tot m fun j => block (off % BSIZE + j))
    else
      return (tot,dst)

-- readi into kernel memory (user_dst = 0): the count and the bytes copied out.
def readi (off n : Nat) : BM (Nat × (Nat → UInt8)) := do
  let size := (← get).size
  if off > size || off + n ≥ 2 ^ 32 then return (0,fun _ => 0)
  let n := if off + n > size then size - off else n
  readiLoop n (n + 1) 0 off fun _ => 0

theorem readiLoop_spec {s : Store} {off n : Nat} (inside : off + n ≤ s.size)
    (mapped : ∀ i, i < off + n → s.blockAt (i / BSIZE) ≠ 0) : ∀ fuel tot, tot ≤ n → n - tot < fuel →
      readiLoop n fuel tot (off + tot) (Bytes.put (fun _ => 0) 0 tot fun j => s.contents (off + j)) s =
        .ok ((n,Bytes.put (fun _ => 0) 0 n fun j => s.contents (off + j)),s) := by
  intro fuel
  induction fuel with
  | zero => intro tot _ bound; omega
  | succ fuel ih =>
    intro tot upto bound
    by_cases more : tot < n
    · have held := mapped _ (show off + tot < off + n by omega)
      have fits : min (n - tot) (BSIZE - (off + tot) % BSIZE) ≤ BSIZE - (off + tot) % BSIZE := Nat.min_le_right _ _
      have moved : 0 < min (n - tot) (BSIZE - (off + tot) % BSIZE) := by simp only [BSIZE]; omega
      have copied : Bytes.put (Bytes.put (fun _ => 0) 0 tot fun j => s.contents (off + j)) tot
          (min (n - tot) (BSIZE - (off + tot) % BSIZE))
            (fun j => s.data (s.blockAt ((off + tot) / BSIZE)) ((off + tot) % BSIZE + j)) =
          Bytes.put (fun _ => 0) 0 (tot + min (n - tot) (BSIZE - (off + tot) % BSIZE)) fun j => s.contents (off + j) := by
        rw [← Bytes.put_put_adjacent,Nat.zero_add]
        apply Bytes.put_congr
        intro j within
        obtain ⟨same,lo,-,shift⟩ := chunk_inside (i := off + tot + j) fits (by omega) (by omega)
        simp only [Store.contents,← Nat.add_assoc,same]
        congr 1
        omega
      simp only [readiLoop,more,if_true]
      rw [bind_of_ok (bmap_held held),get_bind,copied,Nat.add_assoc]
      exact ih _ (by omega) (by omega)
    · have done : tot = n := by omega
      subst done
      simp [readiLoop]

-- readi needs only the blocks it reads to be mapped: a directory whose size
-- mkfs rounded up is read this way below its last held block.
theorem readi_mapped {s : Store} {off n : Nat} (start : off ≤ s.size) (nowrap : off + n < 2 ^ 32)
    (mapped : ∀ i, i < off + min n (s.size - off) → s.blockAt (i / BSIZE) ≠ 0) :
    readi off n s =
      .ok ((min n (s.size - off),Bytes.put (fun _ => 0) 0 (min n (s.size - off)) fun j => s.contents (off + j)),s) := by
  have guard : ¬ (decide (off > s.size) || decide (off + n ≥ 2 ^ 32)) = true := by simp; omega
  have clipped : (if off + n > s.size then s.size - off else n) = min n (s.size - off) := by split_ifs <;> omega
  simp only [readi,get_bind,guard,clipped]
  have loop := @readiLoop_spec s off (min n (s.size - off)) (by omega) mapped (min n (s.size - off) + 1) 0
    (Nat.zero_le _) (by omega)
  rw [Nat.add_zero,Bytes.put_zero] at loop
  exact loop

theorem readi_spec {s : Store} (inv : Inv s) {off n : Nat} (start : off ≤ s.size) (nowrap : off + n < 2 ^ 32) :
    readi off n s =
      .ok ((min n (s.size - off),Bytes.put (fun _ => 0) 0 (min n (s.size - off)) fun j => s.contents (off + j)),s) :=
  readi_mapped start nowrap fun _ below => inv.filled _ (block_below (show _ < s.size by omega))

theorem readi_wraps (s : Store) {off n : Nat} (wraps : 2 ^ 32 ≤ off + n) : readi off n s = .ok ((0,fun _ => 0),s) := by
  have guard : (decide (off > s.size) || decide (off + n ≥ 2 ^ 32)) = true := by simp; omega
  simp only [readi,get_bind,guard,if_true]
  rfl

-- The byte-array model of a file, as the kernel-level writei of the paging model writes it.
def written (ip : Inode) (off n : Nat) (src : Nat → UInt8) : Inode :=
  {ip with size := max ip.size (off + n),data := Bytes.put ip.data off n src}

theorem written_zero {ip : Inode} {off : Nat} (start : off ≤ ip.size) (src : Nat → UInt8) : written ip off 0 src = ip := by
  have same : max ip.size (off + 0) = ip.size := by omega
  simp only [written,Bytes.put_zero,same]

theorem written_adjacent (ip : Inode) (off a b : Nat) (src : Nat → UInt8) :
    written (written ip off a src) (off + a) b (fun j => src (a + j)) = written ip off (a + b) src := by
  have sizes : max (max ip.size (off + a)) (off + a + b) = max ip.size (off + (a + b)) := by omega
  simp only [written,Bytes.put_put_adjacent,sizes]

def Represents (s : Store) (ip : Inode) : Prop := s.size = ip.size ∧ ∀ i < ip.size, s.contents i = ip.data i

theorem writei_refines {s : Store} {ip : Inode} (inv : Inv s) (room : Room upto s) (spans : upto ≤ MAXFILE * BSIZE)
    (rep : Represents s ip) {off n : Nat} (start : off ≤ ip.size) (enough : off + n ≤ upto) (src : Nat → UInt8) :
    ∃ t, writei src off n s = .ok (n,t) ∧ Inv t ∧ Room upto t ∧ Represents t (written ip off n src) := by
  obtain ⟨t,ran,inv',room',sized,bytes⟩ := writei_spec inv room spans (rep.1 ▸ start) enough src
  refine ⟨t,ran,inv',room',by rw [sized,rep.1]; rfl,fun i below => ?_⟩
  have within : i < t.size := by rw [sized,rep.1]; exact below
  rw [bytes i within]
  by_cases inside : off ≤ i ∧ i < off + n
  · simp only [written]
    rw [Bytes.put_inside inside.1 inside.2,Bytes.put_inside inside.1 inside.2]
  · have old : i < ip.size := by simp only [written] at below; omega
    simp only [written]
    rw [Bytes.put_outside (by omega),Bytes.put_outside (by omega),rep.2 i old]

theorem readi_refines {s : Store} {ip : Inode} (inv : Inv s) (rep : Represents s ip) (off n : Nat) :
    readi off n s = .ok (readiData ip off n,s) := by
  unfold readiData
  by_cases bad : (decide (off > ip.size) || decide (off + n ≥ 2 ^ 32)) = true
  · rw [if_pos bad]
    simp only [readi,get_bind,rep.1,bad,if_true]
    rfl
  · rw [if_neg bad]
    have start : off ≤ s.size := by rw [rep.1]; simp at bad; omega
    have nowrap : off + n < 2 ^ 32 := by simp at bad; omega
    have clipped : (if off + n > ip.size then ip.size - off else n) = min n (s.size - off) := by
      rw [rep.1]
      split_ifs <;> omega
    dsimp only
    rw [readi_spec inv start nowrap,clipped]
    congr 3
    funext i
    by_cases inside : i < min n (s.size - off)
    · rw [Bytes.put_inside (Nat.zero_le _) (by omega),if_pos inside,Nat.sub_zero,rep.2 _ (by rw [← rep.1]; omega)]
    · rw [Bytes.put_outside (by omega),if_neg inside]

-- kfilewrite on an inode file: chunks of ((MAXOPBLOCKS-1-1-2) / 2) * BSIZE bytes, each a writei in its own
-- transaction; the checks of f->writable and f->type are the kernel-level kfilewrite's.
def kfilewriteLoop (src : Nat → UInt8) (n : Nat) : Nat → Nat → Nat → BM Nat
  | 0,i,_ => return i
  | fuel + 1,i,off => do
    if i < n then
      let n1 := min (n - i) ((MAXOPBLOCKS - 1 - 1 - 2) / 2 * BSIZE)
      let r ← writei (fun j => src (i + j)) off n1
      let off := if r > 0 then off + r.toNat else off
      if r ≠ n1 then return i
      kfilewriteLoop src n fuel (i + r.toNat) off
    else
      return i

def kfilewrite (src : Nat → UInt8) (off n : Nat) : BM Int := do
  let i ← kfilewriteLoop src n (n + 1) 0 off
  return if i = n then n else -1

-- kfileread on an inode file: one readi at f->off, which then moves on by the count.
def kfileread (off n : Nat) : BM (Nat × (Nat → UInt8) × Nat) := do
  let (r,dst) ← readi off n
  return (r,dst,if r > 0 then off + r else off)

theorem kfilewriteLoop_spec {ip : Inode} {off n : Nat} (spans : upto ≤ MAXFILE * BSIZE) (enough : off + n ≤ upto)
    (src : Nat → UInt8) :
    ∀ fuel i s, Inv s → Room upto s → Represents s (written ip off i src) → i ≤ n → n - i < fuel →
      ∃ t, kfilewriteLoop src n fuel i (off + i) s = .ok (n,t) ∧ Inv t ∧ Room upto t ∧
        Represents t (written ip off n src) := by
  intro fuel
  induction fuel with
  | zero => intro i s _ _ _ _ bound; omega
  | succ fuel ih =>
    intro i s inv room rep done bound
    by_cases more : i < n
    · have chunk : 0 < min (n - i) ((MAXOPBLOCKS - 1 - 1 - 2) / 2 * BSIZE) := by
        simp only [MAXOPBLOCKS,BSIZE]
        omega
      obtain ⟨t,ran,inv',room',rep'⟩ := @writei_refines upto s _ inv room spans rep (off + i)
        (min (n - i) ((MAXOPBLOCKS - 1 - 1 - 2) / 2 * BSIZE)) (by simp only [written]; omega) (by omega)
        (fun j => src (i + j))
      rw [written_adjacent] at rep'
      obtain ⟨u,rest,last⟩ := ih _ t inv' room' rep' (by omega) (by omega)
      refine ⟨u,?_,last⟩
      have positive : ((min (n - i) ((MAXOPBLOCKS - 1 - 1 - 2) / 2 * BSIZE) : Nat) : Int) > 0 := by omega
      simp only [kfilewriteLoop,more,if_true]
      rw [bind_of_ok ran]
      simp only [positive,if_true,Int.toNat_natCast,ne_eq,not_true_eq_false,if_false]
      rw [Nat.add_assoc]
      exact rest
    · have done : i = n := by omega
      subst done
      exact ⟨s,by simp [kfilewriteLoop],inv,room,rep⟩

theorem kfilewrite_refines {s : Store} {ip : Inode} (inv : Inv s) (room : Room upto s) (spans : upto ≤ MAXFILE * BSIZE)
    (rep : Represents s ip) {off n : Nat} (start : off ≤ ip.size) (enough : off + n ≤ upto) (src : Nat → UInt8) :
    ∃ t, kfilewrite src off n s = .ok (n,t) ∧ Inv t ∧ Room upto t ∧ Represents t (written ip off n src) := by
  obtain ⟨t,looped,inv',room',rep'⟩ := kfilewriteLoop_spec spans enough src (n + 1) 0 s inv room
    (by rw [written_zero start]; exact rep) (Nat.zero_le _) (by omega)
  have ran : kfilewriteLoop src n (n + 1) 0 off s = .ok (n,t) := by simpa using looped
  refine ⟨t,?_,inv',room',rep'⟩
  simp only [kfilewrite]
  rw [bind_of_ok ran]
  simp

-- The writes an inode takes on the modelled paths: writei itself, and
-- kfilewrite with f->off set first, as writeToSwapFile sets it.
inductive Path
  | writei
  | kfilewrite
deriving DecidableEq

structure Call where
  path : Path
  src : Nat → UInt8
  off : Nat
  n : Nat

def Call.run (c : Call) : BM Int :=
  match c.path with
  | .writei => writei c.src c.off c.n
  | .kfilewrite => kfilewrite c.src c.off c.n

def runCalls : List Call → BM (List Int)
  | [] => return []
  | c :: cs => do
    let r ← c.run
    let rs ← runCalls cs
    return r :: rs

-- The byte-array model after the calls; each starts at or before the end of the file.
def model (ip : Inode) : List Call → Inode
  | [] => ip
  | c :: cs => model (written ip c.off c.n c.src) cs

def Fits : Inode → List Call → Prop
  | _,[] => True
  | ip,c :: cs => c.off ≤ ip.size ∧ c.off + c.n ≤ MAXFILE * BSIZE ∧ Fits (written ip c.off c.n c.src) cs

theorem size_le_model (ip : Inode) (calls : List Call) : ip.size ≤ (model ip calls).size := by
  induction calls generalizing ip with
  | nil => exact Nat.le_refl _
  | cons c cs ih =>
    show ip.size ≤ (model (written ip c.off c.n c.src) cs).size
    exact le_trans (le_max_left ip.size (c.off + c.n)) (ih (written ip c.off c.n c.src))

theorem model_size_le {ip : Inode} {calls : List Call} (fits : Fits ip calls) (sized : ip.size ≤ MAXFILE * BSIZE) :
    (model ip calls).size ≤ MAXFILE * BSIZE := by
  induction calls generalizing ip with
  | nil => exact sized
  | cons c cs ih => exact ih fits.2.2 (max_le sized fits.2.1)

theorem call_refines {s : Store} {ip : Inode} (inv : Inv s) (room : Room upto s) (spans : upto ≤ MAXFILE * BSIZE)
    (rep : Represents s ip) {c : Call} (start : c.off ≤ ip.size) (enough : c.off + c.n ≤ upto) :
    ∃ t, c.run s = .ok (c.n,t) ∧ Inv t ∧ Room upto t ∧ Represents t (written ip c.off c.n c.src) := by
  unfold Call.run
  cases c.path with
  | writei => exact writei_refines inv room spans rep start enough c.src
  | kfilewrite => exact kfilewrite_refines inv room spans rep start enough c.src

theorem runCalls_refines (calls : List Call) {s : Store} {ip : Inode} (inv : Inv s) (room : Room upto s)
    (spans : upto ≤ MAXFILE * BSIZE) (rep : Represents s ip) (fits : Fits ip calls) (enough : (model ip calls).size ≤ upto) :
    ∃ t, runCalls calls s = .ok (calls.map fun c => (c.n : Int),t) ∧ Inv t ∧ Room upto t ∧
      Represents t (model ip calls) := by
  induction calls generalizing s ip with
  | nil => exact ⟨s,rfl,inv,room,rep⟩
  | cons c cs ih =>
    obtain ⟨start,-,rest⟩ := fits
    have ends : c.off + c.n ≤ upto :=
      calc c.off + c.n ≤ (written ip c.off c.n c.src).size := le_max_right _ _
        _ ≤ (model (written ip c.off c.n c.src) cs).size := size_le_model _ cs
        _ ≤ upto := enough
    obtain ⟨t,ran,inv',room',rep'⟩ := call_refines inv room spans rep start ends
    obtain ⟨u,others,inv'',room'',rep''⟩ := ih inv' room' rep' rest enough
    refine ⟨u,?_,inv'',room'',rep''⟩
    simp only [runCalls]
    rw [bind_of_ok ran,bind_of_ok others]
    rfl

theorem readiData_inside {ip : Inode} {off n : Nat} (start : off ≤ ip.size) (nowrap : off + n < 2 ^ 32) :
    readiData ip off n = (min n (ip.size - off),fun i => if i < min n (ip.size - off) then ip.data (off + i) else 0) := by
  have guard : (decide (off > ip.size) || decide (off + n ≥ 2 ^ 32)) = false := by simp; omega
  have clipped : (if off + n > ip.size then ip.size - off else n) = min n (ip.size - off) := by split_ifs <;> omega
  simp only [readiData,guard,Bool.false_eq_true,if_false,clipped]

theorem inode_contents_byte_array (s : Store) (ip : Inode) (calls : List Call) (inv : Inv s) (rep : Represents s ip)
    (fits : Fits ip calls) (room : Room (model ip calls).size s) :
    ∃ t, runCalls calls s = .ok (calls.map fun c => (c.n : Int),t) ∧ Inv t ∧ t.size = (model ip calls).size ∧
      (∀ off n, off ≤ t.size → off + n < 2 ^ 32 →
        readi off n t = .ok ((min n (t.size - off),
          fun i => if i < min n (t.size - off) then (model ip calls).data (off + i) else 0),t) ∧
        kfileread off n t = .ok ((min n (t.size - off),
          fun i => if i < min n (t.size - off) then (model ip calls).data (off + i) else 0,
          off + min n (t.size - off)),t)) ∧
      (∀ bn bn', t.blockAt bn ≠ 0 → t.blockAt bn = t.blockAt bn' → bn = bn') ∧
      ∀ bn, bn * BSIZE < t.size → t.blockAt bn ≠ 0 ∧ bmap bn t = .ok (t.blockAt bn,t) := by
  have spans := model_size_le fits (rep.1 ▸ inv.sized)
  obtain ⟨t,ran,inv',-,rep'⟩ := runCalls_refines calls inv room spans rep fits (Nat.le_refl _)
  have reads (off n : Nat) (start : off ≤ t.size) (nowrap : off + n < 2 ^ 32) :
      readi off n t = .ok ((min n (t.size - off),
        fun i => if i < min n (t.size - off) then (model ip calls).data (off + i) else 0),t) := by
    rw [readi_refines inv' rep',readiData_inside (rep'.1 ▸ start) nowrap,rep'.1]
  refine ⟨t,ran,inv',rep'.1,fun off n start nowrap => ⟨reads off n start nowrap,?_⟩,
    fun bn bn' held same => blockAt_inj inv' held same,fun bn below => ?_⟩
  · simp only [kfileread]
    rw [bind_of_ok (reads off n start nowrap)]
    by_cases empty : min n (t.size - off) > 0
    · simp [empty]
    · have zero : min n (t.size - off) = 0 := by omega
      simp [zero]
  · have held := inv'.filled bn below
    exact ⟨held,bmap_held held⟩

-- The store of the image mkfs writes with the root directory only, and an empty inode.
def fresh : Store := ⟨fun _ _ => 0,fun _ _ => 0,fun b => decide (b < Tree.nmeta + 1),0,fun _ => 0⟩

theorem refAt_fresh : fresh.refAt = fun _ => 0 := by
  funext k
  simp [Store.refAt,Store.blockAt,fresh]

theorem inv_fresh : Inv fresh := by
  refine ⟨by decide,?_,fun bn below => absurd below (Nat.not_lt_zero _),Nat.zero_le _⟩
  rw [refAt_fresh]
  exact ⟨fun _ filled => absurd rfl filled,fun _ _ filled => absurd rfl filled⟩

theorem room_fresh (spans : upto ≤ MAXFILE * BSIZE) : Room upto fresh := by
  have used : Alloc.freeCount fresh.marked FSSIZE = FSSIZE - (Tree.nmeta + 1) := Alloc.freeCount_prefix (by decide)
  have slots := span_length spans
  unfold Room
  rw [refAt_fresh,used]
  simp only [MAXFILE,NINDIRECT,NDIRECT,BSIZE,FSSIZE,Tree.nmeta,Tree.ninodeblocks,Tree.nbitmap,Tree.IPB,
    nlog,LOGSIZE,MAXOPBLOCKS,NINODES,BPB] at slots ⊢
  omega

-- Two bytes by writei, then 12300 bytes from offset 2 by kfilewrite: five
-- chunks, the last blocks reached through the indirect block.
def sampleCalls : List Call := [⟨.writei,fun _ => 7,0,2⟩,⟨.kfilewrite,fun j => j.toUInt8,2,12300⟩]

theorem fresh_contents_byte_array :
    (Inv fresh ∧ Represents fresh Inode.free ∧ Fits Inode.free sampleCalls ∧
      Room (model Inode.free sampleCalls).size fresh) ∧
    ∃ t, runCalls sampleCalls fresh = .ok (sampleCalls.map fun c => (c.n : Int),t) ∧ Inv t ∧
      t.size = (model Inode.free sampleCalls).size ∧
      (∀ off n, off ≤ t.size → off + n < 2 ^ 32 →
        readi off n t = .ok ((min n (t.size - off),
          fun i => if i < min n (t.size - off) then (model Inode.free sampleCalls).data (off + i) else 0),t) ∧
        kfileread off n t = .ok ((min n (t.size - off),
          fun i => if i < min n (t.size - off) then (model Inode.free sampleCalls).data (off + i) else 0,
          off + min n (t.size - off)),t)) ∧
      (∀ bn bn', t.blockAt bn ≠ 0 → t.blockAt bn = t.blockAt bn' → bn = bn') ∧
      ∀ bn, bn * BSIZE < t.size → t.blockAt bn ≠ 0 ∧ bmap bn t = .ok (t.blockAt bn,t) := by
  have rep : Represents fresh Inode.free := ⟨rfl,fun _ below => absurd below (Nat.not_lt_zero _)⟩
  have fits : Fits Inode.free sampleCalls := by
    simp [Fits,sampleCalls,written,Inode.free,MAXFILE,NINDIRECT,NDIRECT,BSIZE]
  have room : Room (model Inode.free sampleCalls).size fresh := room_fresh (by decide)
  exact ⟨⟨inv_fresh,rep,fits,room⟩,inode_contents_byte_array fresh Inode.free sampleCalls inv_fresh rep fits room⟩

-- A read whose uint end wraps past 2^32 is refused whole, though its start is
-- inside the file: two bytes written, then 2^32 - 1 asked for from offset 1.
theorem readi_wrapping_count_reads_nothing :
    ∃ t, writei (fun _ => 7) 0 2 fresh = .ok (2,t) ∧ Inv t ∧ t.size = 2 ∧
      readi 1 (2 ^ 32 - 1) t = .ok ((0,fun _ => 0),t) ∧ min (2 ^ 32 - 1) (t.size - 1) = 1 := by
  obtain ⟨t,ran,inv,-,sized,-⟩ := writei_spec inv_fresh (room_fresh (show 2 ≤ MAXFILE * BSIZE by decide))
    (by decide) (n := 2) (Nat.zero_le _) (Nat.le_refl _) (fun _ => 7)
  have two : t.size = 2 := by rw [sized]; rfl
  exact ⟨t,ran,inv,two,readi_wraps t (by omega),by rw [two]; decide⟩

end Block

end Xv6
