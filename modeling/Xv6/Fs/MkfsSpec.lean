import Xv6.Fs.Mkfs

namespace Xv6

namespace Mkfs

open Disk Endian Block Frame

-- What mkfs keeps of its image while it runs: each allocated inode holds its bytes so far, in blocks
-- of its own between nmeta and freeblock, and every block from freeblock on is still zero.

def bytesOf (p : Nat → UInt8) (n : Nat) : List UInt8 := (List.range n).map p

-- The blocks a file of len bytes takes, its indirect block included.
def blocksOf (len : Nat) : Nat := (len + BSIZE - 1) / BSIZE + if NDIRECT * BSIZE < len then 1 else 0

def metaImage (sec : Nat) : Nat → UInt8 := if sec = 1 then sb.bytes else fun _ => 0

structure Holds (img : Image) (din : Dinode) (bytes : List UInt8) : Prop where
  fits : din.Fits
  size : din.size = bytes.length
  long : bytes.length ≤ MAXFILE * BSIZE
  held : ∀ bn, bn * BSIZE < bytes.length → (view sb img din).blockAt bn ≠ 0
  empty : ∀ bn, bytes.length ≤ bn * BSIZE → (view sb img din).blockAt bn = 0
  direct : bytes.length ≤ NDIRECT * BSIZE → din.addrs.getD NDIRECT 0 = 0
  data : ∀ i < bytes.length, (view sb img din).contents i = bytes.getD i 0

-- Block k of allocated inode inum, slot MAXFILE its indirect block.
def refs (img : Image) (dins : Nat → Dinode) (n : Nat) (p : Nat × Nat) : Nat :=
  if 1 ≤ p.1 ∧ p.1 < n ∧ p.2 ≤ MAXFILE then (view sb img (dins p.1)).refAt p.2 else 0

structure Laid (s : State) (dins : Nat → Dinode) (files : Nat → List UInt8) : Prop where
  sectors : s.sectors = FSSIZE
  inodes : s.freeinode ≤ NINODES
  start : Tree.nmeta ≤ s.freeblock
  room : s.freeblock ≤ FSSIZE
  fresh : ∀ b, s.freeblock ≤ b → b < FSSIZE → s.img b = fun _ => 0
  header : ∀ sec < sb.inodestart, s.img sec = metaImage sec
  holds : ∀ inum, 1 ≤ inum → inum < s.freeinode → Holds s.img (dins inum) (files inum)
  owned : Alloc.Owned (refs s.img dins s.freeinode) fun b => decide (b < s.freeblock)
  low : ∀ p, refs s.img dins s.freeinode p ≠ 0 → Tree.nmeta ≤ refs s.img dins s.freeinode p

-- The dinodes on disk are the table's, but for one held in memory.
def Stored (img : Image) (dins : Nat → Dinode) (n except : Nat) : Prop :=
  ∀ inum, 1 ≤ inum → inum < n → inum ≠ except → Dinode.load (img (IBLOCK inum sb)) (inum % Tree.IPB * 64) = dins inum

section Counting

variable {L : Nat}

theorem blocksOf_inner (inner : L % BSIZE ≠ 0) : blocksOf (L + 1) = blocksOf L := by
  unfold blocksOf
  split_ifs <;> simp only [BSIZE,NDIRECT] at * <;> omega

theorem blocksOf_next (boundary : L % BSIZE = 0) (other : L ≠ NDIRECT * BSIZE) : blocksOf (L + 1) = blocksOf L + 1 := by
  unfold blocksOf
  split_ifs <;> simp only [BSIZE,NDIRECT] at * <;> omega

theorem blocksOf_first (first : L = NDIRECT * BSIZE) : blocksOf (L + 1) = blocksOf L + 2 := by
  subst first
  decide

theorem blocksOf_chunk {m : Nat} (moved : 0 < m) (within : L % BSIZE + m ≤ BSIZE) : blocksOf (L + m) = blocksOf (L + 1) := by
  unfold blocksOf
  split_ifs <;> simp only [BSIZE,NDIRECT] at * <;> omega

theorem blocksOf_mono {a b : Nat} (le : a ≤ b) : blocksOf a ≤ blocksOf b := by
  unfold blocksOf
  split_ifs <;> simp only [BSIZE,NDIRECT] at * <;> omega

theorem bytesOf_add (p : Nat → UInt8) (a b : Nat) :
    bytesOf p (a + b) = bytesOf p a ++ (List.range b).map fun k => p (a + k) := by
  simp [bytesOf,List.range_add,Function.comp_def]

@[simp] theorem length_bytesOf (p : Nat → UInt8) (n : Nat) : (bytesOf p n).length = n := by
  simp [bytesOf]

end Counting

theorem Dinode.reshape {a b c : Dinode} (first : {a with addrs := b.addrs} = b) (second : {c with addrs := a.addrs} = a) :
    {c with addrs := b.addrs} = b := by
  cases a
  cases b
  cases c
  simp_all

theorem Dinode.like_trans {a b c : Dinode} (first : {a with addrs := b.addrs,size := b.size} = b)
    (second : {b with addrs := c.addrs,size := c.size} = c) : {a with addrs := c.addrs,size := c.size} = c := by
  cases a
  cases b
  cases c
  simp_all

theorem Dinode.resize {a b : Dinode} (shape : {a with addrs := b.addrs} = b) (z : Nat) :
    {{a with size := z} with addrs := b.addrs,size := b.size} = b := by
  cases a
  cases b
  simp_all

section Ops

variable {s : State}

theorem wsect_run (sec : Nat) (buf : Nat → UInt8) :
    wsect sec buf s = .ok ((),{s with img := Function.update s.img sec buf,sectors := max s.sectors (sec + 1)}) := rfl

theorem rsect_run {sec : Nat} (inside : sec < s.sectors) : rsect sec s = .ok (s.img sec,s) := by
  simp [rsect,inside]

theorem nextBlock_run : nextBlock s = .ok (s.freeblock,{s with freeblock := s.freeblock + 1}) := rfl

theorem wsect_inside {sec : Nat} (buf : Nat → UInt8) (inside : sec < s.sectors) :
    wsect sec buf s = .ok ((),{s with img := Function.update s.img sec buf}) := by
  rw [wsect_run]
  congr
  omega

end Ops

section Views

variable {img img' : Image} {din : Dinode}

theorem blockAt_congr (same : din.addrs.getD NDIRECT 0 ≠ 0 →
    img' (din.addrs.getD NDIRECT 0) = img (din.addrs.getD NDIRECT 0)) :
    (view sb img' din).blockAt = (view sb img din).blockAt := by
  funext bn
  simp only [Store.blockAt,view]
  by_cases held : din.addrs.getD NDIRECT 0 = 0
  · simp only [held,ne_eq,not_true_eq_false,and_false,if_false]
  · rw [same held]
    rfl

theorem refAt_congr (same : din.addrs.getD NDIRECT 0 ≠ 0 →
    img' (din.addrs.getD NDIRECT 0) = img (din.addrs.getD NDIRECT 0)) :
    (view sb img' din).refAt = (view sb img din).refAt := by
  funext k
  simp only [Store.refAt,blockAt_congr same]
  rfl

theorem indirect_refAt (din : Dinode) (img : Image) : (view sb img din).refAt MAXFILE = din.addrs.getD NDIRECT 0 :=
  refAt_maxfile _

theorem Holds.frame {bytes : List UInt8} (holds : Holds img din bytes)
    (same : ∀ k ≤ MAXFILE, (view sb img din).refAt k ≠ 0 →
      img' ((view sb img din).refAt k) = img ((view sb img din).refAt k)) : Holds img' din bytes := by
  have indirect : din.addrs.getD NDIRECT 0 ≠ 0 → img' (din.addrs.getD NDIRECT 0) = img (din.addrs.getD NDIRECT 0) :=
    fun held => by
      have kept := same MAXFILE (Nat.le_refl _) (by rwa [indirect_refAt])
      rwa [indirect_refAt] at kept
  have blocks := blockAt_congr indirect
  refine ⟨holds.fits,holds.size,holds.long,fun bn below => ?_,fun bn above => ?_,holds.direct,fun i below => ?_⟩
  · rw [blocks]
    exact holds.held bn below
  · rw [blocks]
    exact holds.empty bn above
  · have present := holds.held _ (block_below below)
    have short : i / BSIZE < MAXFILE := by
      by_contra far
      exact present (blockAt_beyond (by omega))
    have kept := same (i / BSIZE) (by omega) (by rwa [← blockAt_eq_refAt (by omega)])
    rw [← blockAt_eq_refAt (by omega)] at kept
    simp only [Store.contents,blocks]
    show img' _ _ = _
    rw [kept]
    exact holds.data i below

theorem getD_set {l : List Nat} {k : Nat} (inside : k < l.length) (b : Nat) :
    (fun j => (l.set k b).getD j 0) = Function.update (fun j => l.getD j 0) k b := by
  funext j
  by_cases same : j = k
  · subst same
    simp [List.getD_eq_getElem?_getD,inside]
  · simp [List.getD_eq_getElem?_getD,Function.update_of_ne same,Ne.symm same]

theorem view_setAddr {k : Nat} (inside : k < din.addrs.length) (b : Nat) :
    view sb img {din with addrs := din.addrs.set k b} = (view sb img din).setAddr k b := by
  simp only [view,Store.setAddr,getD_set inside]

theorem refAt_of_words {s t : Store} (addrs : s.addrs = t.addrs) (words : s.words = t.words) : s.refAt = t.refAt := by
  funext k
  simp [Store.refAt,Store.blockAt,addrs,words]

theorem view_words_set {ind j b : Nat} (small : b < 2 ^ 32) :
    (view sb (Function.update img ind (set (img ind) (4 * j) 4 b)) din).words =
      ((view sb img din).setWord ind j b).words := by
  funext b' j'
  by_cases same : b' = ind
  · subst same
    by_cases word : j' = j
    · subst word
      simp only [view,Store.setWord,Function.update_self]
      exact get_set_small _ _ _ (by norm_num at small ⊢; omega)
    · simp only [view,Store.setWord,Function.update_self,Function.update_of_ne word]
      exact get_set_apart (by omega)
  · simp [view,Store.setWord,Function.update_of_ne same]

-- bmap's a[bn - NDIRECT] = addr in the indirect block, as the image holds it.
theorem refAt_word (img : Image) (din : Dinode) {ind bn b : Nat} (loaded : din.addrs.getD NDIRECT 0 = ind) (held : ind ≠ 0)
    (lower : NDIRECT ≤ bn) (upper : bn < MAXFILE) (small : b < 2 ^ 32) :
    (view sb (Function.update img ind (set (img ind) (4 * (bn - NDIRECT)) 4 b)) din).refAt =
      Function.update (view sb img din).refAt bn b := by
  have same : (view sb (Function.update img ind (set (img ind) (4 * (bn - NDIRECT)) 4 b)) din).refAt =
      ((view sb img din).setWord ind (bn - NDIRECT) b).refAt :=
    refAt_of_words rfl (view_words_set small)
  have entry : bn - NDIRECT < NINDIRECT := by simp only [MAXFILE] at upper; omega
  rw [same,refAt_setWord loaded held entry b,Nat.add_sub_cancel' lower]

theorem words_zero {b : Nat} (zeroed : img b = fun _ => 0) : (view sb img din).words b = fun _ => 0 := by
  funext j
  simp [view,zeroed]

theorem indirect_of_held {t : Store} {bn : Nat} (lo : NDIRECT ≤ bn) (held : t.blockAt bn ≠ 0) : t.addrs NDIRECT ≠ 0 := by
  intro empty
  simp [Store.blockAt,empty,show ¬ bn < NDIRECT by omega] at held

theorem blockAt_of_row {t u : Store} {k bn : Nat} (row : ∀ j, j ≠ k → j ≠ MAXFILE → t.refAt j = u.refAt j)
    (other : bn ≠ k) : t.blockAt bn = u.blockAt bn := by
  by_cases top : bn = MAXFILE
  · rw [top,blockAt_maxfile,blockAt_maxfile]
  · rw [blockAt_eq_refAt top,blockAt_eq_refAt top,row bn other top]

theorem blockAt_of_refAt {t u : Store} (row : t.refAt = u.refAt) : t.blockAt = u.blockAt := by
  funext bn
  by_cases top : bn = MAXFILE
  · rw [top,blockAt_maxfile,blockAt_maxfile]
  · rw [blockAt_eq_refAt top,blockAt_eq_refAt top,row]

theorem chunk_block {off m bn : Nat} (within : off % BSIZE + m ≤ BSIZE) (below : bn * BSIZE < off + m)
    (other : bn ≠ off / BSIZE) : bn * BSIZE < off := by
  simp only [BSIZE] at *
  omega

theorem chunk_beyond {off m bn : Nat} (moved : 0 < m) (above : off + m ≤ bn * BSIZE) :
    bn ≠ off / BSIZE ∧ off ≤ bn * BSIZE := by
  simp only [BSIZE] at *
  omega

theorem chunk_partial {off i : Nat} (old : i < off) (last : i / BSIZE = off / BSIZE) :
    off % BSIZE ≠ 0 ∧ i % BSIZE < off % BSIZE := by
  simp only [BSIZE] at *
  omega

theorem chunk_earlier {off i : Nat} (old : i < off) (other : i / BSIZE ≠ off / BSIZE) : i / BSIZE < off / BSIZE := by
  simp only [BSIZE] at *
  omega

-- n bytes appended at block position off % BSIZE of a file of off bytes.
theorem Holds.append (img' : Image) (din' : Dinode) (src : Nat → UInt8) {bytes : List UInt8} {L m x : Nat}
    (holds : Holds img din bytes) (len : bytes.length = L) (fits : din'.Fits) (sized : din'.size = L + m)
    (long : L + m ≤ MAXFILE * BSIZE) (moved : 0 < m) (within : L % BSIZE + m ≤ BSIZE)
    (others : ∀ bn, bn ≠ L / BSIZE → (view sb img' din').blockAt bn = (view sb img din).blockAt bn)
    (target : (view sb img' din').blockAt (L / BSIZE) = x) (nonzero : x ≠ 0)
    (same : L % BSIZE ≠ 0 → (view sb img din).blockAt (L / BSIZE) = x)
    (kept : ∀ bn, bn < L / BSIZE → img' ((view sb img din).blockAt bn) = img ((view sb img din).blockAt bn))
    (before : ∀ j < L % BSIZE, img' x j = img x j)
    (after : ∀ j, L % BSIZE ≤ j → j < L % BSIZE + m → img' x j = src (j - L % BSIZE))
    (direct : L + m ≤ NDIRECT * BSIZE → din'.addrs.getD NDIRECT 0 = 0) :
    Holds img' din' (bytes ++ (List.range m).map src) := by
  subst len
  have total : (bytes ++ (List.range m).map src).length = bytes.length + m := by simp
  refine ⟨fits,by rw [sized,total],by rw [total]; exact long,fun bn below => ?_,fun bn above => ?_,
    fun short => direct (by rw [← total]; exact short),fun i below => ?_⟩
  · rw [total] at below
    by_cases last : bn = bytes.length / BSIZE
    · rw [last,target]
      exact nonzero
    · rw [others bn last]
      exact holds.held bn (chunk_block within below last)
  · rw [total] at above
    obtain ⟨other,beyond⟩ := chunk_beyond moved above
    rw [others bn other]
    exact holds.empty bn beyond
  · rw [total] at below
    show img' ((view sb img' din').blockAt (i / BSIZE)) (i % BSIZE) = _
    by_cases old : i < bytes.length
    · rw [List.getD_append _ _ _ _ old]
      by_cases last : i / BSIZE = bytes.length / BSIZE
      · obtain ⟨inner,lower⟩ := chunk_partial old last
        have stays := holds.data i old
        simp only [Store.contents,last,same inner] at stays
        rw [last,target,before _ lower]
        exact stays
      · rw [others _ last,kept _ (chunk_earlier old last)]
        exact holds.data i old
    · have fresh : i - bytes.length < m := by omega
      obtain ⟨last,lo,hi,shift⟩ := chunk_inside (o := bytes.length) (m := m) (i := i) (by omega) (by omega) below
      rw [last,target,after _ lo hi,shift,List.getD_append_right _ _ _ _ (by omega)]
      simp [fresh]

end Views

section Frames

variable {img img' : Image} {dins : Nat → Dinode} {n fb inum : Nat}

theorem refs_self (lo : 1 ≤ inum) (hi : inum < n) (img : Image) (din : Dinode) (k : Nat) :
    refs img (Function.update dins inum din) n (inum,k) = if k ≤ MAXFILE then (view sb img din).refAt k else 0 := by
  simp [refs,lo,hi]

-- A changed block is a fresh one or one of inode inum's, so every other inode keeps its bytes.
theorem untouched (owned : Alloc.Owned (refs img dins n) fun b => decide (b < fb))
    (changed : ∀ b, img' b ≠ img b → fb ≤ b ∨ ∃ k, refs img dins n (inum,k) = b)
    {p : Nat × Nat} (other : p.1 ≠ inum) (held : refs img dins n p ≠ 0) :
    img' (refs img dins n p) = img (refs img dins n p) := by
  by_contra moved
  rcases changed _ moved with fresh | ⟨k,mine⟩
  · have used := owned.marked_of_ref p held
    simp only [decide_eq_true_eq] at used
    omega
  · exact other (congrArg Prod.fst (owned.unique p (inum,k) held mine.symm))

section Others

variable (owned : Alloc.Owned (refs img dins n) fun b => decide (b < fb))
  (changed : ∀ b, img' b ≠ img b → fb ≤ b ∨ ∃ k, refs img dins n (inum,k) = b)
include owned changed

theorem refAt_other {j : Nat} (lo : 1 ≤ j) (hi : j < n) (other : j ≠ inum) :
    (view sb img' (dins j)).refAt = (view sb img (dins j)).refAt := by
  apply refAt_congr
  intro held
  have ind := untouched owned changed (p := (j,MAXFILE)) other
    (by simpa [refs,lo,hi,indirect_refAt] using held)
  simpa [refs,lo,hi,indirect_refAt] using ind

theorem refs_other {din : Dinode} {p : Nat × Nat} (other : p.1 ≠ inum) :
    refs img' (Function.update dins inum din) n p = refs img dins n p := by
  obtain ⟨j,k⟩ := p
  simp only [refs,Function.update_of_ne other]
  split_ifs with range
  · rw [refAt_other owned changed range.1 range.2.1 other]
  · rfl

theorem holds_other {j : Nat} {bytes : List UInt8} (lo : 1 ≤ j) (hi : j < n) (other : j ≠ inum)
    (holds : Holds img (dins j) bytes) : Holds img' (dins j) bytes := by
  refine holds.frame fun k slot held => ?_
  have kept := untouched owned changed (p := (j,k)) other (by simpa [refs,lo,hi,slot] using held)
  simpa [refs,lo,hi,slot] using kept

end Others

theorem refs_claim (d d' : Dinode) {k b : Nat} (owned : Alloc.Owned (refs img (Function.update dins inum d) n) fun c => decide (c < fb))
    (changed : ∀ c, img' c ≠ img c → fb ≤ c ∨ ∃ k, refs img (Function.update dins inum d) n (inum,k) = c)
    (lo : 1 ≤ inum) (hi : inum < n) (slot : k ≤ MAXFILE)
    (row : (view sb img' d').refAt = Function.update (view sb img d).refAt k b) :
    refs img' (Function.update dins inum d') n = Function.update (refs img (Function.update dins inum d) n) (inum,k) b := by
  funext ⟨j,k'⟩
  by_cases mine : j = inum
  · subst mine
    rw [refs_self lo hi,row]
    by_cases same : k' = k
    · subst same
      simp [slot]
    · rw [Function.update_of_ne same,Function.update_of_ne (show (j,k') ≠ (j,k) by simp [same]),refs_self lo hi]
  · have other : (j,k').1 ≠ inum := mine
    rw [Function.update_of_ne (by simp [mine]),← Function.update_idem (a := inum) d d' dins,
      refs_other owned changed other]

-- A data block of inode inum is no one's indirect block, so writing it moves no slot.
theorem refAt_write (buf : Nat → UInt8) {bn x : Nat} (owned : Alloc.Owned (refs img dins n) fun b => decide (b < fb))
    (data : bn < MAXFILE) (found : refs img dins n (inum,bn) = x) (held : x ≠ 0) {j : Nat} (lo : 1 ≤ j) (hi : j < n) :
    (view sb (Function.update img x buf) (dins j)).refAt = (view sb img (dins j)).refAt := by
  apply refAt_congr
  intro ind
  apply Function.update_of_ne
  intro same
  have top : refs img dins n (j,MAXFILE) = refs img dins n (inum,bn) := by
    rw [found,← same]
    simp [refs,lo,hi,indirect_refAt]
  have one := owned.unique _ _ (by rw [top,found]; exact held) top
  simp only [Prod.mk.injEq] at one
  omega

theorem refs_write {buf : Nat → UInt8} {bn x : Nat} (owned : Alloc.Owned (refs img dins n) fun b => decide (b < fb))
    (data : bn < MAXFILE) (found : refs img dins n (inum,bn) = x) (held : x ≠ 0) :
    refs (Function.update img x buf) dins n = refs img dins n := by
  funext ⟨j,k⟩
  unfold refs
  split_ifs with range
  · rw [refAt_write _ owned data found held range.1 range.2.1]
  · rfl

theorem refs_resize (img : Image) (d : Dinode) (z z' : Nat) :
    refs img (Function.update dins inum {d with size := z}) n = refs img (Function.update dins inum {d with size := z'}) n := by
  funext ⟨j,k⟩
  by_cases mine : j = inum
  · subst mine
    simp only [refs,Function.update_self]
    rfl
  · simp only [refs,Function.update_of_ne mine]

theorem owned_claim {ref : Nat × Nat → Nat} {p : Nat × Nat} (owned : Alloc.Owned ref fun c => decide (c < fb))
    (empty : ref p = 0) : Alloc.Owned (Function.update ref p fb) fun c => decide (c < fb + 1) := by
  have marks : (fun c => decide (c < fb + 1)) = Function.update (fun c => decide (c < fb)) fb true := by
    funext c
    by_cases same : c = fb
    · simp [same]
    · simp only [Function.update_of_ne same]
      simp only [decide_eq_decide]
      omega
  rw [marks]
  exact owned.claim empty (by simp)

theorem low_claim {ref : Nat × Nat → Nat} {q : Nat × Nat} {b : Nat} (low : ∀ p, ref p ≠ 0 → Tree.nmeta ≤ ref p)
    (placed : Tree.nmeta ≤ b) : ∀ p, Function.update ref q b p ≠ 0 → Tree.nmeta ≤ Function.update ref q b p := by
  intro p held
  by_cases same : p = q
  · subst same
    simpa using placed
  · rw [Function.update_of_ne same] at held ⊢
    exact low p held

theorem iblock_lt {inum : Nat} (below : inum < NINODES) : IBLOCK inum sb < Tree.nmeta := by
  simp only [IBLOCK,sb,Tree.IPB,Tree.nmeta,Tree.ninodeblocks,Tree.nbitmap,NINODES,BSIZE,nlog,LOGSIZE,MAXOPBLOCKS,
    FSSIZE,BPB] at below ⊢
  omega

theorem Stored.frame {except : Nat} (stored : Stored img dins n except) (bound : n ≤ NINODES)
    (changed : ∀ b, img' b ≠ img b → Tree.nmeta ≤ b) : Stored img' dins n except := by
  intro j lo hi other
  have kept : img' (IBLOCK j sb) = img (IBLOCK j sb) := by
    by_contra moved
    have := changed _ moved
    have := iblock_lt (show j < NINODES by omega)
    omega
  rw [kept]
  exact stored j lo hi other

end Frames

section Step

variable {s s' : State} {dins : Nat → Dinode} {files : Nat → List UInt8}

-- A change that writes only fresh blocks or blocks of inode inum keeps the invariant.
theorem Laid.step (laid : Laid s dins files) (s' : State) {inum : Nat} (lo : 1 ≤ inum) (hi : inum < s.freeinode) (din : Dinode)
    (bytes : List UInt8) (sectors : s'.sectors = s.sectors) (inodes : s'.freeinode = s.freeinode)
    (grows : s.freeblock ≤ s'.freeblock) (room : s'.freeblock ≤ FSSIZE)
    (changed : ∀ b, s'.img b ≠ s.img b → Tree.nmeta ≤ b ∧ b < s'.freeblock ∧
      (s.freeblock ≤ b ∨ ∃ k, refs s.img dins s.freeinode (inum,k) = b))
    (holds : Holds s'.img din bytes)
    (owned : Alloc.Owned (refs s'.img (Function.update dins inum din) s'.freeinode) fun b => decide (b < s'.freeblock))
    (low : ∀ k, refs s'.img (Function.update dins inum din) s'.freeinode (inum,k) ≠ 0 →
      Tree.nmeta ≤ refs s'.img (Function.update dins inum din) s'.freeinode (inum,k)) :
    Laid s' (Function.update dins inum din) (Function.update files inum bytes) := by
  have mine : ∀ b, s'.img b ≠ s.img b → s.freeblock ≤ b ∨ ∃ k, refs s.img dins s.freeinode (inum,k) = b :=
    fun b moved => (changed b moved).2.2
  have kept : ∀ b, (b < Tree.nmeta ∨ s'.freeblock ≤ b) → s'.img b = s.img b := by
    intro b out
    by_contra moved
    have := changed b moved
    omega
  refine ⟨by rw [sectors,laid.sectors],by rw [inodes]; exact laid.inodes,le_trans laid.start grows,room,
    fun b above below => ?_,fun sec below => ?_,fun j lo' hi' => ?_,owned,fun p held => ?_⟩
  · rw [kept b (Or.inr above)]
    exact laid.fresh b (le_trans grows above) below
  · have early : sb.inodestart < Tree.nmeta := by decide
    rw [kept sec (Or.inl (by omega))]
    exact laid.header sec below
  · rw [inodes] at hi'
    by_cases same : j = inum
    · subst same
      simpa using holds
    · simp only [Function.update_of_ne same]
      exact holds_other laid.owned mine lo' hi' same (laid.holds j lo' hi')
  · by_cases same : p.1 = inum
    · obtain ⟨j,k⟩ := p
      simp only at same
      subst same
      exact low k held
    · rw [inodes] at held ⊢
      rw [refs_other laid.owned mine same] at held ⊢
      exact laid.low p held

end Step

section BlockFor

variable {s : State} {din : Dinode} {fbn : Nat}

-- The four ways blockFor runs: a block held, a direct address, the first indirect address with
-- the indirect block taken first, and an indirect entry.
theorem blockFor_held (held : (view sb s.img din).blockAt fbn ≠ 0)
    (readable : NDIRECT ≤ fbn → din.addrs.getD NDIRECT 0 < s.sectors) :
    blockFor din fbn s = .ok ((din,(view sb s.img din).blockAt fbn),s) := by
  by_cases direct : fbn < NDIRECT
  · simp only [Store.blockAt,view,direct,if_true] at held ⊢
    simp only [blockFor,direct,held,if_true,if_false,pure_run]
  · have inside : fbn < MAXFILE ∧ din.addrs.getD NDIRECT 0 ≠ 0 := by
      by_contra outside
      simp only [Store.blockAt,view,direct,outside,if_false] at held
      exact held rfl
    simp only [Store.blockAt,view,direct,inside,if_false,if_true,ne_eq,not_false_eq_true,and_self] at held ⊢
    simp only [blockFor,direct,inside.2,if_false,pure_bind_run]
    rw [bind_of_ok (rsect_run (readable (by omega)))]
    simp only [held,if_false,pure_run]

theorem blockFor_direct (direct : fbn < NDIRECT) (empty : din.addrs.getD fbn 0 = 0) :
    blockFor din fbn s =
      .ok (({din with addrs := din.addrs.set fbn s.freeblock},s.freeblock),{s with freeblock := s.freeblock + 1}) := by
  simp only [blockFor,direct,empty,if_true]
  rw [bind_of_ok nextBlock_run]
  rfl

theorem blockFor_first (lo : NDIRECT ≤ fbn) (count : din.addrs.length = NDIRECT + 1) (empty : din.addrs.getD NDIRECT 0 = 0)
    (inside : s.freeblock < s.sectors) (zeroed : s.img s.freeblock = fun _ => 0) :
    blockFor din fbn s =
      .ok (({din with addrs := din.addrs.set NDIRECT s.freeblock},s.freeblock + 1),
        {s with
          freeblock := s.freeblock + 2
          img := Function.update s.img s.freeblock (set (s.img s.freeblock) (4 * (fbn - NDIRECT)) 4 (s.freeblock + 1))}) := by
  have indirect : ¬ fbn < NDIRECT := by omega
  have loaded : (din.addrs.set NDIRECT s.freeblock).getD NDIRECT 0 = s.freeblock := by
    simp [List.getD_eq_getElem?_getD,count]
  have unused : get (s.img s.freeblock) (4 * (fbn - NDIRECT)) 4 = 0 := by
    rw [zeroed]
    exact get_zero _ _
  simp only [blockFor,indirect,empty,if_true,if_false]
  rw [bind_of_ok nextBlock_run,pure_bind_run,loaded,bind_of_ok (rsect_run (s := {s with freeblock := s.freeblock + 1}) inside)]
  simp only [unused,if_true]
  rw [bind_of_ok nextBlock_run,bind_of_ok (wsect_inside (s := {s with freeblock := s.freeblock + 1 + 1}) _ inside)]
  rfl

theorem blockFor_entry (lo : NDIRECT ≤ fbn) (held : din.addrs.getD NDIRECT 0 ≠ 0)
    (inside : din.addrs.getD NDIRECT 0 < s.sectors) (empty : get (s.img (din.addrs.getD NDIRECT 0)) (4 * (fbn - NDIRECT)) 4 = 0) :
    blockFor din fbn s =
      .ok ((din,s.freeblock),
        {s with
          freeblock := s.freeblock + 1
          img := Function.update s.img (din.addrs.getD NDIRECT 0)
            (set (s.img (din.addrs.getD NDIRECT 0)) (4 * (fbn - NDIRECT)) 4 s.freeblock)}) := by
  have indirect : ¬ fbn < NDIRECT := by omega
  simp only [blockFor,indirect,held,if_false,pure_bind_run]
  rw [bind_of_ok (rsect_run inside)]
  simp only [empty,if_true]
  rw [bind_of_ok nextBlock_run,bind_of_ok (wsect_inside (s := {s with freeblock := s.freeblock + 1}) _ inside)]
  rfl

end BlockFor

-- What blockFor leaves for the write into block L / BSIZE of inode inum, held in memory as din₁.
structure Claimed (s s₁ : State) (dins : Nat → Dinode) (inum L : Nat) (din din₁ : Dinode) (x : Nat) : Prop where
  sectors : s₁.sectors = s.sectors
  inodes : s₁.freeinode = s.freeinode
  blocks : s₁.freeblock = s.freeblock + (blocksOf (L + 1) - blocksOf L)
  shape : {din₁ with addrs := din.addrs} = din
  count : din₁.addrs.length = din.addrs.length
  addrs : ∀ a ∈ din₁.addrs, a ∈ din.addrs ∨ a < s₁.freeblock
  target : (view sb s₁.img din₁).blockAt (L / BSIZE) = x
  placed : Tree.nmeta ≤ x ∧ x < s₁.freeblock
  same : L % BSIZE ≠ 0 → (view sb s.img din).blockAt (L / BSIZE) = x ∧ s₁.img x = s.img x
  fresh : L % BSIZE = 0 → s.freeblock ≤ x
  others : ∀ bn, bn ≠ L / BSIZE → (view sb s₁.img din₁).blockAt bn = (view sb s.img din).blockAt bn
  changed : ∀ b, s₁.img b ≠ s.img b → Tree.nmeta ≤ b ∧ b < s₁.freeblock ∧ (s.freeblock ≤ b ∨ b = din.addrs.getD NDIRECT 0)
  direct : L / BSIZE < NDIRECT → din₁.addrs.getD NDIRECT 0 = din.addrs.getD NDIRECT 0
  owned : Alloc.Owned (refs s₁.img (Function.update dins inum {din₁ with size := L}) s.freeinode)
    fun b => decide (b < s₁.freeblock)
  low : ∀ p, refs s₁.img (Function.update dins inum {din₁ with size := L}) s.freeinode p ≠ 0 →
    Tree.nmeta ≤ refs s₁.img (Function.update dins inum {din₁ with size := L}) s.freeinode p

section Claims

variable {s : State} {dins : Nat → Dinode} {files : Nat → List UInt8} {inum L : Nat} {din : Dinode}
  (laid : Laid s (Function.update dins inum {din with size := L}) files) (lo : 1 ≤ inum) (hi : inum < s.freeinode)
  (sized : (files inum).length = L)

include lo hi

theorem mine_refs {k : Nat} (slot : k ≤ MAXFILE) :
    refs s.img (Function.update dins inum {din with size := L}) s.freeinode (inum,k) = (view sb s.img din).refAt k := by
  rw [refs_self lo hi,if_pos slot]
  rfl

include laid

theorem mine_placed {k : Nat} (slot : k ≤ MAXFILE) (held : (view sb s.img din).refAt k ≠ 0) :
    Tree.nmeta ≤ (view sb s.img din).refAt k ∧ (view sb s.img din).refAt k < s.freeblock := by
  have ref : refs s.img (Function.update dins inum {din with size := L}) s.freeinode (inum,k) ≠ 0 := by
    rw [mine_refs lo hi slot]
    exact held
  have used := laid.owned.marked_of_ref _ ref
  have low := laid.low _ ref
  rw [mine_refs lo hi slot] at used low
  simp only [decide_eq_true_eq] at used
  exact ⟨low,used⟩

theorem mine_holds : Holds s.img {din with size := L} (files inum) := by
  simpa using laid.holds inum lo hi

include sized

theorem claimed_held (inner : L % BSIZE ≠ 0) :
    blockFor din (L / BSIZE) s = .ok ((din,(view sb s.img din).blockAt (L / BSIZE)),s) ∧
      Claimed s s dins inum L din din ((view sb s.img din).blockAt (L / BSIZE)) := by
  have holds := mine_holds laid lo hi
  have held : (view sb s.img din).blockAt (L / BSIZE) ≠ 0 :=
    holds.held _ (by rw [sized]; simp only [BSIZE] at *; omega)
  have short : L / BSIZE ≠ MAXFILE := fun top => held (by rw [top,blockAt_maxfile])
  have placed := mine_placed laid lo hi (k := L / BSIZE)
    (by by_contra far; exact held (blockAt_beyond (by omega))) (by rwa [← blockAt_eq_refAt short])
  rw [← blockAt_eq_refAt short] at placed
  have readable : NDIRECT ≤ L / BSIZE → din.addrs.getD NDIRECT 0 < s.sectors := by
    intro indirect
    have ind := (mine_placed laid lo hi le_rfl (by rw [indirect_refAt]; exact indirect_of_held indirect held)).2
    rw [indirect_refAt] at ind
    rw [laid.sectors]
    exact lt_of_lt_of_le ind laid.room
  refine ⟨blockFor_held held readable,rfl,rfl,by rw [blocksOf_inner inner]; simp,rfl,rfl,fun a mem => Or.inl mem,rfl,placed,
    fun _ => ⟨rfl,rfl⟩,fun boundary => absurd boundary inner,fun _ _ => rfl,fun b moved => absurd rfl moved,fun _ => rfl,
    laid.owned,laid.low⟩

theorem claimed_direct (boundary : L % BSIZE = 0) (direct : L / BSIZE < NDIRECT) :
    blockFor din (L / BSIZE) s = .ok (({din with addrs := din.addrs.set (L / BSIZE) s.freeblock},s.freeblock),
      {s with freeblock := s.freeblock + 1}) ∧
      Claimed s {s with freeblock := s.freeblock + 1} dins inum L din
        {din with addrs := din.addrs.set (L / BSIZE) s.freeblock} s.freeblock := by
  have holds := mine_holds laid lo hi
  have count : din.addrs.length = NDIRECT + 1 := holds.fits.count
  have empty : (view sb s.img din).blockAt (L / BSIZE) = 0 :=
    holds.empty _ (by rw [sized]; simp only [BSIZE] at *; omega)
  have unset : din.addrs.getD (L / BSIZE) 0 = 0 := by simpa [Store.blockAt,view,direct] using empty
  have row : (view sb s.img {din with addrs := din.addrs.set (L / BSIZE) s.freeblock}).refAt =
      Function.update (view sb s.img din).refAt (L / BSIZE) s.freeblock := by
    rw [view_setAddr (by omega),refAt_setAddr_direct _ direct]
  have short : L / BSIZE ≠ MAXFILE := by simp only [MAXFILE]; omega
  have refs' := refs_claim {din with size := L} {din with addrs := din.addrs.set (L / BSIZE) s.freeblock,size := L}
    laid.owned
    (fun c moved => absurd rfl moved) lo hi (by simp only [MAXFILE]; omega) row
  have unfilled : refs s.img (Function.update dins inum {din with size := L}) s.freeinode (inum,L / BSIZE) = 0 := by
    rw [mine_refs lo hi (by simp only [MAXFILE]; omega),← blockAt_eq_refAt short,empty]
  refine ⟨blockFor_direct direct unset,rfl,rfl,?_,rfl,by simp,fun a mem => ?_,?_,⟨laid.start,Nat.lt_succ_self _⟩,
    fun inner => absurd boundary inner,fun _ => le_rfl,fun bn other => blockAt_of_row (fun j ne _ => ?_) other,
    fun b moved => absurd rfl moved,fun _ => ?_,?_,?_⟩
  · show s.freeblock + 1 = _
    rw [blocksOf_next boundary (by simp only [BSIZE,NDIRECT] at *; omega)]
    omega
  · rcases List.mem_or_eq_of_mem_set mem with old | new
    · exact Or.inl old
    · exact Or.inr (by simp [new])
  · rw [blockAt_eq_refAt short,row,Function.update_self]
  · rw [row,Function.update_of_ne ne]
  · have slot := congrFun (getD_set (l := din.addrs) (k := L / BSIZE) (by omega) s.freeblock) NDIRECT
    simpa [Function.update_of_ne (show NDIRECT ≠ L / BSIZE by omega)] using slot
  · rw [refs']
    exact owned_claim laid.owned unfilled
  · rw [refs']
    exact low_claim laid.low laid.start

theorem claimed_first (boundary : L % BSIZE = 0) (first : L = NDIRECT * BSIZE) (room : s.freeblock + 2 ≤ FSSIZE) :
    blockFor din (L / BSIZE) s = .ok (({din with addrs := din.addrs.set NDIRECT s.freeblock},s.freeblock + 1),
      {s with
        freeblock := s.freeblock + 2
        img := Function.update s.img s.freeblock
          (set (s.img s.freeblock) (4 * (L / BSIZE - NDIRECT)) 4 (s.freeblock + 1))}) ∧
      Claimed s {s with
          freeblock := s.freeblock + 2
          img := Function.update s.img s.freeblock
            (set (s.img s.freeblock) (4 * (L / BSIZE - NDIRECT)) 4 (s.freeblock + 1))} dins inum L din
        {din with addrs := din.addrs.set NDIRECT s.freeblock} (s.freeblock + 1) := by
  have holds := mine_holds laid lo hi
  have count : din.addrs.length = NDIRECT + 1 := holds.fits.count
  have bn : L / BSIZE = NDIRECT := by rw [first]; rfl
  have empty : (view sb s.img din).blockAt (L / BSIZE) = 0 :=
    holds.empty _ (by rw [sized]; simp only [BSIZE] at *; omega)
  have unset : din.addrs.getD NDIRECT 0 = 0 := holds.direct (by rw [sized,first])
  have zeroed : s.img s.freeblock = fun _ => 0 := laid.fresh _ le_rfl (by omega)
  have inside : s.freeblock < s.sectors := by rw [laid.sectors]; omega
  have short : L / BSIZE ≠ MAXFILE := by rw [bn]; decide
  -- the indirect block into the dinode, then its first entry
  have row₁ : (view sb s.img {din with addrs := din.addrs.set NDIRECT s.freeblock}).refAt =
      Function.update (view sb s.img din).refAt MAXFILE s.freeblock := by
    rw [view_setAddr (by omega),refAt_setAddr_indirect unset (words_zero zeroed)]
  have loaded : (din.addrs.set NDIRECT s.freeblock).getD NDIRECT 0 = s.freeblock := by
    simp [List.getD_eq_getElem?_getD,count]
  have nonzero : s.freeblock ≠ 0 := by have := laid.start; simp only [Tree.nmeta] at this; omega
  have row₂ : (view sb (Function.update s.img s.freeblock
        (set (s.img s.freeblock) (4 * (L / BSIZE - NDIRECT)) 4 (s.freeblock + 1)))
        {din with addrs := din.addrs.set NDIRECT s.freeblock}).refAt =
      Function.update (view sb s.img {din with addrs := din.addrs.set NDIRECT s.freeblock}).refAt (L / BSIZE)
        (s.freeblock + 1) :=
    refAt_word _ _ loaded nonzero (by rw [bn]) (by rw [bn]; decide) (by simp only [FSSIZE] at room; omega)
  have refs₁ := refs_claim {din with size := L} {din with addrs := din.addrs.set NDIRECT s.freeblock,size := L}
    laid.owned
    (fun c moved => absurd rfl moved) lo hi le_rfl row₁
  have unfilled₁ : refs s.img (Function.update dins inum {din with size := L}) s.freeinode (inum,MAXFILE) = 0 := by
    rw [mine_refs lo hi le_rfl,indirect_refAt,unset]
  have owned₁ := owned_claim laid.owned unfilled₁
  rw [← refs₁] at owned₁
  have changed : ∀ c, Function.update s.img s.freeblock
      (set (s.img s.freeblock) (4 * (L / BSIZE - NDIRECT)) 4 (s.freeblock + 1)) c ≠ s.img c → c = s.freeblock := by
    intro c moved
    by_contra other
    exact moved (Function.update_of_ne other _ _)
  have refs₂ := refs_claim {din with addrs := din.addrs.set NDIRECT s.freeblock,size := L}
    {din with addrs := din.addrs.set NDIRECT s.freeblock,size := L} owned₁
    (fun c moved => Or.inr ⟨MAXFILE,by
      rw [changed c moved,refs_self lo hi,if_pos le_rfl]
      exact loaded⟩)
    lo hi (by rw [bn]; decide) row₂
  have unfilled₂ : refs s.img (Function.update dins inum {din with addrs := din.addrs.set NDIRECT s.freeblock,size := L})
      s.freeinode (inum,L / BSIZE) = 0 := by
    rw [refs₁,Function.update_of_ne (by simp [short]),mine_refs lo hi (by rw [bn]; decide),← blockAt_eq_refAt short,empty]
  have owned₂ := owned_claim owned₁ unfilled₂
  rw [← refs₂] at owned₂
  have others : ∀ j, j ≠ L / BSIZE → j ≠ MAXFILE → (view sb (Function.update s.img s.freeblock
      (set (s.img s.freeblock) (4 * (L / BSIZE - NDIRECT)) 4 (s.freeblock + 1)))
      {din with addrs := din.addrs.set NDIRECT s.freeblock}).refAt j = (view sb s.img din).refAt j := by
    intro j ne top
    rw [row₂,Function.update_of_ne ne,row₁,Function.update_of_ne top]
  refine ⟨blockFor_first (by omega) count unset inside zeroed,rfl,rfl,?_,rfl,by simp,fun a mem => ?_,?_,
    ⟨by have := laid.start; omega,by dsimp only; omega⟩,fun inner => absurd boundary inner,fun _ => by omega,
    fun bn other => blockAt_of_row others other,fun b moved => ?_,fun low => absurd bn (by omega),owned₂,?_⟩
  · show s.freeblock + 2 = _
    rw [blocksOf_first first]
    omega
  · rcases List.mem_or_eq_of_mem_set mem with old | new
    · exact Or.inl old
    · exact Or.inr (by simp [new])
  · rw [blockAt_eq_refAt short,row₂,Function.update_self]
  · have at_free := changed b moved
    subst at_free
    exact ⟨laid.start,by dsimp only; omega,Or.inl le_rfl⟩
  · rw [refs₂,refs₁]
    exact low_claim (low_claim laid.low laid.start) (by have := laid.start; omega)

theorem claimed_entry (boundary : L % BSIZE = 0) (beyond : NDIRECT * BSIZE < L) (long : L < MAXFILE * BSIZE)
    (room : s.freeblock < FSSIZE) :
    blockFor din (L / BSIZE) s = .ok ((din,s.freeblock),
      {s with
        freeblock := s.freeblock + 1
        img := Function.update s.img (din.addrs.getD NDIRECT 0)
          (set (s.img (din.addrs.getD NDIRECT 0)) (4 * (L / BSIZE - NDIRECT)) 4 s.freeblock)}) ∧
      Claimed s {s with
          freeblock := s.freeblock + 1
          img := Function.update s.img (din.addrs.getD NDIRECT 0)
            (set (s.img (din.addrs.getD NDIRECT 0)) (4 * (L / BSIZE - NDIRECT)) 4 s.freeblock)} dins inum L din
        din s.freeblock := by
  have holds := mine_holds laid lo hi
  have lower : NDIRECT < L / BSIZE := by simp only [BSIZE,NDIRECT] at *; omega
  have upper : L / BSIZE < MAXFILE := by simp only [BSIZE,MAXFILE,NINDIRECT,NDIRECT] at *; omega
  have short : L / BSIZE ≠ MAXFILE := by omega
  have empty : (view sb s.img din).blockAt (L / BSIZE) = 0 :=
    holds.empty _ (by rw [sized]; simp only [BSIZE] at *; omega)
  have ind : din.addrs.getD NDIRECT 0 ≠ 0 :=
    indirect_of_held le_rfl (holds.held NDIRECT (by rw [sized]; exact beyond))
  have placed := mine_placed laid lo hi le_rfl (by rw [indirect_refAt]; exact ind)
  rw [indirect_refAt] at placed
  have inside : din.addrs.getD NDIRECT 0 < s.sectors := by
    rw [laid.sectors]
    exact lt_of_lt_of_le placed.2 laid.room
  have unset : get (s.img (din.addrs.getD NDIRECT 0)) (4 * (L / BSIZE - NDIRECT)) 4 = 0 := by
    simpa only [Store.blockAt,view,upper,ind,show ¬ L / BSIZE < NDIRECT by omega,if_false,if_true,ne_eq,
      not_false_eq_true,and_self] using empty
  have row : (view sb (Function.update s.img (din.addrs.getD NDIRECT 0)
        (set (s.img (din.addrs.getD NDIRECT 0)) (4 * (L / BSIZE - NDIRECT)) 4 s.freeblock)) din).refAt =
      Function.update (view sb s.img din).refAt (L / BSIZE) s.freeblock :=
    refAt_word _ _ rfl ind lower.le upper (by simp only [FSSIZE] at room; omega)
  have changed : ∀ c, Function.update s.img (din.addrs.getD NDIRECT 0)
      (set (s.img (din.addrs.getD NDIRECT 0)) (4 * (L / BSIZE - NDIRECT)) 4 s.freeblock) c ≠ s.img c →
        c = din.addrs.getD NDIRECT 0 := by
    intro c moved
    by_contra other
    exact moved (Function.update_of_ne other _ _)
  have refs' := refs_claim {din with size := L} {din with size := L} laid.owned
    (fun c moved => Or.inr ⟨MAXFILE,by rw [changed c moved,mine_refs lo hi le_rfl,indirect_refAt]⟩)
    lo hi upper.le row
  have unfilled : refs s.img (Function.update dins inum {din with size := L}) s.freeinode (inum,L / BSIZE) = 0 := by
    rw [mine_refs lo hi upper.le,← blockAt_eq_refAt short,empty]
  refine ⟨blockFor_entry (by omega) ind inside unset,rfl,rfl,?_,rfl,rfl,fun a mem => Or.inl mem,?_,
    ⟨laid.start,Nat.lt_succ_self _⟩,fun inner => absurd boundary inner,fun _ => le_rfl,
    fun bn other => blockAt_of_row (fun j ne _ => by rw [row,Function.update_of_ne ne]) other,fun b moved => ?_,
    fun direct => absurd direct (by omega),?_,?_⟩
  · show s.freeblock + 1 = _
    rw [blocksOf_next boundary (by omega)]
    omega
  · rw [blockAt_eq_refAt short,row,Function.update_self]
  · rw [changed b moved]
    exact ⟨placed.1,by dsimp only; omega,Or.inr rfl⟩
  · dsimp only
    rw [refs']
    exact owned_claim laid.owned unfilled
  · dsimp only
    rw [refs']
    exact low_claim laid.low laid.start

theorem claimed (long : L < MAXFILE * BSIZE) (room : s.freeblock + (blocksOf (L + 1) - blocksOf L) ≤ FSSIZE) :
    ∃ din₁ x s₁, blockFor din (L / BSIZE) s = .ok ((din₁,x),s₁) ∧ Claimed s s₁ dins inum L din din₁ x := by
  by_cases inner : L % BSIZE = 0
  · by_cases direct : L / BSIZE < NDIRECT
    · exact ⟨_,_,_,claimed_direct laid lo hi sized inner direct⟩
    · by_cases first : L = NDIRECT * BSIZE
      · rw [blocksOf_first first] at room
        exact ⟨_,_,_,claimed_first laid lo hi sized inner first (by omega)⟩
      · rw [blocksOf_next inner first] at room
        exact ⟨_,_,_,claimed_entry laid lo hi sized inner (by simp only [BSIZE,NDIRECT] at *; omega) long (by omega)⟩
  · exact ⟨_,_,_,claimed_held laid lo hi sized inner⟩

end Claims

section Fill

variable {s s₁ : State} {dins : Nat → Dinode} {inum L : Nat} {din din₁ : Dinode} {x : Nat}

-- What blockFor changes in the dinode fits its fields, whatever size the write leaves.
theorem Claimed.fits {L' : Nat} (claimed : Claimed s s₁ dins inum L din din₁ x) (fits : ({din with size := L} : Dinode).Fits)
    (small : L' < 2 ^ 32) (room : s₁.freeblock ≤ FSSIZE) : ({din₁ with size := L'} : Dinode).Fits := by
  have shape := claimed.shape
  refine ⟨?_,?_,?_,?_,small,claimed.count.trans fits.count,fun a mem => ?_⟩
  · exact congrArg Dinode.type shape ▸ fits.type
  · exact congrArg Dinode.major shape ▸ fits.major
  · exact congrArg Dinode.minor shape ▸ fits.minor
  · exact congrArg Dinode.nlink shape ▸ fits.nlink
  · rcases claimed.addrs a mem with old | new
    · exact fits.addrs a old
    · simp only [FSSIZE] at room
      omega

variable (claimed : Claimed s s₁ dins inum L din din₁ x) (lo : 1 ≤ inum) (hi : inum < s.freeinode)
  (short : L / BSIZE < MAXFILE)

include claimed lo hi short

-- x is slot L / BSIZE of the inode, so writing it moves no slot.
theorem Claimed.xref : refs s₁.img (Function.update dins inum {din₁ with size := L}) s.freeinode (inum,L / BSIZE) = x := by
  rw [refs_self lo hi,if_pos short.le,← claimed.target]
  exact (blockAt_eq_refAt short.ne).symm

-- The write of the chunk changes block x and what blockFor wrote.
theorem Claimed.changed_write (buf : Nat → UInt8) :
    ∀ b, Function.update s₁.img x buf b ≠ s.img b → Tree.nmeta ≤ b ∧ b < s₁.freeblock ∧
      (s.freeblock ≤ b ∨ ∃ k, refs s.img (Function.update dins inum {din with size := L}) s.freeinode (inum,k) = b) := by
  intro b moved
  by_cases bx : b = x
  · subst bx
    refine ⟨claimed.placed.1,claimed.placed.2,?_⟩
    by_cases inner : L % BSIZE = 0
    · exact Or.inl (claimed.fresh inner)
    · refine Or.inr ⟨L / BSIZE,?_⟩
      rw [mine_refs lo hi short.le,← blockAt_eq_refAt short.ne]
      exact (claimed.same inner).1
  · rw [Function.update_of_ne bx] at moved
    obtain ⟨past,below,kind⟩ := claimed.changed b moved
    refine ⟨past,below,?_⟩
    rcases kind with fresh | ind
    · exact Or.inl fresh
    · exact Or.inr ⟨MAXFILE,by rw [mine_refs lo hi le_rfl,indirect_refAt,ind]⟩

variable {files : Nat → List UInt8} (laid : Laid s (Function.update dins inum {din with size := L}) files)
  (sized : (files inum).length = L)

include laid sized

-- The blocks the inode held below block L / BSIZE keep their bytes.
theorem Claimed.kept (buf : Nat → UInt8) :
    ∀ bn, bn < L / BSIZE → Function.update s₁.img x buf ((view sb s.img din).blockAt bn) = s.img ((view sb s.img din).blockAt bn) := by
  intro bn earlier
  have held : (view sb s.img din).blockAt bn ≠ 0 :=
    (mine_holds laid lo hi).held bn (by rw [sized]; simp only [BSIZE] at *; omega)
  have top : bn ≠ MAXFILE := by omega
  have slot : refs s₁.img (Function.update dins inum {din₁ with size := L}) s.freeinode (inum,bn) =
      (view sb s.img din).blockAt bn := by
    rw [refs_self lo hi,if_pos (by omega),← claimed.others bn (by omega)]
    exact (blockAt_eq_refAt top).symm
  -- block x is slot L / BSIZE, and no block is in two slots
  have other : (view sb s.img din).blockAt bn ≠ x := by
    intro same
    have one := claimed.owned.unique _ _ (by rw [slot]; exact held) (slot.trans (same.trans (claimed.xref lo hi short).symm))
    simp only [Prod.mk.injEq] at one
    omega
  rw [Function.update_of_ne other]
  by_contra moved
  obtain ⟨-,-,kind⟩ := claimed.changed _ moved
  have placed := mine_placed laid lo hi (k := bn) (by omega) (by rwa [← blockAt_eq_refAt top])
  rw [← blockAt_eq_refAt top] at placed
  rcases kind with fresh | ind
  · omega
  · have mine : refs s.img (Function.update dins inum {din with size := L}) s.freeinode (inum,bn) =
        refs s.img (Function.update dins inum {din with size := L}) s.freeinode (inum,MAXFILE) := by
      rw [mine_refs lo hi (by omega),mine_refs lo hi le_rfl,indirect_refAt,← ind,blockAt_eq_refAt top]
    have one := laid.owned.unique _ _ (by rw [mine_refs lo hi (by omega),← blockAt_eq_refAt top]; exact held) mine
    simp only [Prod.mk.injEq] at one
    omega

end Fill

section Inodes

variable {s : State} {img : Image} {dins : Nat → Dinode} {files : Nat → List UInt8} {n inum : Nat}

theorem inode_apart {j : Nat} (same : IBLOCK j sb = IBLOCK inum sb) (other : j ≠ inum) (i : Nat)
    (inside : j % Tree.IPB * 64 ≤ i ∧ i < j % Tree.IPB * 64 + 64) :
    i < inum % Tree.IPB * 64 ∨ inum % Tree.IPB * 64 + 64 ≤ i := by
  simp only [IBLOCK,Tree.IPB,BSIZE] at *
  omega

theorem Stored.winode {din : Dinode} (stored : Stored img dins n inum) (fits : din.Fits) :
    Stored (Function.update img (IBLOCK inum sb) (din.store (img (IBLOCK inum sb)) (inum % Tree.IPB * 64)))
      (Function.update dins inum din) n 0 := by
  intro j lo hi _
  by_cases mine : j = inum
  · subst mine
    rw [Function.update_self,Dinode.load_store fits,Function.update_self]
  · rw [Function.update_of_ne mine]
    by_cases same : IBLOCK j sb = IBLOCK inum sb
    · rw [same,Function.update_self,Dinode.load_congr fun i lo' hi' => Dinode.store_outside (inode_apart same mine i ⟨lo',hi'⟩),
        ← same]
      exact stored j lo hi mine
    · rw [Function.update_of_ne same]
      exact stored j lo hi mine

end Inodes

-- iappend's loop after pos of its bytes: the dinode in memory is current, the one on disk stale.
structure Appending (s₀ : State) (dins : Nat → Dinode) (files : Nat → List UInt8) (inum : Nat) (p : Nat → UInt8)
    (pos : Nat) (s : State) (din : Dinode) : Prop where
  laid : Laid s (Function.update dins inum {din with size := (files inum).length + pos})
    (Function.update files inum (files inum ++ bytesOf p pos))
  stored : Stored s.img dins s.freeinode inum
  inodes : s.freeinode = s₀.freeinode
  blocks : s.freeblock + blocksOf (files inum).length = s₀.freeblock + blocksOf ((files inum).length + pos)
  shape : {din with addrs := (dins inum).addrs} = dins inum

section Appends

variable {s₀ s s₁ : State} {dins : Nat → Dinode} {files : Nat → List UInt8} {inum : Nat} {p : Nat → UInt8}
  {pos N : Nat} {din din₁ : Dinode} {x : Nat}

theorem chunk_fits {L m : Nat} (more : 0 < m) :
    0 < min m ((L / BSIZE + 1) * BSIZE - L) ∧ L % BSIZE + min m ((L / BSIZE + 1) * BSIZE - L) ≤ BSIZE ∧
      L - L / BSIZE * BSIZE = L % BSIZE := by
  simp only [BSIZE]
  omega

theorem Appending.room (mid : Appending s₀ dins files inum p pos s din) (more : pos < N)
    (budget : s₀.freeblock + blocksOf ((files inum).length + N) ≤ FSSIZE + blocksOf (files inum).length) :
    s.freeblock + (blocksOf ((files inum).length + pos + 1) - blocksOf ((files inum).length + pos)) ≤ FSSIZE := by
  have blocks := mid.blocks
  have grow := blocksOf_mono (show (files inum).length + pos ≤ (files inum).length + pos + 1 by omega)
  have reach := blocksOf_mono (show (files inum).length + pos + 1 ≤ (files inum).length + N by omega)
  omega

theorem appended (mid : Appending s₀ dins files inum p pos s din) (lo : 1 ≤ inum) (hi : inum < s.freeinode)
    (more : pos < N) (long : (files inum).length + N ≤ MAXFILE * BSIZE)
    (budget : s₀.freeblock + blocksOf ((files inum).length + N) ≤ FSSIZE + blocksOf (files inum).length)
    (claimed : Claimed s s₁ dins inum ((files inum).length + pos) din din₁ x) :
    x < s₁.sectors ∧
      Appending s₀ dins files inum p (pos + min (N - pos) ((((files inum).length + pos) / BSIZE + 1) * BSIZE -
          ((files inum).length + pos)))
        {s₁ with img := Function.update s₁.img x (Bytes.put (s₁.img x)
          ((files inum).length + pos - ((files inum).length + pos) / BSIZE * BSIZE)
          (min (N - pos) ((((files inum).length + pos) / BSIZE + 1) * BSIZE - ((files inum).length + pos)))
          fun k => p (pos + k))} din₁ := by
  generalize hL : (files inum).length + pos = L at claimed ⊢
  generalize hm : min (N - pos) ((L / BSIZE + 1) * BSIZE - L) = m
  obtain ⟨moved,within,offset⟩ := chunk_fits (L := L) (m := N - pos) (by omega)
  have upto : m ≤ N - pos := hm ▸ Nat.min_le_left _ _
  rw [hm] at moved within
  rw [offset]
  have laid := mid.laid
  rw [hL] at laid
  have sized : (Function.update files inum (files inum ++ bytesOf p pos) inum).length = L := by simp [← hL]
  have holds := mine_holds laid lo hi
  simp only [Function.update_self] at holds
  have short : L / BSIZE < MAXFILE := Nat.div_lt_of_lt_mul (by rw [Nat.mul_comm]; omega)
  have room := hL ▸ mid.room more budget
  have room₁ : s₁.freeblock ≤ FSSIZE := by rw [claimed.blocks]; exact room
  have nonzero : x ≠ 0 := by have := claimed.placed.1; simp only [Tree.nmeta] at this; omega
  have inside : x < s₁.sectors := by
    rw [claimed.sectors,laid.sectors]
    exact lt_of_lt_of_le claimed.placed.2 room₁
  have xref := claimed.xref lo hi short
  have changed := claimed.changed_write lo hi short (Bytes.put (s₁.img x) (L % BSIZE) m fun k => p (pos + k))
  have kept := claimed.kept lo hi short laid sized (Bytes.put (s₁.img x) (L % BSIZE) m fun k => p (pos + k))
  generalize hw : Function.update s₁.img x (Bytes.put (s₁.img x) (L % BSIZE) m fun k => p (pos + k)) = img'
    at changed kept
  have refs' : refs img' (Function.update dins inum {din₁ with size := L}) s.freeinode =
      refs s₁.img (Function.update dins inum {din₁ with size := L}) s.freeinode := by
    rw [← hw]
    exact refs_write claimed.owned short xref nonzero
  have blockMine : (view sb img' din₁).blockAt = (view sb s₁.img din₁).blockAt := by
    have row := refAt_write (Bytes.put (s₁.img x) (L % BSIZE) m fun k => p (pos + k)) claimed.owned short xref
      nonzero lo hi
    rw [Function.update_self,hw] at row
    exact blockAt_of_refAt row
  have written : img' x = Bytes.put (s₁.img x) (L % BSIZE) m fun k => p (pos + k) := by
    rw [← hw,Function.update_self]
  have fits := claimed.fits holds.fits (show L + m < 2 ^ 32 by simp only [MAXFILE,NINDIRECT,NDIRECT,BSIZE] at long; omega)
    room₁
  have appended := holds.append img' {din₁ with size := L + m} (fun k => p (pos + k))
    (by simp [← hL]) fits rfl (by omega) moved within
    (fun bn other => by rw [show (view sb img' {din₁ with size := L + m}).blockAt = _ from blockMine]; exact claimed.others bn other)
    (by rw [show (view sb img' {din₁ with size := L + m}).blockAt = _ from blockMine]; exact claimed.target) nonzero
    (fun inner => (claimed.same inner).1) kept
    (fun j lower => by rw [written,Bytes.put_outside (Or.inl lower)]; exact congrFun (claimed.same (by omega)).2 j)
    (fun j lo' hi' => by rw [written,Bytes.put_inside lo' hi'])
    (fun short' => by
      rw [show ({din₁ with size := L + m} : Dinode).addrs = din₁.addrs from rfl,claimed.direct (by simp only [BSIZE,NDIRECT] at *; omega)]
      exact holds.direct (by simp [← hL] at short' ⊢; omega))
  -- the inode's references after the write are those blockFor left, whatever its size
  have resized : refs img' (Function.update (Function.update dins inum {din with size := L}) inum
      {din₁ with size := L + m}) s₁.freeinode = refs s₁.img (Function.update dins inum {din₁ with size := L}) s.freeinode := by
    rw [Function.update_idem,claimed.inodes,refs_resize img' din₁ (L + m) L,refs']
  have laid' := laid.step {s₁ with img := img'} lo hi {din₁ with size := L + m}
    (files inum ++ bytesOf p pos ++ (List.range m).map fun k => p (pos + k))
    claimed.sectors claimed.inodes (by rw [claimed.blocks]; omega) room₁ changed appended
    (by
      show Alloc.Owned (refs img' (Function.update (Function.update dins inum {din with size := L}) inum
        {din₁ with size := L + m}) s₁.freeinode) fun b => decide (b < s₁.freeblock)
      rw [resized]
      exact claimed.owned)
    (fun k held => by
      show Tree.nmeta ≤ refs img' (Function.update (Function.update dins inum {din with size := L}) inum
        {din₁ with size := L + m}) s₁.freeinode (inum,k)
      change refs img' (Function.update (Function.update dins inum {din with size := L}) inum
        {din₁ with size := L + m}) s₁.freeinode (inum,k) ≠ 0 at held
      rw [resized] at held ⊢
      exact claimed.low _ held)
  rw [Function.update_idem,Function.update_idem] at laid'
  refine ⟨inside,?_,?_,claimed.inodes.trans mid.inodes,?_,Dinode.reshape mid.shape claimed.shape⟩
  · rw [show (files inum).length + (pos + m) = L + m by omega,bytesOf_add,← List.append_assoc]
    exact laid'
  · show Stored img' dins s₁.freeinode inum
    rw [claimed.inodes]
    exact mid.stored.frame laid.inodes fun b moved => (changed b moved).1
  · show s₁.freeblock + _ = _
    have blocks := mid.blocks
    have grow := blocksOf_mono (show L ≤ L + 1 by omega)
    rw [hL] at blocks
    rw [claimed.blocks,← Nat.add_assoc,hL,blocksOf_chunk moved within]
    omega

structure Appended (s s' : State) (dins : Nat → Dinode) (files : Nat → List UInt8) (inum : Nat) (bytes : List UInt8)
    (din' : Dinode) : Prop where
  laid : Laid s' (Function.update dins inum din') (Function.update files inum (files inum ++ bytes))
  stored : Stored s'.img (Function.update dins inum din') s'.freeinode 0
  inodes : s'.freeinode = s.freeinode
  blocks : s'.freeblock + blocksOf (files inum).length = s.freeblock + blocksOf ((files inum).length + bytes.length)
  shape : {din' with addrs := (dins inum).addrs,size := (dins inum).size} = dins inum

end Appends

end Mkfs

end Xv6
