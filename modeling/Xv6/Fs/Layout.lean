import Xv6.Fs.Blocks
import Xv6.Lib.Endian

namespace Xv6

-- kernel/stat.h
def InodeType.code : InodeType → Nat
  | .free => 0
  | .T_DIR => 1
  | .T_FILE => 2
  | .T_DEVICE => 3

namespace Disk

open Endian

-- kernel/fs.h: the on-disk structures mkfs writes and the kernel reads, little-endian on both
-- hosts; an image is the bytes of each block.
abbrev Image := Nat → Nat → UInt8

def FSMAGIC : Nat := 0x10203040

structure Superblock where
  magic : Nat
  size : Nat
  nblocks : Nat
  ninodes : Nat
  nlog : Nat
  logstart : Nat
  inodestart : Nat
  bmapstart : Nat
deriving DecidableEq

def Superblock.field (sb : Superblock) : Nat → Nat
  | 0 => sb.magic
  | 1 => sb.size
  | 2 => sb.nblocks
  | 3 => sb.ninodes
  | 4 => sb.nlog
  | 5 => sb.logstart
  | 6 => sb.inodestart
  | _ => sb.bmapstart

-- memmove(buf, &sb, sizeof(sb)) into a zeroed block.
def Superblock.bytes (sb : Superblock) : Nat → UInt8 := setArray (fun _ => 0) 0 4 sb.field 8

-- readsb's memmove(sb, bp->data, sizeof(*sb)).
def Superblock.load (buf : Nat → UInt8) : Superblock :=
  ⟨get buf 0 4,get buf 4 4,get buf 8 4,get buf 12 4,get buf 16 4,get buf 20 4,get buf 24 4,get buf 28 4⟩

structure Dinode where
  type : Nat
  major : Nat
  minor : Nat
  nlink : Nat
  size : Nat
  addrs : List Nat

def Dinode.shorts (din : Dinode) : Nat → Nat
  | 0 => din.type
  | 1 => din.major
  | 2 => din.minor
  | _ => din.nlink

-- *dip = *ip at byte off of an inode block: four shorts, size, NDIRECT + 1 addrs.
def Dinode.store (buf : Nat → UInt8) (off : Nat) (din : Dinode) : Nat → UInt8 :=
  setArray (set (setArray buf off 2 din.shorts 4) (off + 8) 4 din.size) (off + 12) 4 (din.addrs.getD · 0) (NDIRECT + 1)

def Dinode.load (buf : Nat → UInt8) (off : Nat) : Dinode where
  type := get buf off 2
  major := get buf (off + 2) 2
  minor := get buf (off + 4) 2
  nlink := get buf (off + 6) 2
  size := get buf (off + 8) 4
  addrs := (List.range (NDIRECT + 1)).map fun k => get buf (off + 12 + 4 * k) 4

structure Dinode.Fits (din : Dinode) : Prop where
  type : din.type < 2 ^ 16
  major : din.major < 2 ^ 16
  minor : din.minor < 2 ^ 16
  nlink : din.nlink < 2 ^ 16
  size : din.size < 2 ^ 32
  count : din.addrs.length = NDIRECT + 1
  addrs : ∀ a ∈ din.addrs, a < 2 ^ 32

-- IBLOCK(i, sb)
def IBLOCK (inum : Nat) (sb : Superblock) : Nat := inum / Tree.IPB + sb.inodestart

-- bzero(&de, sizeof(de)); de.inum = xshort(inum); strncpy(de.name, name, DIRSIZ)
def direntBytes (inum : Nat) (name : List UInt8) : Nat → UInt8 :=
  Bytes.put (set (fun _ => 0) 0 2 inum) 2 DIRSIZ fun k => name.getD k 0

-- The bit balloc tests for block b in its bitmap block: 1 << (bi % 8) of data[bi / 8].
def bitSet (blk : Nat → UInt8) (bi : Nat) : Bool := blk (bi / 8) &&& 1 <<< (bi % 8).toUInt8 != 0

-- The block layer's view of an image with inode din locked, the free bitmap at BBLOCK(b, sb).
def view (sb : Superblock) (img : Image) (din : Dinode) : Block.Store where
  data := img
  words b j := get (img b) (4 * j) 4
  marked b := bitSet (img (b / BPB + sb.bmapstart)) (b % BPB)
  size := din.size
  addrs k := din.addrs.getD k 0

section Dinodes

variable {buf : Nat → UInt8} {off : Nat} {din : Dinode}

theorem Dinode.store_outside {i : Nat} (out : i < off ∨ off + 64 ≤ i) : din.store buf off i = buf i := by
  unfold Dinode.store
  rw [setArray_outside (by simp only [NDIRECT]; omega)]
  unfold Endian.set
  rw [Bytes.put_outside (by omega),setArray_outside (by omega)]

theorem Dinode.load_congr {buf' : Nat → UInt8} (agree : ∀ i, off ≤ i → i < off + 64 → buf' i = buf i) :
    Dinode.load buf' off = Dinode.load buf off := by
  have field (o n : Nat) (inside : off ≤ o ∧ o + n ≤ off + 64) : get buf' o n = get buf o n :=
    get_congr fun k below => agree _ (by omega) (by omega)
  unfold Dinode.load
  congr 1
  · exact field _ _ (by omega)
  · exact field _ _ (by omega)
  · exact field _ _ (by omega)
  · exact field _ _ (by omega)
  · exact field _ _ (by omega)
  · refine List.map_congr_left fun k mem => field _ _ ?_
    simp only [List.mem_range,NDIRECT] at mem
    omega

theorem Dinode.load_store (fits : din.Fits) : Dinode.load (din.store buf off) off = din := by
  have wide : (2 : Nat) ^ 32 = 256 ^ 4 ∧ (2 : Nat) ^ 16 = 256 ^ 2 := ⟨by norm_num,by norm_num⟩
  have addr (k : Nat) (slot : k < NDIRECT + 1) : get (din.store buf off) (off + 12 + 4 * k) 4 = din.addrs.getD k 0 := by
    have entry : din.addrs.getD k 0 < 2 ^ 32 := by
      rw [List.getD_eq_getElem _ _ (by rw [fits.count]; exact slot)]
      exact fits.addrs _ (List.getElem_mem _)
    rw [Dinode.store,get_setArray slot,Nat.mod_eq_of_lt (wide.1 ▸ entry)]
  have low (o n : Nat) (below : o + n ≤ off + 12) :
      get (din.store buf off) o n = get (set (setArray buf off 2 din.shorts 4) (off + 8) 4 din.size) o n := by
    rw [Dinode.store,get_setArray_outside (Or.inl below)]
  have short (k : Nat) (slot : k < 4) (small : din.shorts k < 2 ^ 16) :
      get (din.store buf off) (off + 2 * k) 2 = din.shorts k := by
    rw [low _ _ (by omega),get_set_apart (by omega),get_setArray slot,Nat.mod_eq_of_lt (wide.2 ▸ small)]
  obtain ⟨type,major,minor,nlink,size,addrs⟩ := din
  have sized : get (Dinode.store buf off ⟨type,major,minor,nlink,size,addrs⟩) (off + 8) 4 = size := by
    rw [low _ _ (by omega),get_set,Nat.mod_eq_of_lt (wide.1 ▸ fits.size)]
  simp only [Dinode.load,Dinode.mk.injEq]
  refine ⟨short 0 (by decide) fits.type,short 1 (by decide) fits.major,short 2 (by decide) fits.minor,
    short 3 (by decide) fits.nlink,sized,?_⟩
  apply List.ext_getElem
  · simp [fits.count]
  · intro k inside _
    simp only [List.length_map,List.length_range] at inside
    rw [List.getElem_map,List.getElem_range,addr k inside,List.getD_eq_getElem]

end Dinodes

end Disk

end Xv6
