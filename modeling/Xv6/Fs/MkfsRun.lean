import Xv6.Fs.MkfsSpec

namespace Xv6

namespace Mkfs

open Disk Endian Block Frame

-- main over its argument list: the root's dirents, each file in an inode of its own.

def shortName (name : List UInt8) : List UInt8 := dropUnderscore (dropUser name)

-- The root's dirents in the order main appends them: "." and "..", then one per file.
def entries (files : List (List UInt8 × List UInt8)) : List (Nat × List UInt8) :=
  (ROOTINO,[0x2E]) :: (ROOTINO,[0x2E,0x2E]) :: files.mapIdx fun j file => (j + 2,shortName file.1)

def dirents (es : List (Nat × List UInt8)) : List UInt8 := es.flatMap fun e => bytesOf (direntBytes e.1 e.2) 16

def blank (type : InodeType) : Dinode := ⟨type.code,0,0,1,0,List.replicate (NDIRECT + 1) 0⟩

section Entries

@[simp] theorem length_dirents (es : List (Nat × List UInt8)) : (dirents es).length = 16 * es.length := by
  induction es with
  | nil => rfl
  | cons e es ih =>
    simp only [dirents,List.flatMap_cons,List.length_append,length_bytesOf] at ih ⊢
    rw [ih,List.length_cons]
    omega

theorem dirents_getD {es : List (Nat × List UInt8)} {k i : Nat} (entry : k < es.length) (byte : i < 16) :
    (dirents es).getD (16 * k + i) 0 = direntBytes (es.get ⟨k,entry⟩).1 (es.get ⟨k,entry⟩).2 i := by
  induction es generalizing k with
  | nil => cases entry
  | cons e es ih =>
    simp only [dirents,List.flatMap_cons] at ih ⊢
    cases k with
    | zero =>
      rw [List.getD_append _ _ _ _ (by simp; omega)]
      simp [bytesOf,byte]
    | succ k =>
      rw [List.getD_append_right _ _ _ _ (by simp; omega)]
      simp only [length_bytesOf,show 16 * (k + 1) + i - 16 = 16 * k + i by omega]
      exact ih (by simpa using entry)

end Entries

section Alloc

variable {s : State} {dins : Nat → Dinode} {files : Nat → List UInt8}

end Alloc

section Reads

variable {inum : Nat}

theorem Appended.refl {s : State} {dins : Nat → Dinode} {files : Nat → List UInt8} (laid : Laid s dins files)
    (stored : Stored s.img dins s.freeinode 0) : Appended s s dins files inum [] (dins inum) := by
  refine ⟨?_,?_,rfl,by simp,rfl⟩
  · rw [Function.update_eq_self,List.append_nil,Function.update_eq_self]
    exact laid
  · rw [Function.update_eq_self]
    exact stored

theorem Appended.trans {s₁ s₂ s₃ : State} {dins : Nat → Dinode} {files : Nat → List UInt8} {first rest : List UInt8}
    {din₂ din₃ : Dinode} (one : Appended s₁ s₂ dins files inum first din₂)
    (two : Appended s₂ s₃ (Function.update dins inum din₂) (Function.update files inum (files inum ++ first)) inum rest din₃) :
    Appended s₁ s₃ dins files inum (first ++ rest) din₃ := by
  obtain ⟨laid,stored,inodes,blocks,shape⟩ := two
  simp only [Function.update_idem,Function.update_self,List.append_assoc] at laid stored blocks shape
  refine ⟨laid,stored,inodes.trans one.inodes,?_,Dinode.like_trans shape one.shape⟩
  have earlier := one.blocks
  simp only [List.length_append,← Nat.add_assoc] at blocks ⊢
  omega

end Reads

section Files

variable {s : State} {pre : List (List UInt8 × List UInt8)} {dins : Nat → Dinode} {files : Nat → List UInt8}

theorem Appended.type {s s' : State} {bytes : List UInt8} {inum : Nat} {din' : Dinode}
    (appended : Appended s s' dins files inum bytes din') : din'.type = (dins inum).type := by
  have kind := congrArg Dinode.type appended.shape
  exact kind

end Files

section Start

end Start

section Bitmap

end Bitmap

-- The image mkfs leaves: the superblock, an empty log header, the root's dirents with its size
-- rounded to a block boundary, file j in inode j + 2, and the bitmap of the blocks below used.
structure Written (img : Image) (used : Nat) (files : List (List UInt8 × List UInt8)) : Prop where
  super : img 1 = sb.bytes
  log : img sb.logstart = fun _ => 0
  root : ∃ din, Dinode.load (img (IBLOCK ROOTINO sb)) (ROOTINO % Tree.IPB * 64) =
      {din with size := (din.size / BSIZE + 1) * BSIZE} ∧ din.type = InodeType.T_DIR.code ∧
      Holds img din (dirents (entries files))
  file : ∀ j (h : j < files.length), ∃ din, Dinode.load (img (IBLOCK (j + 2) sb)) ((j + 2) % Tree.IPB * 64) = din ∧
      din.type = InodeType.T_FILE.code ∧ Holds img din files[j].2
  bitmap : ∀ b, bitSet (img sb.bmapstart) b = decide (b < used)
  used : used ≤ FSSIZE

section Main

theorem balloc_run {s : State} {used : Nat} (below : used < BSIZE * 8) (inside : sb.bmapstart < s.sectors) :
    balloc used s = .ok ((),{s with img := Function.update s.img sb.bmapstart ((bitmap used).getD · 0)}) := by
  simp only [balloc,ge_iff_le,Nat.not_le.mpr below,if_false]
  exact wsect_inside _ inside

end Main

end Mkfs

end Xv6
