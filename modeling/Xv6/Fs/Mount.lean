import Xv6.Fs.Layout
import Xv6.Log.Crash

namespace Xv6

namespace Disk

open Endian Block

-- read_head: lh.n, an int, and lh.block[0 .. n - 1].
def readHead (blk : Nat → UInt8) : List Nat :=
  let n := get blk 0 4
  let n := if n < 2 ^ 31 then n else 0
  (List.range n).map fun i => get blk (4 + 4 * i) 4

-- recover_from_log: install_trans(1), then write_head with n = 0.
def recoverFromLog (sb : Superblock) (img : Image) : Image :=
  let img := BlockWrites.apply (FsLog.installTrans sb.logstart (readHead (img sb.logstart))) img
  Function.update img sb.logstart (set (img sb.logstart) 0 4 0)

def mount (sb : Superblock) (img : Image) : Store := view sb img ⟨0,0,0,0,0,[]⟩

-- iget, then ilock reading the dinode: bmap and readi use its size and addrs.
def ilock (sb : Superblock) (inum : Nat) : BM Dinode := do
  let din := Dinode.load ((← get).data (IBLOCK inum sb)) (inum % Tree.IPB * 64)
  if din.type = 0 then throw "ilock: no type"
  modify fun s => {s with size := din.size,addrs := (din.addrs.getD · 0)}
  return din

-- strncmp(s + k, t + k, n) == 0
def strncmpEq (s t : Nat → UInt8) : Nat → Nat → Bool
  | 0,_ => true
  | n + 1,k => s k == t k && (s k == 0 || strncmpEq s t n (k + 1))

def namecmp (s t : Nat → UInt8) : Bool := strncmpEq s t DIRSIZ 0

-- dirlookup's loop over the dirents below dp->size, from offset off.
def dirlookupLoop (name : List UInt8) : Nat → Nat → BM (Option Nat)
  | 0,_ => return none
  | fuel + 1,off => do
    if off < (← get).size then
      let (r,de) ← Block.readi off 16
      if r ≠ 16 then throw "dirlookup read"
      let inum := get de 0 2
      if inum ≠ 0 && namecmp (name.getD · 0) (fun k => de (2 + k)) then return some inum
      dirlookupLoop name fuel (off + 16)
    else return none

def dirlookup (type : Nat) (name : List UInt8) : BM (Option Nat) := do
  if type ≠ InodeType.T_DIR.code then throw "dirlookup not DIR"
  dirlookupLoop name ((← get).size / 16 + 1) 0

-- skipelem on the bytes of a path: the element, cut to the DIRSIZ bytes of
-- name, and the path after the slashes that follow it.
def skipelem (path : List UInt8) : Option (List UInt8 × List UInt8) :=
  let path := path.dropWhile (· == 0x2F)
  if path = [] then none
  else some ((path.takeWhile (· != 0x2F)).take DIRSIZ,(path.dropWhile (· != 0x2F)).dropWhile (· == 0x2F))

theorem skipelem_shorter {path name rest : List UInt8} (split : skipelem path = some (name,rest)) :
    rest.length < path.length := by
  unfold skipelem at split
  dsimp only at split
  split_ifs at split with empty
  cases split
  obtain ⟨c,cs,eq⟩ := List.exists_cons_of_ne_nil empty
  -- dropWhile stopped at c, so c is no slash and the element takes it
  have head : c ≠ 0x2F := by
    have first := List.head_dropWhile_not (· == 0x2F) (l := path) (by rw [eq]; simp)
    simpa [eq] using first
  have dropped : (c :: cs).length ≤ path.length := eq ▸ (List.dropWhile_suffix _).length_le
  have stop : (c :: cs).dropWhile (· != 0x2F) = cs.dropWhile (· != 0x2F) := by simp [head]
  have tail := (List.dropWhile_suffix (· == 0x2F) (l := cs.dropWhile (· != 0x2F))).length_le
  have shorter := (List.dropWhile_suffix (· != 0x2F) (l := cs)).length_le
  rw [eq,stop]
  simp only [List.length_cons] at dropped
  omega

-- namex(path, 0, name) from inode ip.
def namex (sb : Superblock) (path : List UInt8) (ip : Nat) : BM (Option Nat) :=
  match _split : skipelem path with
  | none => return some ip
  | some (name,rest) => do
    let din ← ilock sb ip
    if din.type ≠ InodeType.T_DIR.code then return none
    match ← dirlookup din.type name with
    | none => return none
    | some next => namex sb rest next
termination_by path.length
decreasing_by exact skipelem_shorter _split

def namei (sb : Superblock) (cwd : Nat) (path : List UInt8) : BM (Option Nat) :=
  namex sb path (if path.head? = some 0x2F then ROOTINO else cwd)

end Disk

end Xv6
