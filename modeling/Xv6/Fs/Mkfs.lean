import Xv6.Fs.Layout

namespace Xv6

namespace Mkfs

open Disk Endian

-- mkfs/mkfs.c. The image file, its length in sectors (rsect past the end reads short and mkfs
-- exits), and the next inode and block.
structure State where
  img : Image
  sectors : Nat
  freeinode : Nat
  freeblock : Nat

abbrev MM := StateT State (Except String)

-- The superblock main fills in; xint is the identity on the little-endian host.
def sb : Superblock :=
  ⟨FSMAGIC,FSSIZE,FSSIZE - Tree.nmeta,NINODES,nlog,2,2 + nlog,2 + nlog + Tree.ninodeblocks⟩

def wsect (sec : Nat) (buf : Nat → UInt8) : MM Unit :=
  modify fun s => {s with img := Function.update s.img sec buf,sectors := max s.sectors (sec + 1)}

def rsect (sec : Nat) : MM (Nat → UInt8) := do
  let s ← get
  if sec < s.sectors then return s.img sec else throw "read"

def winode (inum : Nat) (din : Dinode) : MM Unit := do
  let bn := IBLOCK inum sb
  let buf ← rsect bn
  wsect bn (din.store buf (inum % Tree.IPB * 64))

def ialloc (type : InodeType) : MM Nat := do
  let inum := (← get).freeinode
  modify fun s => {s with freeinode := inum + 1}
  winode inum ⟨type.code,0,0,1,0,List.replicate (NDIRECT + 1) 0⟩
  return inum

-- balloc's buf: bzero, then buf[i/8] = buf[i/8] | (0x1 << (i%8)) for i < used.
def bitmap (used : Nat) : List UInt8 :=
  (List.range used).foldl (fun buf i => buf.modify (i / 8) (· ||| 1 <<< (i % 8).toUInt8)) (List.replicate BSIZE 0)

def balloc (used : Nat) : MM Unit := do
  if used ≥ BSIZE * 8 then throw "assert: used < BSIZE*8"
  wsect sb.bmapstart ((bitmap used).getD · 0)

-- freeblock++
def nextBlock : MM Nat := modifyGet fun s => (s.freeblock,{s with freeblock := s.freeblock + 1})

-- An indirect address goes into the indirect block, written back at once.
def blockFor (din : Dinode) (fbn : Nat) : MM (Dinode × Nat) := do
  if fbn < NDIRECT then
    if din.addrs.getD fbn 0 = 0 then
      let b ← nextBlock
      return ({din with addrs := din.addrs.set fbn b},b)
    return (din,din.addrs.getD fbn 0)
  else
    let din ← if din.addrs.getD NDIRECT 0 = 0 then do
        let b ← nextBlock
        pure {din with addrs := din.addrs.set NDIRECT b}
      else pure din
    let indirect ← rsect (din.addrs.getD NDIRECT 0)
    if get indirect (4 * (fbn - NDIRECT)) 4 = 0 then
      let b ← nextBlock
      wsect (din.addrs.getD NDIRECT 0) (set indirect (4 * (fbn - NDIRECT)) 4 b)
      return (din,b)
    return (din,get indirect (4 * (fbn - NDIRECT)) 4)

def userPrefix : List UInt8 := [0x75,0x73,0x65,0x72,0x2F]

-- get rid of "user/"
def dropUser (name : List UInt8) : List UInt8 := if name.take 5 = userPrefix then name.drop 5 else name

-- Skip leading _ in name when writing to file system.
def dropUnderscore : List UInt8 → List UInt8
  | 0x5F :: rest => rest
  | name => name

end Mkfs

end Xv6
