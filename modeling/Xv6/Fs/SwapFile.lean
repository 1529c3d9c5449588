import Xv6.Vm.State

namespace Xv6

open Frame

-- mkfs/mkfs.c: sb.ninodes
def NINODES : Nat := 200

-- kernel/fs.c at byte level: a write starts at or before the end of the file; offsets are uint.
def writei (inum : Nat) (src : UInt64) (off n : Nat) : KM Int := do
  let ip := (← get).inode inum
  if off > ip.size || off + n ≥ 2 ^ 32 then return -1
  if off + n > MAXFILE * BSIZE then return -1
  -- either_copyin from kernel address 0 (a failed kalloc) faults.
  if src = 0 && n > 0 then throw "kerneltrap"
  let bytes := (← get).bytes
  let data := fun i => if off ≤ i && i < off + n then bytes (src + (i - off).toUInt64) else ip.data i
  modify fun k => k.setInode inum {ip with data := data,size := max ip.size (off + n)}
  return n

def readiData (ip : Inode) (off n : Nat) : Nat × (Nat → UInt8) :=
  if off > ip.size || off + n ≥ 2 ^ 32 then (0,fun _ => 0)
  else
    let n := if off + n > ip.size then ip.size - off else n
    (n,fun i => if i < n then ip.data (off + i) else 0)

-- readi into a frame (dst is a physical address).
def readi (inum : Nat) (dst : UInt64) (off n : Nat) : KM Int := do
  let (count,data) := readiData ((← get).inode inum) off n
  if dst = 0 && count > 0 then throw "kerneltrap"
  writeBytes dst data count.toUInt64
  return count

theorem readi_keeps_proc (inum : Nat) (dst : UInt64) (off n : Nat) : Keeps (Same Kernel.proc) (readi inum dst off n) := by
  unfold readi writeBytes
  refine Keeps.get.bind fun k => ?_
  split
  refine Keeps.ite (Keeps.throw_bind _ _) ?_
  exact Keeps.bind (Keeps.modify fun _ => rfl) fun _ => Keeps.pure _

-- iget on lookup, iput to drop one; iput of the last reference to an unlinked inode frees it.
def idup (inum : Nat) : KM Unit :=
  modify fun k => k.setInode inum {k.inode inum with ref := (k.inode inum).ref + 1}

def iput (inum : Nat) : KM Unit := do
  let ip := (← get).inode inum
  if ip.ref = 1 && ip.nlink = 0 then
    modify fun k => k.setInode inum {Inode.free with ref := ip.ref - 1}
  else
    modify fun k => k.setInode inum {ip with ref := ip.ref - 1}

theorem iput_keeps_proc (inum : Nat) : Keeps (Same Kernel.proc) (iput inum) := by
  unfold iput
  exact Keeps.get.bind fun _ => Keeps.ite (Keeps.modify fun _ => rfl) (Keeps.modify fun _ => rfl)

-- kernel/file.c
def filealloc : KM (Option (Fin NFILE)) := do
  let files := (← get).file
  match (List.finRange NFILE).find? fun f => (files f).ref = 0 with
  | none => return none
  | some f =>
    modify fun k => k.setFile f {k.file f with ref := 1}
    return some f

def fileclose (f : Fin NFILE) : KM Unit := do
  let ff := (← get).file f
  if ff.ref < 1 then throw "fileclose"
  if ff.ref - 1 > 0 then
    modify fun k => k.setFile f {ff with ref := ff.ref - 1}
    return
  modify fun k => k.setFile f {ff with ref := 0,type := .FD_NONE}
  if ff.type = .FD_INODE || ff.type = .FD_DEVICE then
    begin_op
    iput ff.ip
    end_op

theorem fileclose_keeps_proc (f : Fin NFILE) : Keeps (Same Kernel.proc) (fileclose f) := by
  unfold fileclose
  refine Keeps.get.bind fun ff => ?_
  dsimp only
  refine Keeps.ite (Keeps.throw_bind _ _) (Keeps.ite (Keeps.bind (Keeps.modify fun _ => rfl) fun _ => Keeps.pure _) ?_)
  refine Keeps.bind (Keeps.modify fun _ => rfl) fun _ => Keeps.ite ?_ (Keeps.pure _)
  exact begin_op_keeps_proc.bind fun _ => (iput_keeps_proc _).bind fun _ => end_op_keeps_proc

-- Only inode files are opened by the modelled paths.
def kfileread (f : Fin NFILE) (addr : UInt64) (n : Nat) : KM Int := do
  let ff := (← get).file f
  if !ff.readable then return -1
  match ff.type with
  | .FD_INODE =>
    let r ← readi ff.ip addr ff.off n
    if r > 0 then modify fun k => k.setFile f {k.file f with off := ff.off + r.toNat}
    return r
  | .FD_NONE => throw "fileread"
  | _ => return -1

theorem kfileread_keeps_proc (f : Fin NFILE) (addr : UInt64) (n : Nat) : Keeps (Same Kernel.proc) (kfileread f addr n) := by
  unfold kfileread
  refine Keeps.get.bind fun k => ?_
  refine Keeps.ite (Keeps.pure _) ?_
  split
  · refine (readi_keeps_proc _ _ _ _).bind fun r => ?_
    dsimp only
    exact Keeps.ite (Keeps.bind (Keeps.modify fun _ => rfl) fun _ => Keeps.pure _) (Keeps.pure _)
  · exact Keeps.throw _
  · exact Keeps.pure _

-- kfilewrite's chunks of at most ((MAXOPBLOCKS-1-1-2) / 2) * BSIZE bytes, each in its own transaction.
def kfilewriteLoop (f : Fin NFILE) (addr : UInt64) (n : Nat) : Nat → Nat → KM Nat
  | 0,i => return i
  | fuel + 1,i => do
    if i ≥ n then return i
    let n1 := min (n - i) ((MAXOPBLOCKS - 1 - 1 - 2) / 2 * BSIZE)
    begin_op
    let ff := (← get).file f
    let r ← writei ff.ip (addr + i.toUInt64) ff.off n1
    if r > 0 then modify fun k => k.setFile f {k.file f with off := ff.off + r.toNat}
    end_op
    if r ≠ n1 then return i
    kfilewriteLoop f addr n fuel (i + r.toNat)

def kfilewrite (f : Fin NFILE) (addr : UInt64) (n : Nat) : KM Int := do
  let ff := (← get).file f
  if !ff.writable then return -1
  match ff.type with
  | .FD_INODE =>
    let i ← kfilewriteLoop f addr n (n + 1) 0
    return if i = n then n else -1
  | .FD_NONE => throw "filewrite"
  | _ => return -1

-- The root directory: dirlookup takes a reference to the inode it finds.
def swapName (pid : Int) : String := ".swap" ++ toString pid

def dirlookup (name : String) : KM (Option (Nat × Nat)) := do
  let root := (← get).root
  match root.findIdx? fun de => de.inum ≠ 0 && de.name = name with
  | none => return none
  | some off =>
    let inum := (root.getD off ⟨0,""⟩).inum
    idup inum
    return some (off,inum)

theorem dirlookup_keeps_proc (name : String) : Keeps (Same Kernel.proc) (dirlookup name) := by
  unfold dirlookup
  refine Keeps.get.bind fun k => ?_
  dsimp only
  split
  · exact Keeps.pure _
  · exact Keeps.bind (Keeps.modify fun _ => rfl) fun _ => Keeps.pure _

def dirlink (name : String) (inum : Nat) : KM Unit :=
  modify fun k =>
    let entry : Dirent := ⟨inum,name⟩
    match k.root.findIdx? (·.inum = 0) with
    | some i => {k with root := k.root.set i entry}
    | none => {k with root := k.root ++ [entry]}

def ialloc : KM Nat := do
  let inodes := (← get).inode
  match (List.range' 1 (NINODES - 1)).find? fun inum => (inodes inum).type = .free with
  | none => throw "ialloc: no inodes"
  | some inum =>
    modify fun k => k.setInode inum {Inode.free with type := .T_FILE,ref := (k.inode inum).ref + 1}
    return inum

-- create(path, T_FILE, 0, 0) in the root: an existing file of that name is returned as it is.
def create (name : String) : KM (Option Nat) := do
  match ← dirlookup name with
  | some (_,inum) =>
    let ip := (← get).inode inum
    if ip.type = .T_FILE || ip.type = .T_DEVICE then return some inum
    iput inum
    return none
  | none =>
    let inum ← ialloc
    modify fun k => k.setInode inum {k.inode inum with nlink := 1}
    dirlink name inum
    return some inum

-- A C int used as a uint (a file offset): the value modulo 2^32.
def uintOf (i : Int) : Nat := (i % 2 ^ 32).toNat

-- kernel/fs.c: the swap file "/.swap<pid>" of a process.
def removeSwapFile (p : Fin NPROC) : KM Int := do
  let pr ← getProc p
  match pr.swapFile with
  | none => return -1
  | some f =>
    fileclose f
    begin_op
    match ← dirlookup (swapName pr.pid) with
    | none =>
      end_op
      return -1
    | some (off,inum) =>
      if ((← get).inode inum).nlink < 1 then throw "unlink: nlink < 1"
      -- memset(&de, 0, sizeof(de)) written back at off
      modify fun k => {k with root := k.root.set off ⟨0,""⟩}
      modify fun k => k.setInode inum {k.inode inum with nlink := (k.inode inum).nlink - 1}
      iput inum
      end_op
      return 0

def createSwapFile (p : Fin NPROC) : KM Int := do
  let pr ← getProc p
  begin_op
  match ← create (swapName pr.pid) with
  -- iunlock(0) panics
  | none => throw "iunlock"
  | some inum =>
    match ← filealloc with
    | none => throw "no slot for files on /store"
    | some f =>
      -- readable = O_WRONLY and writable = O_RDWR are both non-zero
      let opened : File := ⟨.FD_INODE,((← get).file f).ref,true,true,inum,0⟩
      modify fun k => k.setFile f opened
      modifyProc p fun pr => {pr with swapFile := some f}
      end_op
      return 0

def writeToSwapFile (p : Fin NPROC) (buffer : UInt64) (placeOnFile size : Nat) : KM Int := do
  match (← getProc p).swapFile with
  | none => throw "kerneltrap"
  | some f =>
    modify fun k => k.setFile f {k.file f with off := placeOnFile}
    kfilewrite f buffer size

def readFromSwapFile (p : Fin NPROC) (buffer : UInt64) (placeOnFile size : Nat) : KM Int := do
  match (← getProc p).swapFile with
  | none => throw "kerneltrap"
  | some f =>
    modify fun k => k.setFile f {k.file f with off := placeOnFile}
    kfileread f buffer size

theorem readFromSwapFile_keeps_proc (p : Fin NPROC) (buffer : UInt64) (placeOnFile size : Nat) :
    Keeps (Same Kernel.proc) (readFromSwapFile p buffer placeOnFile size) := by
  unfold readFromSwapFile
  refine Keeps.get.bind fun k => ?_
  split
  · exact Keeps.throw _
  · exact Keeps.bind (Keeps.modify fun _ => rfl) fun _ => kfileread_keeps_proc _ _ _

end Xv6
