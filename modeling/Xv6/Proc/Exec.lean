import Xv6.Proc.Proc

namespace Xv6

open Frame

-- kernel/elf.h, kernel/param.h
def ELF_MAGIC : Nat := 0x464C457F
def ELF_PROG_LOAD : Nat := 1
def MAXARG : Nat := 32

def field (bytes : Nat → UInt8) (off width : Nat) : Nat :=
  (List.range width).foldr (fun i acc => (bytes (off + i)).toNat + 256 * acc) 0

-- The fields of struct elfhdr and struct proghdr that exec reads.
structure Elfhdr where
  magic : Nat
  entry : UInt64
  phoff : UInt64
  phnum : Nat

structure Proghdr where
  type : Nat
  off : UInt64
  vaddr : UInt64
  filesz : UInt64
  memsz : UInt64

def Elfhdr.parse (b : Nat → UInt8) : Elfhdr :=
  ⟨field b 0 4,(field b 24 8).toUInt64,(field b 32 8).toUInt64,field b 56 2⟩

def Proghdr.parse (b : Nat → UInt8) : Proghdr :=
  ⟨field b 0 4,(field b 8 8).toUInt64,(field b 16 8).toUInt64,(field b 32 8).toUInt64,(field b 40 8).toUInt64⟩

-- namei of a name in the root directory, and ilock's check of the inode.
def namei (name : String) : KM (Option Nat) := do
  return (← dirlookup name).map (·.2)

def ilock (inum : Nat) : KM Unit := do
  if ((← get).inode inum).type = .free then throw "ilock: no type"

-- kernel/exec.c. offset and sz are uint.
def loadsegLoop (pagetable va : UInt64) (ip offset sz : Nat) : Nat → Nat → KM Int
  | 0,_ => return 0
  | fuel + 1,i => do
    if i ≥ sz then return 0
    let pa ← walkaddr pagetable (va + i.toUInt64)
    if pa = 0 then throw "loadseg: address should exist"
    let n := if sz - i < 4096 then sz - i else 4096
    if (← readi ip pa ((offset + i) % 2 ^ 32) n) ≠ n then return -1
    loadsegLoop pagetable va ip offset sz fuel (i + 4096)

def loadseg (pagetable va : UInt64) (ip offset sz : Nat) : KM Int := do
  if va % PGSIZE ≠ 0 then throw "loadseg: va must be page aligned"
  loadsegLoop pagetable va ip offset sz (sz / 4096 + 1) 0

def loadProgram (pagetable : UInt64) (ip : Nat) : Nat → Int → UInt64 → KM (Except UInt64 UInt64)
  | 0,_,sz => return .ok sz
  | remaining + 1,off,sz => do
    let (count,bytes) := readiData ((← get).inode ip) (uintOf off) 56
    if count ≠ 56 then return .error sz
    let ph := Proghdr.parse bytes
    if ph.type ≠ ELF_PROG_LOAD then return ← loadProgram pagetable ip remaining (off + 56) sz
    if ph.memsz < ph.filesz then return .error sz
    if ph.vaddr + ph.memsz < ph.vaddr then return .error sz
    let sz1 ← uvmalloc pagetable sz (ph.vaddr + ph.memsz)
    if sz1 = 0 then return .error sz
    if ph.vaddr % PGSIZE ≠ 0 then return .error sz1
    if (← loadseg pagetable ph.vaddr ip (ph.off.toNat % 2 ^ 32) (ph.filesz.toNat % 2 ^ 32)) < 0 then
      return .error sz1
    loadProgram pagetable ip remaining (off + 56) sz1

-- exec's bad: label. held says whether exec still holds ip and its transaction.
def execBad (ip : Nat) (pagetable sz : UInt64) (held : Bool) : KM Int := do
  if pagetable ≠ 0 then proc_freepagetable pagetable sz
  if held then
    iput ip
    end_op
  let p ← myproc
  if (← getProc p).swapFile.isSome then
    let _ ← removeSwapFile p
  return -1

-- The argument strings (with their NULs) pushed below sp, or none where exec goes to bad.
def pushArgs (pagetable stackbase : UInt64) : List (List UInt8) → Nat → UInt64 → List UInt64 →
    KM (Option (UInt64 × List UInt64))
  | [],_,sp,ustack => return some (sp,ustack)
  | arg :: rest,argc,sp,ustack => do
    if argc ≥ MAXARG then return none
    let sp := sp - (arg.length + 1).toUInt64
    let sp := sp - sp % 16
    if sp < stackbase then return none
    if (← copyout pagetable sp (fun i => arg.getD i 0) (arg.length + 1).toUInt64) < 0 then return none
    pushArgs pagetable stackbase rest (argc + 1) sp (ustack ++ [sp])

def wordBytes (words : List UInt64) : Nat → UInt8 := fun i =>
  ((words.getD (i / 8) 0).toNat / 256 ^ (i % 8) % 256).toUInt8

-- The saved registers, the name and the trapframe exec sets are not modelled.
def exec (path : String) (argv : List (List UInt8)) : KM Int := do
  let p ← myproc
  begin_op
  match ← namei path with
  | none =>
    end_op
    return -1
  | some ip =>
    ilock ip
    let (count,header) := readiData ((← get).inode ip) 0 64
    if count ≠ 64 then return ← execBad ip 0 0 true
    let elf := Elfhdr.parse header
    if elf.magic ≠ ELF_MAGIC then return ← execBad ip 0 0 true
    let pagetable ← proc_pagetable p
    if pagetable = 0 then return ← execBad ip 0 0 true
    if !(← is_none_policy) && (← getProc p).pid > 2 then
      clear_memory_metadata
      if (← getProc p).swapFile.isSome then
        let _ ← removeSwapFile p
      let _ ← createSwapFile p
    match ← loadProgram pagetable ip elf.phnum (toCInt elf.phoff) 0 with
    | .error sz => execBad ip pagetable sz true
    | .ok sz =>
      iput ip
      end_op
      let oldsz := (← getProc p).sz
      let sz := PGROUNDUP sz
      let sz1 ← uvmalloc pagetable sz (sz + 2 * PGSIZE)
      if sz1 = 0 then return ← execBad ip pagetable sz false
      let sz := sz1
      uvmclear pagetable (sz - 2 * PGSIZE)
      let stackbase := sz - PGSIZE
      match ← pushArgs pagetable stackbase argv 0 sz [] with
      | none => execBad ip pagetable sz false
      | some (sp,ustack) =>
        let ustack := ustack ++ [0]
        let sp := sp - (ustack.length * 8).toUInt64
        let sp := sp - sp % 16
        if sp < stackbase then return ← execBad ip pagetable sz false
        if (← copyout pagetable sp (wordBytes ustack) (ustack.length * 8).toUInt64) < 0 then
          return ← execBad ip pagetable sz false
        let oldpagetable := (← getProc p).pagetable
        modifyProc p fun pr => {pr with pagetable := pagetable,sz := sz}
        proc_freepagetable oldpagetable oldsz
        return argv.length

end Xv6
