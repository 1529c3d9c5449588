import Xv6.Param
import Xv6.Riscv
import Xv6.Lib.Frame
import Xv6.Log.Ops

namespace Xv6

open Frame

-- The paging policy the kernel is compiled with (-D$(SELECTION) in the Makefile).
inductive Selection
  | SCFIFO
  | NFUA
  | LAPA
  | NONE
  | DEBUG
deriving DecidableEq, Repr

-- kernel/proc.h
inductive ProcState
  | UNUSED
  | USED
  | SLEEPING
  | RUNNABLE
  | RUNNING
  | ZOMBIE
deriving DecidableEq, Repr

inductive PageMetadataState
  | P_UNUSED
  | P_USED
deriving DecidableEq, Repr

structure PageMetadata where
  state : PageMetadataState
  userPageVA : UInt64
  pageOrder : UInt32
  accessCount : UInt32
deriving DecidableEq, Repr

def PageMetadata.unused : PageMetadata := ⟨.P_UNUSED,0,0,0⟩

-- The fields of struct proc the modelled functions use; the swap file is an index into the file table.
structure Proc where
  state : ProcState
  parent : Option (Fin NPROC)
  killed : Bool
  xstate : Int
  pid : Int
  sz : UInt64
  pagetable : UInt64
  trapframe : UInt64
  pageFaultCounter : Int
  swapFile : Option (Fin NFILE)
  filePages : Fin (MAX_TOTAL_PAGES - MAX_PYSC_PAGES) → PageMetadata
  memoryPages : Fin MAX_PYSC_PAGES → PageMetadata
  pageOrderCounter : UInt64
  pagesInFileCounter : UInt64
  pagesInMemoryCounter : UInt64

def Proc.unused : Proc :=
  ⟨.UNUSED,none,false,0,0,0,0,0,0,none,fun _ => .unused,fun _ => .unused,0,0,0⟩

-- kernel/file.h
inductive FileType
  | FD_NONE
  | FD_PIPE
  | FD_INODE
  | FD_DEVICE
deriving DecidableEq, Repr

structure File where
  type : FileType
  ref : Int
  readable : Bool
  writable : Bool
  ip : Nat
  off : Nat
deriving Repr

def File.unused : File := ⟨.FD_NONE,0,false,false,0,0⟩

-- kernel/stat.h; a disk inode whose type is 0 is free.
inductive InodeType
  | free
  | T_DIR
  | T_FILE
  | T_DEVICE
deriving DecidableEq, Repr

-- An inode with its cached copy: the file's bytes as writei and readi see them.
structure Inode where
  type : InodeType
  nlink : Int
  size : Nat
  data : Nat → UInt8
  ref : Int

def Inode.free : Inode := ⟨.free,0,0,fun _ => 0,0⟩

structure Dirent where
  inum : Nat
  name : String
deriving DecidableEq, Repr

structure Config where
  selection : Selection
  -- end[] of kernel.ld: kfree refuses frames below it.
  kernelEnd : UInt64
  -- trampoline[] of trampoline.S, mapped at TRAMPOLINE in every process.
  trampoline : UInt64

-- Physical memory as bytes and as 64-bit words (page-table entries): memset writes both views,
-- and a frame is used one way between a kalloc and the next kfree.
structure Kernel where
  config : Config
  freelist : List UInt64
  bytes : UInt64 → UInt8
  words : UInt64 → UInt64
  proc : Fin NPROC → Proc
  cur : Fin NPROC
  initproc : Option (Fin NPROC)
  nextpid : Int
  file : Fin NFILE → File
  inode : Nat → Inode
  root : List Dirent
  oplog : List FsLog.Action

abbrev KM := StateT Kernel (Except String)

-- Addresses are compared by the numbers they stand for; memset is only called on a page-aligned pa.
def sameAddr (a b : UInt64) : Bool := Nat.beq a.toNat b.toNat

def samePage (pa a : UInt64) : Bool := Nat.beq (a.toNat / 4096) (pa.toNat / 4096)

def inRange (dst n a : UInt64) : Prop := dst.toNat ≤ a.toNat ∧ a.toNat < dst.toNat + n.toNat

instance (dst n a : UInt64) : Decidable (inRange dst n a) := inferInstanceAs (Decidable (_ ∧ _))

def fill (c : UInt8) : UInt64 := c.toUInt64 * 0x0101010101010101

def Kernel.memset (k : Kernel) (pa : UInt64) (c : UInt8) : Kernel :=
  {k with bytes := fun a => bif samePage pa a then c else k.bytes a,
          words := fun a => bif samePage pa a then fill c else k.words a}

def Kernel.setWord (k : Kernel) (addr v : UInt64) : Kernel :=
  {k with words := fun a => bif sameAddr a addr then v else k.words a}

def Kernel.setByte (k : Kernel) (addr : UInt64) (v : UInt8) : Kernel :=
  {k with bytes := fun a => bif sameAddr a addr then v else k.bytes a}

def Kernel.setProc (k : Kernel) (i : Fin NPROC) (p : Proc) : Kernel :=
  {k with proc := fun j => if j = i then p else k.proc j}

def Kernel.setFile (k : Kernel) (i : Fin NFILE) (f : File) : Kernel :=
  {k with file := fun j => if j = i then f else k.file j}

def Kernel.setInode (k : Kernel) (inum : Nat) (ip : Inode) : Kernel :=
  {k with inode := fun j => if j = inum then ip else k.inode j}

-- memset(pa, c, PGSIZE): every caller passes a whole page.
def memset (pa : UInt64) (c : UInt8) : KM Unit :=
  modify fun k => k.memset pa c

-- memmove(dst, src, n) between kernel (physical) addresses.
def memmove (dst src n : UInt64) : KM Unit :=
  modify fun k => {k with bytes := fun a => if inRange dst n a then k.bytes (src + (a - dst)) else k.bytes a}

-- Kernel buffers outside the frames (kernel-stack structs, argument strings) are values.
def writeBytes (dst : UInt64) (src : Nat → UInt8) (n : UInt64) : KM Unit :=
  modify fun k => {k with bytes := fun a => if inRange dst n a then src (a - dst).toNat else k.bytes a}

-- kernel/kalloc.c
def kalloc : KM UInt64 := do
  match (← get).freelist with
  | [] => return 0
  | r :: rest =>
    modify fun k => {k with freelist := rest}
    memset r 5
    return r

def kfree (pa : UInt64) : KM Unit := do
  if pa % PGSIZE != 0 || pa < (← get).config.kernelEnd || pa ≥ PHYSTOP then throw "kfree"
  memset pa 1
  modify fun k => {k with freelist := pa :: k.freelist}

-- *pte for a pte_t * computed by walk: a null pointer faults, and kerneltrap panics.
def loadPte (pte : UInt64) : KM UInt64 := do
  if pte = 0 then throw "kerneltrap"
  return (← get).words pte

def storePte (pte v : UInt64) : KM Unit := do
  if pte = 0 then throw "kerneltrap"
  modify fun k => k.setWord pte v

def myproc : KM (Fin NPROC) := do
  return (← get).cur

def getProc (i : Fin NPROC) : KM Proc := do
  return (← get).proc i

def setProc (i : Fin NPROC) (p : Proc) : KM Unit :=
  modify fun k => k.setProc i p

def modifyProc (i : Fin NPROC) (f : Proc → Proc) : KM Unit := do
  setProc i (f (← getProc i))

def is_none_policy : KM Bool := do
  return (← get).config.selection == .NONE

-- begin_op and end_op are recorded with their process; what they wait for is FsLog.step's business.
def begin_op : KM Unit := do
  let p ← myproc
  modify fun k => {k with oplog := k.oplog ++ [.begin p.val]}

def end_op : KM Unit := do
  let p ← myproc
  modify fun k => {k with oplog := k.oplog ++ [.finish p.val]}

section Lemmas

variable (k : Kernel)

@[simp] theorem memset_freelist (pa : UInt64) (c : UInt8) : (k.memset pa c).freelist = k.freelist := rfl
@[simp] theorem memset_proc (pa : UInt64) (c : UInt8) : (k.memset pa c).proc = k.proc := rfl
@[simp] theorem memset_config (pa : UInt64) (c : UInt8) : (k.memset pa c).config = k.config := rfl
@[simp] theorem memset_cur (pa : UInt64) (c : UInt8) : (k.memset pa c).cur = k.cur := rfl
@[simp] theorem setWord_freelist (a v : UInt64) : (k.setWord a v).freelist = k.freelist := rfl
@[simp] theorem setWord_proc (a v : UInt64) : (k.setWord a v).proc = k.proc := rfl
@[simp] theorem setWord_config (a v : UInt64) : (k.setWord a v).config = k.config := rfl
@[simp] theorem setWord_cur (a v : UInt64) : (k.setWord a v).cur = k.cur := rfl
@[simp] theorem setProc_freelist (i : Fin NPROC) (p : Proc) : (k.setProc i p).freelist = k.freelist := rfl
@[simp] theorem setProc_words (i : Fin NPROC) (p : Proc) : (k.setProc i p).words = k.words := rfl
@[simp] theorem setProc_config (i : Fin NPROC) (p : Proc) : (k.setProc i p).config = k.config := rfl
@[simp] theorem setProc_cur (i : Fin NPROC) (p : Proc) : (k.setProc i p).cur = k.cur := rfl

@[simp] theorem setProc_proc (i j : Fin NPROC) (p : Proc) :
    (k.setProc i p).proc j = if j = i then p else k.proc j := rfl

@[simp] theorem sameAddr_eq (a b : UInt64) : sameAddr a b = decide (a = b) := by
  rw [Bool.eq_iff_iff]
  simp [sameAddr,Nat.beq_eq,UInt64.toNat_inj]

@[simp] theorem setWord_words (addr v a : UInt64) :
    (k.setWord addr v).words a = if a = addr then v else k.words a := by
  simp only [Kernel.setWord,sameAddr_eq,Bool.cond_decide]

end Lemmas

section Reads

variable {β : Type} (s : Kernel)

@[simp] theorem myproc_bind (f : Fin NPROC → KM β) : (myproc >>= f) s = f s.cur s := rfl
@[simp] theorem getProc_bind (i : Fin NPROC) (f : Proc → KM β) : (getProc i >>= f) s = f (s.proc i) s := rfl
@[simp] theorem is_none_policy_bind (f : Bool → KM β) :
    (is_none_policy >>= f) s = f (s.config.selection == .NONE) s := rfl
@[simp] theorem setProc_run (i : Fin NPROC) (p : Proc) : setProc i p s = .ok (⟨⟩,s.setProc i p) := rfl

end Reads

def procsOf (k : Kernel) : (Fin NPROC → Proc) × Fin NPROC := (k.proc,k.cur)

def swapSlots (k : Kernel) :
    (Fin NPROC → (Fin (MAX_TOTAL_PAGES - MAX_PYSC_PAGES) → PageMetadata) × Bool) × Fin NPROC :=
  (fun q => ((k.proc q).filePages,(k.proc q).killed),k.cur)

theorem keeps_swapSlots {α : Type} {m : KM α} (kept : Keeps (Same procsOf) m) : Keeps (Same swapSlots) m :=
  kept.map fun (procs,cur) => (fun q => ((procs q).filePages,(procs q).killed),cur)

theorem modifyProc_keeps_swapSlots (p : Fin NPROC) (f : Proc → Proc)
    (files : ∀ pr, (f pr).filePages = pr.filePages) (alive : ∀ pr, (f pr).killed = pr.killed) :
    Keeps (Same swapSlots) (modifyProc p f) := by
  intro s a t ran
  cases ran
  simp only [Same,swapSlots,Kernel.setProc,Prod.mk.injEq,and_true]
  funext q
  by_cases same : q = p <;> simp [same,files,alive]

theorem memset_keeps_procs (pa : UInt64) (c : UInt8) : Keeps (Same procsOf) (memset pa c) :=
  Keeps.modify fun _ => rfl

theorem kalloc_keeps_procs : Keeps (Same procsOf) kalloc := by
  unfold kalloc
  refine Keeps.get.bind fun k => ?_
  split
  · exact Keeps.pure _
  · refine Keeps.bind (Keeps.modify fun _ => rfl) fun _ => ?_
    exact (memset_keeps_procs _ _).bind fun _ => Keeps.pure _

theorem kfree_keeps_procs (pa : UInt64) : Keeps (Same procsOf) (kfree pa) := by
  unfold kfree
  refine Keeps.get.bind fun k => ?_
  dsimp only
  refine Keeps.ite (Keeps.throw_bind _ _) ?_
  exact (memset_keeps_procs _ _).bind fun _ => Keeps.modify fun _ => rfl

theorem loadPte_keeps_procs (pte : UInt64) : Keeps (Same procsOf) (loadPte pte) := by
  unfold loadPte
  dsimp only
  exact Keeps.ite (Keeps.throw_bind _ _) (Keeps.get.bind fun _ => Keeps.pure _)

theorem storePte_keeps_procs (pte v : UInt64) : Keeps (Same procsOf) (storePte pte v) := by
  unfold storePte
  dsimp only
  exact Keeps.ite (Keeps.throw_bind _ _) (Keeps.modify fun _ => rfl)

theorem begin_op_keeps_proc : Keeps (Same Kernel.proc) begin_op :=
  Keeps.get.bind fun _ => Keeps.modify fun _ => rfl

theorem end_op_keeps_proc : Keeps (Same Kernel.proc) end_op :=
  Keeps.get.bind fun _ => Keeps.modify fun _ => rfl

end Xv6
