import Xv6.Proc.Exec
import Xv6.Proc.Machine
import Xv6.Lib.Runs

namespace Xv6

namespace Tree

open Frame

-- kernel/param.h
def MAXPATH : Nat := 128

-- An inode as the directory tree sees it: entries are its dirents in offset order (inum 0 a free
-- slot), blocks the data blocks bmap allocated, ref the itable reference count.
structure Dinode where
  type : InodeType
  nlink : Int16
  size : Nat
  entries : List Dirent
  blocks : Nat
  ref : Int
deriving DecidableEq

def Dinode.free : Dinode := ⟨.free,0,0,[],0,0⟩

-- ip->size: writei keeps a directory at 16 bytes a dirent.
def Dinode.length (ip : Dinode) : Nat := if ip.type = .T_DIR then 16 * ip.entries.length else ip.size

-- The blocks itrunc gives back: the data blocks and the indirect block.
def Dinode.held (ip : Dinode) : Nat := ip.blocks + if ip.blocks > NDIRECT then 1 else 0

-- The disk's inodes with their cached copies, the free blocks, and the open swap files by pid.
structure FsTree where
  inode : Nat → Dinode
  free : Nat
  swapFiles : List (Nat × Nat)

abbrev TM := StateT FsTree (Except String)

def FsTree.setInode (s : FsTree) (inum : Nat) (ip : Dinode) : FsTree :=
  {s with inode := Function.update s.inode inum ip}

@[simp] theorem FsTree.setInode_inode (s : FsTree) (inum : Nat) (ip : Dinode) :
    (s.setInode inum ip).inode = Function.update s.inode inum ip := rfl
@[simp] theorem FsTree.setInode_free (s : FsTree) (inum : Nat) (ip : Dinode) :
    (s.setInode inum ip).free = s.free := rfl
@[simp] theorem FsTree.setInode_swapFiles (s : FsTree) (inum : Nat) (ip : Dinode) :
    (s.setInode inum ip).swapFiles = s.swapFiles := rfl

def FsTree.retain (s : FsTree) (inum : Nat) : FsTree :=
  s.setInode inum {s.inode inum with ref := (s.inode inum).ref + 1}

def FsTree.release (s : FsTree) (inum : Nat) : FsTree :=
  s.setInode inum {s.inode inum with ref := (s.inode inum).ref - 1}

@[simp] theorem FsTree.retain_inode (s : FsTree) (inum : Nat) :
    (s.retain inum).inode = Function.update s.inode inum {s.inode inum with ref := (s.inode inum).ref + 1} := rfl
@[simp] theorem FsTree.release_inode (s : FsTree) (inum : Nat) :
    (s.release inum).inode = Function.update s.inode inum {s.inode inum with ref := (s.inode inum).ref - 1} := rfl
@[simp] theorem FsTree.retain_free (s : FsTree) (inum : Nat) : (s.retain inum).free = s.free := rfl
@[simp] theorem FsTree.retain_swapFiles (s : FsTree) (inum : Nat) : (s.retain inum).swapFiles = s.swapFiles := rfl
@[simp] theorem FsTree.release_free (s : FsTree) (inum : Nat) : (s.release inum).free = s.free := rfl
@[simp] theorem FsTree.release_swapFiles (s : FsTree) (inum : Nat) : (s.release inum).swapFiles = s.swapFiles := rfl

-- kernel/fs.c. iget and idup both take a reference.
def idup (inum : Nat) : TM Unit :=
  modify fun s => s.retain inum

-- Every inode put here was locked since it was fetched, so ip->valid holds.
def iput (inum : Nat) : TM Unit := do
  let ip := (← get).inode inum
  if ip.ref = 1 && ip.nlink = 0 then
    modify fun s => {s.setInode inum Dinode.free with free := s.free + ip.held}
  else
    modify fun s => s.release inum

theorem iput_run_held {inum : Nat} {s : FsTree} (held : ¬((s.inode inum).ref = 1 ∧ (s.inode inum).nlink = 0)) :
    iput inum s = .ok ((),s.release inum) := by
  have kept : ((s.inode inum).ref = 1 && (s.inode inum).nlink = 0) = false := by simpa using held
  simp only [iput,get_bind,kept,Bool.false_eq_true,if_false]
  rfl

theorem iput_run_last {inum : Nat} {s : FsTree} (last : (s.inode inum).ref = 1) (unlinked : (s.inode inum).nlink = 0) :
    iput inum s = .ok ((),{s.setInode inum Dinode.free with free := s.free + (s.inode inum).held}) := by
  simp only [iput,get_bind,last,unlinked,decide_true,Bool.and_self,if_true]
  rfl

def ilock (inum : Nat) : TM Unit := do
  let ip := (← get).inode inum
  if ip.ref < 1 then throw "ilock"
  if ip.type = .free then throw "ilock: no type"

theorem ilock_run {inum : Nat} {s : FsTree} (referenced : 1 ≤ (s.inode inum).ref)
    (typed : (s.inode inum).type ≠ .free) : ilock inum s = .ok ((),s) := by
  simp only [ilock,get_bind,Int.not_lt.mpr referenced,if_false,typed]
  rfl

-- Names reach dirlookup from skipelem, which keeps DIRSIZ characters, so namecmp is equality.
def dirlookup (dp : Nat) (name : String) : TM (Option (Nat × Nat)) := do
  let ip := (← get).inode dp
  if ip.type ≠ .T_DIR then throw "dirlookup not DIR"
  match ip.entries.findIdx? fun de => de.inum ≠ 0 && de.name = name with
  | none => return none
  | some off =>
    let inum := (ip.entries.getD off ⟨0,""⟩).inum
    idup inum
    return some (inum,off)

theorem dirlookup_run_none {dp : Nat} {name : String} {s : FsTree} (dir : (s.inode dp).type = .T_DIR)
    (missing : ∀ de ∈ (s.inode dp).entries, de.inum ≠ 0 → de.name ≠ name) : dirlookup dp name s = .ok (none,s) := by
  have none : (s.inode dp).entries.findIdx? (fun de => de.inum ≠ 0 && de.name = name) = none :=
    List.findIdx?_eq_none_iff.mpr fun de mem => by simpa using missing de mem
  simp only [dirlookup,get_bind,dir,ne_eq,not_true_eq_false,if_false]
  rw [none]
  rfl

theorem dirlookup_run_found {dp inum : Nat} {name : String} {pre post : List Dirent} {s : FsTree}
    (dir : (s.inode dp).type = .T_DIR) (entries : (s.inode dp).entries = pre ++ ⟨inum,name⟩ :: post)
    (live : inum ≠ 0) (first : ∀ de ∈ pre, de.inum ≠ 0 → de.name ≠ name) :
    dirlookup dp name s = .ok (some (inum,pre.length),s.retain inum) := by
  have found : (s.inode dp).entries.findIdx? (fun de => de.inum ≠ 0 && de.name = name) = some pre.length := by
    have none : pre.findIdx? (fun de => de.inum ≠ 0 && de.name = name) = none :=
      List.findIdx?_eq_none_iff.mpr fun de mem => by simpa using first de mem
    rw [entries,List.findIdx?_append,none]
    simp [List.findIdx?_cons,live]
  have entry : (s.inode dp).entries.getD pre.length ⟨0,""⟩ = ⟨inum,name⟩ := by
    simp [entries,List.getD_eq_getElem?_getD]
  simp only [dirlookup,get_bind,dir,ne_eq,not_true_eq_false,if_false]
  rw [found]
  dsimp only
  rw [entry]
  rfl

-- bmap for the block of the dirent at slot: a new data block past the allocated ones, the indirect
-- block first at the first block past NDIRECT.
def Dinode.need (ip : Dinode) (slot : Nat) : Nat :=
  let bn := 16 * slot / BSIZE
  if bn < ip.blocks then 0 else if bn = NDIRECT then 2 else 1

def Dinode.write (ip : Dinode) (slot : Nat) (de : Dirent) : Dinode :=
  {ip with
    entries := if slot < ip.entries.length then ip.entries.set slot de else ip.entries ++ [de]
    blocks := max ip.blocks (16 * slot / BSIZE + 1)}

-- writei(dp, 0, &de, 16 * slot, sizeof(de)).
def writeDirent (dp slot : Nat) (de : Dirent) : TM Int := do
  let ip := (← get).inode dp
  if 16 * slot > ip.length then return -1
  if 16 * slot + 16 > MAXFILE * BSIZE then return -1
  if (← get).free < ip.need slot then throw "balloc: out of blocks"
  modify fun s => {s.setInode dp (ip.write slot de) with free := s.free - ip.need slot}
  return 16

theorem writeDirent_run {dp slot : Nat} {de : Dirent} {s : FsTree} (inside : 16 * slot ≤ (s.inode dp).length)
    (fits : 16 * slot + 16 ≤ MAXFILE * BSIZE) (enough : (s.inode dp).need slot ≤ s.free) :
    writeDirent dp slot de s =
      .ok (16,{s.setInode dp ((s.inode dp).write slot de) with free := s.free - (s.inode dp).need slot}) := by
  simp only [writeDirent,get_bind,gt_iff_lt,Nat.not_lt.mpr inside,Nat.not_lt.mpr fits,Nat.not_lt.mpr enough,
    if_false]
  rfl

-- dirlink's scan for the first free dirent, or the end of the directory.
def Dinode.freeSlot (ip : Dinode) : Nat := (ip.entries.findIdx? (·.inum = 0)).getD ip.entries.length

theorem Dinode.freeSlot_le (ip : Dinode) : ip.freeSlot ≤ ip.entries.length := by
  unfold Dinode.freeSlot
  cases found : ip.entries.findIdx? (·.inum = 0) with
  | none => exact Nat.le_refl _
  | some i => exact Nat.le_of_lt (List.findIdx?_eq_some_iff_getElem.mp found).1

def dirlink (dp : Nat) (name : String) (inum : Nat) : TM Int := do
  match ← dirlookup dp name with
  | some (ip,_) =>
    iput ip
    return -1
  | none =>
    if (← writeDirent dp ((← get).inode dp).freeSlot ⟨inum,name⟩) ≠ 16 then throw "dirlink"
    return 0

theorem dirlink_run_fresh {dp inum : Nat} {name : String} {s : FsTree} (dir : (s.inode dp).type = .T_DIR)
    (missing : ∀ de ∈ (s.inode dp).entries, de.inum ≠ 0 → de.name ≠ name)
    (fits : 16 * (s.inode dp).freeSlot + 16 ≤ MAXFILE * BSIZE)
    (enough : (s.inode dp).need (s.inode dp).freeSlot ≤ s.free) :
    dirlink dp name inum s = .ok (0,{s.setInode dp ((s.inode dp).write (s.inode dp).freeSlot ⟨inum,name⟩) with
      free := s.free - (s.inode dp).need (s.inode dp).freeSlot}) := by
  have inside : 16 * (s.inode dp).freeSlot ≤ (s.inode dp).length := by
    have := (s.inode dp).freeSlot_le
    simp only [Dinode.length,dir,if_true]
    omega
  simp only [dirlink,bind_of_ok (dirlookup_run_none dir missing),get_bind,bind_of_ok (writeDirent_run inside fits enough)]
  rfl

-- skipelem: the next element, cut to DIRSIZ, and the path after it without its leading slashes.
def skipelem (path : List Char) : Option (String × List Char) :=
  match path.dropWhile (· = '/') with
  | [] => none
  | c :: cs =>
    let path := c :: cs
    some (String.ofList ((path.takeWhile (· ≠ '/')).take DIRSIZ),(path.dropWhile (· ≠ '/')).dropWhile (· = '/'))

theorem skipelem_shorter {path rest : List Char} {name : String} (taken : skipelem path = some (name,rest)) :
    rest.length < path.length := by
  unfold skipelem at taken
  split at taken
  · cases taken
  · rename_i c cs stripped
    cases taken
    have first : (c != '/') = true := by
      have := List.head_dropWhile_not (· = '/') (l := path) (by simp [stripped])
      simpa [stripped] using this
    have past : (c :: cs).dropWhile (· ≠ '/') = cs.dropWhile (· ≠ '/') := by
      simp only [List.dropWhile_cons]
      simp_all
    have within : (c :: cs).length ≤ path.length := stripped ▸ (List.dropWhile_suffix _).length_le
    have cut := (List.dropWhile_suffix (· = '/') (l := cs.dropWhile (· ≠ '/'))).length_le
    have tail := (List.dropWhile_suffix (· ≠ '/') (l := cs)).length_le
    simp only [past,List.length_cons] at cut within ⊢
    omega

-- The elements namex walks, in order. skipelem is pure, so taking them all
-- first changes nothing; namex's test *path == 0 is that no element is left.
def elements (path : List Char) : List String :=
  match _taken : skipelem path with
  | none => []
  | some (name,rest) => name :: elements rest
termination_by path.length
decreasing_by exact skipelem_shorter ‹_›

theorem elements_of_skipelem {path rest : List Char} {name : String} (taken : skipelem path = some (name,rest)) :
    elements path = name :: elements rest := by
  rw [elements]
  split <;> simp_all

theorem elements_of_empty {path : List Char} (empty : skipelem path = none) : elements path = [] := by
  rw [elements]
  split <;> simp_all

theorem skipelem_slash (path : List Char) : skipelem ('/' :: path) = skipelem path := by
  unfold skipelem
  simp

theorem elements_slash (path : List Char) : elements ('/' :: path) = elements path := by
  cases taken : skipelem path with
  | none => rw [elements_of_empty (by rw [skipelem_slash]; exact taken),elements_of_empty taken]
  | some next =>
    obtain ⟨name,rest⟩ := next
    rw [elements_of_skipelem (by rw [skipelem_slash]; exact taken),elements_of_skipelem taken]

theorem skipelem_plain {cs rest : List Char} (named : cs ≠ []) (plain : ∀ c ∈ cs, c ≠ '/')
    (short : cs.length ≤ DIRSIZ) (sep : rest = [] ∨ ∃ more, rest = '/' :: more) :
    skipelem (cs ++ rest) = some (String.ofList cs,rest.dropWhile (· = '/')) := by
  obtain ⟨c,cs',rfl⟩ := List.exists_cons_of_ne_nil named
  have first : c ≠ '/' := plain c List.mem_cons_self
  have all : ∀ d ∈ c :: cs', decide (d ≠ '/') = true := fun d mem => by simpa using plain d mem
  have stop : rest.takeWhile (fun x => decide (x ≠ '/')) = [] := by
    rcases sep with rfl | ⟨more,rfl⟩ <;> simp
  have past : rest.dropWhile (fun x => decide (x ≠ '/')) = rest := by
    rcases sep with rfl | ⟨more,rfl⟩ <;> simp
  have strip : (c :: cs' ++ rest).dropWhile (· = '/') = c :: (cs' ++ rest) := by
    simp [first]
  unfold skipelem
  rw [strip]
  dsimp only
  rw [← List.cons_append,List.takeWhile_append_of_pos all,List.dropWhile_append_of_pos all,stop,past,List.append_nil,
    List.take_of_length_le short]

theorem elements_plain {cs : List Char} (named : cs ≠ []) (plain : ∀ c ∈ cs, c ≠ '/') (short : cs.length ≤ DIRSIZ) :
    elements cs = [String.ofList cs] := by
  have taken := @skipelem_plain cs [] named plain short (.inl rfl)
  rw [List.append_nil] at taken
  rw [elements_of_skipelem taken,List.dropWhile_nil,elements_of_empty rfl]

theorem elements_plain_plain {cs cs' : List Char} (named : cs ≠ [] ∧ cs' ≠ []) (plain : ∀ c ∈ cs ++ cs', c ≠ '/')
    (short : cs.length ≤ DIRSIZ ∧ cs'.length ≤ DIRSIZ) :
    elements (cs ++ '/' :: cs') = [String.ofList cs,String.ofList cs'] := by
  have first := skipelem_plain named.1 (fun c mem => plain c (List.mem_append_left _ mem)) short.1 (.inr ⟨cs',rfl⟩)
  have rest : ('/' :: cs').dropWhile (· = '/') = cs' := by
    obtain ⟨c,cs'',rfl⟩ := List.exists_cons_of_ne_nil named.2
    simp [plain c (List.mem_append_right _ List.mem_cons_self)]
  rw [elements_of_skipelem first,rest,elements_plain named.2 (fun c mem => plain c (List.mem_append_right _ mem)) short.2]

-- namex's loop from inode ip, which the caller holds a reference to.
def namexLoop (nameiparent : Bool) (ip : Nat) : List String → TM (Option (Nat × String))
  | [] => do
    if nameiparent then
      iput ip
      return none
    return some (ip,"")
  | name :: rest => do
    ilock ip
    if ((← get).inode ip).type ≠ .T_DIR then
      iput ip
      return none
    if nameiparent && rest.isEmpty then return some (ip,name)
    match ← dirlookup ip name with
    | none =>
      iput ip
      return none
    | some (next,_) =>
      iput ip
      namexLoop nameiparent next rest

theorem namexLoop_last_parent {ip : Nat} {name : String} {s : FsTree} (referenced : 1 ≤ (s.inode ip).ref)
    (dir : (s.inode ip).type = .T_DIR) : namexLoop true ip [name] s = .ok (some (ip,name),s) := by
  have typed : (s.inode ip).type ≠ .free := by rw [dir]; decide
  simp only [namexLoop,bind_of_ok (ilock_run referenced typed),get_bind,dir,ne_eq,not_true_eq_false,if_false]
  rfl

theorem namexLoop_walk {nameiparent : Bool} {ip next off : Nat} {name : String} {rest : List String} {s t : FsTree}
    (referenced : 1 ≤ (s.inode ip).ref) (dir : (s.inode ip).type = .T_DIR) (more : nameiparent = true → rest ≠ [])
    (found : dirlookup ip name s = .ok (some (next,off),t)) (held : ¬((t.inode ip).ref = 1 ∧ (t.inode ip).nlink = 0)) :
    namexLoop nameiparent ip (name :: rest) s = namexLoop nameiparent next rest (t.release ip) := by
  have typed : (s.inode ip).type ≠ .free := by rw [dir]; decide
  have going : (nameiparent && rest.isEmpty) = false := by
    cases nameiparent with
    | false => rfl
    | true => simpa using more rfl
  simp only [namexLoop,bind_of_ok (ilock_run referenced typed),get_bind,dir,ne_eq,not_true_eq_false,if_false,going,
    Bool.false_eq_true,bind_of_ok found,bind_of_ok (iput_run_held held)]

-- An absolute path starts at ROOTINO (iget), any other at the caller's cwd (idup).
def namex (cwd : Nat) (path : List Char) (nameiparent : Bool) : TM (Option (Nat × String)) := do
  let ip := if path.head? = some '/' then ROOTINO else cwd
  idup ip
  namexLoop nameiparent ip (elements path)

theorem namex_run (cwd : Nat) (path : List Char) (nameiparent : Bool) (s : FsTree) :
    namex cwd path nameiparent s =
      namexLoop nameiparent (if path.head? = some '/' then ROOTINO else cwd) (elements path)
        (s.retain (if path.head? = some '/' then ROOTINO else cwd)) := rfl

def namei (cwd : Nat) (path : List Char) : TM (Option Nat) := do
  return (← namex cwd path false).map (·.1)

def nameiparent (cwd : Nat) (path : List Char) : TM (Option (Nat × String)) :=
  namex cwd path true

theorem namei_top {cs : List Char} {name : String} {inum : Nat} {pre post : List Dirent} {s : FsTree}
    (path : elements ('/' :: cs) = [name]) (dir : (s.inode ROOTINO).type = .T_DIR)
    (counted : 0 ≤ (s.inode ROOTINO).ref) (linked : (s.inode ROOTINO).nlink ≠ 0)
    (entries : (s.inode ROOTINO).entries = pre ++ ⟨inum,name⟩ :: post) (live : inum ≠ 0)
    (first : ∀ de ∈ pre, de.inum ≠ 0 → de.name ≠ name) :
    namei ROOTINO ('/' :: cs) s = .ok (some inum,((s.retain ROOTINO).retain inum).release ROOTINO) := by
  have referenced : 1 ≤ ((s.retain ROOTINO).inode ROOTINO).ref := by simp; omega
  have dir' : ((s.retain ROOTINO).inode ROOTINO).type = .T_DIR := by simp [dir]
  have found := dirlookup_run_found (s := s.retain ROOTINO) dir' (by simpa using entries) live first
  have held : ¬((((s.retain ROOTINO).retain inum).inode ROOTINO).ref = 1 ∧
      (((s.retain ROOTINO).retain inum).inode ROOTINO).nlink = 0) := by
    by_cases same : inum = ROOTINO
    · subst same
      simp [linked]
    · simp [Function.update_apply,Ne.symm same,linked]
  have walked : namexLoop false ROOTINO [name] (s.retain ROOTINO) =
      namexLoop false inum [] (((s.retain ROOTINO).retain inum).release ROOTINO) :=
    namexLoop_walk referenced dir' (by simp) found held
  simp only [namei,bind,StateT.bind,namex_run,List.head?_cons,if_true,path,walked]
  rfl

theorem nameiparent_top {cs : List Char} {name : String} {s : FsTree} (path : elements ('/' :: cs) = [name])
    (dir : (s.inode ROOTINO).type = .T_DIR) (counted : 0 ≤ (s.inode ROOTINO).ref) :
    nameiparent ROOTINO ('/' :: cs) s = .ok (some (ROOTINO,name),s.retain ROOTINO) := by
  have referenced : 1 ≤ ((s.retain ROOTINO).inode ROOTINO).ref := by simp; omega
  rw [nameiparent,namex_run]
  simp only [List.head?_cons,if_true,path]
  exact namexLoop_last_parent referenced (by simp [dir])

theorem nameiparent_sub {cs : List Char} {dname name : String} {sub : Nat} {pre post : List Dirent} {s : FsTree}
    (path : elements ('/' :: cs) = [dname,name]) (dir : (s.inode ROOTINO).type = .T_DIR)
    (counted : 0 ≤ (s.inode ROOTINO).ref) (linked : (s.inode ROOTINO).nlink ≠ 0)
    (entries : (s.inode ROOTINO).entries = pre ++ ⟨sub,dname⟩ :: post) (live : sub ≠ 0) (other : sub ≠ ROOTINO)
    (first : ∀ de ∈ pre, de.inum ≠ 0 → de.name ≠ dname) (subdir : (s.inode sub).type = .T_DIR)
    (subCounted : 0 ≤ (s.inode sub).ref) :
    nameiparent ROOTINO ('/' :: cs) s =
      .ok (some (sub,name),((s.retain ROOTINO).retain sub).release ROOTINO) := by
  have referenced : 1 ≤ ((s.retain ROOTINO).inode ROOTINO).ref := by simp; omega
  have dir' : ((s.retain ROOTINO).inode ROOTINO).type = .T_DIR := by simp [dir]
  have found := dirlookup_run_found (s := s.retain ROOTINO) dir' (by simpa using entries) live first
  have held : ¬((((s.retain ROOTINO).retain sub).inode ROOTINO).ref = 1 ∧
      (((s.retain ROOTINO).retain sub).inode ROOTINO).nlink = 0) := by
    simp [Function.update_apply,Ne.symm other,linked]
  have walked : namexLoop true ROOTINO [dname,name] (s.retain ROOTINO) =
      namexLoop true sub [name] (((s.retain ROOTINO).retain sub).release ROOTINO) :=
    namexLoop_walk referenced dir' (by simp) found held
  rw [nameiparent,namex_run]
  simp only [List.head?_cons,if_true,path]
  rw [walked]
  apply namexLoop_last_parent
  · simp [Function.update_apply,other]
    omega
  · simp [Function.update_apply,other,subdir]

-- ialloc zeroes and types the first free dinode; iget takes the first reference.
def ialloc (type : InodeType) : TM Nat := do
  let inodes := (← get).inode
  match (List.range' 1 (NINODES - 1)).find? fun inum => (inodes inum).type = .free with
  | none => throw "ialloc: no inodes"
  | some inum =>
    modify fun s => s.setInode inum {Dinode.free with type,ref := (s.inode inum).ref + 1}
    return inum

-- kernel/sysfile.c
def create (cwd : Nat) (path : List Char) (type : InodeType) : TM (Option Nat) := do
  match ← nameiparent cwd path with
  | none => return none
  | some (dp,name) =>
    ilock dp
    match ← dirlookup dp name with
    | some (ip,_) =>
      iput dp
      ilock ip
      let found := ((← get).inode ip).type
      if type = .T_FILE && (found = .T_FILE || found = .T_DEVICE) then return some ip
      iput ip
      return none
    | none =>
      let ip ← ialloc type
      ilock ip
      modify fun s => s.setInode ip {s.inode ip with nlink := 1}
      if type = .T_DIR then
        -- No ip->nlink++ for ".": only dp gains a link, from "..".
        modify fun s => s.setInode dp {s.inode dp with nlink := (s.inode dp).nlink + 1}
        if (← dirlink ip "." ip) < 0 then throw "create dots"
        if (← dirlink ip ".." dp) < 0 then throw "create dots"
      if (← dirlink dp name ip) < 0 then throw "create: dirlink"
      iput dp
      return some ip

-- sys_mkdir and sys_mknod: argstr fails on a path of MAXPATH characters or more.
def createNode (cwd : Nat) (path : List Char) (type : InodeType) : TM Int := do
  if path.length ≥ MAXPATH then return -1
  match ← create cwd path type with
  | none => return -1
  | some ip =>
    iput ip
    return 0

def sys_mkdir (cwd : Nat) (path : List Char) : TM Int := createNode cwd path .T_DIR

def sys_mknod (cwd : Nat) (path : List Char) : TM Int := createNode cwd path .T_DEVICE

-- sys_open(path, O_CREATE) and then close(fd).
def openCreate (cwd : Nat) (path : List Char) : TM Int := createNode cwd path .T_FILE

def sys_link (cwd : Nat) (old new : List Char) : TM Int := do
  if old.length ≥ MAXPATH || new.length ≥ MAXPATH then return -1
  match ← namei cwd old with
  | none => return -1
  | some ip =>
    ilock ip
    if ((← get).inode ip).type = .T_DIR then
      iput ip
      return -1
    modify fun s => s.setInode ip {s.inode ip with nlink := (s.inode ip).nlink + 1}
    let linked ← match ← nameiparent cwd new with
      | none => pure false
      | some (dp,name) => do
        ilock dp
        let r ← dirlink dp name ip
        iput dp
        pure (decide (r ≥ 0))
    if linked then
      iput ip
      return 0
    ilock ip
    modify fun s => s.setInode ip {s.inode ip with nlink := (s.inode ip).nlink - 1}
    iput ip
    return -1

theorem sys_link_run {cwd ip dp : Nat} {old new : List Char} {name : String} {s t u v : FsTree}
    (short : old.length < MAXPATH ∧ new.length < MAXPATH) (found : namei cwd old s = .ok (some ip,t))
    (referenced : 1 ≤ (t.inode ip).ref) (file : (t.inode ip).type ≠ .free ∧ (t.inode ip).type ≠ .T_DIR)
    (parent : nameiparent cwd new (t.setInode ip {t.inode ip with nlink := (t.inode ip).nlink + 1}) =
      .ok (some (dp,name),u))
    (parentLocks : 1 ≤ (u.inode dp).ref ∧ (u.inode dp).type ≠ .free) (linked : dirlink dp name ip u = .ok (0,v))
    (parentHeld : ¬((v.inode dp).ref = 1 ∧ (v.inode dp).nlink = 0))
    (fileHeld : ¬(((v.release dp).inode ip).ref = 1 ∧ ((v.release dp).inode ip).nlink = 0)) :
    sys_link cwd old new s = .ok (0,(v.release dp).release ip) := by
  have fits : (decide (old.length ≥ MAXPATH) || decide (new.length ≥ MAXPATH)) = false := by
    simp only [Bool.or_eq_false_iff,decide_eq_false_iff_not]
    omega
  simp only [sys_link,fits,Bool.false_eq_true,if_false,bind_of_ok found,bind_of_ok (ilock_run referenced file.1),
    get_bind,file.2,modify_bind,bind_of_ok parent,bind_of_ok (ilock_run parentLocks.1 parentLocks.2),
    bind_of_ok linked,bind_of_ok (iput_run_held parentHeld)]
  simp only [pure_bind_run,ge_iff_le,Int.le_refl,decide_true,if_true,bind_of_ok (iput_run_held fileHeld)]
  rfl

-- isdirempty reads from the third dirent on.
def isdirempty (dp : Nat) : TM Bool := do
  return (((← get).inode dp).entries.drop 2).all (·.inum = 0)

-- The body sys_unlink and removeSwapFile share, from nameiparent to end_op.
def unlinkPath (cwd : Nat) (path : List Char) : TM Int := do
  match ← nameiparent cwd path with
  | none => return -1
  | some (dp,name) =>
    ilock dp
    if name = "." || name = ".." then
      iput dp
      return -1
    match ← dirlookup dp name with
    | none =>
      iput dp
      return -1
    | some (ip,off) =>
      ilock ip
      let target := (← get).inode ip
      if target.nlink < 1 then throw "unlink: nlink < 1"
      if target.type = .T_DIR && !(← isdirempty ip) then
        iput ip
        iput dp
        return -1
      if (← writeDirent dp off ⟨0,""⟩) ≠ 16 then throw "unlink: writei"
      if target.type = .T_DIR then
        modify fun s => s.setInode dp {s.inode dp with nlink := (s.inode dp).nlink - 1}
      iput dp
      modify fun s => s.setInode ip {s.inode ip with nlink := (s.inode ip).nlink - 1}
      iput ip
      return 0

theorem unlinkPath_nlink_panics {cwd dp ip off : Nat} {path : List Char} {name : String} {s u w : FsTree}
    (parent : nameiparent cwd path s = .ok (some (dp,name),u))
    (parentLocks : 1 ≤ (u.inode dp).ref ∧ (u.inode dp).type ≠ .free) (notDot : name ≠ "." ∧ name ≠ "..")
    (found : dirlookup dp name u = .ok (some (ip,off),w))
    (locks : 1 ≤ (w.inode ip).ref ∧ (w.inode ip).type ≠ .free) (unlinked : (w.inode ip).nlink < 1) :
    unlinkPath cwd path s = .error "unlink: nlink < 1" := by
  have named : (decide (name = ".") || decide (name = "..")) = false := by simp [notDot.1,notDot.2]
  simp only [unlinkPath,bind_of_ok parent,bind_of_ok (ilock_run parentLocks.1 parentLocks.2),named,
    Bool.false_eq_true,if_false,bind_of_ok found,bind_of_ok (ilock_run locks.1 locks.2),get_bind,unlinked,if_true]
  rfl

def sys_unlink (cwd : Nat) (path : List Char) : TM Int := do
  if path.length ≥ MAXPATH then return -1
  unlinkPath cwd path

-- kernel/fs.c: "/.swap" followed by itoa(pid).
def swapPath (pid : Nat) : List Char := ("/.swap" ++ toString pid).toList

-- createSwapFile: create's reference stays with the swap file. iunlock of a
-- null inode (a directory of that name) panics.
def createSwapFile (pid : Nat) : TM Int := do
  match ← create ROOTINO (swapPath pid) .T_FILE with
  | none => throw "iunlock"
  | some ip =>
    modify fun s => {s with swapFiles := (pid,ip) :: s.swapFiles.filter (·.1 ≠ pid)}
    return 0

-- removeSwapFile: fileclose drops the file's inode reference, then the
-- unlink. A process whose swap file was closed has none left here.
def removeSwapFile (pid : Nat) : TM Int := do
  match (← get).swapFiles.lookup pid with
  | none => return -1
  | some ip =>
    iput ip
    modify fun s => {s with swapFiles := s.swapFiles.filter (·.1 ≠ pid)}
    unlinkPath ROOTINO (swapPath pid)

-- The calls that change directories and link counts, from processes whose cwd is the root.
inductive FsCall
  | mkdir (path : List Char)
  | mknod (path : List Char)
  | openCreate (path : List Char)
  | link (old new : List Char)
  | unlink (path : List Char)
  | createSwapFile (pid : Nat)
  | removeSwapFile (pid : Nat)

def FsCall.run : FsCall → TM Int
  | .mkdir path => sys_mkdir ROOTINO path
  | .mknod path => sys_mknod ROOTINO path
  | .openCreate path => Tree.openCreate ROOTINO path
  | .link old new => sys_link ROOTINO old new
  | .unlink path => sys_unlink ROOTINO path
  | .createSwapFile pid => Tree.createSwapFile pid
  | .removeSwapFile pid => Tree.removeSwapFile pid

-- A call that panics stops the machine: it is not a step.
def treeStep (s : FsTree) (call : FsCall) : Option FsTree :=
  match call.run s with
  | .ok (_,t) => some t
  | .error _ => none

-- mkfs/mkfs.c: the metadata blocks in front of the data blocks.
def IPB : Nat := BSIZE / 64
def ninodeblocks : Nat := NINODES / IPB + 1
def nbitmap : Nat := FSSIZE / BPB + 1
def nmeta : Nat := 2 + nlog + ninodeblocks + nbitmap

-- The image mkfs writes with no input files: the root's one block of 64 dirents, "." and ".."
-- and 62 free slots, and every block past it free.
def image : FsTree where
  inode := fun i => if i = ROOTINO then
    ⟨.T_DIR,1,0,[⟨ROOTINO,"."⟩,⟨ROOTINO,".."⟩] ++ List.replicate 62 ⟨0,""⟩,1,1⟩ else Dinode.free
  free := FSSIZE - (nmeta + 1)
  swapFiles := []

end Tree

end Xv6
