import Xv6.Fs.Dirs

namespace Xv6

namespace Tree

open Frame Transition

-- Every inode's entries as namecmp reads them.
def Dirs (s : FsTree) : Prop := ∀ inum, (s.inode inum).Named

section Leaves

variable {s : FsTree}

theorem Dirs.setInode (held : Dirs s) {inum : Nat} {ip : Dinode} (named : ip.Named) : Dirs (s.setInode inum ip) := by
  intro n
  by_cases same : n = inum
  · subst same
    simpa using named
  · simpa [same] using held n

theorem Dirs.keep (held : Dirs s) {inum : Nat} {ip : Dinode} (same : ip.entries = (s.inode inum).entries) :
    Dirs (s.setInode inum ip) :=
  held.setInode ((held inum).of_entries same)

theorem ilock_keeps {R : FsTree → FsTree → Prop} [Std.Refl R] (inum : Nat) : Keeps R (ilock inum) := by
  intro s u t ran
  simp only [ilock,get_bind] at ran
  split at ran
  · cases ran
  · split at ran
    · cases ran
    · cases ran
      exact Std.Refl.refl s

theorem idup_dirs (inum : Nat) : Keeps (Sustains Dirs) (idup inum) :=
  Keeps.modify fun _ held => held.keep rfl

theorem iput_dirs (inum : Nat) : Keeps (Sustains Dirs) (iput inum) := by
  intro s u t ran held
  by_cases last : (s.inode inum).ref = 1 ∧ (s.inode inum).nlink = 0
  · rw [iput_run_last last.1 last.2] at ran
    cases ran
    exact held.setInode (Dinode.named_of_nil rfl)
  · rw [iput_run_held last] at ran
    cases ran
    exact held.keep rfl

theorem dirlookup_dirs (dp : Nat) (name : String) : Keeps (Sustains Dirs) (dirlookup dp name) := by
  intro s r t ran held
  rcases dirlookup_cases (dirlookup_dir ran) ran with ⟨-,rfl,-⟩ | ⟨inum,off,-,rfl,-⟩
  · exact held
  · exact held.keep rfl

-- The writes of a dirent other than dirlink's: zeroing one.
theorem writeDirent_dirs (dp slot : Nat) : Keeps (Sustains Dirs) (writeDirent dp slot ⟨0,""⟩) := by
  intro s r t ran held
  rcases writeDirent_cases ran with ⟨-,rfl⟩ | ⟨-,-,rfl⟩
  · exact held
  · exact held.setInode (held dp).kill

-- dirlink writes a name only where dirlookup found it absent.
theorem dirlink_dirs {dp inum : Nat} {name : String} (fits : name.length ≤ DIRSIZ) :
    Keeps (Sustains Dirs) (dirlink dp name inum) := by
  intro s r t ran held
  unfold dirlink at ran
  obtain ⟨found,u,looked,rest⟩ := bind_ok.mp ran
  rcases dirlookup_cases (dirlookup_dir looked) looked with ⟨rfl,rfl,absent⟩ | ⟨ip,off,rfl,rfl,-,-⟩
  · simp only [get_bind] at rest
    obtain ⟨w,v,wrote,last⟩ := bind_ok.mp rest
    rcases writeDirent_cases wrote with ⟨rfl,rfl⟩ | ⟨rfl,-,rfl⟩
    · cases last
    · cases last
      exact held.setInode ((held dp).link absent fits (Dinode.freeSlot_le _))
  · obtain ⟨⟨⟩,v,put,last⟩ := bind_ok.mp rest
    cases last
    exact iput_dirs ip _ _ _ put (held.keep rfl)

theorem ialloc_dirs (type : InodeType) : Keeps (Sustains Dirs) (ialloc type) := by
  unfold ialloc
  refine Keeps.get.bind fun u => ?_
  dsimp only
  split
  · exact Keeps.throw _
  · exact (Keeps.modify fun _ held => held.setInode (Dinode.named_of_nil rfl)).bind fun _ => Keeps.pure _

end Leaves

section Walk

theorem elements_short (path : List Char) : ∀ name ∈ elements path, name.length ≤ DIRSIZ := by
  rw [elements_components]
  intro name mem
  obtain ⟨run,-,rfl⟩ := List.mem_map.mp mem
  rw [String.length_ofList,List.length_take]
  exact Nat.min_le_left _ _

theorem namexLoop_dirs (nameiparent : Bool) : ∀ names ip, Keeps (Sustains Dirs) (namexLoop nameiparent ip names)
  | [],ip => by
    unfold namexLoop
    exact Keeps.ite ((iput_dirs ip).bind fun _ => Keeps.pure _) (Keeps.pure _)
  | name :: rest,ip => by
    unfold namexLoop
    refine (ilock_keeps ip).bind fun _ => Keeps.get.bind fun u => ?_
    refine Keeps.ite ((iput_dirs ip).bind fun _ => Keeps.pure _) (Keeps.ite (Keeps.pure _) ?_)
    refine (dirlookup_dirs ip name).bind fun found => ?_
    split
    · exact (iput_dirs ip).bind fun _ => Keeps.pure _
    · exact (iput_dirs ip).bind fun _ => namexLoop_dirs nameiparent rest _

theorem namexLoop_short (nameiparent : Bool) : ∀ (names : List String) ip, (∀ name ∈ names, name.length ≤ DIRSIZ) →
    Yields (fun r => ∀ p ∈ r, p.2.length ≤ DIRSIZ) (namexLoop nameiparent ip names)
  | [],ip,_ => by
    unfold namexLoop
    refine Yields.ite (Yields.bind fun _ => Yields.pure ?_) (Yields.pure ?_)
    · intro p mem
      cases mem
    · rintro p ⟨⟩
      exact Nat.zero_le _
  | name :: rest,ip,short => by
    have none : ∀ p ∈ (none : Option (Nat × String)), p.2.length ≤ DIRSIZ := fun p mem => by cases mem
    unfold namexLoop
    refine Yields.bind fun _ => Yields.bind fun u => ?_
    refine Yields.ite (Yields.bind fun _ => Yields.pure none) (Yields.ite (Yields.pure ?_) ?_)
    · rintro p ⟨⟩
      exact short name List.mem_cons_self
    · refine Yields.bind fun found => ?_
      split
      · exact Yields.bind fun _ => Yields.pure none
      · exact Yields.bind fun _ => namexLoop_short nameiparent rest _ fun n mem => short n (List.mem_cons_of_mem _ mem)

theorem namex_dirs (cwd : Nat) (path : List Char) (nameiparent : Bool) : Keeps (Sustains Dirs) (namex cwd path nameiparent) :=
  (idup_dirs _).bind fun _ => namexLoop_dirs nameiparent _ _

theorem nameiparent_short (cwd : Nat) (path : List Char) :
    Yields (fun r => ∀ p ∈ r, p.2.length ≤ DIRSIZ) (nameiparent cwd path) :=
  Yields.bind fun _ => namexLoop_short true _ _ (elements_short path)

theorem namei_dirs (cwd : Nat) (path : List Char) : Keeps (Sustains Dirs) (namei cwd path) :=
  (namex_dirs cwd path false).bind fun _ => Keeps.pure _

end Walk


section Calls

-- create's links: the new name under dp, cut to DIRSIZ by nameiparent, and
-- "." and ".." in a new directory.
theorem create_dirs (cwd : Nat) (path : List Char) (type : InodeType) : Keeps (Sustains Dirs) (create cwd path type) := by
  unfold create
  refine (namex_dirs cwd path true).bind_yields (nameiparent_short cwd path) fun parent short => ?_
  split
  · exact Keeps.pure _
  · rename_i dp name
    have fits : name.length ≤ DIRSIZ := short (dp,name) rfl
    refine (ilock_keeps dp).bind fun _ => (dirlookup_dirs dp name).bind fun found => ?_
    split
    · refine (iput_dirs dp).bind fun _ => (ilock_keeps _).bind fun _ => Keeps.get.bind fun u => ?_
      exact Keeps.ite (Keeps.pure _) ((iput_dirs _).bind fun _ => Keeps.pure _)
    · refine (ialloc_dirs type).bind fun ip => (ilock_keeps ip).bind fun _ => ?_
      refine (Keeps.modify fun _ held => held.keep rfl).bind fun _ => ?_
      dsimp only
      have last : Keeps (Sustains Dirs) (do
          let r ← dirlink dp name ip
          if r < 0 then throw "create: dirlink"
          iput dp
          return some ip) :=
        (dirlink_dirs fits).bind fun r => Keeps.ite (Keeps.throw_bind _ _) ((iput_dirs dp).bind fun _ => Keeps.pure _)
      refine Keeps.ite ?_ last
      refine (Keeps.modify fun _ held => held.keep rfl).bind fun _ => (dirlink_dirs (by decide)).bind fun r => ?_
      refine Keeps.ite (Keeps.throw_bind _ _) ((dirlink_dirs (by decide)).bind fun r => ?_)
      exact Keeps.ite (Keeps.throw_bind _ _) last

theorem createNode_dirs (cwd : Nat) (path : List Char) (type : InodeType) :
    Keeps (Sustains Dirs) (createNode cwd path type) := by
  unfold createNode
  refine Keeps.ite (Keeps.pure _) ((create_dirs cwd path type).bind fun made => ?_)
  split
  · exact Keeps.pure _
  · exact (iput_dirs _).bind fun _ => Keeps.pure _

theorem sys_link_dirs (cwd : Nat) (old new : List Char) : Keeps (Sustains Dirs) (sys_link cwd old new) := by
  unfold sys_link
  refine Keeps.ite (Keeps.pure _) ((namei_dirs cwd old).bind fun found => ?_)
  split
  · exact Keeps.pure _
  · rename_i ip
    refine (ilock_keeps ip).bind fun _ => Keeps.get.bind fun u => ?_
    refine Keeps.ite ((iput_dirs ip).bind fun _ => Keeps.pure _) ?_
    refine (Keeps.modify fun _ held => held.keep rfl).bind fun _ => ?_
    refine (namex_dirs cwd new true).bind_yields (nameiparent_short cwd new) fun parent short => ?_
    -- whether the link was made, the file's link count is put right
    have undo : Keeps (Sustains Dirs) (do
        ilock ip
        modify fun s => s.setInode ip {s.inode ip with nlink := (s.inode ip).nlink - 1}
        iput ip
        return (-1 : Int)) :=
      (ilock_keeps ip).bind fun _ => (Keeps.modify fun _ held => held.keep rfl).bind fun _ =>
        (iput_dirs ip).bind fun _ => Keeps.pure _
    dsimp only
    split
    · exact (Keeps.pure _).bind fun _ => Keeps.ite ((iput_dirs ip).bind fun _ => Keeps.pure _) undo
    · rename_i dp name
      refine (ilock_keeps dp).bind fun _ => (dirlink_dirs (short (dp,name) rfl)).bind fun r => ?_
      refine (iput_dirs dp).bind fun _ => (Keeps.pure _).bind fun _ => ?_
      exact Keeps.ite ((iput_dirs ip).bind fun _ => Keeps.pure _) undo

-- The removal zeroes the dirent dirlookup found; the rest changes link
-- counts and references only.
theorem unlinkPath_dirs (cwd : Nat) (path : List Char) : Keeps (Sustains Dirs) (unlinkPath cwd path) := by
  unfold unlinkPath
  refine (namex_dirs cwd path true).bind fun parent => ?_
  split
  · exact Keeps.pure _
  · rename_i dp name
    refine (ilock_keeps dp).bind fun _ => Keeps.ite ((iput_dirs dp).bind fun _ => Keeps.pure _) ?_
    refine (dirlookup_dirs dp name).bind fun found => ?_
    split
    · exact (iput_dirs dp).bind fun _ => Keeps.pure _
    · rename_i ip off
      refine (ilock_keeps ip).bind fun _ => Keeps.get.bind fun u => ?_
      dsimp only
      have rest : Keeps (Sustains Dirs) (do
          if (u.inode ip).type = .T_DIR then
            modify fun s => s.setInode dp {s.inode dp with nlink := (s.inode dp).nlink - 1}
          iput dp
          modify fun s => s.setInode ip {s.inode ip with nlink := (s.inode ip).nlink - 1}
          iput ip
          return (0 : Int)) := by
        have tail : Keeps (Sustains Dirs) (do
            iput dp
            modify fun s => s.setInode ip {s.inode ip with nlink := (s.inode ip).nlink - 1}
            iput ip
            return (0 : Int)) :=
          (iput_dirs dp).bind fun _ => (Keeps.modify fun _ held => held.keep rfl).bind fun _ =>
            (iput_dirs ip).bind fun _ => Keeps.pure _
        dsimp only
        exact Keeps.ite ((Keeps.modify fun _ held => held.keep rfl).bind fun _ => tail) tail
      have checked : Keeps (Sustains Dirs) (do
          let empty ← isdirempty ip
          if (u.inode ip).type = .T_DIR && !empty then
            iput ip
            iput dp
            return (-1 : Int)
          if (← writeDirent dp off ⟨0,""⟩) ≠ 16 then throw "unlink: writei"
          if (u.inode ip).type = .T_DIR then
            modify fun s => s.setInode dp {s.inode dp with nlink := (s.inode dp).nlink - 1}
          iput dp
          modify fun s => s.setInode ip {s.inode ip with nlink := (s.inode ip).nlink - 1}
          iput ip
          return (0 : Int)) := by
        refine (Keeps.get.bind fun _ => Keeps.pure _).bind fun empty => ?_
        refine Keeps.ite ((iput_dirs ip).bind fun _ => (iput_dirs dp).bind fun _ => Keeps.pure _) ?_
        refine (writeDirent_dirs dp off).bind fun r => ?_
        dsimp only
        exact Keeps.ite (Keeps.throw_bind _ _) rest
      exact Keeps.ite (Keeps.throw_bind _ _) checked

theorem sys_unlink_dirs (cwd : Nat) (path : List Char) : Keeps (Sustains Dirs) (sys_unlink cwd path) :=
  Keeps.ite (Keeps.pure _) (unlinkPath_dirs cwd path)

theorem createSwapFile_dirs (pid : Nat) : Keeps (Sustains Dirs) (createSwapFile pid) := by
  unfold createSwapFile
  refine (create_dirs _ _ _).bind fun made => ?_
  split
  · exact Keeps.throw _
  · exact (Keeps.modify fun _ held => held).bind fun _ => Keeps.pure _

theorem removeSwapFile_dirs (pid : Nat) : Keeps (Sustains Dirs) (removeSwapFile pid) := by
  unfold removeSwapFile
  refine Keeps.get.bind fun u => ?_
  split
  · exact Keeps.pure _
  · exact (iput_dirs _).bind fun _ => (Keeps.modify fun _ held => held).bind fun _ => unlinkPath_dirs _ _

theorem FsCall.run_dirs (call : FsCall) : Keeps (Sustains Dirs) call.run := by
  cases call with
  | mkdir path => exact createNode_dirs _ _ _
  | mknod path => exact createNode_dirs _ _ _
  | openCreate path => exact createNode_dirs _ _ _
  | link old new => exact sys_link_dirs _ _ _
  | unlink path => exact sys_unlink_dirs _ _
  | createSwapFile pid => exact createSwapFile_dirs pid
  | removeSwapFile pid => exact removeSwapFile_dirs pid

end Calls

section Ops

variable {s t : FsTree} {dp : Nat}

theorem removeEntry_dirs (dp : Nat) (name : String) : Keeps (Sustains Dirs) (removeEntry dp name) := by
  unfold removeEntry
  refine (dirlookup_dirs dp name).bind fun found => ?_
  split
  · exact Keeps.pure _
  · refine (writeDirent_dirs _ _).bind fun r => ?_
    dsimp only
    exact Keeps.ite (Keeps.throw_bind _ _) ((iput_dirs _).bind fun _ => Keeps.pure _)

theorem DirOp.run_dirs {op : DirOp} (fits : op.Fits) : Keeps (Sustains Dirs) (op.run dp) := by
  cases op with
  | link name inum => exact dirlink_dirs fits.1
  | unlink name => exact removeEntry_dirs dp name

theorem dirlink_fails_iff {name : String} {inum : Nat} {r : Int} (holds : Holds dp s) (fits : name.length ≤ DIRSIZ)
    (ran : dirlink dp name inum s = .ok (r,t)) :
    r = -1 ↔ ∃ de ∈ (s.inode dp).entries, de.inum ≠ 0 ∧ namesMatch de.name name := by
  have found : (∃ de ∈ (s.inode dp).entries, de.inum ≠ 0 ∧ namesMatch de.name name) ↔
      (s.inode dp).lookupName name ≠ none := by
    rw [ne_eq,lookupName_none_iff]
    constructor
    · rintro ⟨de,mem,live,same⟩ absent
      exact absent de mem live ((namesMatch_iff (holds.named.short de mem live) fits).mp same)
    · intro present
      push Not at present
      obtain ⟨de,mem,live,same⟩ := present
      exact ⟨de,mem,live,(namesMatch_iff (holds.named.short de mem live) fits).mpr same⟩
  rw [found]
  rcases dirlink_cases holds.dir holds.referenced ran with ⟨rfl,present,-⟩ | ⟨rfl,absent,-⟩
  · exact ⟨fun _ => present,fun _ => rfl⟩
  · exact ⟨fun wrong => absurd wrong (by decide),fun present => absurd absent present⟩

end Ops

theorem dirs_image : Dirs image := by
  intro inum
  by_cases root : inum = ROOTINO
  · subst root
    simp only [image,if_true]
    refine ⟨?_,?_⟩
    · refine unique_iff_slots.mpr (Slots.unique_append_dead (Slots.unique_pair (by decide)) fun a mem => ?_)
      rw [List.eq_of_mem_replicate mem]
      simp
    · intro de mem live
      rcases List.mem_append.mp mem with dots | free
      · simp only [List.mem_cons,List.not_mem_nil,or_false] at dots
        rcases dots with rfl | rfl <;> decide
      · rw [List.eq_of_mem_replicate free] at live
        exact absurd rfl live
  · simp only [image,root,if_false]
    exact Dinode.named_of_nil rfl

theorem dirs_reachable {calls : List FsCall} {s : FsTree} (run : Runs (Taken treeStep) image calls s) : Dirs s := by
  refine run.invariant ?_ dirs_image
  intro u call v held step
  unfold Taken treeStep at step
  split at step
  · rename_i r w ran
    cases step
    exact FsCall.run_dirs call _ _ _ ran held
  · cases step

theorem dir_entries_unique_lookups_consistent {calls : List FsCall} {s t : FsTree} {dp : Nat} {ops : List DirOp}
    {rs : List Int} (reached : Runs (Taken treeStep) image calls s) (dir : (s.inode dp).type = .T_DIR)
    (referenced : 1 ≤ (s.inode dp).ref) (fits : ∀ op ∈ ops, op.Fits) (ran : ops.mapM (DirOp.run dp) s = .ok (rs,t)) :
    (∀ (ip i j : Nat) (a b : Dirent), i ≠ j → (t.inode ip).entries[i]? = some a → (t.inode ip).entries[j]? = some b →
      a.inum ≠ 0 → b.inum ≠ 0 → ¬namesMatch a.name b.name) ∧
    (∀ (name : String) (inum : Nat) (r : Int) (u : FsTree), name.length ≤ DIRSIZ → dirlink dp name inum t = .ok (r,u) →
      (r = -1 ↔ ∃ de ∈ (t.inode dp).entries, de.inum ≠ 0 ∧ namesMatch de.name name)) ∧
    rs = DirOp.outcomes (s.inode dp).lookupName ops ∧
    ∀ name, ∃ r u, dirlookup dp name t = .ok (r,u) ∧ r.map Prod.fst = DirOp.replay (s.inode dp).lookupName ops name ∧
      ∀ inum off, r = some (inum,off) → (t.inode dp).entries[off]? = some ⟨inum,name⟩ := by
  have held : Dirs t := Keeps.mapM ops (fun op mem => DirOp.run_dirs (fits op mem)) s rs t ran (dirs_reachable reached)
  obtain ⟨holds,replayed,results⟩ := DirOp.runs_spec ops ⟨dir,referenced,dirs_reachable reached dp⟩ fits ran
  refine ⟨fun ip i j a b other ati atj livea liveb => (held ip).apart other ati atj livea liveb,
    fun name inum r u short linked => dirlink_fails_iff holds short linked,results,fun name => ?_⟩
  obtain ⟨r,u,looked,found,spot⟩ := holds.dirlookup_spec name
  exact ⟨r,u,looked,by rw [found,replayed],spot⟩

def relinkOps : List DirOp := [.link "f" 2,.link "f" 3,.unlink "f",.link "f" 3]

theorem root_relink_replays :
    ∃ rs t, relinkOps.mapM (DirOp.run ROOTINO) image = .ok (rs,t) ∧ rs = [0,-1,0,0] ∧
      ∃ r u, dirlookup ROOTINO "f" t = .ok (r,u) ∧ r.map Prod.fst = some 3 := by
  obtain ⟨rs,t,ran⟩ : ∃ rs t, relinkOps.mapM (DirOp.run ROOTINO) image = .ok (rs,t) := ⟨_,_,rfl⟩
  obtain ⟨-,-,results,lookups⟩ := dir_entries_unique_lookups_consistent .nil rfl (by decide) (by decide) ran
  obtain ⟨r,u,looked,found,-⟩ := lookups "f"
  refine ⟨rs,t,ran,?_,r,u,looked,?_⟩
  · rw [results]
    decide
  · rw [found]
    decide

end Tree

end Xv6
