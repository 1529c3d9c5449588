import Xv6.Fs.Tree

namespace Xv6

namespace Tree

open Frame Transition

def letter (i : Nat) : Char := Char.ofNat (97 + i)

-- Three lower-case letters, a different name for each number below 26 ^ 3.
def linkName (k : Nat) : List Char := [letter (k / 676 % 26),letter (k / 26 % 26),letter (k % 26)]

theorem letter_toNat {i : Nat} (small : i < 26) : (letter i).toNat = 97 + i := by
  revert i
  decide

theorem linkName_plain (k : Nat) : ∀ c ∈ linkName k, c ≠ '/' := by
  have slash : ('/' : Char).toNat = 47 := rfl
  intro c mem same
  simp only [linkName,List.mem_cons,List.not_mem_nil,or_false] at mem
  rcases mem with rfl | rfl | rfl
  all_goals
    have code := congrArg Char.toNat same
    rw [letter_toNat (Nat.mod_lt _ (by decide)),slash] at code
    omega

theorem linkName_inj {i j : Nat} (hi : i < 17576) (hj : j < 17576)
    (same : String.ofList (linkName i) = String.ofList (linkName j)) : i = j := by
  have lists := String.ofList_injective same
  simp only [linkName,List.cons.injEq,and_true] at lists
  obtain ⟨first,second,third⟩ := lists
  have e1 := congrArg Char.toNat first
  have e2 := congrArg Char.toNat second
  have e3 := congrArg Char.toNat third
  simp only [letter_toNat (Nat.mod_lt _ (by decide : 0 < 26))] at e1 e2 e3
  omega

theorem linkName_ne {k : Nat} {name : String} (other : name.length ≠ 3) : String.ofList (linkName k) ≠ name := by
  intro same
  apply other
  rw [← same]
  simp [linkName]

-- The state the links run through: "/f" a file, "/d" a directory, a links in the root and b in d.
def linkEntry (k : Nat) : Dirent := ⟨2,String.ofList (linkName k)⟩

def rootEntries (a : Nat) : List Dirent :=
  [⟨ROOTINO,"."⟩,⟨ROOTINO,".."⟩,⟨2,"f"⟩,⟨3,"d"⟩] ++ (List.range a).map linkEntry ++ List.replicate (60 - a) ⟨0,""⟩

def subEntries (b : Nat) : List Dirent := [⟨3,"."⟩,⟨ROOTINO,".."⟩] ++ (List.range b).map linkEntry

-- A block holds 64 dirents.
def blocksFor (entries : List Dirent) : Nat := (entries.length + 63) / 64

def rootAfter (a : Nat) : Dinode := ⟨.T_DIR,2,0,rootEntries a,blocksFor (rootEntries a),1⟩

def fileAfter (n : Nat) : Dinode := ⟨.T_FILE,Int16.ofNat (1 + n),0,[],0,0⟩

def subAfter (b : Nat) : Dinode := ⟨.T_DIR,1,0,subEntries b,blocksFor (subEntries b),0⟩

structure Linked (a b : Nat) (s : FsTree) : Prop where
  root : s.inode ROOTINO = rootAfter a
  file : s.inode 2 = fileAfter (a + b)
  sub : s.inode 3 = subAfter b
  free : s.free + (rootAfter a).held + (subAfter b).held = FSSIZE - nmeta

theorem length_rootEntries (a : Nat) : (rootEntries a).length = 4 + a + (60 - a) := by
  simp [rootEntries]
  omega

theorem rootEntries_write (a : Nat) :
    (if 4 + a < (rootEntries a).length then (rootEntries a).set (4 + a) (linkEntry a)
      else rootEntries a ++ [linkEntry a]) = rootEntries (a + 1) := by
  have named : ([⟨ROOTINO,"."⟩,⟨ROOTINO,".."⟩,⟨2,"f"⟩,⟨3,"d"⟩] ++ (List.range a).map linkEntry : List Dirent).length =
      4 + a := by
    simp
    omega
  rw [length_rootEntries]
  by_cases free : a < 60
  · obtain ⟨left,gap⟩ : ∃ left, 60 - a = left + 1 := ⟨59 - a,by omega⟩
    have rest : 60 - (a + 1) = left := by omega
    rw [if_pos (by omega),rootEntries,rootEntries,List.set_append_right _ _ (by omega),named,Nat.sub_self,rest,gap,
      List.replicate_succ,List.set_cons_zero,List.range_succ,List.map_append]
    simp
  · rw [if_neg (by omega),rootEntries,rootEntries,show 60 - a = 0 by omega,show 60 - (a + 1) = 0 by omega,
      List.range_succ,List.map_append]
    simp

theorem freeSlot_root {a : Nat} {ip : Dinode} (holds : ip.entries = rootEntries a) : ip.freeSlot = 4 + a := by
  have taken : ([⟨ROOTINO,"."⟩,⟨ROOTINO,".."⟩,⟨2,"f"⟩,⟨3,"d"⟩] ++ (List.range a).map linkEntry : List Dirent).findIdx?
      (·.inum = 0) = none := by
    apply List.findIdx?_eq_none_iff.mpr
    intro de mem
    simp only [List.mem_append,List.mem_cons,List.not_mem_nil,or_false,List.mem_map] at mem
    rcases mem with (rfl | rfl | rfl | rfl) | ⟨k,_,rfl⟩ <;> simp [linkEntry,ROOTINO]
  unfold Dinode.freeSlot
  rw [holds,rootEntries,List.findIdx?_append,taken]
  by_cases free : a < 60
  · obtain ⟨left,gap⟩ : ∃ left, 60 - a = left + 1 := ⟨59 - a,by omega⟩
    rw [gap,List.replicate_succ]
    simp [List.findIdx?_cons]
    omega
  · rw [show 60 - a = 0 by omega]
    simp
    omega

theorem freeSlot_sub {b : Nat} {ip : Dinode} (holds : ip.entries = subEntries b) : ip.freeSlot = 2 + b := by
  have taken : (subEntries b).findIdx? (·.inum = 0) = none := by
    apply List.findIdx?_eq_none_iff.mpr
    intro de mem
    simp only [subEntries,List.mem_append,List.mem_cons,List.not_mem_nil,or_false,List.mem_map] at mem
    rcases mem with (rfl | rfl) | ⟨k,_,rfl⟩ <;> simp [linkEntry,ROOTINO]
  unfold Dinode.freeSlot
  rw [holds,taken]
  simp [subEntries]
  omega

theorem root_missing {a : Nat} (room : a < 17576) :
    ∀ de ∈ rootEntries a, de.inum ≠ 0 → de.name ≠ String.ofList (linkName a) := by
  intro de mem live
  simp only [rootEntries,List.mem_append,List.mem_cons,List.not_mem_nil,or_false,List.mem_map,
    List.mem_replicate] at mem
  rcases mem with ((rfl | rfl | rfl | rfl) | ⟨k,earlier,rfl⟩) | ⟨_,rfl⟩
  · exact (linkName_ne (by decide)).symm
  · exact (linkName_ne (by decide)).symm
  · exact (linkName_ne (by decide)).symm
  · exact (linkName_ne (by decide)).symm
  · have below := List.mem_range.mp earlier
    exact fun same => Nat.ne_of_lt below (linkName_inj (by omega) room same)
  · exact absurd rfl live

theorem sub_missing {b : Nat} (room : b < 17576) :
    ∀ de ∈ subEntries b, de.inum ≠ 0 → de.name ≠ String.ofList (linkName b) := by
  intro de mem _
  simp only [subEntries,List.mem_append,List.mem_cons,List.not_mem_nil,or_false,List.mem_map] at mem
  rcases mem with (rfl | rfl) | ⟨k,earlier,rfl⟩
  · exact (linkName_ne (by decide)).symm
  · exact (linkName_ne (by decide)).symm
  · have below := List.mem_range.mp earlier
    exact fun same => Nat.ne_of_lt below (linkName_inj (by omega) room same)

-- A directory whose blocks are those its dirents fill keeps that shape under a write within it or
-- just past its end.
theorem write_blocks {ip : Dinode} {slot : Nat} {de : Dirent} (sized : ip.blocks = blocksFor ip.entries)
    (inside : slot ≤ ip.entries.length) :
    (ip.write slot de).blocks = blocksFor (ip.write slot de).entries ∧
      (ip.write slot de).held = ip.held + ip.need slot := by
  have block : BSIZE = 1024 := rfl
  have direct : NDIRECT = 12 := rfl
  simp only [Dinode.write,Dinode.held,Dinode.need,blocksFor,block,direct] at sized ⊢
  generalize ip.blocks = blocks at *
  subst sized
  by_cases within : slot < ip.entries.length
  · simp only [within,if_true,List.length_set]
    split_ifs <;> omega
  · simp only [within,if_false,List.length_append,List.length_singleton]
    split_ifs <;> omega

theorem ofNat_add_one (n : Nat) : Int16.ofNat (n + 1) = Int16.ofNat n + 1 := by
  apply Int16.toInt_inj.mp
  simp only [Int16.toInt_ofNat',Int16.toInt_add,Int16.toInt_one,Int16.size,Int.natCast_add]
  rw [Int.bmod_add_bmod]
  rfl

theorem ofNat_ne_zero {n : Nat} (pos : 0 < n) (small : n < 65536) : Int16.ofNat n ≠ 0 := by
  intro zero
  have value := congrArg Int16.toInt zero
  simp only [Int16.toInt_ofNat',Int16.size,Int16.toInt_zero] at value
  unfold Int.bmod at value
  dsimp only at value
  split at value <;> omega

theorem elements_f : elements ['/','f'] = ["f"] := by
  rw [elements_slash,elements_plain (by simp) (by simp) (by decide)]

theorem elements_link (k : Nat) : elements ('/' :: linkName k) = [String.ofList (linkName k)] := by
  rw [elements_slash,elements_plain (by simp [linkName]) (linkName_plain k) (by simp [linkName,DIRSIZ])]

theorem link_into_root {a : Nat} {s : FsTree} (linked : Linked a 0 s) (room : a < 17148) :
    ∃ t, sys_link ROOTINO ['/','f'] ('/' :: linkName a) s = .ok (0,t) ∧ Linked (a + 1) 0 t := by
  obtain ⟨root,file,sub,free⟩ := linked
  have root1 : s.inode 1 = rootAfter a := root
  have split : (s.inode ROOTINO).entries = [⟨ROOTINO,"."⟩,⟨ROOTINO,".."⟩] ++ ⟨2,"f"⟩ ::
      (⟨3,"d"⟩ :: (List.range a).map linkEntry ++ List.replicate (60 - a) ⟨0,""⟩) := by
    simp [root,rootAfter,rootEntries]
  have found := namei_top elements_f (by simp [root,rootAfter]) (by simp [root,rootAfter])
    (by simp [root,rootAfter]) split (by decide) (by simp [ROOTINO])
  set t := ((s.retain ROOTINO).retain 2).release ROOTINO with ht
  set bumped := t.setInode 2 {t.inode 2 with nlink := (t.inode 2).nlink + 1} with hbumped
  have parent := nameiparent_top (s := bumped) (elements_link a) (by simp [bumped,t,root1,rootAfter,ROOTINO])
    (by simp [bumped,t,root1,rootAfter,ROOTINO])
  set u := bumped.retain ROOTINO with hu
  have uroot : u.inode ROOTINO = {rootAfter a with ref := 2} := by
    simp [u,bumped,t,root1,rootAfter,ROOTINO]
  have ufile : u.inode 2 = {fileAfter a with nlink := Int16.ofNat (1 + a) + 1,ref := 1} := by
    simp [u,bumped,t,file,fileAfter,ROOTINO]
  have ufree : u.free = s.free := by simp [u,bumped,t]
  have slot : (u.inode ROOTINO).freeSlot = 4 + a := freeSlot_root (by simp [uroot,rootAfter])
  have shape := @write_blocks (u.inode ROOTINO) (4 + a) (linkEntry a)
    (by simp [uroot,rootAfter]) (by simp [uroot,rootAfter,length_rootEntries])
  have entries : ((u.inode ROOTINO).write (4 + a) (linkEntry a)).entries = rootEntries (a + 1) := by
    simp only [Dinode.write,uroot,rootAfter]
    exact rootEntries_write a
  have written : (u.inode ROOTINO).write (4 + a) (linkEntry a) = {rootAfter (a + 1) with ref := 2} := by
    have blocks := shape.1
    rw [entries] at blocks
    simp only [Dinode.write,uroot,rootAfter] at entries blocks ⊢
    rw [entries,blocks]
  have grown : (rootAfter (a + 1)).held = (rootAfter a).held + (u.inode ROOTINO).need (4 + a) := by
    have before : (u.inode ROOTINO).held = (rootAfter a).held := by rw [uroot]; rfl
    rw [← before,← shape.2,written]
    rfl
  have bound : (rootAfter (a + 1)).held ≤ 269 := by
    simp only [rootAfter,Dinode.held,blocksFor,length_rootEntries,NDIRECT]
    split <;> omega
  have subHeld : (subAfter 0).held = 1 := rfl
  have space : FSSIZE - nmeta = 954 := rfl
  have linked := @dirlink_run_fresh ROOTINO 2 (String.ofList (linkName a)) u (by simp [uroot,rootAfter])
    (by simpa [uroot,rootAfter] using root_missing (a := a) (by omega))
    (by rw [slot]; simp [MAXFILE,NDIRECT,NINDIRECT,BSIZE]; omega)
    (by rw [slot,ufree]; omega)
  rw [slot,show (⟨2,String.ofList (linkName a)⟩ : Dirent) = linkEntry a from rfl] at linked
  have two : (2 : Nat) ≠ ROOTINO := by decide
  have three : (3 : Nat) ≠ ROOTINO := by decide
  have counted : Int16.ofNat (1 + a) + 1 = Int16.ofNat (1 + (a + 1)) := (ofNat_add_one (1 + a)).symm
  refine ⟨_,sys_link_run (by simp [linkName,MAXPATH]) found (by simp [t,file,fileAfter,ROOTINO])
    (by simp [t,file,fileAfter,ROOTINO]) parent (by simp [uroot,rootAfter]) linked ?_ ?_,?_⟩
  · simp [written,rootAfter]
  · have nonzero : Int16.ofNat (1 + a) + 1 ≠ 0 := counted ▸ ofNat_ne_zero (by omega) (by omega)
    rintro ⟨_,zero⟩
    exact nonzero (by simpa [two,ufile,fileAfter] using zero)
  · constructor
    · simp [two.symm,written,rootAfter]
    · simp [two,ufile,fileAfter,← counted]
    · simp [two,three,u,bumped,t,sub]
    · simp [ufree]
      omega

theorem elements_sub_link (k : Nat) : elements ('/' :: (['d'] ++ '/' :: linkName k)) = ["d",String.ofList (linkName k)] := by
  rw [elements_slash,elements_plain_plain ⟨by simp,by simp [linkName]⟩ ?_ ⟨by decide,by simp [linkName,DIRSIZ]⟩]
  intro c mem
  rcases List.mem_append.mp mem with here | named
  · simp only [List.mem_singleton] at here
    rw [here]
    decide
  · exact linkName_plain k c named

theorem link_into_sub {b : Nat} {s : FsTree} (linked : Linked 17148 b s) (room : b < 15619) :
    ∃ t, sys_link ROOTINO ['/','f'] ('/' :: (['d'] ++ '/' :: linkName b)) s = .ok (0,t) ∧ Linked 17148 (b + 1) t := by
  obtain ⟨root,file,sub,free⟩ := linked
  have root1 : s.inode 1 = rootAfter 17148 := root
  have two : (2 : Nat) ≠ ROOTINO := by decide
  have three : (3 : Nat) ≠ ROOTINO := by decide
  have split : (s.inode ROOTINO).entries = [⟨ROOTINO,"."⟩,⟨ROOTINO,".."⟩] ++ ⟨2,"f"⟩ ::
      (⟨3,"d"⟩ :: (List.range 17148).map linkEntry ++ List.replicate (60 - 17148) ⟨0,""⟩) := by
    simp [root,rootAfter,rootEntries]
  have found := namei_top elements_f (by simp [root,rootAfter]) (by simp [root,rootAfter])
    (by simp [root,rootAfter]) split (by decide) (by simp [ROOTINO])
  set t := ((s.retain ROOTINO).retain 2).release ROOTINO with ht
  set bumped := t.setInode 2 {t.inode 2 with nlink := (t.inode 2).nlink + 1} with hbumped
  have split' : (bumped.inode ROOTINO).entries = [⟨ROOTINO,"."⟩,⟨ROOTINO,".."⟩,⟨2,"f"⟩] ++ ⟨3,"d"⟩ ::
      ((List.range 17148).map linkEntry ++ List.replicate (60 - 17148) ⟨0,""⟩) := by
    simp [bumped,t,root1,rootAfter,rootEntries,ROOTINO]
  have parent := nameiparent_sub (s := bumped) (elements_sub_link b) (by simp [bumped,t,root1,rootAfter,ROOTINO])
    (by simp [bumped,t,root1,rootAfter,ROOTINO]) (by simp [bumped,t,root1,rootAfter,ROOTINO]) split' (by decide)
    (by decide) (by simp [ROOTINO]) (by simp [bumped,t,sub,subAfter,ROOTINO]) (by simp [bumped,t,sub,subAfter,ROOTINO])
  set u := ((bumped.retain ROOTINO).retain 3).release ROOTINO with hu
  have uroot : u.inode ROOTINO = rootAfter 17148 := by
    simp [u,bumped,t,root1,rootAfter,ROOTINO]
  have usub : u.inode 3 = {subAfter b with ref := 1} := by
    simp [u,bumped,t,sub,subAfter,ROOTINO]
  have ufile : u.inode 2 = {fileAfter (17148 + b) with nlink := Int16.ofNat (1 + (17148 + b)) + 1,ref := 1} := by
    simp [u,bumped,t,file,fileAfter,ROOTINO]
  have ufree : u.free = s.free := by simp [u,bumped,t]
  have slot : (u.inode 3).freeSlot = 2 + b := freeSlot_sub (by simp [usub,subAfter])
  have shape := @write_blocks (u.inode 3) (2 + b) (linkEntry b)
    (by simp [usub,subAfter]) (by simp [usub,subAfter,subEntries]; omega)
  have entries : ((u.inode 3).write (2 + b) (linkEntry b)).entries = subEntries (b + 1) := by
    have past : ¬ 2 + b < (subEntries b).length := by simp [subEntries]; omega
    simp only [Dinode.write,usub,subAfter,past,if_false]
    simp [subEntries,List.range_succ]
  have written : (u.inode 3).write (2 + b) (linkEntry b) = {subAfter (b + 1) with ref := 1} := by
    have blocks := shape.1
    rw [entries] at blocks
    simp only [Dinode.write,usub,subAfter] at entries blocks ⊢
    rw [entries,blocks]
  have grown : (subAfter (b + 1)).held = (subAfter b).held + (u.inode 3).need (2 + b) := by
    have before : (u.inode 3).held = (subAfter b).held := by rw [usub]; rfl
    rw [← before,← shape.2,written]
    rfl
  have bound : (subAfter (b + 1)).held ≤ 246 := by
    simp only [subAfter,Dinode.held,blocksFor,subEntries,List.length_append,List.length_map,List.length_range,
      List.length_cons,List.length_nil,NDIRECT]
    split <;> omega
  have rootHeld : (rootAfter 17148).held = 269 := by
    simp only [rootAfter,Dinode.held,blocksFor,length_rootEntries,NDIRECT]
    decide
  have space : FSSIZE - nmeta = 954 := rfl
  have linked := @dirlink_run_fresh 3 2 (String.ofList (linkName b)) u (by simp [usub,subAfter])
    (by simpa [usub,subAfter] using sub_missing (b := b) (by omega))
    (by rw [slot]; simp [MAXFILE,NDIRECT,NINDIRECT,BSIZE]; omega)
    (by rw [slot,ufree]; omega)
  rw [slot,show (⟨2,String.ofList (linkName b)⟩ : Dirent) = linkEntry b from rfl] at linked
  have counted : Int16.ofNat (1 + (17148 + b)) + 1 = Int16.ofNat (1 + (17148 + (b + 1))) :=
    (ofNat_add_one (1 + (17148 + b))).symm
  refine ⟨_,sys_link_run (by simp [linkName,MAXPATH]) found (by simp [t,file,fileAfter,ROOTINO])
    (by simp [t,file,fileAfter,ROOTINO]) parent (by simp [usub,subAfter]) linked ?_ ?_,?_⟩
  · simp [written,subAfter]
  · have nonzero : Int16.ofNat (1 + (17148 + b)) + 1 ≠ 0 := counted ▸ ofNat_ne_zero (by omega) (by omega)
    rintro ⟨_,zero⟩
    exact nonzero (by simpa [ufile,fileAfter] using zero)
  · constructor
    · simp [two.symm,three.symm,uroot]
    · simp [ufile,fileAfter,← counted]
    · simp [written,subAfter]
    · simp [ufree]
      omega

def rootLink (k : Nat) : FsCall := .link ['/','f'] ('/' :: linkName k)

def subLink (k : Nat) : FsCall := .link ['/','f'] ('/' :: (['d'] ++ '/' :: linkName k))

theorem root_links_run {a n : Nat} {s : FsTree} (linked : Linked a 0 s) (room : a + n ≤ 17148) :
    ∃ t, Runs (Taken treeStep) s ((List.range' a n).map rootLink) t ∧ Linked (a + n) 0 t := by
  induction n generalizing a s with
  | zero => exact ⟨s,.nil,linked⟩
  | succ n ih =>
    obtain ⟨t,ran,next⟩ := link_into_root linked (by omega)
    obtain ⟨u,path,last⟩ := ih next (by omega)
    have step : Taken treeStep s (rootLink a) t := by simp [Taken,treeStep,FsCall.run,rootLink,ran]
    refine ⟨u,by simpa [List.range'_succ] using Runs.cons step path,?_⟩
    rwa [show a + (n + 1) = a + 1 + n by omega]

theorem sub_links_run {b n : Nat} {s : FsTree} (linked : Linked 17148 b s) (room : b + n ≤ 15619) :
    ∃ t, Runs (Taken treeStep) s ((List.range' b n).map subLink) t ∧ Linked 17148 (b + n) t := by
  induction n generalizing b s with
  | zero => exact ⟨s,.nil,linked⟩
  | succ n ih =>
    obtain ⟨t,ran,next⟩ := link_into_sub linked (by omega)
    obtain ⟨u,path,last⟩ := ih next (by omega)
    have step : Taken treeStep s (subLink b) t := by
      unfold Taken treeStep
      simp only [FsCall.run,subLink,ran]
    refine ⟨u,by simpa [List.range'_succ] using Runs.cons step path,?_⟩
    rwa [show b + (n + 1) = b + 1 + n by omega]

-- openCreate "/f" takes inode 2 and the root's first free slot; mkdir "/d"
-- takes inode 3, the next slot and one block for "." and "..".
def linkSetup : List FsCall := [.openCreate ['/','f'],.mkdir ['/','d']]

theorem setup_linked : ∃ t, Runs (Taken treeStep) image linkSetup t ∧ Linked 0 0 t := by
  have after : (run treeStep image linkSetup).map (fun t => (t.inode ROOTINO,t.inode 2,t.inode 3,t.free)) =
      some (rootAfter 0,fileAfter 0,subAfter 0,952) := by
    decide +kernel
  cases taken : run treeStep image linkSetup with
  | none => simp [taken] at after
  | some t =>
    simp only [taken,Option.map_some,Option.some.injEq,Prod.mk.injEq] at after
    obtain ⟨root,file,sub,free⟩ := after
    exact ⟨t,run_exact.mp taken,⟨root,file,sub,by rw [free]; rfl⟩⟩

def namesFile (entries : List Dirent) : Nat :=
  entries.countP fun de => de.inum = 2 && de.name ≠ "." && de.name ≠ ".."

theorem namesFile_links (n : Nat) : namesFile ((List.range n).map linkEntry) = n := by
  have all : ∀ de ∈ (List.range n).map linkEntry, (de.inum = 2 && de.name ≠ "." && de.name ≠ "..") = true := by
    intro de mem
    obtain ⟨k,_,rfl⟩ := List.mem_map.mp mem
    simp [linkEntry,linkName_ne (k := k) (by decide : ".".length ≠ 3),linkName_ne (k := k) (by decide : "..".length ≠ 3)]
  rw [namesFile,List.countP_eq_length.mpr all]
  simp

theorem namesFile_root (a : Nat) : namesFile (rootEntries a) = 1 + a := by
  have empty : namesFile (List.replicate (60 - a) ⟨0,""⟩) = 0 := by simp [namesFile]
  have fixed : namesFile [⟨ROOTINO,"."⟩,⟨ROOTINO,".."⟩,⟨2,"f"⟩,⟨3,"d"⟩] = 1 := by decide
  rw [rootEntries,namesFile,List.countP_append,List.countP_append,← namesFile,← namesFile,← namesFile,empty,fixed,
    namesFile_links]
  omega

theorem namesFile_sub (b : Nat) : namesFile (subEntries b) = b := by
  have fixed : namesFile [⟨3,"."⟩,⟨ROOTINO,".."⟩] = 0 := by decide
  rw [subEntries,namesFile,List.countP_append,← namesFile,← namesFile,fixed,namesFile_links]
  omega

-- The run: the file, the directory, 17148 links in the root (all its 17152
-- dirents) and 15619 in d, 32767 links in all.
def overflowRun : List FsCall := linkSetup ++ (List.range 17148).map rootLink ++ (List.range 15619).map subLink

theorem link_count_wraps_negative :
    ∃ t, Runs (Taken treeStep) image overflowRun t ∧ (t.inode 2).type = .T_FILE ∧
      namesFile (t.inode ROOTINO).entries + namesFile (t.inode 3).entries = 32768 ∧
      (t.inode 2).nlink = -32768 ∧ sys_unlink ROOTINO ['/','f'] t = .error "unlink: nlink < 1" := by
  obtain ⟨s,setup,linked⟩ := setup_linked
  obtain ⟨u,rooted,full⟩ := root_links_run linked (n := 17148) (by omega)
  obtain ⟨t,subbed,last⟩ := sub_links_run full (n := 15619) (by omega)
  obtain ⟨root,file,sub,_⟩ := last
  have root1 : t.inode 1 = rootAfter 17148 := root
  have path : Runs (Taken treeStep) image overflowRun t := by
    rw [overflowRun,List.range_eq_range',List.range_eq_range']
    exact (setup.append rooted).append subbed
  have wrapped : (t.inode 2).nlink = -32768 := by
    rw [file]
    decide
  have split : (t.inode ROOTINO).entries = [⟨ROOTINO,"."⟩,⟨ROOTINO,".."⟩] ++ ⟨2,"f"⟩ ::
      (⟨3,"d"⟩ :: (List.range 17148).map linkEntry ++ List.replicate (60 - 17148) ⟨0,""⟩) := by
    simp [root,rootAfter,rootEntries]
  have parent := nameiparent_top (s := t) elements_f (by simp [root,rootAfter]) (by simp [root,rootAfter])
  have found := @dirlookup_run_found ROOTINO 2 "f" [⟨ROOTINO,"."⟩,⟨ROOTINO,".."⟩] _ (t.retain ROOTINO)
    (by simp [root1,rootAfter,ROOTINO]) (by simpa [root1,ROOTINO] using split) (by decide) (by simp [ROOTINO])
  refine ⟨t,path,by simp [file,fileAfter],?_,wrapped,?_⟩
  · -- Through the lemmas: unfolding rootAfter here makes the kernel count the 17152 entries.
    have inRoot : namesFile (t.inode ROOTINO).entries = 1 + 17148 := by
      rw [root]
      exact namesFile_root 17148
    have inSub : namesFile (t.inode 3).entries = 0 + 15619 := by
      rw [sub]
      exact namesFile_sub _
    rw [inRoot,inSub]
  · have short : ¬ (['/','f'] : List Char).length ≥ MAXPATH := by decide
    simp only [sys_unlink,short,if_false]
    refine unlinkPath_nlink_panics parent (by simp [root1,rootAfter,ROOTINO]) (by decide) found ?_ ?_
    · simp [file,fileAfter,ROOTINO]
    · simp [wrapped,ROOTINO]

end Tree

end Xv6
