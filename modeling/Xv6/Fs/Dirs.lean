import Xv6.Fs.Path
import Xv6.Lib.Slots

namespace Xv6

namespace Tree

open Frame

-- A directory's entries as dirlookup reads them, a slot table of Slots: no two in use carry one name.
def Unique (es : List Dirent) : Prop :=
  ∀ (i j : Nat) (a b : Dirent), i ≠ j → es[i]? = some a → es[j]? = some b → a.inum ≠ 0 → b.inum ≠ 0 → a.name ≠ b.name

def Dinode.lookupName (ip : Dinode) (name : String) : Option Nat :=
  (ip.entries.find? fun de => de.inum ≠ 0 && de.name = name).map (·.inum)

-- namecmp(s, t) == 0: strncmp over DIRSIZ bytes.
def namesMatch (s t : String) : Prop := s.toList.take DIRSIZ = t.toList.take DIRSIZ

-- Names namecmp tells apart exactly: no more than DIRSIZ bytes.
def Short (es : List Dirent) : Prop := ∀ de ∈ es, de.inum ≠ 0 → de.name.length ≤ DIRSIZ

section Entries

variable {ip : Dinode} {es : List Dirent} {name : String} {inum slot v : Nat} {x : Dirent}

theorem unique_iff_slots : Unique es ↔ Slots.Unique (fun de : Dirent => de.inum ≠ 0) Dirent.name es := Iff.rfl

theorem lookupName_find (ip : Dinode) (name : String) :
    ip.lookupName name = (Slots.find (fun de : Dirent => de.inum ≠ 0) Dirent.name ip.entries name).map Dirent.inum := rfl

theorem write_entries (ip : Dinode) (slot : Nat) (de : Dirent) :
    (ip.write slot de).entries = Slots.write ip.entries slot de := rfl

theorem Dinode.write_ref (ip : Dinode) (slot : Nat) (de : Dirent) : (ip.write slot de).ref = ip.ref := rfl

theorem lookupName_some_iff (unique : Unique ip.entries) :
    ip.lookupName name = some v ↔ v ≠ 0 ∧ ⟨v,name⟩ ∈ ip.entries := by
  rw [lookupName_find,Option.map_eq_some_iff]
  constructor
  · rintro ⟨de,found,rfl⟩
    obtain ⟨live,rfl,mem⟩ := (Slots.find_eq_some_iff (unique_iff_slots.mp unique)).mp found
    exact ⟨live,mem⟩
  · rintro ⟨live,mem⟩
    exact ⟨⟨v,name⟩,(Slots.find_eq_some_iff (unique_iff_slots.mp unique)).mpr ⟨live,rfl,mem⟩,rfl⟩

theorem lookupName_none_iff : ip.lookupName name = none ↔ ∀ de ∈ ip.entries, de.inum ≠ 0 → de.name ≠ name := by
  rw [lookupName_find,Option.map_eq_none_iff,Slots.find_eq_none_iff]

theorem short_write {de : Dirent} (short : Short es) (fits : de.inum ≠ 0 → de.name.length ≤ DIRSIZ) :
    Short (Slots.write es slot de) := by
  intro y mem live
  rcases Slots.mem_write_cases mem with rfl | old
  · exact fits live
  · exact short y old live

structure Dinode.Named (ip : Dinode) : Prop where
  unique : Unique ip.entries
  short : Short ip.entries

theorem Dinode.Named.of_entries {ip' : Dinode} (named : ip.Named) (same : ip'.entries = ip.entries) : ip'.Named :=
  ⟨same ▸ named.unique,same ▸ named.short⟩

theorem Dinode.named_of_nil (empty : ip.entries = []) : ip.Named := by
  refine ⟨fun i j a b _ ati => ?_,fun de mem => ?_⟩
  · rw [empty] at ati
    cases ati
  · rw [empty] at mem
    cases mem

theorem Dinode.Named.link (named : ip.Named) (absent : ip.lookupName name = none) (fits : name.length ≤ DIRSIZ)
    (inside : slot ≤ ip.entries.length) : (ip.write slot ⟨inum,name⟩).Named := by
  have fresh := lookupName_none_iff.mp absent
  refine ⟨?_,?_⟩
  · rw [write_entries]
    exact Slots.unique_write named.unique inside fun _ => fresh
  · rw [write_entries]
    exact short_write named.short fun _ => fits

theorem Dinode.Named.kill (named : ip.Named) : (ip.write slot ⟨0,""⟩).Named := by
  refine ⟨?_,?_⟩
  · rw [write_entries]
    exact Slots.unique_write_dead named.unique (by simp)
  · rw [write_entries]
    exact short_write named.short fun dead => absurd rfl dead

theorem namesMatch_iff {s t : String} (short : s.length ≤ DIRSIZ) (short' : t.length ≤ DIRSIZ) :
    namesMatch s t ↔ s = t := by
  rw [namesMatch,List.take_of_length_le (by rwa [String.length_toList]),
    List.take_of_length_le (by rwa [String.length_toList]),String.toList_inj]

theorem Dinode.Named.apart (named : ip.Named) {i j : Nat} {a b : Dirent} (other : i ≠ j)
    (ati : ip.entries[i]? = some a) (atj : ip.entries[j]? = some b) (livea : a.inum ≠ 0) (liveb : b.inum ≠ 0) :
    ¬namesMatch a.name b.name := by
  rw [namesMatch_iff (named.short a (List.mem_of_getElem? ati) livea) (named.short b (List.mem_of_getElem? atj) liveb)]
  exact named.unique i j a b other ati atj livea liveb

theorem lookupName_write (unique : Unique ip.entries) (inside : slot ≤ ip.entries.length)
    (free : ∀ a, ip.entries[slot]? = some a → a.inum = 0) (live : inum ≠ 0) (absent : ip.lookupName name = none) :
    (ip.write slot ⟨inum,name⟩).lookupName = Function.update ip.lookupName name (some inum) := by
  rw [lookupName_find,Option.map_eq_none_iff] at absent
  have found := Slots.find_write (a := ⟨inum,name⟩) (unique_iff_slots.mp unique) inside
    (fun b spot alive => alive (free b spot)) live absent
  funext n
  by_cases same : n = name
  · subst same
    rw [Function.update_self,lookupName_find,write_entries,found,Function.update_self]
    rfl
  · rw [Function.update_of_ne same,lookupName_find,lookupName_find,write_entries,found,Function.update_of_ne same]

theorem lookupName_kill (unique : Unique ip.entries) (spot : ip.entries[slot]? = some x) (live : x.inum ≠ 0) :
    (ip.write slot ⟨0,""⟩).lookupName = Function.update ip.lookupName x.name none := by
  have found := Slots.find_write_dead (a := ⟨0,""⟩) (unique_iff_slots.mp unique) spot live (by simp)
  funext n
  by_cases same : n = x.name
  · subst same
    rw [Function.update_self,lookupName_find,write_entries,found,Function.update_self]
    rfl
  · rw [Function.update_of_ne same,lookupName_find,lookupName_find,write_entries,found,Function.update_of_ne same]

end Entries

section Calls

variable {s t : FsTree} {dp inum : Nat} {name : String}

theorem dirlookup_cases {r : Option (Nat × Nat)} (dir : (s.inode dp).type = .T_DIR)
    (ran : dirlookup dp name s = .ok (r,t)) :
    (r = none ∧ t = s ∧ (s.inode dp).lookupName name = none) ∨
    (∃ inum off, r = some (inum,off) ∧ t = s.retain inum ∧ (s.inode dp).lookupName name = some inum ∧
      (s.inode dp).entries[off]? = some ⟨inum,name⟩) := by
  simp only [dirlookup,get_bind,dir,ne_eq,not_true_eq_false,if_false] at ran
  cases found : (s.inode dp).entries.findIdx? (fun de => de.inum ≠ 0 && de.name = name) with
  | none =>
    rw [found] at ran
    cases ran
    refine .inl ⟨rfl,rfl,?_⟩
    rw [Dinode.lookupName,Option.map_eq_none_iff,List.find?_eq_none]
    exact fun de mem => by simpa using List.findIdx?_eq_none_iff.mp found de mem
  | some off =>
    rw [found] at ran
    obtain ⟨within,hit,before⟩ := List.findIdx?_eq_some_iff_getElem.mp found
    have entry : (s.inode dp).entries.getD off ⟨0,""⟩ = (s.inode dp).entries[off] := by
      simp [List.getD_eq_getElem?_getD,List.getElem?_eq_getElem within]
    simp only [entry,idup,bind_of_ok (modify_run _ _)] at ran
    cases ran
    have test := hit
    simp only [Bool.and_eq_true,decide_eq_true_eq] at test
    refine .inr ⟨_,off,rfl,rfl,?_,?_⟩
    · have first : (s.inode dp).entries.find? (fun de => de.inum ≠ 0 && de.name = name) =
          some (s.inode dp).entries[off] :=
        List.find?_eq_some_iff_getElem.mpr ⟨hit,off,within,rfl,fun j below => by
          have miss := before j below
          simp only [Bool.and_eq_true,decide_eq_true_eq,not_and] at miss
          simpa [Classical.or_iff_not_imp_left] using miss⟩
      rw [Dinode.lookupName,first]
      rfl
    · rw [List.getElem?_eq_getElem within,← test.2]

theorem dirlookup_dir {r : Option (Nat × Nat)} (ran : dirlookup dp name s = .ok (r,t)) :
    (s.inode dp).type = .T_DIR := by
  by_contra other
  simp only [dirlookup,get_bind,ne_eq,other,not_false_eq_true,if_true,throw_bind] at ran
  cases ran

theorem dirlookup_ok (dir : (s.inode dp).type = .T_DIR) : ∃ r t, dirlookup dp name s = .ok (r,t) := by
  simp only [dirlookup,get_bind,dir,ne_eq,not_true_eq_false,if_false]
  cases found : (s.inode dp).entries.findIdx? (fun de => de.inum ≠ 0 && de.name = name) with
  | none => exact ⟨_,_,rfl⟩
  | some off => exact ⟨_,_,rfl⟩

theorem Dinode.freeSlot_free (ip : Dinode) (a : Dirent) (spot : ip.entries[ip.freeSlot]? = some a) : a.inum = 0 := by
  unfold Dinode.freeSlot at spot
  cases found : ip.entries.findIdx? (·.inum = 0) with
  | none =>
    rw [found,Option.getD_none,List.getElem?_eq_none (Nat.le_refl _)] at spot
    cases spot
  | some i =>
    rw [found,Option.getD_some] at spot
    obtain ⟨within,hit,-⟩ := List.findIdx?_eq_some_iff_getElem.mp found
    rw [List.getElem?_eq_getElem within] at spot
    cases spot
    simpa using hit

theorem writeDirent_cases {slot : Nat} {de : Dirent} {r : Int} (ran : writeDirent dp slot de s = .ok (r,t)) :
    (r = -1 ∧ t = s) ∨
    (r = 16 ∧ 16 * slot ≤ (s.inode dp).length ∧
      t = {s.setInode dp ((s.inode dp).write slot de) with free := s.free - (s.inode dp).need slot}) := by
  simp only [writeDirent,get_bind] at ran
  by_cases past : 16 * slot > (s.inode dp).length
  · simp only [past,if_true] at ran
    cases ran
    exact .inl ⟨rfl,rfl⟩
  · by_cases big : 16 * slot + 16 > MAXFILE * BSIZE
    · simp only [past,big,if_true,if_false] at ran
      cases ran
      exact .inl ⟨rfl,rfl⟩
    · simp only [past,big,if_false] at ran
      by_cases short : s.free < (s.inode dp).need slot
      · simp only [get_bind,short,if_true] at ran
        cases ran
      · simp only [get_bind,short,if_false] at ran
        cases ran
        exact .inr ⟨rfl,by omega,rfl⟩

theorem iput_held {ip : Nat} {u : FsTree} (held : ip = dp → 2 ≤ (u.inode dp).ref) (ran : iput ip u = .ok ((),t)) :
    t.inode dp = if ip = dp then {u.inode dp with ref := (u.inode dp).ref - 1} else u.inode dp := by
  by_cases last : (u.inode ip).ref = 1 ∧ (u.inode ip).nlink = 0
  · rw [iput_run_last last.1 last.2] at ran
    cases ran
    have other : ip ≠ dp := fun same => by
      subst same
      have := held rfl
      omega
    simp [other,Ne.symm other]
  · rw [iput_run_held last] at ran
    cases ran
    by_cases same : ip = dp
    · subst same
      simp
    · simp [same,Ne.symm same]

theorem dirlink_cases {r : Int} (dir : (s.inode dp).type = .T_DIR) (referenced : 1 ≤ (s.inode dp).ref)
    (ran : dirlink dp name inum s = .ok (r,t)) :
    (r = -1 ∧ (s.inode dp).lookupName name ≠ none ∧ t.inode dp = s.inode dp) ∨
    (r = 0 ∧ (s.inode dp).lookupName name = none ∧
      t.inode dp = (s.inode dp).write (s.inode dp).freeSlot ⟨inum,name⟩) := by
  unfold dirlink at ran
  obtain ⟨found,u,looked,rest⟩ := bind_ok.mp ran
  rcases dirlookup_cases dir looked with ⟨rfl,rfl,absent⟩ | ⟨ip,off,rfl,rfl,present,-⟩
  · simp only [get_bind] at rest
    obtain ⟨w,v,wrote,last⟩ := bind_ok.mp rest
    rcases writeDirent_cases wrote with ⟨rfl,rfl⟩ | ⟨rfl,-,rfl⟩
    · cases last
    · cases last
      exact .inr ⟨rfl,absent,by simp⟩
  · obtain ⟨⟨⟩,v,put,last⟩ := bind_ok.mp rest
    cases last
    refine .inl ⟨rfl,by simp [present],?_⟩
    rw [iput_held (fun same => by subst same; simp; omega) put]
    by_cases same : ip = dp
    · subst same
      simp
    · simp [same,Ne.symm same]


-- The removal sys_unlink and removeSwapFile make once their checks have passed.
def removeEntry (dp : Nat) (name : String) : TM Int := do
  match ← dirlookup dp name with
  | none => return -1
  | some (ip,off) =>
    if (← writeDirent dp off ⟨0,""⟩) ≠ 16 then throw "unlink: writei"
    iput ip
    return 0

theorem removeEntry_cases {r : Int} (dir : (s.inode dp).type = .T_DIR) (referenced : 1 ≤ (s.inode dp).ref)
    (ran : removeEntry dp name s = .ok (r,t)) :
    (r = -1 ∧ (s.inode dp).lookupName name = none ∧ t.inode dp = s.inode dp) ∨
    (r = 0 ∧ ∃ inum off, (s.inode dp).lookupName name = some inum ∧ (s.inode dp).entries[off]? = some ⟨inum,name⟩ ∧
      t.inode dp = (s.inode dp).write off ⟨0,""⟩) := by
  unfold removeEntry at ran
  obtain ⟨found,u,looked,rest⟩ := bind_ok.mp ran
  rcases dirlookup_cases dir looked with ⟨rfl,rfl,absent⟩ | ⟨ip,off,rfl,rfl,present,spot⟩
  · cases rest
    exact .inl ⟨rfl,absent,rfl⟩
  · obtain ⟨w,v,wrote,last⟩ := bind_ok.mp rest
    rcases writeDirent_cases wrote with ⟨rfl,rfl⟩ | ⟨rfl,-,rfl⟩
    · cases last
    · obtain ⟨⟨⟩,x,put,fin⟩ := bind_ok.mp last
      cases fin
      refine .inr ⟨rfl,ip,off,present,spot,?_⟩
      rw [iput_held (fun same => by subst same; simp [Dinode.write_ref]; omega) put]
      by_cases same : ip = dp
      · subst same
        simp [Dinode.write]
      · simp [same,Ne.symm same]

end Calls

inductive DirOp
  | link (name : String) (inum : Nat)
  | unlink (name : String)

def DirOp.run (dp : Nat) : DirOp → TM Int
  | .link name inum => dirlink dp name inum
  | .unlink name => removeEntry dp name

-- What a directory stands for, a map from names to inodes, and what each operation does to it.
def DirOp.apply (m : String → Option Nat) : DirOp → String → Option Nat
  | .link name inum => if m name = none then Function.update m name (some inum) else m
  | .unlink name => Function.update m name none

def DirOp.outcome (m : String → Option Nat) : DirOp → Int
  | .link name _ => if m name = none then 0 else -1
  | .unlink name => if m name = none then -1 else 0

def DirOp.replay (m : String → Option Nat) (ops : List DirOp) : String → Option Nat := ops.foldl DirOp.apply m

def DirOp.outcomes (m : String → Option Nat) : List DirOp → List Int
  | [] => []
  | op :: ops => op.outcome m :: DirOp.outcomes (op.apply m) ops

def DirOp.Fits : DirOp → Prop
  | .link name inum => name.length ≤ DIRSIZ ∧ inum ≠ 0
  | .unlink _ => True

instance DirOp.decFits : (op : DirOp) → Decidable op.Fits
  | .link name inum => inferInstanceAs (Decidable (name.length ≤ DIRSIZ ∧ inum ≠ 0))
  | .unlink _ => inferInstanceAs (Decidable True)

structure Holds (dp : Nat) (s : FsTree) : Prop where
  dir : (s.inode dp).type = .T_DIR
  referenced : 1 ≤ (s.inode dp).ref
  named : (s.inode dp).Named

section Ops

variable {s t : FsTree} {dp : Nat}

theorem Holds.of_inode (holds : Holds dp s) (same : t.inode dp = s.inode dp) : Holds dp t := by
  obtain ⟨dir,referenced,named⟩ := holds
  rw [← same] at dir referenced named
  exact ⟨dir,referenced,named⟩

theorem Holds.write {slot : Nat} {de : Dirent} (holds : Holds dp s) (wrote : t.inode dp = (s.inode dp).write slot de)
    (named : ((s.inode dp).write slot de).Named) : Holds dp t :=
  ⟨by rw [wrote]; exact holds.dir,by rw [wrote]; exact holds.referenced,by rw [wrote]; exact named⟩

theorem DirOp.run_spec {op : DirOp} {r : Int} (holds : Holds dp s) (fits : op.Fits) (ran : op.run dp s = .ok (r,t)) :
    Holds dp t ∧ (t.inode dp).lookupName = op.apply (s.inode dp).lookupName ∧
      r = op.outcome (s.inode dp).lookupName := by
  cases op with
  | link name inum =>
    rcases dirlink_cases holds.dir holds.referenced ran with ⟨rfl,present,same⟩ | ⟨rfl,absent,wrote⟩
    · refine ⟨holds.of_inode same,?_,?_⟩
      · simp [DirOp.apply,present,same]
      · simp [DirOp.outcome,present]
    · have inside := (s.inode dp).freeSlot_le
      refine ⟨holds.write wrote (holds.named.link absent fits.1 inside),?_,?_⟩
      · rw [wrote,lookupName_write holds.named.unique inside (Dinode.freeSlot_free _) fits.2 absent]
        simp [DirOp.apply,absent]
      · simp [DirOp.outcome,absent]
  | unlink name =>
    rcases removeEntry_cases holds.dir holds.referenced ran with ⟨rfl,absent,same⟩ | ⟨rfl,inum,off,present,spot,wrote⟩
    · refine ⟨holds.of_inode same,?_,?_⟩
      · rw [same,DirOp.apply,← absent,Function.update_eq_self]
      · simp [DirOp.outcome,absent]
    · have live := ((lookupName_some_iff holds.named.unique).mp present).1
      refine ⟨holds.write wrote holds.named.kill,?_,?_⟩
      · rw [wrote,lookupName_kill holds.named.unique spot live]
        rfl
      · simp [DirOp.outcome,present]

theorem DirOp.runs_spec (ops : List DirOp) {rs : List Int} (holds : Holds dp s) (fits : ∀ op ∈ ops, op.Fits)
    (ran : ops.mapM (DirOp.run dp) s = .ok (rs,t)) :
    Holds dp t ∧ (t.inode dp).lookupName = DirOp.replay (s.inode dp).lookupName ops ∧
      rs = DirOp.outcomes (s.inode dp).lookupName ops := by
  induction ops generalizing s rs with
  | nil =>
    rw [List.mapM_nil] at ran
    cases ran
    exact ⟨holds,rfl,rfl⟩
  | cons op ops ih =>
    rw [List.mapM_cons] at ran
    obtain ⟨r,u,one,rest⟩ := bind_ok.mp ran
    obtain ⟨rs',v,more,last⟩ := bind_ok.mp rest
    cases last
    obtain ⟨holds',moved,result⟩ := DirOp.run_spec holds (fits op List.mem_cons_self) one
    obtain ⟨holds'',replayed,results⟩ := ih holds' (fun o mem => fits o (List.mem_cons_of_mem _ mem)) more
    refine ⟨holds'',?_,?_⟩
    · rw [replayed,moved]
      rfl
    · rw [results,moved,result]
      rfl

theorem Holds.dirlookup_spec (holds : Holds dp s) (name : String) :
    ∃ r t, dirlookup dp name s = .ok (r,t) ∧ r.map Prod.fst = (s.inode dp).lookupName name ∧
      ∀ inum off, r = some (inum,off) → (s.inode dp).entries[off]? = some ⟨inum,name⟩ := by
  obtain ⟨r,u,ran⟩ : ∃ r u, dirlookup dp name s = .ok (r,u) := dirlookup_ok holds.dir
  rcases dirlookup_cases holds.dir ran with ⟨rfl,-,absent⟩ | ⟨inum,off,rfl,-,present,spot⟩
  · exact ⟨none,u,ran,absent.symm,fun _ _ none => by cases none⟩
  · refine ⟨_,u,ran,present.symm,?_⟩
    rintro _ _ ⟨⟩
    exact spot

end Ops

end Tree

end Xv6
