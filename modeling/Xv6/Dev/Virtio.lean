import Xv6.Lib.Pool
import Xv6.Lib.Runs

namespace Xv6.Virtio

open Transition Finset

-- kernel/virtio.h
def NUM : Nat := 8
def VRING_DESC_F_NEXT : Nat := 1
def VRING_DESC_F_WRITE : Nat := 2

-- struct virtq_desc without addr and len, which only the device reads.
structure Desc where
  flags : Nat
  next : Nat
deriving DecidableEq, Repr

def Desc.zero : Desc := ⟨0,0⟩

-- The part of struct disk the descriptor functions use: free[] and desc[].
@[ext] structure Disk where
  free : Fin NUM → Bool
  desc : Fin NUM → Desc

-- free_chain reads disk.desc[i] before free_desc checks i; past NUM free_desc panics.
def Disk.at (d : Disk) (i : Nat) : Desc := if h : i < NUM then d.desc ⟨i,h⟩ else .zero

def Disk.used (d : Disk) : Nat := (univ.filter fun i => d.free i = false).card

-- kernel/virtio_disk.c
def alloc_desc (d : Disk) : Option (Fin NUM) × Disk :=
  match (List.finRange NUM).find? fun i => d.free i with
  | some i => (some i,{d with free := Function.update d.free i false})
  | none => (none,d)

def Disk.release (d : Disk) (i : Fin NUM) : Disk :=
  {d with desc := Function.update d.desc i .zero,free := Function.update d.free i true}

def free_desc (d : Disk) (i : Nat) : Except String Disk :=
  if h : i < NUM then
    if d.free ⟨i,h⟩ then .error "free_desc 2"
    else .ok (d.release ⟨i,h⟩)
  else .error "free_desc 1"

theorem release_used {d : Disk} {i : Fin NUM} (taken : d.free i = false) : (d.release i).used + 1 = d.used := by
  have erased : (univ.filter fun j => (d.release i).free j = false) = (univ.filter fun j => d.free j = false).erase i := by
    ext j
    simp only [mem_filter,mem_univ,true_and,mem_erase]
    by_cases same : j = i
    · subst same
      simp [Disk.release]
    · simp [Disk.release,same]
  have inside : i ∈ univ.filter fun j => d.free j = false := by simpa using taken
  rw [Disk.used,Disk.used,erased,card_erase_of_mem inside]
  have pos := card_pos.mpr ⟨i,inside⟩
  omega

theorem free_desc_used {d d' : Disk} {i : Nat} (freed : free_desc d i = .ok d') : d'.used < d.used := by
  unfold free_desc at freed
  split at freed
  · split at freed
    · cases freed
    · rename_i taken
      cases freed
      have fewer := release_used (by simpa using taken)
      omega
  · cases freed

-- free_chain follows next while the flags say VRING_DESC_F_NEXT; each pass frees one or panics.
def free_chain (d : Disk) (i : Nat) : Except String Disk :=
  let flag := (d.at i).flags
  let nxt := (d.at i).next
  match freed : free_desc d i with
  | .error e => .error e
  | .ok d' =>
    have : d'.used < d.used := free_desc_used freed
    if flag &&& VRING_DESC_F_NEXT ≠ 0 then free_chain d' nxt else .ok d'
termination_by d.used

-- for(j = 0; j < i; j++) free_desc(idx[j]).
def freeEach (d : Disk) : List (Fin NUM) → Except String Disk
  | [] => .ok d
  | i :: rest => do
    let d ← free_desc d i
    freeEach d rest

def alloc3Loop : Nat → List (Fin NUM) → Disk → Except String (Option (List (Fin NUM)) × Disk)
  | 0,idx,d => .ok (some idx,d)
  | k + 1,idx,d =>
    match alloc_desc d with
    | (some i,d) => alloc3Loop k (idx ++ [i]) d
    | (none,d) => do
      let d ← freeEach d idx
      pure (none,d)

def alloc3_desc (d : Disk) : Except String (Option (List (Fin NUM)) × Disk) := alloc3Loop 3 [] d

-- virtio_disk_rw's three descriptors: the request header, the data, and the status byte.
def format (d : Disk) (a b c : Fin NUM) (write : Bool) : Disk :=
  {d with desc := Function.update (Function.update (Function.update d.desc a ⟨VRING_DESC_F_NEXT,b⟩) b
      ⟨(if write then 0 else VRING_DESC_F_WRITE) ||| VRING_DESC_F_NEXT,c⟩) c ⟨VRING_DESC_F_WRITE,0⟩}

-- What a process inside virtio_disk_rw waits for: descriptors (asleep on free[0]), or the
-- completion of its chain, which virtio_disk_intr reports by clearing b->disk.
inductive Req
  | idle
  | sleeping (write : Bool)
  | inflight (chain : Fin NUM × Fin NUM × Fin NUM) (done : Bool)
deriving DecidableEq, Repr

structure Driver (P : Type) where
  disk : Disk
  req : P → Req

def Driver.init (P : Type) : Driver P := ⟨⟨fun _ => true,fun _ => .zero⟩,fun _ => .idle⟩

variable {P : Type} [DecidableEq P]

def Driver.set (s : Driver P) (disk : Disk) (p : P) (r : Req) : Driver P :=
  ⟨disk,Function.update s.req p r⟩

-- One pass of virtio_disk_rw's while(1) loop around alloc3_desc.
def attempt (s : Driver P) (p : P) (write : Bool) : Except String (Driver P) :=
  match alloc3_desc s.disk with
  | .ok (some [a,b,c],d) => .ok (s.set (format d a b c write) p (.inflight (a,b,c) false))
  | .ok (_,d) => .ok (s.set d p (.sleeping write))
  | .error e => .error e

-- The driver's events, each a stretch of code under vdisk_lock between two sleeps.
inductive Event (P : Type)
  | rw (p : P) (write : Bool)
  | wake (p : P)
  | intr (p : P)
  | finish (p : P)

-- none when the event is not enabled; an error is a panic.
def step (s : Driver P) : Event P → Option (Except String (Driver P))
  | .rw p write =>
    match s.req p with
    | .idle => some (attempt s p write)
    | _ => none
  | .wake p =>
    match s.req p with
    | .sleeping write => some (attempt s p write)
    | _ => none
  | .intr p =>
    match s.req p with
    | .inflight chain false => some (.ok (s.set s.disk p (.inflight chain true)))
    | _ => none
  | .finish p =>
    match s.req p with
    | .inflight chain true => some ((free_chain s.disk chain.1).map fun d => s.set d p .idle)
    | _ => none

def Step (s : Driver P) (e : Event P) (t : Driver P) : Prop := step s e = some (.ok t)

section Descriptors

variable {d d' : Disk}

def Disk.take (d : Disk) (idx : List (Fin NUM)) : Disk := {d with free := fun i => if i ∈ idx then false else d.free i}

-- virtio_disk_init clears the pages and free_desc clears what it frees.
def Disk.Zeroed (d : Disk) : Prop := ∀ i, d.free i = true → d.desc i = .zero

@[simp] theorem release_free (i j : Fin NUM) : (d.release i).free j = if j = i then true else d.free j := by
  simp [Disk.release,Function.update_apply]

@[simp] theorem release_desc (i j : Fin NUM) : (d.release i).desc j = if j = i then .zero else d.desc j := by
  simp [Disk.release,Function.update_apply]

@[simp] theorem take_free (idx : List (Fin NUM)) (j : Fin NUM) :
    (d.take idx).free j = if j ∈ idx then false else d.free j := rfl

@[simp] theorem take_desc (idx : List (Fin NUM)) : (d.take idx).desc = d.desc := rfl

theorem take_nil : d.take [] = d := by
  ext j <;> simp

theorem free_desc_fin (i : Fin NUM) (taken : d.free i = false) : free_desc d i = .ok (d.release i) := by
  simp [free_desc,taken]

theorem alloc_desc_some {i : Fin NUM} (got : alloc_desc d = (some i,d')) :
    d.free i = true ∧ d' = {d with free := Function.update d.free i false} := by
  unfold alloc_desc at got
  split at got
  · rename_i j found
    simp only [Prod.mk.injEq,Option.some.injEq] at got
    obtain ⟨rfl,rfl⟩ := got
    exact ⟨by simpa using List.find?_some found,rfl⟩
  · cases got

theorem alloc_desc_none (got : alloc_desc d = (none,d')) : d' = d ∧ ∀ i, d.free i = false := by
  unfold alloc_desc at got
  split at got
  · cases got
  · rename_i none
    simp only [Prod.mk.injEq,true_and] at got
    refine ⟨got.symm,fun i => ?_⟩
    simpa using List.find?_eq_none.mp none i (List.mem_finRange i)

theorem freeEach_take (zeroed : d.Zeroed) :
    ∀ idx : List (Fin NUM), idx.Nodup → (∀ i ∈ idx, d.free i = true) → freeEach (d.take idx) idx = .ok d
  | [],_,_ => by rw [freeEach,take_nil]
  | i :: rest,distinct,taken => by
    have used : (d.take (i :: rest)).free i = false := by simp
    rw [freeEach,free_desc_fin i used]
    have back : (d.take (i :: rest)).release i = d.take rest := by
      obtain ⟨fresh,distinct'⟩ := List.nodup_cons.mp distinct
      ext j
      · by_cases same : j = i
        · subst same
          simp [fresh,taken j (by simp)]
        · simp [same]
      · by_cases same : j = i
        · subst same
          simp [zeroed j (taken j (by simp))]
        · simp [same]
    rw [back]
    exact freeEach_take zeroed rest (List.nodup_cons.mp distinct).2 fun j mem => taken j (by simp [mem])

theorem alloc3Loop_spec (zeroed : d.Zeroed) : ∀ (k : Nat) (idx : List (Fin NUM)), idx.Nodup →
    (∀ i ∈ idx, d.free i = true) →
    (∃ more, alloc3Loop k idx (d.take idx) = .ok (some (idx ++ more),d.take (idx ++ more)) ∧
        more.length = k ∧ (idx ++ more).Nodup ∧ ∀ i ∈ more, d.free i = true) ∨
      (alloc3Loop k idx (d.take idx) = .ok (none,d) ∧ (univ.filter fun i => d.free i = true).card < idx.length + k)
  | 0,idx,distinct,_ => .inl ⟨[],by simp [alloc3Loop],rfl,by simpa using distinct,by simp⟩
  | k + 1,idx,distinct,taken => by
    rw [alloc3Loop]
    split
    · rename_i i d1 got
      obtain ⟨avail,rfl⟩ := alloc_desc_some got
      simp only [take_free,Bool.if_false_left,Bool.and_eq_true,Bool.not_eq_true',decide_eq_false_iff_not] at avail
      have next : {d.take idx with free := Function.update (d.take idx).free i false} = d.take (idx ++ [i]) := by
        ext j
        · by_cases same : j = i
          · subst same
            simp
          · simp [same]
        · rfl
      rw [next]
      have distinct' : (idx ++ [i]).Nodup :=
        List.nodup_append.mpr ⟨distinct,by simp,fun a mem b same => by simp at same; subst same; exact fun eq => avail.1 (eq ▸ mem)⟩
      have taken' : ∀ j ∈ idx ++ [i], d.free j = true := by
        intro j mem
        rcases List.mem_append.mp mem with old | last
        · exact taken j old
        · rw [List.mem_singleton.mp last]
          exact avail.2
      rcases alloc3Loop_spec zeroed k (idx ++ [i]) distinct' taken' with
        ⟨more,run,length,nodup,free⟩ | ⟨run,few⟩
      · refine .inl ⟨i :: more,by simpa using run,by simp [length],by simpa using nodup,?_⟩
        intro j mem
        rcases List.mem_cons.mp mem with rfl | inner
        · exact avail.2
        · exact free j inner
      · right
        refine ⟨run,?_⟩
        simp only [List.length_append,List.length_singleton] at few
        omega
    · rename_i d1 got
      obtain ⟨rfl,none⟩ := alloc_desc_none got
      right
      refine ⟨by simp [freeEach_take zeroed idx distinct taken],?_⟩
      -- every free descriptor was one of idx
      have sub : (univ.filter fun i => d.free i = true) ⊆ idx.toFinset := by
        intro i mem
        have off := none i
        simp only [take_free] at off
        simp only [mem_filter,mem_univ,true_and] at mem
        by_contra out
        simp [List.mem_toFinset.not.mp out,mem] at off
      have bound := card_le_card sub
      rw [List.toFinset_card_of_nodup distinct] at bound
      omega

theorem alloc3_desc_spec (zeroed : d.Zeroed) :
    (∃ a b c, alloc3_desc d = .ok (some [a,b,c],d.take [a,b,c]) ∧ [a,b,c].Nodup ∧
        d.free a = true ∧ d.free b = true ∧ d.free c = true) ∨
      (alloc3_desc d = .ok (none,d) ∧ (univ.filter fun i => d.free i = true).card < 3) := by
  have start := alloc3Loop_spec zeroed 3 [] List.nodup_nil (by simp)
  rw [take_nil] at start
  rcases start with ⟨more,run,length,nodup,free⟩ | ⟨run,few⟩
  · match more,length with
    | [a,b,c],_ =>
      left
      exact ⟨a,b,c,run,by simpa using nodup,free a (by simp),free b (by simp),free c (by simp)⟩
  · exact .inr ⟨run,few⟩

example : (alloc3_desc (Driver.init Unit).disk).map Prod.fst = .ok (some [⟨0,by decide⟩,⟨1,by decide⟩,⟨2,by decide⟩]) := by decide

end Descriptors

section Chains

variable {d d' : Disk} {a b c : Fin NUM}

structure Linked (d : Disk) (a b c : Fin NUM) : Prop where
  distinct : [a,b,c].Nodup
  first : (d.desc a).flags &&& VRING_DESC_F_NEXT ≠ 0 ∧ (d.desc a).next = b
  second : (d.desc b).flags &&& VRING_DESC_F_NEXT ≠ 0 ∧ (d.desc b).next = c
  last : (d.desc c).flags &&& VRING_DESC_F_NEXT = 0

theorem Linked.congr (linked : Linked d a b c) (same : ∀ j ∈ [a,b,c], d'.desc j = d.desc j) : Linked d' a b c := by
  obtain ⟨distinct,first,second,last⟩ := linked
  rw [← same a (by simp)] at first
  rw [← same b (by simp)] at second
  rw [← same c (by simp)] at last
  exact ⟨distinct,first,second,last⟩

@[simp] theorem format_free (write : Bool) : (format d a b c write).free = d.free := rfl

theorem format_desc_other {j : Fin NUM} (write : Bool) (other : j ∉ [a,b,c]) : (format d a b c write).desc j = d.desc j := by
  simp only [List.mem_cons,List.not_mem_nil,or_false,not_or] at other
  simp [format,Function.update_of_ne other.1,Function.update_of_ne other.2.1,Function.update_of_ne other.2.2]

theorem format_linked (distinct : [a,b,c].Nodup) (write : Bool) : Linked (format d a b c write) a b c := by
  have ne := distinct
  simp only [List.nodup_cons,List.mem_cons,List.not_mem_nil,or_false,not_or] at ne
  obtain ⟨⟨ab,ac⟩,bc,-⟩ := ne
  refine ⟨distinct,⟨?_,?_⟩,⟨?_,?_⟩,?_⟩ <;>
    simp only [format,Function.update_of_ne ab,Function.update_of_ne ac,Function.update_of_ne bc,Function.update_self]
  · decide
  · cases write <;> decide
  · decide

theorem free_chain_step {i : Fin NUM} (taken : d.free i = false) :
    free_chain d i = if (d.desc i).flags &&& VRING_DESC_F_NEXT ≠ 0 then free_chain (d.release i) (d.desc i).next
      else .ok (d.release i) := by
  rw [free_chain]
  split
  · rename_i e freed
    rw [free_desc_fin i taken] at freed
    cases freed
  · rename_i d' freed
    rw [free_desc_fin i taken] at freed
    cases freed
    simp [Disk.at]

theorem free_chain_linked (linked : Linked d a b c) (taken : ∀ j ∈ [a,b,c], d.free j = false) :
    free_chain d a = .ok (((d.release a).release b).release c) := by
  have ne := linked.distinct
  simp only [List.nodup_cons,List.mem_cons,List.not_mem_nil,or_false,not_or] at ne
  obtain ⟨⟨ab,ac⟩,bc,-⟩ := ne
  have tb : (d.release a).free b = false := by simp [Ne.symm ab,taken b (by simp)]
  have tc : ((d.release a).release b).free c = false := by simp [Ne.symm ac,Ne.symm bc,taken c (by simp)]
  have db : (d.release a).desc b = d.desc b := by simp [Ne.symm ab]
  have dc : ((d.release a).release b).desc c = d.desc c := by simp [Ne.symm ac,Ne.symm bc]
  rw [free_chain_step (taken a (by simp)),if_pos linked.first.1,linked.first.2,free_chain_step tb,db,
    if_pos linked.second.1,linked.second.2,free_chain_step tc,dc,if_neg (not_not.mpr linked.last)]

end Chains

section Driver

variable {P : Type} [DecidableEq P] {s t : Driver P} {p : P}

def Req.held : Req → Finset (Fin NUM)
  | .inflight (a,b,c) _ => [a,b,c].toFinset
  | _ => ∅

def Req.busy : Req → Bool
  | .inflight _ _ => true
  | _ => false

structure Driver.Inv (s : Driver P) : Prop where
  parts : Pool.Parts s.disk.free fun p => (s.req p).held
  zeroed : s.disk.Zeroed
  linked : ∀ p a b c done, s.req p = .inflight (a,b,c) done → Linked s.disk a b c

@[simp] theorem set_disk (disk : Disk) (r : Req) : (s.set disk p r).disk = disk := rfl

@[simp] theorem set_req (disk : Disk) (r : Req) (q : P) : (s.set disk p r).req q = if q = p then r else s.req q := by
  simp [Driver.set,Function.update_apply]

theorem held_set (disk : Disk) (r : Req) : (fun q => ((s.set disk p r).req q).held) = Function.update (fun q => (s.req q).held) p r.held := by
  funext q
  by_cases same : q = p
  · subst same
    simp
  · simp [same]

omit [DecidableEq P] in
theorem Driver.Inv.taken (inv : s.Inv) {q : P} {a b c : Fin NUM} {done : Bool} (busy : s.req q = .inflight (a,b,c) done) :
    ∀ j ∈ [a,b,c], s.disk.free j = false := by
  intro j mem
  exact (inv.parts.covers j).mpr ⟨q,by simpa [busy,Req.held] using mem⟩

omit [DecidableEq P] in
theorem Driver.Inv.apart (inv : s.Inv) {q : P} {a b c j : Fin NUM} {done : Bool} (busy : s.req q = .inflight (a,b,c) done)
    (avail : s.disk.free j = true) : j ∉ [a,b,c] := fun mem => by
  rw [inv.taken busy j mem] at avail
  cases avail

theorem held_idle {r : Req} (idle : r.busy = false) : r.held = ∅ := by
  cases r <;> simp_all [Req.held,Req.busy]

theorem attempt_inv (inv : s.Inv) (idle : (s.req p).busy = false) (write : Bool) :
    ∃ t, attempt s p write = .ok t ∧ t.Inv := by
  rcases alloc3_desc_spec inv.zeroed with ⟨a,b,c,run,distinct,fa,fb,fc⟩ | ⟨run,-⟩
  · refine ⟨_,by rw [attempt,run],?_⟩
    have avail : ∀ j ∈ [a,b,c], s.disk.free j = true := by simp [fa,fb,fc]
    constructor
    · have held : (Req.inflight (a,b,c) false).held = [a,b,c].toFinset := rfl
      rw [held_set,held]
      have taken := inv.parts.take p [a,b,c].toFinset (held_idle idle) (by simpa using avail)
      convert taken using 1
      funext j
      simp [Disk.take]
    · intro j free
      simp only [set_disk,format_free,take_free] at free ⊢
      split at free
      · cases free
      · rename_i out
        rw [format_desc_other write out,take_desc]
        exact inv.zeroed j free
    · intro q a' b' c' done busy
      by_cases same : q = p
      · subst same
        simp only [set_req,↓reduceIte,Req.inflight.injEq,Prod.mk.injEq] at busy
        obtain ⟨⟨rfl,rfl,rfl⟩,-⟩ := busy
        exact format_linked distinct write
      · simp only [set_req,same,↓reduceIte] at busy
        refine (inv.linked q a' b' c' done busy).congr fun j mem => ?_
        refine format_desc_other write fun inner => ?_
        exact inv.apart busy (avail j inner) mem
  · refine ⟨_,by rw [attempt,run],?_⟩
    refine ⟨?_,inv.zeroed,?_⟩
    · have unchanged : Function.update (fun q => (s.req q).held) p (Req.sleeping write).held = fun q => (s.req q).held := by
        funext q
        by_cases same : q = p
        · subst same
          rw [Function.update_self,held_idle idle]
          rfl
        · simp [Function.update_of_ne same]
      rw [held_set,unchanged]
      exact inv.parts
    · intro q a b c done busy
      by_cases same : q = p
      · subst same
        simp at busy
      · simp only [set_req,same,↓reduceIte] at busy
        exact inv.linked q a b c done busy

theorem finish_inv (inv : s.Inv) {a b c : Fin NUM} (busy : s.req p = .inflight (a,b,c) true) :
    ∃ t, (free_chain s.disk (a,b,c).1).map (fun d => s.set d p .idle) = .ok t ∧ t.Inv := by
  have linked := inv.linked p a b c true busy
  have taken := inv.taken busy
  refine ⟨_,by rw [free_chain_linked linked taken]; rfl,?_⟩
  have freed : (((s.disk.release a).release b).release c).free =
      fun j => if j ∈ (s.req p).held then true else s.disk.free j := by
    funext j
    simp only [release_free,busy,Req.held,List.mem_toFinset,List.mem_cons,List.not_mem_nil,or_false]
    by_cases ja : j = a <;> by_cases jb : j = b <;> by_cases jc : j = c <;> simp [ja,jb,jc]
  constructor
  · rw [held_set]
    simp only [set_disk]
    rw [freed]
    exact inv.parts.give p
  · intro j free
    simp only [set_disk,release_free] at free
    simp only [set_disk,release_desc]
    split_ifs at free ⊢ <;> first | rfl | exact inv.zeroed j free
  · intro q a' b' c' done other
    by_cases same : q = p
    · subst same
      simp at other
    · simp only [set_req,same,↓reduceIte] at other
      refine (inv.linked q a' b' c' done other).congr fun j mem => ?_
      have apart : j ∉ (s.req p).held := fun inner =>
        Finset.disjoint_left.mp (inv.parts.disjoint q p same) (by simpa [other,Req.held] using mem) inner
      simp only [busy,Req.held,List.mem_toFinset,List.mem_cons,List.not_mem_nil,or_false,not_or] at apart
      simp [apart.1,apart.2.1,apart.2.2]

omit [DecidableEq P] in
theorem init_inv : (Driver.init P).Inv := by
  refine ⟨⟨fun _ _ _ => by simp [Driver.init,Req.held],fun i => by simp [Driver.init,Req.held]⟩,fun _ _ => rfl,?_⟩
  intro q a b c done busy
  cases busy

theorem step_inv (inv : s.Inv) (e : Event P) :
    ∀ r, step s e = some r → ∃ t, r = .ok t ∧ t.Inv := by
  intro r stepped
  cases e with
  | rw q write =>
    simp only [step] at stepped
    split at stepped
    · rename_i idle
      obtain ⟨t,run,kept⟩ := attempt_inv inv (p := q) (by simp [idle,Req.busy]) write
      cases stepped
      exact ⟨t,run,kept⟩
    · cases stepped
  | wake q =>
    simp only [step] at stepped
    split at stepped
    · rename_i write asleep
      obtain ⟨t,run,kept⟩ := attempt_inv inv (p := q) (by simp [asleep,Req.busy]) write
      cases stepped
      exact ⟨t,run,kept⟩
    · cases stepped
  | intr q =>
    simp only [step] at stepped
    split at stepped
    · rename_i chain busy
      cases stepped
      obtain ⟨a,b,c⟩ := chain
      refine ⟨_,rfl,?_,inv.zeroed,?_⟩
      · have unchanged : Function.update (fun q' => (s.req q').held) q (Req.inflight (a,b,c) true).held =
            fun q' => (s.req q').held := by
          funext q'
          by_cases same : q' = q
          · subst same
            simp [busy,Req.held]
          · simp [Function.update_of_ne same]
        rw [held_set,unchanged]
        exact inv.parts
      · intro q' a' b' c' done other
        by_cases same : q' = q
        · subst same
          simp only [set_req,↓reduceIte,Req.inflight.injEq,Prod.mk.injEq] at other
          obtain ⟨⟨rfl,rfl,rfl⟩,-⟩ := other
          exact inv.linked q' a b c false busy
        · simp only [set_req,same,↓reduceIte] at other
          exact inv.linked q' a' b' c' done other
    · cases stepped
  | finish q =>
    simp only [step] at stepped
    split at stepped
    · rename_i chain busy
      obtain ⟨a,b,c⟩ := chain
      obtain ⟨t,run,kept⟩ := finish_inv inv busy
      cases stepped
      exact ⟨t,run,kept⟩
    · cases stepped

theorem reachable_inv (reached : Reachable Step (Driver.init P) s) : s.Inv := by
  refine reached.invariant (fun s e t inv stepped => ?_) init_inv
  obtain ⟨t',same,kept⟩ := step_inv inv e _ stepped
  cases same
  exact kept

end Driver

section Runs

variable {P : Type} [DecidableEq P] {s : Driver P}

def okStep (s : Driver P) (e : Event P) : Option (Driver P) :=
  match step s e with
  | some (.ok t) => some t
  | _ => none

theorem reachable_of_run {evs : List (Event P)} (ran : (run okStep (Driver.init P) evs).isSome) :
    Reachable Step (Driver.init P) ((run okStep (Driver.init P) evs).getD (Driver.init P)) := by
  obtain ⟨t,taken⟩ := Option.isSome_iff_exists.mp ran
  refine ⟨evs,?_⟩
  rw [taken,Option.getD_some]
  refine (run_exact.mp taken).mono fun s e t moved => ?_
  unfold Taken okStep at moved
  split at moved
  · cases moved
    assumption
  · cases moved

omit [DecidableEq P] in
theorem Driver.Inv.held_card (inv : s.Inv) (p : P) : (s.req p).held.card = if (s.req p).busy then 3 else 0 := by
  cases busy : s.req p with
  | inflight chain done =>
    obtain ⟨a,b,c⟩ := chain
    simp only [Req.held,Req.busy,↓reduceIte]
    exact List.toFinset_card_of_nodup (inv.linked p a b c done busy).distinct
  | idle | sleeping => simp [Req.held,Req.busy]

omit [DecidableEq P] in
theorem Driver.Inv.count [Fintype P] (inv : s.Inv) :
    (univ.filter fun i => s.disk.free i = true).card + 3 * (univ.filter fun p => (s.req p).busy).card = NUM := by
  have total := inv.parts.card_add
  simp only [inv.held_card] at total
  rw [sum_ite,sum_const,sum_const_zero,smul_eq_mul,Nat.add_zero,Fintype.card_fin] at total
  rw [Nat.mul_comm]
  exact total

theorem descriptors_partitioned [Fintype P] (reached : Reachable Step (Driver.init P) s) :
    s.Inv ∧ (univ.filter fun i => s.disk.free i = true).card + 3 * (univ.filter fun p => (s.req p).busy).card = NUM :=
  ⟨reachable_inv reached,(reachable_inv reached).count⟩

-- Two requests take six descriptors; the third finds two, gives them back and sleeps; the first
-- completes and frees its chain, and the sleeper takes it.
def rwDemo : List (Event (Fin 3)) := [.rw 0 true,.rw 1 false,.rw 2 true,.intr 0,.finish 0,.wake 2]

def rwDemoEnd : Driver (Fin 3) := (run okStep (Driver.init (Fin 3)) rwDemo).getD (Driver.init (Fin 3))

example : ((run okStep (Driver.init (Fin 3)) (rwDemo.take 3)).map fun s => s.req 2) = some (.sleeping true) ∧
    rwDemoEnd.req 0 = .idle ∧ rwDemoEnd.req 2 = .inflight (⟨0,by decide⟩,⟨1,by decide⟩,⟨2,by decide⟩) false := by
  decide +kernel

theorem descriptors_partitioned_demo : rwDemoEnd.Inv ∧
    (univ.filter fun i => rwDemoEnd.disk.free i = true).card + 3 * (univ.filter fun p => (rwDemoEnd.req p).busy).card = NUM :=
  descriptors_partitioned (reachable_of_run (by decide +kernel))

theorem driver_never_panics (reached : Reachable Step (Driver.init P) s) (e : Event P) (msg : String) :
    step s e ≠ some (.error msg) := by
  intro panicked
  obtain ⟨t,same,-⟩ := step_inv (reachable_inv reached) e _ panicked
  cases same

def rwDemoMid : Driver (Fin 3) := (run okStep (Driver.init (Fin 3)) (rwDemo.take 4)).getD (Driver.init (Fin 3))

theorem driver_never_panics_demo : step rwDemoMid (.finish 0) ≠ some (.error "free_desc 2") :=
  driver_never_panics (reachable_of_run (by decide +kernel)) _ _

end Runs

end Xv6.Virtio
