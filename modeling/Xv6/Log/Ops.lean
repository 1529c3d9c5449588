import Mathlib
import Xv6.Param
import Xv6.Lib.Runs

namespace Xv6.FsLog
open Transition

-- struct log of kernel/log.c; the in-memory header's n is lh.length.
structure Log where
  start : Nat
  size : Nat
  outstanding : Int
  committing : Bool
  lh : List Nat
deriving DecidableEq, Repr

-- initlog: recover_from_log leaves the in-memory header empty.
def initlog (logstart nlog : Nat) : Log :=
  ⟨logstart,nlog,0,false,[]⟩

-- One pass of begin_op's loop that does not sleep; `none` means the caller sleeps.
def beginOp (log : Log) : Option Log :=
  if log.committing then none
  else if (log.lh.length : Int) + (log.outstanding + 1) * MAXOPBLOCKS > LOGSIZE then none
  else some {log with outstanding := log.outstanding + 1}

-- end_op up to the commit it may start: the flag is do_commit.
def endOp (log : Log) : Except String (Log × Bool) :=
  let log := {log with outstanding := log.outstanding - 1}
  if log.committing then .error "log.committing"
  else if log.outstanding = 0 then .ok ({log with committing := true},true)
  else .ok (log,false)

-- What commit() and the rest of end_op leave in memory.
def commitDone (log : Log) : Log :=
  {log with lh := [],committing := false}

-- log_write: the panic checks come before the absorption search.
def logWrite (log : Log) (blockno : Nat) : Except String Log :=
  if log.lh.length ≥ LOGSIZE ∨ log.lh.length ≥ log.size - 1 then .error "too big a transaction"
  else if log.outstanding < 1 then .error "log_write outside of trans"
  else
    let i := log.lh.findIdx (· == blockno)
    if i = log.lh.length then .ok {log with lh := log.lh ++ [blockno]}
    else .ok {log with lh := log.lh.set i blockno}

theorem logWrite_absorbs {log : Log} {blockno : Nat} (present : blockno ∈ log.lh) :
    log.lh.set (log.lh.findIdx (· == blockno)) blockno = log.lh := by
  have found : log.lh.findIdx (· == blockno) < log.lh.length :=
    List.findIdx_lt_length_of_exists ⟨blockno,present,by simp⟩
  have at_found : log.lh[log.lh.findIdx (· == blockno)] = blockno := by
    simpa using List.findIdx_getElem (w := found)
  conv_rhs => rw [← List.set_getElem_self found]
  rw [at_found]

theorem logWrite_ok {log : Log} {blockno : Nat} (roomy : log.lh.length + 1 < log.size)
    (fits : log.lh.length < LOGSIZE) (inside : 1 ≤ log.outstanding) :
    logWrite log blockno = .ok {log with lh := if blockno ∈ log.lh then log.lh else log.lh ++ [blockno]} := by
  have guard : ¬ (log.lh.length ≥ LOGSIZE ∨ log.lh.length ≥ log.size - 1) := by omega
  have trans : ¬ log.outstanding < 1 := by omega
  unfold logWrite
  rw [if_neg guard,if_neg trans]
  dsimp only
  by_cases present : blockno ∈ log.lh
  · have found : log.lh.findIdx (· == blockno) ≠ log.lh.length := by
      have := List.findIdx_lt_length_of_exists (p := (· == blockno)) ⟨blockno,present,by simp⟩
      omega
    simp only [if_neg found,if_pos present,logWrite_absorbs present]
  · have missing : log.lh.findIdx (· == blockno) = log.lh.length := by
      rw [List.findIdx_eq_length]
      intro x member
      have different : x ≠ blockno := fun same => present (same ▸ member)
      simpa using different
    simp only [if_pos missing,if_neg present]

-- The processes around the log: the operations outstanding, newest first, each with its process
-- and the distinct blocks it logged, and the process inside commit().
structure LogSystem where
  log : Log
  active : List (Nat × List Nat)
  committer : Option Nat
deriving DecidableEq, Repr

inductive Action where
  | begin (p : Nat)
  | write (p blockno : Nat)
  | finish (p : Nat)
  | commit
deriving DecidableEq, Repr

def opOf (p : Nat) (active : List (Nat × List Nat)) : Option (List Nat) :=
  (active.find? (·.1 == p)).map (·.2)

def noteWrite (p blockno : Nat) : List (Nat × List Nat) → List (Nat × List Nat)
  | [] => []
  | (q,bs) :: rest =>
    if q = p then (q,if blockno ∈ bs then bs else bs ++ [blockno]) :: rest
    else (q,bs) :: noteWrite p blockno rest

def dropOp (p : Nat) : List (Nat × List Nat) → List (Nat × List Nat)
  | [] => []
  | (q,bs) :: rest => if q = p then rest else (q,bs) :: dropOp p rest

-- One step of one process; none: the action is not enabled (begin_op sleeps, or a log_write falls
-- outside the runs considered); an error: the kernel panics.
def step (s : LogSystem) : Action → Option (Except String LogSystem)
  | .begin p =>
    if s.committer = some p then none
    else (beginOp s.log).map fun log => .ok {s with log := log,active := (p,[]) :: s.active}
  | .write p blockno =>
    match opOf p s.active with
    | none => none
    | some bs =>
      if blockno ∉ bs ∧ MAXOPBLOCKS ≤ bs.length then none
      else some ((logWrite s.log blockno).map fun log =>
        {s with log := log,active := noteWrite p blockno s.active})
  | .finish p =>
    match opOf p s.active with
    | none => none
    | some _ => some ((endOp s.log).map fun (log,doCommit) =>
        ⟨log,dropOp p s.active,if doCommit then some p else s.committer⟩)
  | .commit =>
    match s.committer with
    | none => none
    | some _ => some (.ok {s with log := commitDone s.log,committer := none})

def okStep (s : LogSystem) (a : Action) : Option LogSystem :=
  match step s a with
  | some (.ok t) => some t
  | _ => none

def Step : LogSystem → Action → LogSystem → Prop := Taken okStep

theorem step_ok {s t : LogSystem} {a : Action} (one : Step s a t) : step s a = some (.ok t) := by
  unfold Step Taken okStep at one
  split at one
  · cases one; assumption
  · cases one

def Panics (s : LogSystem) (a : Action) (msg : String) : Prop :=
  step s a = some (.error msg)

def boot (logstart : Nat) : LogSystem :=
  ⟨initlog logstart nlog,[],none⟩

theorem beginOp_eq_some {log log' : Log} (ready : beginOp log = some log') :
    log.committing = false ∧ (log.lh.length : Int) + (log.outstanding + 1) * MAXOPBLOCKS ≤ LOGSIZE ∧
      log' = {log with outstanding := log.outstanding + 1} := by
  unfold beginOp at ready
  split at ready
  · cases ready
  · rename_i idle
    split at ready
    · cases ready
    · rename_i roomy
      cases ready
      exact ⟨by simpa using idle,by omega,rfl⟩

theorem logWrite_eq_ok {log log' : Log} {blockno : Nat} (wrote : logWrite log blockno = .ok log') :
    log.lh.length + 1 < log.size ∧ log.lh.length < LOGSIZE ∧ 1 ≤ log.outstanding ∧
      log' = {log with lh := if blockno ∈ log.lh then log.lh else log.lh ++ [blockno]} := by
  by_cases guard : log.lh.length ≥ LOGSIZE ∨ log.lh.length ≥ log.size - 1
  · unfold logWrite at wrote
    rw [if_pos guard] at wrote
    cases wrote
  · by_cases outside : log.outstanding < 1
    · unfold logWrite at wrote
      rw [if_neg guard,if_pos outside] at wrote
      cases wrote
    · have roomy : log.lh.length + 1 < log.size := by omega
      have fits : log.lh.length < LOGSIZE := by omega
      have inside : 1 ≤ log.outstanding := by omega
      rw [logWrite_ok roomy fits inside] at wrote
      cases wrote
      exact ⟨roomy,fits,inside,rfl⟩

theorem endOp_eq_ok {log log' : Log} {doCommit : Bool} (ended : endOp log = .ok (log',doCommit)) :
    log.committing = false ∧ doCommit = decide (log.outstanding - 1 = 0) ∧
      log' = {log with outstanding := log.outstanding - 1,committing := doCommit} := by
  unfold endOp at ended
  dsimp only at ended
  split at ended
  · cases ended
  · rename_i idle
    split at ended
    · rename_i last
      cases ended
      exact ⟨by simpa using idle,by simp [last],rfl⟩
    · rename_i more
      cases ended
      exact ⟨by simpa using idle,by simp [more],by simpa using idle⟩

section Bookkeeping
variable {p blockno : Nat} {bs : List Nat} {active : List (Nat × List Nat)}

def reserve (active : List (Nat × List Nat)) : Nat :=
  (active.map fun op => MAXOPBLOCKS - op.2.length).sum

theorem opOf_cons (q : Nat) (cs : List Nat) (rest : List (Nat × List Nat)) :
    opOf p ((q,cs) :: rest) = if q = p then some cs else opOf p rest := by
  by_cases same : q = p <;> simp [opOf,same]

theorem opOf_mem (found : opOf p active = some bs) : (p,bs) ∈ active := by
  induction active with
  | nil => cases found
  | cons op rest ih =>
    obtain ⟨q,cs⟩ := op
    rw [opOf_cons] at found
    split at found
    · rename_i same
      cases found; subst same
      exact List.mem_cons_self
    · exact List.mem_cons_of_mem _ (ih found)

theorem length_noteWrite : (noteWrite p blockno active).length = active.length := by
  induction active with
  | nil => rfl
  | cons op rest ih =>
    obtain ⟨q,cs⟩ := op
    unfold noteWrite
    split <;> simp [ih]

theorem reserve_noteWrite (found : opOf p active = some bs)
    (room : blockno ∈ bs ∨ bs.length < MAXOPBLOCKS) :
    reserve (noteWrite p blockno active) + (if blockno ∈ bs then 0 else 1) = reserve active := by
  induction active with
  | nil => cases found
  | cons op rest ih =>
    obtain ⟨q,cs⟩ := op
    rw [opOf_cons] at found
    unfold noteWrite
    split
    · rename_i same
      rw [if_pos same] at found
      cases found
      by_cases present : blockno ∈ bs
      · simp [reserve,present]
      · have short : bs.length < MAXOPBLOCKS := room.resolve_left present
        simp only [reserve,present,if_false,List.map_cons,List.sum_cons,List.length_append,
          List.length_singleton]
        omega
    · rename_i other
      rw [if_neg other] at found
      have rest_eq := ih found
      simp only [reserve,List.map_cons,List.sum_cons] at rest_eq ⊢
      omega

theorem mem_noteWrite {op : Nat × List Nat} (member : op ∈ noteWrite p blockno active) :
    op ∈ active ∨ ∃ cs, opOf p active = some cs ∧ op = (p,if blockno ∈ cs then cs else cs ++ [blockno]) := by
  induction active with
  | nil => cases member
  | cons head rest ih =>
    obtain ⟨q,cs⟩ := head
    unfold noteWrite at member
    rw [opOf_cons]
    split at member
    · rename_i same
      subst same
      rcases List.mem_cons.mp member with fresh | old
      · exact .inr ⟨cs,by simp,fresh⟩
      · exact .inl (List.mem_cons_of_mem _ old)
    · rename_i other
      rw [if_neg other]
      rcases List.mem_cons.mp member with kept | later
      · exact .inl (kept ▸ List.mem_cons_self)
      · rcases ih later with old | changed
        · exact .inl (List.mem_cons_of_mem _ old)
        · exact .inr changed

theorem length_dropOp (found : opOf p active = some bs) :
    (dropOp p active).length + 1 = active.length := by
  induction active with
  | nil => cases found
  | cons op rest ih =>
    obtain ⟨q,cs⟩ := op
    rw [opOf_cons] at found
    unfold dropOp
    split
    · rfl
    · rename_i other
      rw [if_neg other] at found
      simp [ih found]

theorem reserve_dropOp : reserve (dropOp p active) ≤ reserve active := by
  induction active with
  | nil => exact Nat.le_refl _
  | cons op rest ih =>
    obtain ⟨q,cs⟩ := op
    unfold dropOp
    split <;> simp only [reserve,List.map_cons,List.sum_cons] at ih ⊢ <;> omega

theorem mem_dropOp {op : Nat × List Nat} (member : op ∈ dropOp p active) : op ∈ active := by
  induction active with
  | nil => cases member
  | cons head rest ih =>
    obtain ⟨q,cs⟩ := head
    unfold dropOp at member
    split at member
    · exact List.mem_cons_of_mem _ member
    · rcases List.mem_cons.mp member with kept | later
      · exact kept ▸ List.mem_cons_self
      · exact List.mem_cons_of_mem _ (ih later)

theorem reserve_le : reserve active ≤ MAXOPBLOCKS * active.length := by
  induction active with
  | nil => exact Nat.le_refl _
  | cons op rest ih =>
    simp only [reserve,List.map_cons,List.sum_cons,List.length_cons] at ih ⊢
    have own : MAXOPBLOCKS - op.2.length ≤ MAXOPBLOCKS := Nat.sub_le _ _
    rw [Nat.mul_succ]
    omega

end Bookkeeping

section Steps
variable {s t : LogSystem} {p blockno : Nat}

theorem step_begin (one : Step s (.begin p) t) :
    ∃ log', beginOp s.log = some log' ∧ t = {s with log := log',active := (p,[]) :: s.active} := by
  have ran := step_ok one
  simp only [step] at ran
  split at ran
  · cases ran
  · cases ready : beginOp s.log with
    | none => simp [ready] at ran
    | some log' =>
      simp only [ready,Option.map_some,Option.some.injEq,Except.ok.injEq] at ran
      exact ⟨log',rfl,ran.symm⟩

theorem step_write (one : Step s (.write p blockno) t) :
    ∃ bs log', opOf p s.active = some bs ∧ (blockno ∈ bs ∨ bs.length < MAXOPBLOCKS) ∧
      logWrite s.log blockno = .ok log' ∧ t = {s with log := log',active := noteWrite p blockno s.active} := by
  have ran := step_ok one
  simp only [step] at ran
  cases found : opOf p s.active with
  | none => simp [found] at ran
  | some bs =>
    simp only [found] at ran
    split at ran
    · cases ran
    · rename_i room
      cases wrote : logWrite s.log blockno with
      | error msg => simp [wrote,Except.map] at ran
      | ok log' =>
        simp only [wrote,Except.map,Option.some.injEq,Except.ok.injEq] at ran
        refine ⟨bs,log',rfl,?_,rfl,ran.symm⟩
        by_cases present : blockno ∈ bs
        · exact .inl present
        · exact .inr (Nat.lt_of_not_le fun full => room ⟨present,full⟩)

theorem step_finish (one : Step s (.finish p) t) :
    ∃ bs log' doCommit, opOf p s.active = some bs ∧ endOp s.log = .ok (log',doCommit) ∧
      t = ⟨log',dropOp p s.active,if doCommit then some p else s.committer⟩ := by
  have ran := step_ok one
  simp only [step] at ran
  cases found : opOf p s.active with
  | none => simp [found] at ran
  | some bs =>
    simp only [found] at ran
    cases ended : endOp s.log with
    | error msg => simp [ended,Except.map] at ran
    | ok result =>
      obtain ⟨log',doCommit⟩ := result
      simp only [ended,Except.map,Option.some.injEq,Except.ok.injEq] at ran
      exact ⟨bs,log',doCommit,rfl,rfl,ran.symm⟩

theorem step_commit (one : Step s .commit t) :
    ∃ q, s.committer = some q ∧ t = {s with log := commitDone s.log,committer := none} := by
  have ran := step_ok one
  simp only [step] at ran
  cases running : s.committer with
  | none => simp [running] at ran
  | some q =>
    simp only [running,Option.some.injEq,Except.ok.injEq] at ran
    exact ⟨q,rfl,ran.symm⟩

end Steps

-- The accounting begin_op relies on: the blocks logged plus the room kept for every outstanding
-- operation stay within LOGSIZE.
structure Reserved (s : LogSystem) : Prop where
  nodup : s.log.lh.Nodup
  counted : s.log.outstanding = s.active.length
  within : s.log.lh.length + reserve s.active ≤ LOGSIZE
  ops : ∀ op ∈ s.active, op.2 ⊆ s.log.lh ∧ op.2.Nodup ∧ op.2.length ≤ MAXOPBLOCKS
  flag : s.log.committing = s.committer.isSome
  quiet : s.committer.isSome → s.active = []
  sized : s.log.size = nlog
  room : s.log.lh.length < s.log.size

theorem boot_reserved (logstart : Nat) : Reserved (boot logstart) :=
  ⟨List.nodup_nil,rfl,by simp [boot,initlog,reserve],by simp [boot],rfl,by simp [boot],rfl,by simp [boot,initlog,nlog,LOGSIZE,MAXOPBLOCKS]⟩

section Preservation
variable {s t : LogSystem} {p blockno : Nat}

theorem begin_reserved (valid : Reserved s) (one : Step s (.begin p) t) : Reserved t := by
  obtain ⟨log',ready,rfl⟩ := step_begin one
  obtain ⟨idle,roomy,rfl⟩ := beginOp_eq_some ready
  have capped := @reserve_le s.active
  have counted := valid.counted
  have none : s.committer = none := by
    have flag := valid.flag
    rw [idle] at flag
    cases running : s.committer with
    | none => rfl
    | some q => simp [running] at flag
  refine ⟨valid.nodup,by simp [counted],?_,?_,by simpa [none] using idle,by simp [none],valid.sized,valid.room⟩
  · have grow : reserve ((p,[]) :: s.active) = MAXOPBLOCKS + reserve s.active := by simp [reserve]
    show s.log.lh.length + reserve ((p,[]) :: s.active) ≤ LOGSIZE
    rw [grow]
    rw [counted] at roomy
    simp only [LOGSIZE,MAXOPBLOCKS] at roomy capped ⊢
    omega
  · intro op member
    rcases List.mem_cons.mp member with rfl | old
    · simp
    · exact valid.ops op old

theorem nodup_snoc {lh : List Nat} {blockno : Nat} (nodup : lh.Nodup) (fresh : blockno ∉ lh) :
    (lh ++ [blockno]).Nodup := by
  refine List.nodup_append.mpr ⟨nodup,by simp,?_⟩
  intro a old b new same
  rw [List.mem_singleton.mp new] at same
  exact fresh (same ▸ old)

theorem subset_logged (lh : List Nat) (blockno : Nat) :
    lh ⊆ if blockno ∈ lh then lh else lh ++ [blockno] := by
  split
  · exact List.Subset.refl _
  · exact List.subset_append_left _ _

theorem mem_logged (lh : List Nat) (blockno : Nat) :
    blockno ∈ if blockno ∈ lh then lh else lh ++ [blockno] := by
  split
  · assumption
  · simp

theorem write_reserved (valid : Reserved s) (one : Step s (.write p blockno) t) : Reserved t := by
  obtain ⟨bs,log',found,room,wrote,rfl⟩ := step_write one
  obtain ⟨roomy,fits,inside,rfl⟩ := logWrite_eq_ok wrote
  obtain ⟨mine,mineNodup,mineLength⟩ := valid.ops _ (opOf_mem found)
  have balance := reserve_noteWrite found room
  have within := valid.within
  refine ⟨?_,by simpa [length_noteWrite] using valid.counted,?_,?_,valid.flag,?_,valid.sized,?_⟩
  · show (if blockno ∈ s.log.lh then s.log.lh else s.log.lh ++ [blockno]).Nodup
    split
    · exact valid.nodup
    · rename_i fresh
      exact nodup_snoc valid.nodup fresh
  · show (if blockno ∈ s.log.lh then s.log.lh else s.log.lh ++ [blockno]).length +
      reserve (noteWrite p blockno s.active) ≤ LOGSIZE
    by_cases present : blockno ∈ bs
    · have logged : blockno ∈ s.log.lh := mine present
      simp only [present,if_true,logged] at balance ⊢
      omega
    · by_cases logged : blockno ∈ s.log.lh
      · simp only [present,if_false,logged,if_true] at balance ⊢
        omega
      · simp only [present,if_false,logged,List.length_append,List.length_singleton] at balance ⊢
        omega
  · intro op member
    rcases mem_noteWrite member with old | ⟨cs,again,rfl⟩
    · obtain ⟨sub,nodup,length⟩ := valid.ops op old
      exact ⟨List.Subset.trans sub (subset_logged _ _),nodup,length⟩
    · rw [found] at again
      cases again
      refine ⟨?_,?_,?_⟩
      · split
        · exact List.Subset.trans mine (subset_logged _ _)
        · intro x member
          rcases List.mem_append.mp member with old | fresh
          · exact subset_logged _ _ (mine old)
          · rw [List.mem_singleton.mp fresh]; exact mem_logged _ _
      · split
        · exact mineNodup
        · rename_i fresh
          exact nodup_snoc mineNodup fresh
      · split
        · exact mineLength
        · rename_i fresh
          have short : bs.length < MAXOPBLOCKS := room.resolve_left fresh
          simpa using Nat.succ_le_of_lt short
  · intro running
    have empty := valid.quiet running
    rw [empty] at found
    cases found
  · show (if blockno ∈ s.log.lh then s.log.lh else s.log.lh ++ [blockno]).length < s.log.size
    split
    · exact valid.room
    · simp only [List.length_append,List.length_singleton]; omega

theorem finish_reserved (valid : Reserved s) (one : Step s (.finish p) t) : Reserved t := by
  obtain ⟨bs,log',doCommit,found,ended,rfl⟩ := step_finish one
  obtain ⟨idle,last,rfl⟩ := endOp_eq_ok ended
  have none : s.committer = none := by
    have flag := valid.flag
    rw [idle] at flag
    cases running : s.committer with
    | none => rfl
    | some q => simp [running] at flag
  have shrink := length_dropOp found
  have counted := valid.counted
  refine ⟨valid.nodup,?_,?_,?_,?_,?_,valid.sized,valid.room⟩
  · show s.log.outstanding - 1 = ((dropOp p s.active).length : Int)
    omega
  · exact Nat.le_trans (Nat.add_le_add_left reserve_dropOp _) valid.within
  · intro op member
    exact valid.ops op (mem_dropOp member)
  · show doCommit = (if doCommit then some p else s.committer).isSome
    cases doCommit <;> simp [none]
  · intro running
    cases doCommit with
    | false => simp [none] at running
    | true =>
      have gone : s.log.outstanding - 1 = 0 := by simpa using last.symm
      show dropOp p s.active = []
      apply List.eq_nil_of_length_eq_zero
      omega

theorem commit_reserved (valid : Reserved s) (one : Step s .commit t) : Reserved t := by
  obtain ⟨q,running,rfl⟩ := step_commit one
  have empty := valid.quiet (by simp [running])
  refine ⟨List.nodup_nil,valid.counted,?_,?_,rfl,by simp,valid.sized,?_⟩
  · show 0 + reserve s.active ≤ LOGSIZE
    simp [empty,reserve]
  · intro op member
    change op ∈ s.active at member
    simp [empty] at member
  · show 0 < s.log.size
    rw [valid.sized]; decide

end Preservation

theorem reserved_preserved {s t : LogSystem} {a : Action} (valid : Reserved s) (one : Step s a t) :
    Reserved t := by
  cases a with
  | begin p => exact begin_reserved valid one
  | write p blockno => exact write_reserved valid one
  | finish p => exact finish_reserved valid one
  | commit => exact commit_reserved valid one

theorem reserved_reachable {logstart : Nat} {s : LogSystem} (reached : Reachable Step (boot logstart) s) :
    Reserved s :=
  reached.invariant (fun _ _ _ valid one => reserved_preserved valid one) (boot_reserved logstart)

-- Three processes each run one operation that logs ten distinct blocks.
def overflowRun : List Action :=
  [.begin 1,.begin 2,.begin 3] ++
    (List.range 10).map (fun i => .write 1 (100 + i)) ++
    (List.range 10).map (fun i => .write 2 (110 + i)) ++
    (List.range 9).map (fun i => .write 3 (120 + i))

theorem log_write_overflows :
    ∃ s, Reachable Step (boot 2) s ∧ opOf 3 s.active = some ((List.range 9).map (120 + ·)) ∧
      Panics s (.write 3 129) "too big a transaction" :=
  ⟨_,⟨overflowRun,run_exact.mp rfl⟩,rfl,rfl⟩

-- Nested operations: the outer one keeps log.outstanding above 0, so no commit starts and the log
-- only fills, until the inner begin_op waits for good.
def Action.actor : Action → Option Nat
  | .begin p | .write p _ | .finish p => some p
  | .commit => none

section Nesting
variable {p q blockno : Nat} {active : List (Nat × List Nat)}

theorem opOf_noteWrite : (opOf p (noteWrite q blockno active)).isSome = (opOf p active).isSome := by
  induction active with
  | nil => rfl
  | cons op rest ih =>
    obtain ⟨r,cs⟩ := op
    unfold noteWrite
    split <;> by_cases mine : r = p <;> simp_all [opOf_cons]

theorem opOf_dropOp (other : q ≠ p) : (opOf p (dropOp q active)).isSome = (opOf p active).isSome := by
  induction active with
  | nil => rfl
  | cons op rest ih =>
    obtain ⟨r,cs⟩ := op
    unfold dropOp
    split
    · rename_i dropped
      subst dropped
      simp [opOf_cons,other]
    · by_cases mine : r = p <;> simp_all [opOf_cons]

structure Held (p floor : Nat) (s : LogSystem) : Prop where
  valid : Reserved s
  outer : (opOf p s.active).isSome
  filled : floor ≤ s.log.lh.length

theorem held_step {s t : LogSystem} {a : Action} {floor : Nat} (held : Held p floor s)
    (other : a.actor ≠ some p) (one : Step s a t) : Held p floor t := by
  have valid := reserved_preserved held.valid one
  cases a with
  | begin q =>
    obtain ⟨log',ready,rfl⟩ := step_begin one
    obtain ⟨-,-,rfl⟩ := beginOp_eq_some ready
    have differ : q ≠ p := fun same => other (by simp [Action.actor,same])
    exact ⟨valid,by simpa [opOf_cons,differ] using held.outer,held.filled⟩
  | write q blockno =>
    obtain ⟨bs,log',-,-,wrote,rfl⟩ := step_write one
    obtain ⟨-,-,-,rfl⟩ := logWrite_eq_ok wrote
    refine ⟨valid,by simpa [opOf_noteWrite] using held.outer,?_⟩
    have grows : s.log.lh.length ≤ (if blockno ∈ s.log.lh then s.log.lh else s.log.lh ++ [blockno]).length := by
      split <;> simp
    exact Nat.le_trans held.filled grows
  | finish q =>
    obtain ⟨bs,log',doCommit,-,ended,rfl⟩ := step_finish one
    obtain ⟨-,-,rfl⟩ := endOp_eq_ok ended
    have differ : q ≠ p := fun same => other (by simp [Action.actor,same])
    exact ⟨valid,by simpa [opOf_dropOp differ] using held.outer,held.filled⟩
  | commit =>
    obtain ⟨r,running,rfl⟩ := step_commit one
    have empty := held.valid.quiet (by simp [running])
    have outer := held.outer
    simp [empty,opOf] at outer

theorem nested_begin_waits {s t : LogSystem} {others : List Action} (valid : Reserved s)
    (outer : (opOf p s.active).isSome) (full : LOGSIZE < s.log.lh.length + 2 * MAXOPBLOCKS)
    (run : Runs Step s others t) (notp : ∀ a ∈ others, a.actor ≠ some p) : step t (.begin p) = none := by
  have held : Held p s.log.lh.length t :=
    run.stable (fun _ _ _ other held one => held_step held other one) notp ⟨valid,outer,Nat.le_refl _⟩
  have busy : 1 ≤ t.log.outstanding := by
    have counted := held.valid.counted
    have nonempty : t.active ≠ [] := by
      intro empty
      have outer := held.outer
      simp [empty,opOf] at outer
    have long := List.length_pos_of_ne_nil nonempty
    omega
  have blocked : beginOp t.log = none := by
    unfold beginOp
    split
    · rfl
    · have filled := held.filled
      rw [if_pos (by simp only [LOGSIZE,MAXOPBLOCKS] at full ⊢; push_cast; omega)]
  simp [step,blocked]

end Nesting

-- Process 1's operation is open and eleven blocks are logged; process 2 ends its
-- operation, and process 1's nested begin_op still waits.
def nestedRun : List Action :=
  [.begin 1,.begin 2,.write 1 50] ++ (List.range 10).map (fun i => .write 2 (100 + i))

def nestedState : LogSystem := (run okStep (boot 2) nestedRun).getD (boot 2)

example : step ((run okStep nestedState [.finish 2]).getD nestedState) (.begin 1) = none := by
  have reached : Reachable Step (boot 2) nestedState := ⟨nestedRun,run_exact.mp (by decide +kernel)⟩
  have ended : Runs Step nestedState [.finish 2] ((run okStep nestedState [.finish 2]).getD nestedState) :=
    run_exact.mp (by decide +kernel)
  exact nested_begin_waits (reserved_reachable reached) (by decide +kernel) (by decide +kernel) ended (by decide)

end Xv6.FsLog
