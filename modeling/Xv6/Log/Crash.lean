import Mathlib.Data.List.Basic
import Xv6.Lib.Writes
import Xv6.Log.Ops

namespace Xv6.FsLog
open BlockWrites

variable {α : Type}

-- struct logheader overlays the header block: read_head takes n and the first n block numbers.
structure HeadCodec (α : Type) where
  headOf : α → List Nat
  withHead : List Nat → α → α
  headOf_withHead : ∀ lh a, lh.length ≤ LOGSIZE → headOf (withHead lh a) = lh
  withHead_withHead : ∀ lh a, withHead lh (withHead lh a) = withHead lh a

def logheaderWords : HeadCodec (Nat → Nat) where
  headOf a := (List.range (a 0)).map fun i => a (i + 1)
  withHead lh a := fun w => if w = 0 then lh.length else if w ≤ lh.length then lh.getD (w - 1) 0 else a w
  headOf_withHead lh a _ := by
    apply List.ext_getElem
    · simp
    · intro i inRange _
      simp at inRange
      simp [inRange]
  withHead_withHead lh a := by
    funext w
    by_cases zero : w = 0 <;> by_cases low : w ≤ lh.length <;> simp [zero,low]

-- write_log: each logged block, from the cache, into its slot after the header.
def writeLog (log : Log) (cache : Nat → α) : List (Write α) :=
  log.lh.mapIdx fun tail blockno => ⟨log.start + tail + 1,fun _ => cache blockno⟩

-- write_head: the header block, read back and rewritten with `lh`.
def writeHead (codec : HeadCodec α) (start : Nat) (lh : List Nat) : Write α :=
  ⟨start,fun d => codec.withHead lh (d start)⟩

-- install_trans: each log slot, read from the disk, to its home location.
def installTrans (start : Nat) (lh : List Nat) : List (Write α) :=
  lh.mapIdx fun tail blockno => ⟨blockno,fun d => d (start + tail + 1)⟩

-- commit(): the disk writes in the order they are issued.
def commitWrites (codec : HeadCodec α) (log : Log) (cache : Nat → α) : List (Write α) :=
  if log.lh.length > 0 then
    writeLog log cache ++ writeHead codec log.start log.lh ::
      (installTrans log.start log.lh ++ [writeHead codec log.start []])
  else []

-- recover_from_log at boot: read_head, install_trans(1), then the cleared header.
def recoverWrites (codec : HeadCodec α) (start : Nat) (d : Nat → α) : List (Write α) :=
  installTrans start (codec.headOf (d start)) ++ [writeHead codec start []]

def recoverFromLog (codec : HeadCodec α) (start : Nat) (d : Nat → α) : Nat → α :=
  apply (recoverWrites codec start d) d

def Outside (start size : Nat) (lh : List Nat) : Prop :=
  ∀ b ∈ lh, b < start ∨ start + size ≤ b

def Slot (start n r : Nat) : Prop :=
  start < r ∧ r ≤ start + n

section Phases
variable {start size : Nat} {lh : List Nat}

theorem mem_installTrans {w : Write α} (member : w ∈ installTrans start lh) :
    ∃ tail, ∃ inRange : tail < lh.length, w.block = lh[tail] ∧ ∀ d, w.value d = d (start + tail + 1) := by
  obtain ⟨tail,inRange,rfl⟩ := List.mem_mapIdx.mp member
  exact ⟨tail,inRange,rfl,fun _ => rfl⟩

@[simp] theorem length_installTrans : (installTrans start lh : List (Write α)).length = lh.length :=
  List.length_mapIdx

theorem installTrans_reads (outside : Outside start size lh) (fits : lh.length < size) :
    ReadsOnly (α := α) (Slot start lh.length) (installTrans start lh) := by
  intro w member
  obtain ⟨tail,inRange,home,value⟩ := mem_installTrans member
  refine ⟨?_,?_⟩
  · intro slot
    rcases outside _ (List.getElem_mem inRange) with below | above
    · unfold Slot at slot; omega
    · unfold Slot at slot; omega
  · intro d d' agree
    rw [value,value]
    exact agree _ ⟨by omega,by omega⟩

theorem installTrans_other {b : Nat} (missing : b ∉ lh) (d : Nat → α) :
    apply (installTrans start lh) d b = d b := by
  apply apply_other
  intro w member same
  obtain ⟨tail,inRange,home,_⟩ := mem_installTrans member
  exact missing (same ▸ home ▸ List.getElem_mem inRange)

theorem installTrans_home (outside : Outside start size lh) (fits : lh.length < size)
    {cache : Nat → α} {d : Nat → α}
    (slots : ∀ tail, (inRange : tail < lh.length) → d (start + tail + 1) = cache lh[tail])
    {b : Nat} (logged : b ∈ lh) : apply (installTrans start lh) d b = cache b := by
  apply apply_uniform (installTrans_reads outside fits) d b (cache b)
  · obtain ⟨tail,inRange,rfl⟩ := List.getElem_of_mem logged
    exact ⟨_,List.mem_mapIdx.mpr ⟨tail,inRange,rfl⟩,rfl⟩
  · intro w member home
    obtain ⟨tail,inRange,same,value⟩ := mem_installTrans member
    rw [value,slots tail inRange,← same,home]

theorem installTrans_start (outside : Outside start size lh) (fits : lh.length < size) (k : Nat)
    (d : Nat → α) :
    apply ((installTrans start lh).take k) d start = d start := by
  apply apply_other
  intro w member same
  obtain ⟨tail,inRange,home,_⟩ := mem_installTrans (List.mem_of_mem_take member)
  rcases outside _ (List.getElem_mem inRange) with below | above <;> omega

theorem installTrans_slot (outside : Outside start size lh) (fits : lh.length < size) (k : Nat)
    (d : Nat → α) {r : Nat} (slot : Slot start lh.length r) :
    apply ((installTrans start lh).take k) d r = d r :=
  ((installTrans_reads outside fits).take k).keeps d r slot

theorem mem_writeLog {log : Log} {cache : Nat → α} {w : Write α} (member : w ∈ writeLog log cache) :
    ∃ tail, ∃ inRange : tail < log.lh.length, w.block = log.start + tail + 1 ∧
      ∀ d, w.value d = cache log.lh[tail] := by
  obtain ⟨tail,inRange,rfl⟩ := List.mem_mapIdx.mp member
  exact ⟨tail,inRange,rfl,fun _ => rfl⟩

theorem writeLog_untouched {log : Log} {cache : Nat → α} (k : Nat) (d : Nat → α) {b : Nat}
    (away : ¬ Slot log.start log.lh.length b) : apply ((writeLog log cache).take k) d b = d b := by
  apply apply_other
  intro w member same
  obtain ⟨tail,inRange,slot,_⟩ := mem_writeLog (List.mem_of_mem_take member)
  exact away ⟨by omega,by omega⟩

theorem writeLog_slots {log : Log} {cache : Nat → α} (d : Nat → α) (tail : Nat)
    (inRange : tail < log.lh.length) :
    apply (writeLog log cache) d (log.start + tail + 1) = cache log.lh[tail] := by
  have constant : ReadsOnly (α := α) (fun _ => False) (writeLog log cache) :=
    fun w member => ⟨id,fun _ _ _ => by
      obtain ⟨_,_,_,value⟩ := mem_writeLog member
      rw [value,value]⟩
  apply apply_uniform constant d (log.start + tail + 1) _ ⟨_,List.mem_mapIdx.mpr ⟨tail,inRange,rfl⟩,rfl⟩
  intro w member slot
  obtain ⟨tail',inRange',same,value⟩ := mem_writeLog member
  have : tail' = tail := by omega
  subst this
  exact value d

end Phases

section Recovery
variable {codec : HeadCodec α} {start size : Nat} {d : Nat → α}

theorem writeHead_apply (codec : HeadCodec α) (start : Nat) (lh : List Nat) (d : Nat → α) :
    apply [writeHead codec start lh] d = Function.update d start (codec.withHead lh (d start)) := rfl

theorem headOf_cleared (codec : HeadCodec α) (a : α) : codec.headOf (codec.withHead [] a) = [] :=
  codec.headOf_withHead [] a (Nat.zero_le _)

theorem recover_clean (clean : codec.headOf (d start) = []) :
    recoverFromLog codec start d = Function.update d start (codec.withHead [] (d start)) := by
  unfold recoverFromLog recoverWrites
  rw [clean]
  rfl

theorem recover_other {b : Nat} (missing : b ∉ codec.headOf (d start)) (away : b ≠ start) :
    recoverFromLog codec start d b = d b := by
  unfold recoverFromLog recoverWrites
  rw [apply_append,writeHead_apply,Function.update_of_ne away]
  exact installTrans_other missing d

theorem recover_committed {lh : List Nat} {cache : Nat → α} (header : codec.headOf (d start) = lh)
    (outside : Outside start size lh) (fits : lh.length < size)
    (slots : ∀ tail, (inRange : tail < lh.length) → d (start + tail + 1) = cache lh[tail])
    {b : Nat} (logged : b ∈ lh) : recoverFromLog codec start d b = cache b := by
  have away : b ≠ start := by
    rcases outside b logged with below | above <;> omega
  unfold recoverFromLog recoverWrites
  rw [header,apply_append,writeHead_apply,Function.update_of_ne away]
  exact installTrans_home outside fits slots logged

theorem recover_idempotent (outside : Outside start size (codec.headOf (d start)))
    (fits : (codec.headOf (d start)).length < size) (j : Nat) :
    recoverFromLog codec start (apply ((recoverWrites codec start d).take j) d) =
      recoverFromLog codec start d := by
  unfold recoverWrites
  by_cases inside : j ≤ (codec.headOf (d start)).length
  · rw [List.take_append_of_le_length (by simpa using inside)]
    have header := installTrans_start outside fits j d
    unfold recoverFromLog recoverWrites
    rw [header,apply_append,apply_append,apply_after_crash (installTrans_reads outside fits)]
  · rw [List.take_of_length_le (by simp; omega)]
    have header : recoverFromLog codec start d start = codec.withHead [] (d start) := by
      have untouched := installTrans_start outside fits (codec.headOf (d start)).length d
      rw [List.take_of_length_le (by simp)] at untouched
      unfold recoverFromLog recoverWrites
      rw [apply_append,writeHead_apply,Function.update_self,untouched]
    change recoverFromLog codec start (recoverFromLog codec start d) = recoverFromLog codec start d
    rw [recover_clean (by rw [header]; exact headOf_cleared codec _),header,codec.withHead_withHead,← header]
    exact Function.update_eq_self start _

end Recovery

section Commit
variable {codec : HeadCodec α} {log : Log} {cache d : Nat → α}

theorem committed_start :
    apply (writeLog log cache ++ [writeHead codec log.start log.lh]) d log.start =
      codec.withHead log.lh (d log.start) := by
  rw [apply_append,writeHead_apply,Function.update_self]
  have notSlot : ¬ Slot log.start log.lh.length log.start := fun slot => by unfold Slot at slot; omega
  have untouched := @writeLog_untouched α log cache log.lh.length d log.start notSlot
  rw [List.take_of_length_le (by simp [writeLog])] at untouched
  rw [untouched]

theorem committed_slots (tail : Nat) (inRange : tail < log.lh.length) :
    apply (writeLog log cache ++ [writeHead codec log.start log.lh]) d (log.start + tail + 1) =
      cache log.lh[tail] := by
  rw [apply_append,writeHead_apply,Function.update_of_ne (by omega)]
  exact writeLog_slots d tail inRange

theorem committed_other {b : Nat} (away : b ≠ log.start) (notSlot : ¬ Slot log.start log.lh.length b) :
    apply (writeLog log cache ++ [writeHead codec log.start log.lh]) d b = d b := by
  rw [apply_append,writeHead_apply,Function.update_of_ne away]
  have untouched := @writeLog_untouched α log cache log.lh.length d b notSlot
  rwa [List.take_of_length_le (by simp [writeLog])] at untouched

theorem length_writeLog : (writeLog log cache).length = log.lh.length :=
  List.length_mapIdx

-- Where commit() can have stopped: within write_log, within install_trans, or after the clear.
theorem commitWrites_take (started : 0 < log.lh.length) (k : Nat) :
    (k ≤ log.lh.length ∧ (commitWrites codec log cache).take k = (writeLog log cache).take k) ∨
    (∃ m ≤ log.lh.length, (commitWrites codec log cache).take k =
      writeLog log cache ++ [writeHead codec log.start log.lh] ++ (installTrans log.start log.lh).take m) ∨
    (commitWrites codec log cache).take k =
      writeLog log cache ++ [writeHead codec log.start log.lh] ++
        (installTrans log.start log.lh ++ [writeHead codec log.start []]) := by
  unfold commitWrites
  rw [if_pos started]
  by_cases early : k ≤ log.lh.length
  · exact .inl ⟨early,List.take_append_of_le_length (by simpa [length_writeLog] using early)⟩
  · obtain ⟨m,rfl⟩ : ∃ m, k = (writeLog log cache).length + (m + 1) :=
      ⟨k - log.lh.length - 1,by rw [length_writeLog]; omega⟩
    rw [List.take_length_add_append,List.take_succ_cons,List.append_assoc,List.singleton_append]
    by_cases installing : m ≤ log.lh.length
    · refine .inr (.inl ⟨m,installing,?_⟩)
      rw [List.take_append_of_le_length (by simpa using installing),List.append_assoc,List.singleton_append]
    · refine .inr (.inr ?_)
      rw [List.take_of_length_le (by simp; omega)]

theorem home_away {b : Nat} (home : b < log.start ∨ log.start + log.size ≤ b) (fits : log.lh.length < log.size) :
    b ≠ log.start ∧ ¬ Slot log.start log.lh.length b := by
  constructor
  · rcases home with below | above <;> omega
  · intro slot
    unfold Slot at slot
    rcases home with below | above <;> omega

theorem recover_during_writeLog (clean : codec.headOf (d log.start) = []) (fits : log.lh.length < log.size)
    (k : Nat) {b : Nat} (home : b < log.start ∨ log.start + log.size ≤ b) :
    recoverFromLog codec log.start (apply ((writeLog log cache).take k) d) b = d b := by
  obtain ⟨away,notSlot⟩ := home_away home fits
  have headerKept : apply ((writeLog log cache).take k) d log.start = d log.start :=
    writeLog_untouched k d (fun slot => by unfold Slot at slot; omega)
  rw [recover_other (by rw [headerKept,clean]; simp) away]
  exact writeLog_untouched k d notSlot

theorem install_header (outside : Outside log.start log.size log.lh) (fits : log.lh.length < log.size)
    (bounded : log.lh.length ≤ LOGSIZE) (m : Nat) :
    codec.headOf (apply (writeLog log cache ++ [writeHead codec log.start log.lh] ++
      (installTrans log.start log.lh).take m) d log.start) = log.lh := by
  rw [apply_append,installTrans_start outside fits m,committed_start,codec.headOf_withHead _ _ bounded]

theorem commit_header :
    codec.headOf (apply (writeLog log cache ++ [writeHead codec log.start log.lh] ++
      (installTrans log.start log.lh ++ [writeHead codec log.start []])) d log.start) = [] := by
  rw [apply_append,apply_append,writeHead_apply,Function.update_self]
  exact headOf_cleared codec _

theorem crashed_idempotent {e : Nat → α} (fits : log.lh.length < log.size)
    (outside : Outside log.start log.size log.lh)
    (header : codec.headOf (e log.start) = [] ∨ codec.headOf (e log.start) = log.lh) (j : Nat) :
    recoverFromLog codec log.start (apply ((recoverWrites codec log.start e).take j) e) =
      recoverFromLog codec log.start e := by
  rcases header with clean | named
  · apply @recover_idempotent α codec log.start log.size e
    · rw [clean]; intro b member; cases member
    · rw [clean]; simp; omega
  · apply @recover_idempotent α codec log.start log.size e
    · rw [named]; exact outside
    · rw [named]; exact fits

theorem recover_during_install (outside : Outside log.start log.size log.lh) (fits : log.lh.length < log.size)
    (bounded : log.lh.length ≤ LOGSIZE) (m : Nat) :
    (∀ b ∈ log.lh, recoverFromLog codec log.start
      (apply (writeLog log cache ++ [writeHead codec log.start log.lh] ++ (installTrans log.start log.lh).take m) d) b =
        cache b) ∧
    ∀ b, b ∉ log.lh → (b < log.start ∨ log.start + log.size ≤ b) → recoverFromLog codec log.start
      (apply (writeLog log cache ++ [writeHead codec log.start log.lh] ++ (installTrans log.start log.lh).take m) d) b =
        d b := by
  have header := @install_header α codec log cache d outside fits bounded m
  rw [apply_append] at header ⊢
  constructor
  · intro b logged
    apply recover_committed header outside fits _ logged
    intro tail inRange
    rw [installTrans_slot outside fits m _ ⟨by omega,by omega⟩]
    exact committed_slots tail inRange
  · intro b missing home
    obtain ⟨away,notSlot⟩ := home_away home fits
    rw [recover_other (by rw [header]; exact missing) away,apply_other _ _ _ ?_]
    · exact committed_other away notSlot
    · intro w member same
      obtain ⟨tail,inRange,target,_⟩ := mem_installTrans (List.mem_of_mem_take member)
      exact missing (same ▸ target ▸ List.getElem_mem inRange)

theorem recover_after_commit (outside : Outside log.start log.size log.lh) (fits : log.lh.length < log.size) :
    (∀ b ∈ log.lh, recoverFromLog codec log.start (apply (writeLog log cache ++ [writeHead codec log.start log.lh] ++
      (installTrans log.start log.lh ++ [writeHead codec log.start []])) d) b = cache b) ∧
    ∀ b, b ∉ log.lh → (b < log.start ∨ log.start + log.size ≤ b) → recoverFromLog codec log.start
      (apply (writeLog log cache ++ [writeHead codec log.start log.lh] ++
        (installTrans log.start log.lh ++ [writeHead codec log.start []])) d) b = d b := by
  rw [apply_append,apply_append,writeHead_apply]
  generalize installed : apply (installTrans log.start log.lh)
    (apply (writeLog log cache ++ [writeHead codec log.start log.lh]) d) = e
  have cleared : codec.headOf (Function.update e log.start (codec.withHead [] (e log.start)) log.start) = [] := by
    rw [Function.update_self]; exact headOf_cleared codec _
  constructor
  · intro b logged
    obtain ⟨away,_⟩ := home_away (outside b logged) fits
    rw [recover_other (by rw [cleared]; simp) away,Function.update_of_ne away,← installed]
    apply installTrans_home outside fits _ logged
    exact fun tail inRange => committed_slots tail inRange
  · intro b missing home
    obtain ⟨away,notSlot⟩ := home_away home fits
    rw [recover_other (by rw [cleared]; simp) away,Function.update_of_ne away,← installed,
      installTrans_other missing]
    exact committed_other away notSlot

end Commit

theorem commit_crash_atomic (codec : HeadCodec α) (log : Log) (cache d : Nat → α)
    (clean : codec.headOf (d log.start) = []) (outside : Outside log.start log.size log.lh)
    (fits : log.lh.length < log.size) (bounded : log.lh.length ≤ LOGSIZE) (k : Nat) :
    let crashed := apply ((commitWrites codec log cache).take k) d
    (∀ b ∈ log.lh, recoverFromLog codec log.start crashed b = if k ≤ log.lh.length then d b else cache b) ∧
    (∀ b, b ∉ log.lh → (b < log.start ∨ log.start + log.size ≤ b) →
      recoverFromLog codec log.start crashed b = d b) ∧
    ∀ j, recoverFromLog codec log.start (apply ((recoverWrites codec log.start crashed).take j) crashed) =
      recoverFromLog codec log.start crashed := by
  intro crashed
  by_cases started : 0 < log.lh.length
  · rcases @commitWrites_take α codec log cache started k with ⟨early,cut⟩ | ⟨m,installing,cut⟩ | cut
    · have headerKept : crashed log.start = d log.start := by
        show apply _ d log.start = _
        rw [cut]; exact writeLog_untouched k d (fun slot => by unfold Slot at slot; omega)
      refine ⟨?_,?_,fun j => crashed_idempotent fits outside (.inl (by rw [headerKept,clean])) j⟩
      · intro b logged
        rw [if_pos early]
        show recoverFromLog codec log.start (apply _ d) b = d b
        rw [cut]; exact recover_during_writeLog clean fits k (outside b logged)
      · intro b _ home
        show recoverFromLog codec log.start (apply _ d) b = d b
        rw [cut]; exact recover_during_writeLog clean fits k home
    · have late : ¬ k ≤ log.lh.length := by
        intro early
        have lengths := congrArg List.length cut
        simp [length_writeLog] at lengths
        omega
      have phase := @recover_during_install α codec log cache d outside fits bounded m
      have header : codec.headOf (crashed log.start) = log.lh := by
        show codec.headOf (apply _ d log.start) = _
        rw [cut]; exact install_header outside fits bounded m
      refine ⟨?_,?_,fun j => crashed_idempotent fits outside (.inr header) j⟩
      · intro b logged
        rw [if_neg late]
        show recoverFromLog codec log.start (apply _ d) b = cache b
        rw [cut]; exact phase.1 b logged
      · intro b missing home
        show recoverFromLog codec log.start (apply _ d) b = d b
        rw [cut]; exact phase.2 b missing home
    · have late : ¬ k ≤ log.lh.length := by
        intro early
        have lengths := congrArg List.length cut
        simp [length_writeLog] at lengths
        omega
      have phase := @recover_after_commit α codec log cache d outside fits
      have header : codec.headOf (crashed log.start) = [] := by
        show codec.headOf (apply _ d log.start) = _
        rw [cut]; exact commit_header
      refine ⟨?_,?_,fun j => crashed_idempotent fits outside (.inl header) j⟩
      · intro b logged
        rw [if_neg late]
        show recoverFromLog codec log.start (apply _ d) b = cache b
        rw [cut]; exact phase.1 b logged
      · intro b missing home
        show recoverFromLog codec log.start (apply _ d) b = d b
        rw [cut]; exact phase.2 b missing home
  · -- commit() writes nothing for an empty transaction
    have empty : log.lh = [] := List.eq_nil_of_length_eq_zero (by omega)
    have untouched : crashed = d := by
      show apply ((commitWrites codec log cache).take k) d = d
      unfold commitWrites
      rw [if_neg started,List.take_nil]
      rfl
    refine ⟨by simp [empty],?_,fun j => crashed_idempotent fits outside (.inl (by rw [untouched,clean])) j⟩
    intro b _ home
    rw [untouched]
    exact recover_other (by rw [clean]; simp) (home_away home fits).1

theorem commit_crash_atomic_words :
    logheaderWords.headOf ((fun _ _ => 0 : Nat → Nat → Nat) 2) = [] ∧ Outside 2 30 [40,41] ∧
      [40,41].length < 30 ∧ [40,41].length ≤ LOGSIZE ∧
    let log : Log := ⟨2,30,1,false,[40,41]⟩
    let crashed := apply ((commitWrites logheaderWords log fun _ _ => 7).take 3) fun _ _ => 0
    (∀ b ∈ log.lh, recoverFromLog logheaderWords log.start crashed b =
      if 3 ≤ log.lh.length then (fun _ _ => 0) b else (fun _ _ => 7) b) ∧
    (∀ b, b ∉ log.lh → (b < log.start ∨ log.start + log.size ≤ b) →
      recoverFromLog logheaderWords log.start crashed b = (fun _ _ => 0) b) ∧
    ∀ j, recoverFromLog logheaderWords log.start
      (apply ((recoverWrites logheaderWords log.start crashed).take j) crashed) =
        recoverFromLog logheaderWords log.start crashed :=
  have clean : logheaderWords.headOf ((fun _ _ => 0 : Nat → Nat → Nat) 2) = [] := rfl
  have outside : Outside 2 30 [40,41] := by unfold Outside; decide
  ⟨clean,outside,by decide,by decide,
    commit_crash_atomic logheaderWords ⟨2,30,1,false,[40,41]⟩ (fun _ _ => 7) (fun _ _ => 0)
      clean outside (by decide) (by decide) 3⟩

end Xv6.FsLog
