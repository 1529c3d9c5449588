import Mathlib.Data.Fintype.Fin
import Xv6.Param
import Xv6.Lib.Dlist
import Xv6.Lib.Runs

namespace Xv6

namespace Bio

open Dlist

-- kernel/bio.c. A buffer is its index in bcache.buf, and none is bcache.head.
abbrev Buf := Fin NBUF

abbrev Node := Option Buf

-- The fields of struct buf the bookkeeping reads; the sleep lock's holder is a reference in Uses.
structure Bcache where
  links : Links Node
  dev : Buf → Nat
  blockno : Buf → Nat
  valid : Buf → Bool
  refcnt : Buf → Nat

-- b->dev == dev && b->blockno == blockno
def Bcache.holds (c : Bcache) (dev blockno : Nat) (b : Buf) : Bool := c.dev b == dev && c.blockno b == blockno

def Bcache.cached (c : Bcache) (dev blockno : Nat) : Node → Bool
  | none => false
  | some b => c.holds dev blockno b

def Bcache.free (c : Bcache) (b : Buf) : Bool := c.refcnt b == 0

def Bcache.unused (c : Bcache) : Node → Bool
  | none => false
  | some b => c.free b

-- b->refcnt++ and b->refcnt--
def Bcache.retain (c : Bcache) (b : Buf) : Bcache := {c with refcnt := Function.update c.refcnt b (c.refcnt b + 1)}

def Bcache.release (c : Bcache) (b : Buf) : Bcache := {c with refcnt := Function.update c.refcnt b (c.refcnt b - 1)}

-- b->valid = 1
def Bcache.validate (c : Bcache) (b : Buf) : Bcache := {c with valid := Function.update c.valid b true}

-- bget's second loop taking b for dev and blockno.
def Bcache.recycle (c : Bcache) (b : Buf) (dev blockno : Nat) : Bcache :=
  {c with
    dev := Function.update c.dev b dev
    blockno := Function.update c.blockno b blockno
    valid := Function.update c.valid b false
    refcnt := Function.update c.refcnt b 1}

-- binit on the zeroed static bcache.
def binit : Bcache :=
  let head : Links Node := ⟨fun _ => none,fun _ => none⟩
  {links := (List.finRange NBUF).foldl (fun L b => L.pushFront none (some b)) head
   dev := fun _ => 0
   blockno := fun _ => 0
   valid := fun _ => false
   refcnt := fun _ => 0}

def bget (dev blockno : Nat) (c : Bcache) : Except String (Buf × Bcache) :=
  -- Is the block already cached?
  match scan c.links.next none (c.cached dev blockno) (NBUF + 1) (c.links.next none) with
  | some (some b) => .ok (b,c.retain b)
  | _ =>
    -- Not cached. Recycle the least recently used (LRU) unused buffer.
    match scan c.links.prev none c.unused (NBUF + 1) (c.links.prev none) with
    | some (some b) => .ok (b,c.recycle b dev blockno)
    | _ => .error "bget: no buffers"

def bread (dev blockno : Nat) (c : Bcache) : Except String (Buf × Bcache) := do
  let (b,c) ← bget dev blockno c
  if !c.valid b then
    -- virtio_disk_rw(b, 0) fills data, which is not modelled
    pure (b,c.validate b)
  else pure (b,c)

-- After holdingsleep(&b->lock); releasesleep(&b->lock).
def brelse (b : Buf) (c : Bcache) : Bcache :=
  let c := c.release b
  if c.refcnt b = 0 then
    {c with links := (c.links.unlink (some b)).pushFront none (some b)}
  else c

def bpin (b : Buf) (c : Bcache) : Bcache := c.retain b

def bunpin (b : Buf) (c : Bcache) : Bcache := c.release b

@[simp] theorem Bcache.retain_links (c : Bcache) (b : Buf) : (c.retain b).links = c.links := rfl
@[simp] theorem Bcache.retain_dev (c : Bcache) (b : Buf) : (c.retain b).dev = c.dev := rfl
@[simp] theorem Bcache.retain_blockno (c : Bcache) (b : Buf) : (c.retain b).blockno = c.blockno := rfl
@[simp] theorem Bcache.retain_valid (c : Bcache) (b : Buf) : (c.retain b).valid = c.valid := rfl
@[simp] theorem Bcache.retain_refcnt (c : Bcache) (b : Buf) :
    (c.retain b).refcnt = Function.update c.refcnt b (c.refcnt b + 1) := rfl
@[simp] theorem Bcache.release_links (c : Bcache) (b : Buf) : (c.release b).links = c.links := rfl
@[simp] theorem Bcache.release_dev (c : Bcache) (b : Buf) : (c.release b).dev = c.dev := rfl
@[simp] theorem Bcache.release_blockno (c : Bcache) (b : Buf) : (c.release b).blockno = c.blockno := rfl
@[simp] theorem Bcache.release_valid (c : Bcache) (b : Buf) : (c.release b).valid = c.valid := rfl
@[simp] theorem Bcache.release_refcnt (c : Bcache) (b : Buf) :
    (c.release b).refcnt = Function.update c.refcnt b (c.refcnt b - 1) := rfl
@[simp] theorem Bcache.recycle_links (c : Bcache) (b : Buf) (dev blockno : Nat) :
    (c.recycle b dev blockno).links = c.links := rfl
@[simp] theorem Bcache.recycle_dev (c : Bcache) (b : Buf) (dev blockno : Nat) :
    (c.recycle b dev blockno).dev = Function.update c.dev b dev := rfl
@[simp] theorem Bcache.recycle_blockno (c : Bcache) (b : Buf) (dev blockno : Nat) :
    (c.recycle b dev blockno).blockno = Function.update c.blockno b blockno := rfl
@[simp] theorem Bcache.recycle_valid (c : Bcache) (b : Buf) (dev blockno : Nat) :
    (c.recycle b dev blockno).valid = Function.update c.valid b false := rfl
@[simp] theorem Bcache.recycle_refcnt (c : Bcache) (b : Buf) (dev blockno : Nat) :
    (c.recycle b dev blockno).refcnt = Function.update c.refcnt b 1 := rfl
@[simp] theorem Bcache.validate_links (c : Bcache) (b : Buf) : (c.validate b).links = c.links := rfl
@[simp] theorem Bcache.validate_dev (c : Bcache) (b : Buf) : (c.validate b).dev = c.dev := rfl
@[simp] theorem Bcache.validate_blockno (c : Bcache) (b : Buf) : (c.validate b).blockno = c.blockno := rfl
@[simp] theorem Bcache.validate_valid (c : Bcache) (b : Buf) :
    (c.validate b).valid = Function.update c.valid b true := rfl
@[simp] theorem Bcache.validate_refcnt (c : Bcache) (b : Buf) : (c.validate b).refcnt = c.refcnt := rfl

theorem Bcache.holds_iff {c : Bcache} {dev blockno : Nat} {b : Buf} :
    c.holds dev blockno b = true ↔ c.dev b = dev ∧ c.blockno b = blockno := by
  simp [Bcache.holds]

@[simp] theorem Bcache.holds_self (c : Bcache) (b : Buf) : c.holds (c.dev b) (c.blockno b) b = true := by
  simp [Bcache.holds]

-- Who holds what: the references bget handed out, and log_write's pins; refcnt counts them.
structure Uses where
  held : Buf → Nat
  pinned : Buf → Nat

def idle : Uses := ⟨fun _ => 0,fun _ => 0⟩

inductive Call where
  | bread (dev blockno : Nat)
  | brelse (b : Buf)
  | bpin (b : Buf)
  | bunpin (b : Buf)

-- One call of the interface by any process, bcache.lock held throughout.
def step (c : Bcache) (u : Uses) : Call → Except String (Bcache × Uses)
  | .bread dev blockno => do
    let (b,c) ← bread dev blockno c
    pure (c,{u with held := Function.update u.held b (u.held b + 1)})
  | .brelse b =>
    -- holdingsleep(&b->lock): the caller is a holder of b
    if u.held b = 0 then .error "brelse"
    else .ok (brelse b c,{u with held := Function.update u.held b (u.held b - 1)})
  | .bpin b => .ok (bpin b c,{u with pinned := Function.update u.pinned b (u.pinned b + 1)})
  | .bunpin b => .ok (bunpin b c,{u with pinned := Function.update u.pinned b (u.pinned b - 1)})

-- install_trans unpins only what log_write pinned.
def Call.Allowed (u : Uses) : Call → Prop
  | .bunpin b => 0 < u.pinned b
  | _ => True

def Steps (s : Bcache × Uses) (call : Call) (t : Bcache × Uses) : Prop :=
  call.Allowed s.2 ∧ step s.1 s.2 call = .ok t

-- The cache as its buffers in LRU order, head.next first: each once, refcnt counting holders and
-- pins, and the lookup for a valid buffer's block stopping at it.
structure Wf (c : Bcache) (u : Uses) (order : List Buf) : Prop where
  cycle : Cycle c.links none (order.map some)
  complete : ∀ b, b ∈ order
  counted : ∀ b, c.refcnt b = u.held b + u.pinned b
  held_valid : ∀ b, 0 < u.held b → c.valid b = true
  found : ∀ b, c.valid b = true → order.find? (c.holds (c.dev b) (c.blockno b)) = some b

section Wf

variable {c : Bcache} {u : Uses} {order : List Buf} {dev blockno : Nat} {b : Buf}

theorem Wf.nodup (wf : Wf c u order) : order.Nodup :=
  (List.nodup_cons.mp wf.cycle.nodup).2.of_map some

theorem Wf.length (wf : Wf c u order) : order.length < NBUF + 1 := by
  have bound := wf.nodup.length_le_card
  rw [Fintype.card_fin] at bound
  omega

theorem Wf.lookup (wf : Wf c u order) (dev blockno : Nat) :
    scan c.links.next none (c.cached dev blockno) (NBUF + 1) (c.links.next none) =
      (order.find? (c.holds dev blockno)).map some := by
  rw [wf.cycle.scan_next _ (by simpa using wf.length),List.find?_map]
  rfl

theorem Wf.victim (wf : Wf c u order) :
    scan c.links.prev none c.unused (NBUF + 1) (c.links.prev none) = (order.reverse.find? c.free).map some := by
  rw [wf.cycle.scan_prev _ (by simpa using wf.length),← List.map_reverse,List.find?_map]
  rfl

theorem Wf.unique (wf : Wf c u order) {b b' : Buf} (valid : c.valid b = true) (valid' : c.valid b' = true)
    (dev : c.dev b = c.dev b') (blockno : c.blockno b = c.blockno b') : b = b' := by
  have first := wf.found b valid
  rw [dev,blockno,wf.found b' valid'] at first
  exact (Option.some.inj first).symm

theorem bget_hit (wf : Wf c u order) (hit : order.find? (c.holds dev blockno) = some b) :
    bget dev blockno c = .ok (b,c.retain b) := by
  simp [bget,wf.lookup,hit]

theorem bget_recycle (wf : Wf c u order) (miss : order.find? (c.holds dev blockno) = none)
    (victim : order.reverse.find? c.free = some b) : bget dev blockno c = .ok (b,c.recycle b dev blockno) := by
  simp [bget,wf.lookup,wf.victim,miss,victim]

theorem bget_full (wf : Wf c u order) (miss : order.find? (c.holds dev blockno) = none)
    (busy : order.reverse.find? c.free = none) : bget dev blockno c = .error "bget: no buffers" := by
  simp [bget,wf.lookup,wf.victim,miss,busy]

theorem bread_of_bget {c' : Bcache} (got : bget dev blockno c = .ok (b,c')) :
    bread dev blockno c = .ok (b,c'.validate b) := by
  by_cases valid : c'.valid b = true
  · have same : c'.validate b = c' := by
      rw [Bcache.validate,← valid,Function.update_eq_self]
    simp [bread,got,bind,Except.bind,valid,same,pure,Except.pure]
  · simp [bread,got,bind,Except.bind,valid,pure,Except.pure]

theorem Wf.bread_cases (wf : Wf c u order) {c' : Bcache} (got : bread dev blockno c = .ok (b,c')) :
    (order.find? (c.holds dev blockno) = some b ∧ c' = (c.retain b).validate b) ∨
    (order.find? (c.holds dev blockno) = none ∧ order.reverse.find? c.free = some b ∧
      c' = (c.recycle b dev blockno).validate b) := by
  cases hit : order.find? (c.holds dev blockno) with
  | some b' =>
    rw [bread_of_bget (bget_hit wf hit)] at got
    obtain ⟨rfl,rfl⟩ := Prod.mk.inj (Except.ok.inj got)
    exact .inl ⟨rfl,rfl⟩
  | none =>
    cases victim : order.reverse.find? c.free with
    | none => simp [bread,bget_full wf hit victim,bind,Except.bind] at got
    | some b' =>
      rw [bread_of_bget (bget_recycle wf hit victim)] at got
      obtain ⟨rfl,rfl⟩ := Prod.mk.inj (Except.ok.inj got)
      exact .inr ⟨rfl,rfl,rfl⟩

theorem Wf.bread_hit (wf : Wf c u order) (hit : order.find? (c.holds dev blockno) = some b) :
    Wf ((c.retain b).validate b)
      {u with held := Function.update u.held b (u.held b + 1)} order := by
  obtain ⟨here,-⟩ := Bcache.holds_iff.mp (List.find?_some hit)
  refine ⟨wf.cycle,wf.complete,fun x => ?_,fun x holder => ?_,fun x valid => ?_⟩
  · by_cases same : x = b
    · subst same
      simp [wf.counted x]
      omega
    · simp [same,wf.counted x]
  · by_cases same : x = b
    · simp [same]
    · simp only [Bcache.validate_valid,Bcache.retain_valid,Function.update_of_ne same] at holder ⊢
      exact wf.held_valid x holder
  · show order.find? (c.holds (c.dev x) (c.blockno x)) = some x
    by_cases same : x = b
    · subst same
      rw [here,(Bcache.holds_iff.mp (List.find?_some hit)).2]
      exact hit
    · simp only [Bcache.validate_valid,Bcache.retain_valid,Function.update_of_ne same] at valid
      exact wf.found x valid

theorem Wf.bread_recycle (wf : Wf c u order) (miss : order.find? (c.holds dev blockno) = none)
    (victim : order.reverse.find? c.free = some b) :
    Wf ((c.recycle b dev blockno).validate b)
      {u with held := Function.update u.held b (u.held b + 1)} order := by
  have free : c.refcnt b = 0 := by simpa [Bcache.free] using List.find?_some victim
  have absent : ∀ y, c.holds dev blockno y = false := fun y => by
    simpa using List.find?_eq_none.mp miss y (wf.complete y)
  refine ⟨wf.cycle,wf.complete,fun x => ?_,fun x holder => ?_,fun x valid => ?_⟩
  · by_cases same : x = b
    · subst same
      have := wf.counted x
      simp
      omega
    · simp [same,wf.counted x]
  · by_cases same : x = b
    · simp [same]
    · simp only [Bcache.validate_valid,Bcache.recycle_valid,Function.update_of_ne same] at holder ⊢
      exact wf.held_valid x holder
  · by_cases same : x = b
    · subst same
      simp only [Bcache.validate_dev,Bcache.validate_blockno,Bcache.recycle_dev,Bcache.recycle_blockno,
        Function.update_self]
      apply find?_of_unique (wf.complete x) (by simp [Bcache.holds])
      intro y _ hit
      by_contra other
      have old := absent y
      simp [Bcache.holds,Bcache.validate,Function.update_of_ne other] at hit old
      exact old hit.1 hit.2
    · simp only [Bcache.validate_valid,Bcache.recycle_valid,Function.update_of_ne same] at valid
      simp only [Bcache.validate_dev,Bcache.validate_blockno,Bcache.recycle_dev,Bcache.recycle_blockno,
        Function.update_of_ne same]
      apply find?_retest (wf.found x valid) same
      · have old := absent x
        simp [Bcache.holds] at old ⊢
        intro dev' blockno'
        exact old dev'.symm blockno'.symm
      · intro z other
        simp [Bcache.holds,Bcache.validate,Function.update_of_ne other]

theorem brelse_keep (busy : c.refcnt b - 1 ≠ 0) : brelse b c = c.release b := by
  simp [brelse,busy]

theorem brelse_front (last : c.refcnt b - 1 = 0) :
    brelse b c = {c.release b with links := (c.links.unlink (some b)).pushFront none (some b)} := by
  simp [brelse,last]

theorem Wf.counted_release (wf : Wf c u order) (holder : 0 < u.held b) (x : Buf) :
    (c.release b).refcnt x = Function.update u.held b (u.held b - 1) x + u.pinned x := by
  by_cases same : x = b
  · subst same
    simp [wf.counted x]
    omega
  · simp [same,wf.counted x]

theorem Wf.valid_release (wf : Wf c u order) (x : Buf) (holder : 0 < Function.update u.held b (u.held b - 1) x) :
    c.valid x = true := by
  by_cases same : x = b
  · subst same
    exact wf.held_valid x (by simp at holder; omega)
  · rw [Function.update_of_ne same] at holder
    exact wf.held_valid x holder

theorem Wf.brelse_busy (wf : Wf c u order) (holder : 0 < u.held b) (busy : c.refcnt b - 1 ≠ 0) :
    Wf (brelse b c) {u with held := Function.update u.held b (u.held b - 1)} order := by
  rw [brelse_keep busy]
  exact ⟨wf.cycle,wf.complete,wf.counted_release holder,wf.valid_release,wf.found⟩

theorem Wf.brelse_last (wf : Wf c u order) (holder : 0 < u.held b) (last : c.refcnt b - 1 = 0) :
    Wf (brelse b c) {u with held := Function.update u.held b (u.held b - 1)} (b :: order.erase b) := by
  obtain ⟨l₁,l₂,split⟩ := List.append_of_mem (wf.complete b)
  have before : b ∉ l₁ := by
    have nodup := wf.nodup
    rw [split] at nodup
    exact fun mem => List.disjoint_of_nodup_append nodup mem List.mem_cons_self
  have erased : order.erase b = l₁ ++ l₂ := by
    rw [split,List.erase_append_right _ before,List.erase_cons_head]
  rw [brelse_front last]
  refine ⟨?_,fun x => ?_,wf.counted_release holder,wf.valid_release,fun x valid => ?_⟩
  · have cycle := wf.cycle
    rw [split,List.map_append,List.map_cons] at cycle
    rw [erased,List.map_cons,List.map_append]
    exact cycle.moveFront
  · by_cases same : x = b
    · simp [same]
    · exact List.mem_cons_of_mem _ ((List.mem_erase_of_ne same).mpr (wf.complete x))
  · show (b :: order.erase b).find? (c.holds (c.dev x) (c.blockno x)) = some x
    by_cases same : x = b
    · subst same
      simp
    · have miss : c.holds (c.dev x) (c.blockno x) b = false := by
        by_contra hit
        obtain ⟨dev,blockno⟩ := Bcache.holds_iff.mp (by simpa using hit)
        exact same (wf.unique valid (wf.held_valid b holder) dev.symm blockno.symm)
      rw [List.find?_cons,miss,find?_erase miss]
      exact wf.found x valid

theorem Wf.after_bpin (wf : Wf c u order) :
    Wf (bpin b c) {u with pinned := Function.update u.pinned b (u.pinned b + 1)} order := by
  refine ⟨wf.cycle,wf.complete,fun x => ?_,wf.held_valid,wf.found⟩
  by_cases same : x = b
  · subst same
    simp [bpin,wf.counted x]
    omega
  · simp [bpin,same,wf.counted x]

theorem Wf.after_bunpin (wf : Wf c u order) (pinned : 0 < u.pinned b) :
    Wf (bunpin b c) {u with pinned := Function.update u.pinned b (u.pinned b - 1)} order := by
  refine ⟨wf.cycle,wf.complete,fun x => ?_,wf.held_valid,wf.found⟩
  by_cases same : x = b
  · subst same
    simp [bunpin,wf.counted x]
    omega
  · simp [bunpin,same,wf.counted x]

theorem brelse_dev (b : Buf) (c : Bcache) : (brelse b c).dev = c.dev := by
  by_cases last : c.refcnt b - 1 = 0
  · rw [brelse_front last]; rfl
  · rw [brelse_keep last]; rfl

theorem brelse_blockno (b : Buf) (c : Bcache) : (brelse b c).blockno = c.blockno := by
  by_cases last : c.refcnt b - 1 = 0
  · rw [brelse_front last]; rfl
  · rw [brelse_keep last]; rfl

end Wf

section Runs

variable {s t : Bcache × Uses} {call : Call} {order : List Buf} {dev blockno : Nat} {b : Buf}

theorem step_bread {c : Bcache} {u : Uses} (ran : step c u (.bread dev blockno) = .ok t) :
    ∃ b c', bread dev blockno c = .ok (b,c') ∧ t = (c',{u with held := Function.update u.held b (u.held b + 1)}) := by
  cases got : bread dev blockno c with
  | error msg => simp [step,got,bind,Except.bind] at ran
  | ok r =>
    obtain ⟨b,c'⟩ := r
    simp only [step,got,bind,Except.bind,pure,Except.pure,Except.ok.injEq] at ran
    exact ⟨b,c',rfl,ran.symm⟩

theorem step_brelse {c : Bcache} {u : Uses} (ran : step c u (.brelse b) = .ok t) :
    0 < u.held b ∧ t = (brelse b c,{u with held := Function.update u.held b (u.held b - 1)}) := by
  by_cases holder : u.held b = 0
  · simp [step,holder] at ran
  · simp only [step,holder,if_false,Except.ok.injEq] at ran
    exact ⟨Nat.pos_of_ne_zero holder,ran.symm⟩

theorem Wf.preserved (wf : Wf s.1 s.2 order) (steps : Steps s call t) : ∃ order', Wf t.1 t.2 order' := by
  obtain ⟨allowed,ran⟩ := steps
  cases call with
  | bread dev blockno =>
    obtain ⟨b,c',got,rfl⟩ := step_bread ran
    rcases wf.bread_cases got with ⟨hit,rfl⟩ | ⟨miss,victim,rfl⟩
    · exact ⟨order,wf.bread_hit hit⟩
    · exact ⟨order,wf.bread_recycle miss victim⟩
  | brelse b =>
    obtain ⟨holder,rfl⟩ := step_brelse ran
    by_cases last : s.1.refcnt b - 1 = 0
    · exact ⟨_,wf.brelse_last holder last⟩
    · exact ⟨_,wf.brelse_busy holder last⟩
  | bpin b =>
    simp only [Bio.step,Except.ok.injEq] at ran
    subst ran
    exact ⟨_,wf.after_bpin⟩
  | bunpin b =>
    simp only [Bio.step,Except.ok.injEq] at ran
    subst ran
    exact ⟨_,wf.after_bunpin allowed⟩

theorem wf_binit : Wf binit idle (List.finRange NBUF).reverse := by
  refine ⟨?_,fun b => by simp,fun b => rfl,fun b holder => absurd holder (Nat.lt_irrefl 0),fun b valid => ?_⟩
  · have start : Cycle (⟨fun _ => none,fun _ => none⟩ : Links Node) none [] := Cycle.single rfl rfl
    have cycle : Cycle (((List.finRange NBUF).map some).foldl (fun L b => L.pushFront none b)
        ⟨fun _ => none,fun _ => none⟩) none (((List.finRange NBUF).map some).reverse ++ []) :=
      start.pushAll ((List.nodup_finRange NBUF).map (Option.some_injective _)) (by simp)
    simpa [binit,List.foldl_map,List.map_reverse] using cycle
  · cases valid

theorem reached_wf {calls : List Call} (run : Transition.Runs Steps (binit,idle) calls s) :
    ∃ order, Wf s.1 s.2 order := by
  apply run.invariant _ ⟨_,wf_binit⟩
  rintro s' call t ⟨order,wf⟩ steps
  exact wf.preserved steps

theorem Wf.busy_kept (wf : Wf s.1 s.2 order) (steps : Steps s call t) (busy : 0 < s.1.refcnt b) :
    t.1.dev b = s.1.dev b ∧ t.1.blockno b = s.1.blockno b := by
  obtain ⟨allowed,ran⟩ := steps
  cases call with
  | bread dev blockno =>
    obtain ⟨b',c',got,rfl⟩ := step_bread ran
    rcases wf.bread_cases got with ⟨-,rfl⟩ | ⟨-,victim,rfl⟩
    · exact ⟨rfl,rfl⟩
    · have free : s.1.refcnt b' = 0 := by simpa [Bcache.free] using List.find?_some victim
      have other : b ≠ b' := fun same => by rw [same,free] at busy; exact Nat.lt_irrefl 0 busy
      simp [Function.update_of_ne other]
  | brelse b' =>
    obtain ⟨-,rfl⟩ := step_brelse ran
    exact ⟨congrFun (brelse_dev b' s.1) b,congrFun (brelse_blockno b' s.1) b⟩
  | bpin b' =>
    simp only [Bio.step,Except.ok.injEq] at ran
    subst ran
    exact ⟨rfl,rfl⟩
  | bunpin b' =>
    simp only [Bio.step,Except.ok.injEq] at ran
    subst ran
    exact ⟨rfl,rfl⟩

-- The calls without a pin's precondition, as a function a run can evaluate.
def okStep (s : Bcache × Uses) : Call → Option (Bcache × Uses)
  | .bunpin _ => none
  | call =>
    match step s.1 s.2 call with
    | .ok t => some t
    | .error _ => none

theorem steps_of_okStep {s t : Bcache × Uses} {call : Call} (moved : okStep s call = some t) : Steps s call t := by
  cases call with
  | bunpin b => cases moved
  | bread dev blockno | brelse b | bpin b =>
    refine ⟨trivial,?_⟩
    simp only [okStep] at moved
    split at moved
    · cases moved
      assumption
    · cases moved

theorem runs_of_run {calls : List Call} (ran : (Transition.run okStep (binit,idle) calls).isSome) :
    Transition.Runs Steps (binit,idle) calls ((Transition.run okStep (binit,idle) calls).getD (binit,idle)) := by
  obtain ⟨t,taken⟩ := Option.isSome_iff_exists.mp ran
  rw [taken,Option.getD_some]
  exact (Transition.run_exact.mp taken).mono fun _ _ _ => steps_of_okStep

theorem Wf.brelse_to_front (wf : Wf s.1 s.2 order) (steps : Steps s (.brelse b) t) (last : t.1.refcnt b = 0) :
    t.1.links.next none = some b ∧ Cycle t.1.links none ((b :: order.erase b).map some) := by
  obtain ⟨holder,rfl⟩ := step_brelse steps.2
  have drop : s.1.refcnt b - 1 = 0 := by
    by_cases freed : s.1.refcnt b - 1 = 0
    · exact freed
    · simp [brelse_keep freed] at last
      exact absurd last freed
  have cycle := (wf.brelse_last holder drop).cycle
  exact ⟨cycle.chain.1,cycle⟩

end Runs

theorem bcache_one_buffer_per_block {calls : List Call} {s : Bcache × Uses}
    (run : Transition.Runs Steps (binit,idle) calls s) :
    (∃ order : List Buf, Cycle s.1.links none (order.map some) ∧ ∀ b, order.count b = 1) ∧
    (∀ b b', s.1.valid b = true → s.1.valid b' = true → s.1.dev b = s.1.dev b' →
      s.1.blockno b = s.1.blockno b' → b = b') ∧
    (∀ b, s.1.refcnt b = s.2.held b + s.2.pinned b) ∧
    (∀ call t b, Steps s call t → 0 < s.1.refcnt b → t.1.dev b = s.1.dev b ∧ t.1.blockno b = s.1.blockno b) ∧
    (∀ b t (order : List Buf), Steps s (.brelse b) t → t.1.refcnt b = 0 → Cycle s.1.links none (order.map some) →
      t.1.links.next none = some b ∧ Cycle t.1.links none ((b :: order.erase b).map some)) := by
  obtain ⟨order,wf⟩ := reached_wf run
  refine ⟨⟨order,wf.cycle,fun b => List.count_eq_one_of_mem wf.nodup (wf.complete b)⟩,
    fun b b' => wf.unique,wf.counted,fun call t b steps busy => wf.busy_kept steps busy,?_⟩
  intro b t order' steps last cycle
  -- the links fix the order, so order' is the list wf walks
  have walked : order'.map some = order.map some :=
    cycle.chain.determined wf.cycle.chain (List.nodup_cons.mp cycle.nodup).1 (List.nodup_cons.mp wf.cycle.nodup).1
  rw [List.map_injective_iff.mpr (Option.some_injective _) walked]
  exact wf.brelse_to_front steps last

-- Blocks 1 and 2 read into buffers 0 and 1, buffer 0 released to the front,
-- block 1 read again from it, and released again.
def hitCalls : List Call :=
  [.bread ROOTDEV 1,.bread ROOTDEV 2,.brelse ⟨0,by decide⟩,.bread ROOTDEV 1,.brelse ⟨0,by decide⟩]

def hitEnd : Bcache × Uses := (Transition.run okStep (binit,idle) hitCalls).getD (binit,idle)

-- The second read of block 1 is a hit, and buffer 2, next for reuse, still holds nothing.
theorem bread_root_one_buffer_per_block : Transition.Runs Steps (binit,idle) hitCalls hitEnd ∧
    (hitEnd.1.blockno ⟨0,by decide⟩ = 1 ∧ hitEnd.1.refcnt ⟨0,by decide⟩ = 0 ∧ hitEnd.1.refcnt ⟨1,by decide⟩ = 1 ∧
      hitEnd.1.valid ⟨2,by decide⟩ = false) ∧
    ((∃ order : List Buf, Cycle hitEnd.1.links none (order.map some) ∧ ∀ b, order.count b = 1) ∧
    (∀ b b', hitEnd.1.valid b = true → hitEnd.1.valid b' = true → hitEnd.1.dev b = hitEnd.1.dev b' →
      hitEnd.1.blockno b = hitEnd.1.blockno b' → b = b') ∧
    (∀ b, hitEnd.1.refcnt b = hitEnd.2.held b + hitEnd.2.pinned b) ∧
    (∀ call t b, Steps hitEnd call t → 0 < hitEnd.1.refcnt b →
      t.1.dev b = hitEnd.1.dev b ∧ t.1.blockno b = hitEnd.1.blockno b) ∧
    (∀ b t (order : List Buf), Steps hitEnd (.brelse b) t → t.1.refcnt b = 0 → Cycle hitEnd.1.links none (order.map some) →
      t.1.links.next none = some b ∧ Cycle t.1.links none ((b :: order.erase b).map some))) := by
  have path := @runs_of_run hitCalls (by decide +kernel)
  exact ⟨path,by decide +kernel,bcache_one_buffer_per_block path⟩

theorem binit_buffers_share_block : Transition.Runs Steps (binit,idle) [] (binit,idle) ∧
    ∃ b b' : Buf, b ≠ b' ∧ binit.dev b = binit.dev b' ∧ binit.blockno b = binit.blockno b' :=
  ⟨.nil,⟨0,by decide⟩,⟨1,by decide⟩,by decide,rfl,rfl⟩

end Bio

end Xv6
