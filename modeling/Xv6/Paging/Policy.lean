import Mathlib
import Xv6.Paging.Meta
import Xv6.Lib.Scan
import Xv6.Lib.Fifo

namespace Xv6

open Frame

-- kernel/vm.c. The aging step after each time slice under NFUA and LAPA: shift right, then PTE_A
-- into the top bit.
def update_access_counter (p : Fin NPROC) : KM Unit :=
  (List.finRange MAX_PYSC_PAGES).forM fun i => do
    let pr ← getProc p
    if (pr.memoryPages i).state = .P_USED then
      setProc p (pr.setMemoryPage i {pr.memoryPages i with accessCount := (pr.memoryPages i).accessCount >>> 1})
      let pte ← walk pr.pagetable (pr.memoryPages i).userPageVA false
      let entry ← loadPte pte
      if has entry PTE_A then
        modifyProc p fun pr => pr.setMemoryPage i
          {pr.memoryPages i with accessCount := (pr.memoryPages i).accessCount ||| 0x80000000}
        storePte pte (entry &&& ~~~PTE_A)

-- while (access_count): a uint halves to 0 in at most 32 passes.
def num_of_ones_loop : Nat → UInt32 → UInt32 → UInt32
  | 0,_,count => count
  | fuel + 1,x,count =>
    if x = 0 then count else num_of_ones_loop fuel (x / 2) (if x % 2 ≠ 0 then count + 1 else count)

def num_of_ones (access_count : UInt32) : UInt32 := num_of_ones_loop 32 access_count 0

def popcount (x : UInt32) : Nat := (List.range 32).countP x.toNat.testBit

theorem countP_testBit_succ (n x : Nat) :
    (List.range (n + 1)).countP x.testBit = x % 2 + (List.range n).countP (x / 2).testBit := by
  rw [List.range_succ_eq_map,List.countP_cons,List.countP_map]
  have shifted : (x.testBit ∘ Nat.succ) = (x / 2).testBit := by
    funext v
    simp [Function.comp,Nat.testBit_add_one]
  rw [shifted]
  have low : (if x.testBit 0 = true then 1 else 0) = x % 2 := by
    rw [Nat.testBit_zero]
    rcases Nat.mod_two_eq_zero_or_one x with parity | parity <;> simp [parity]
  omega

theorem num_of_ones_loop_toNat {fuel : Nat} {x count : UInt32} (fits : x.toNat < 2 ^ fuel)
    (room : count.toNat + fuel < 2 ^ 32) :
    (num_of_ones_loop fuel x count).toNat = count.toNat + (List.range fuel).countP x.toNat.testBit := by
  induction fuel generalizing x count with
  | zero =>
    have zero : x.toNat = 0 := by simpa using fits
    simp [num_of_ones_loop,zero]
  | succ fuel ih =>
    by_cases zero : x = 0
    · subst zero
      simp [num_of_ones_loop]
    · have half : (x / 2).toNat = x.toNat / 2 := UInt32.toNat_div x 2
      have bit : (x % 2 ≠ 0) ↔ x.toNat % 2 = 1 := by
        rw [ne_eq,← UInt32.toNat_inj,UInt32.toNat_mod]
        simp only [UInt32.reduceToNat]
        omega
      have counted : (if x % 2 ≠ 0 then count + 1 else count).toNat = count.toNat + x.toNat % 2 := by
        by_cases odd : x % 2 ≠ 0
        · rw [if_pos odd,UInt32.toNat_add,UInt32.toNat_one,bit.mp odd]
          omega
        · rw [if_neg odd]
          have even := mt bit.mpr odd
          omega
      have halved : (x / 2).toNat < 2 ^ fuel := by
        rw [half]
        rw [Nat.pow_succ] at fits
        omega
      rw [num_of_ones_loop,if_neg zero,ih halved (by rw [counted]; omega),counted,half,countP_testBit_succ]
      omega

theorem num_of_ones_eq_popcount (x : UInt32) : (num_of_ones x).toNat = popcount x := by
  rw [num_of_ones,num_of_ones_loop_toNat x.toNat_lt (by simp),popcount]
  simp

theorem popcount_le (x : UInt32) : popcount x ≤ 32 := by
  rw [popcount]
  simpa using List.countP_le_length (l := List.range 32) (p := fun i => x.toNat.testBit i)

-- One pass of SCFIFO's recheck loop: the least page_order, the last such slot on ties (<=).
def scfifoPick (pr : Proc) : Option (Fin MAX_PYSC_PAGES) :=
  ((List.finRange MAX_PYSC_PAGES).foldl (fun (best : Option (Fin MAX_PYSC_PAGES) × UInt64) i =>
      let m := pr.memoryPages i
      if m.state = .P_USED && m.pageOrder.toUInt64 ≤ best.2 then (some i,m.pageOrder.toUInt64) else best)
    (none,0xffffffff)).1

-- Each pass that goes back to recheck clears one PTE_A, so MAX_PYSC_PAGES + 1 passes suffice.
def SCFIFO_loop (p : Fin NPROC) : Nat → KM (Option (Fin MAX_PYSC_PAGES))
  | 0 => return scfifoPick (← getProc p)
  | fuel + 1 => do
    let pr ← getProc p
    let index := scfifoPick pr
    let i ← memorySlot index
    let pte ← walk pr.pagetable (pr.memoryPages i).userPageVA false
    let entry ← loadPte pte
    if has entry PTE_A then
      storePte pte (entry &&& ~~~PTE_A)
      modifyProc p fun pr =>
        {pr.setMemoryPage i {pr.memoryPages i with pageOrder := pr.pageOrderCounter.toUInt32} with
          pageOrderCounter := pr.pageOrderCounter + 1}
      SCFIFO_loop p fuel
    else
      return index

def SCFIFO_algorithm : KM (Option (Fin MAX_PYSC_PAGES)) := do
  SCFIFO_loop (← myproc) (MAX_PYSC_PAGES + 1)

-- The queue SCFIFO is meant to keep, the reference victim being Fifo.secondChance over it.
def fifoQueue (pr : Proc) : List (Fin MAX_PYSC_PAGES) :=
  ((List.finRange MAX_PYSC_PAGES).filter fun i => (pr.memoryPages i).state = .P_USED).insertionSort
    fun i j => (pr.memoryPages i).pageOrder ≤ (pr.memoryPages j).pageOrder

def accessedIn (k : Kernel) (pr : Proc) (i : Fin MAX_PYSC_PAGES) : Bool :=
  has (k.words (lookup k.words pr.pagetable (pr.memoryPages i).userPageVA)) PTE_A

def NFUA_algorithm : KM (Option (Fin MAX_PYSC_PAGES)) := do
  let pr ← getProc (← myproc)
  return ((List.finRange MAX_PYSC_PAGES).foldl (fun (best : Option (Fin MAX_PYSC_PAGES) × UInt32) i =>
      let m := pr.memoryPages i
      if m.state = .P_USED && m.accessCount < best.2 then (some i,m.accessCount) else best)
    (none,0xFFFFFFFF)).1

theorem accessCount_le_saturated (count : UInt32) : count ≤ 0xFFFFFFFF := by
  rw [UInt32.le_iff_toNat_le]
  have := count.toNat_lt
  simp
  omega

theorem NFUA_algorithm_first_least (s : Kernel) :
    let pr := s.proc s.cur
    ∃ r, NFUA_algorithm s = .ok (r,s) ∧
      ((∀ i, (pr.memoryPages i).state = .P_USED → (pr.memoryPages i).accessCount = 0xFFFFFFFF) ∧ r = none ∨
        ∃ i, r = some i ∧ (pr.memoryPages i).accessCount < 0xFFFFFFFF ∧
          Scan.FirstLeast (fun i => decide ((pr.memoryPages i).state = .P_USED))
            (fun i => (pr.memoryPages i).accessCount) (List.finRange MAX_PYSC_PAGES) i) := by
  intro pr
  have scan : NFUA_algorithm s = .ok (((List.finRange MAX_PYSC_PAGES).foldl
      (Scan.firstStep (fun i => decide ((pr.memoryPages i).state = .P_USED)) (fun i => (pr.memoryPages i).accessCount))
      (none,0xFFFFFFFF)).1,s) := rfl
  rcases Scan.foldl_firstStep (fun i => decide ((pr.memoryPages i).state = .P_USED))
    (fun i => (pr.memoryPages i).accessCount) (List.pairwise_lt_finRange MAX_PYSC_PAGES) 0xFFFFFFFF with
    ⟨above,empty⟩ | ⟨i,found,below,least⟩
  · refine ⟨none,by rw [scan,empty],Or.inl ⟨fun i used => ?_,rfl⟩⟩
    exact UInt32.le_antisymm (accessCount_le_saturated _) (above i (List.mem_finRange i) (decide_eq_true used))
  · exact ⟨some i,by rw [scan,found],Or.inr ⟨i,rfl,below,least⟩⟩

-- page_index is still -1 only while best is 0xFFFFFFFF, which no count of ones equals.
def LAPA_algorithm : KM (Option (Fin MAX_PYSC_PAGES)) := do
  let pr ← getProc (← myproc)
  return ((List.finRange MAX_PYSC_PAGES).foldl (fun (best : Option (Fin MAX_PYSC_PAGES) × UInt32) i =>
      let m := pr.memoryPages i
      let curr := num_of_ones m.accessCount
      let tie := match best.1 with
        | some j => curr = best.2 && m.accessCount < (pr.memoryPages j).accessCount
        | none => false
      if m.state = .P_USED && (curr < best.2 || tie) then (some i,curr) else best)
    (none,0xFFFFFFFF)).1

-- LAPA's order as one number: the count of ones above the count itself.
def lapaKey (m : PageMetadata) : Nat := popcount m.accessCount * 2 ^ 32 + m.accessCount.toNat

def lapaTop : Nat := 33 * 2 ^ 32

theorem lapaKey_lt_top (m : PageMetadata) : lapaKey m < lapaTop := by
  have ones := popcount_le m.accessCount
  have small := m.accessCount.toNat_lt
  simp only [lapaKey,lapaTop]
  omega

theorem lapaKey_lt_iff (m m' : PageMetadata) : lapaKey m < lapaKey m' ↔
    popcount m.accessCount < popcount m'.accessCount ∨
      popcount m.accessCount = popcount m'.accessCount ∧ m.accessCount < m'.accessCount := by
  have small := m.accessCount.toNat_lt
  have small' := m'.accessCount.toNat_lt
  rw [lapaKey,lapaKey,UInt32.lt_iff_toNat_lt]
  omega

theorem lapaKey_le_iff (m m' : PageMetadata) : lapaKey m ≤ lapaKey m' ↔
    popcount m.accessCount < popcount m'.accessCount ∨
      popcount m.accessCount = popcount m'.accessCount ∧ m.accessCount ≤ m'.accessCount := by
  have small := m.accessCount.toNat_lt
  have small' := m'.accessCount.toNat_lt
  rw [lapaKey,lapaKey,UInt32.le_iff_toNat_le]
  omega

theorem num_of_ones_lt_iff (x y : UInt32) : num_of_ones x < num_of_ones y ↔ popcount x < popcount y := by
  rw [UInt32.lt_iff_toNat_lt,num_of_ones_eq_popcount,num_of_ones_eq_popcount]

theorem num_of_ones_eq_iff (x y : UInt32) : num_of_ones x = num_of_ones y ↔ popcount x = popcount y := by
  rw [← UInt32.toNat_inj,num_of_ones_eq_popcount,num_of_ones_eq_popcount]

def lapaStep (pr : Proc) (best : Option (Fin MAX_PYSC_PAGES) × UInt32) (i : Fin MAX_PYSC_PAGES) :
    Option (Fin MAX_PYSC_PAGES) × UInt32 :=
  let m := pr.memoryPages i
  let curr := num_of_ones m.accessCount
  let tie := match best.1 with
    | some j => curr = best.2 && m.accessCount < (pr.memoryPages j).accessCount
    | none => false
  if m.state = .P_USED && (curr < best.2 || tie) then (some i,curr) else best

theorem LAPA_algorithm_run (s : Kernel) : LAPA_algorithm s =
    .ok (((List.finRange MAX_PYSC_PAGES).foldl (lapaStep (s.proc s.cur)) (none,0xFFFFFFFF)).1,s) := rfl

def usedSlot (pr : Proc) (i : Fin MAX_PYSC_PAGES) : Bool := decide ((pr.memoryPages i).state = .P_USED)

def LapaTracks (pr : Proc) (best : Option (Fin MAX_PYSC_PAGES) × UInt32) (scan : Option (Fin MAX_PYSC_PAGES) × Nat) :
    Prop :=
  scan.1 = best.1 ∧ match best.1 with
    | none => best.2 = 0xFFFFFFFF ∧ scan.2 = lapaTop
    | some j => best.2 = num_of_ones (pr.memoryPages j).accessCount ∧ scan.2 = lapaKey (pr.memoryPages j)

theorem lapaStep_tracks {pr : Proc} {best : Option (Fin MAX_PYSC_PAGES) × UInt32} {scan : Option (Fin MAX_PYSC_PAGES) × Nat}
    (tracked : LapaTracks pr best scan) (i : Fin MAX_PYSC_PAGES) :
    LapaTracks pr (lapaStep pr best i) (Scan.firstStep (usedSlot pr) (fun i => lapaKey (pr.memoryPages i)) scan i) := by
  obtain ⟨b,v⟩ := best
  obtain ⟨c,k⟩ := scan
  obtain ⟨rfl,tracked⟩ := tracked
  cases c with
  | none =>
    obtain ⟨rfl,rfl⟩ := tracked
    -- page_index is -1 only while best is the sentinel, which every count of ones is below.
    have below : num_of_ones (pr.memoryPages i).accessCount < 0xFFFFFFFF := by
      rw [UInt32.lt_iff_toNat_lt,num_of_ones_eq_popcount]
      have := popcount_le (pr.memoryPages i).accessCount
      simp only [UInt32.reduceToNat]
      omega
    by_cases used : (pr.memoryPages i).state = .P_USED
    · simp [lapaStep,Scan.firstStep,usedSlot,used,below,lapaKey_lt_top,LapaTracks]
    · simp [lapaStep,Scan.firstStep,usedSlot,used,LapaTracks]
  | some j =>
    obtain ⟨rfl,rfl⟩ := tracked
    have decides : num_of_ones (pr.memoryPages i).accessCount < num_of_ones (pr.memoryPages j).accessCount ∨
        num_of_ones (pr.memoryPages i).accessCount = num_of_ones (pr.memoryPages j).accessCount ∧
          (pr.memoryPages i).accessCount < (pr.memoryPages j).accessCount ↔
        lapaKey (pr.memoryPages i) < lapaKey (pr.memoryPages j) := by
      rw [lapaKey_lt_iff,num_of_ones_lt_iff,num_of_ones_eq_iff]
    by_cases better : (pr.memoryPages i).state = .P_USED ∧ lapaKey (pr.memoryPages i) < lapaKey (pr.memoryPages j)
    · simp [lapaStep,Scan.firstStep,usedSlot,better,decides,LapaTracks]
    · have kept : ¬ ((pr.memoryPages i).state = .P_USED ∧ (num_of_ones (pr.memoryPages i).accessCount <
          num_of_ones (pr.memoryPages j).accessCount ∨ num_of_ones (pr.memoryPages i).accessCount =
            num_of_ones (pr.memoryPages j).accessCount ∧
              (pr.memoryPages i).accessCount < (pr.memoryPages j).accessCount)) := by
        rwa [decides]
      simp only [lapaStep,Scan.firstStep,usedSlot]
      simp [kept,better,LapaTracks]

theorem LAPA_algorithm_least_accessed (s : Kernel) (used : ∃ i, ((s.proc s.cur).memoryPages i).state = .P_USED) :
    (∀ x, (num_of_ones x).toNat = popcount x) ∧
      ∃ i, LAPA_algorithm s = .ok (some i,s) ∧ ((s.proc s.cur).memoryPages i).state = .P_USED ∧
        (∀ j, ((s.proc s.cur).memoryPages j).state = .P_USED →
          popcount ((s.proc s.cur).memoryPages i).accessCount < popcount ((s.proc s.cur).memoryPages j).accessCount ∨
            popcount ((s.proc s.cur).memoryPages i).accessCount = popcount ((s.proc s.cur).memoryPages j).accessCount ∧
              ((s.proc s.cur).memoryPages i).accessCount ≤ ((s.proc s.cur).memoryPages j).accessCount) ∧
        ∀ j, ((s.proc s.cur).memoryPages j).state = .P_USED →
          popcount ((s.proc s.cur).memoryPages j).accessCount = popcount ((s.proc s.cur).memoryPages i).accessCount →
          ((s.proc s.cur).memoryPages j).accessCount = ((s.proc s.cur).memoryPages i).accessCount → i ≤ j := by
  refine ⟨num_of_ones_eq_popcount,?_⟩
  set pr := s.proc s.cur
  have tracks := List.foldl_rel (l := List.finRange MAX_PYSC_PAGES) (r := LapaTracks pr) (f := lapaStep pr)
    (g := Scan.firstStep (usedSlot pr) fun i => lapaKey (pr.memoryPages i)) (a := (none,0xFFFFFFFF))
    (b := (none,lapaTop)) ⟨rfl,rfl,rfl⟩ fun i _ _ _ tracked => lapaStep_tracks tracked i
  rcases Scan.foldl_firstStep (usedSlot pr) (fun i => lapaKey (pr.memoryPages i)) (List.pairwise_lt_finRange _) lapaTop
    with ⟨above,-⟩ | ⟨i,found,-,least⟩
  · obtain ⟨j,usedj⟩ := used
    have beyond := above j (List.mem_finRange j) (decide_eq_true usedj)
    exact absurd (lapaKey_lt_top _) (Nat.not_lt.mpr beyond)
  · obtain ⟨-,usedi,minimal,first⟩ := least
    rw [found] at tracks
    refine ⟨i,by rw [LAPA_algorithm_run,← tracks.1],of_decide_eq_true usedi,?_,?_⟩
    · intro j usedj
      exact (lapaKey_le_iff _ _).mp (minimal j (List.mem_finRange j) (decide_eq_true usedj))
    · intro j usedj _ same
      refine first j (List.mem_finRange j) (decide_eq_true usedj) ?_
      simp only [lapaKey,same]

def lapaSample : Kernel where
  config := ⟨.LAPA,0,0⟩
  freelist := []
  bytes := fun _ => 0
  words := fun _ => 0
  proc := fun _ => {Proc.unused with memoryPages := fun i => if i.val < 2 then ⟨.P_USED,0,0,3⟩ else .unused}
  cur := ⟨0,NPROC_pos⟩
  initproc := none
  nextpid := 1
  file := fun _ => .unused
  inode := fun _ => .free
  root := []
  oplog := []

theorem lapaSample_least_accessed :
    (∃ i, ((lapaSample.proc lapaSample.cur).memoryPages i).state = .P_USED) ∧
    (∀ x, (num_of_ones x).toNat = popcount x) ∧
      ∃ i, LAPA_algorithm lapaSample = .ok (some i,lapaSample) ∧
        ((lapaSample.proc lapaSample.cur).memoryPages i).state = .P_USED ∧
        (∀ j, ((lapaSample.proc lapaSample.cur).memoryPages j).state = .P_USED →
          popcount ((lapaSample.proc lapaSample.cur).memoryPages i).accessCount <
              popcount ((lapaSample.proc lapaSample.cur).memoryPages j).accessCount ∨
            popcount ((lapaSample.proc lapaSample.cur).memoryPages i).accessCount =
                popcount ((lapaSample.proc lapaSample.cur).memoryPages j).accessCount ∧
              ((lapaSample.proc lapaSample.cur).memoryPages i).accessCount ≤
                ((lapaSample.proc lapaSample.cur).memoryPages j).accessCount) ∧
        ∀ j, ((lapaSample.proc lapaSample.cur).memoryPages j).state = .P_USED →
          popcount ((lapaSample.proc lapaSample.cur).memoryPages j).accessCount =
              popcount ((lapaSample.proc lapaSample.cur).memoryPages i).accessCount →
          ((lapaSample.proc lapaSample.cur).memoryPages j).accessCount =
              ((lapaSample.proc lapaSample.cur).memoryPages i).accessCount → i ≤ j :=
  ⟨⟨⟨0,by decide⟩,rfl⟩,LAPA_algorithm_least_accessed lapaSample ⟨⟨0,by decide⟩,rfl⟩⟩

def get_swap_out_page_index : KM (Option (Fin MAX_PYSC_PAGES)) := do
  match (← get).config.selection with
  | .SCFIFO => SCFIFO_algorithm
  | .NFUA =>
    update_access_counter (← myproc)
    NFUA_algorithm
  | .LAPA =>
    update_access_counter (← myproc)
    LAPA_algorithm
  | .DEBUG => return some ⟨0,by decide⟩
  | .NONE => throw "Unrecognized paging machanism"

end Xv6
