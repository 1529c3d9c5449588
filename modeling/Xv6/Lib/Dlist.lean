import Mathlib.Logic.Function.Basic
import Mathlib.Data.List.Nodup

namespace Dlist

variable {α : Type}

structure Links (α : Type) where
  next : α → α
  prev : α → α

def Links.swap (L : Links α) : Links α := ⟨L.prev,L.next⟩

-- Each list node is followed along next from a and ends at z; prev leads back.
def Chain (L : Links α) : α → List α → α → Prop
  | a,[],z => L.next a = z ∧ L.prev z = a
  | a,x :: l,z => L.next a = x ∧ L.prev x = a ∧ Chain L x l z

-- A circular list through the sentinel head, with the nodes l in next order.
structure Cycle (L : Links α) (head : α) (l : List α) : Prop where
  chain : Chain L head l head
  nodup : (head :: l).Nodup

-- for(b = start; b != stop; b = step(b)) if(p(b)) return b;
def scan [DecidableEq α] (step : α → α) (stop : α) (p : α → Bool) : Nat → α → Option α
  | 0,_ => none
  | fuel + 1,b => if b = stop then none else if p b then some b else scan step stop p fuel (step b)

section Surgery

variable [DecidableEq α]

-- x->next = head->next; x->prev = head; head->next->prev = x; head->next = x;
def Links.pushFront (L : Links α) (head x : α) : Links α :=
  let L : Links α := {L with next := Function.update L.next x (L.next head)}
  let L : Links α := {L with prev := Function.update L.prev x head}
  let L : Links α := {L with prev := Function.update L.prev (L.next head) x}
  {L with next := Function.update L.next head x}

-- x->next->prev = x->prev; x->prev->next = x->next;
def Links.unlink (L : Links α) (x : α) : Links α :=
  let L : Links α := {L with prev := Function.update L.prev (L.next x) (L.prev x)}
  {L with next := Function.update L.next (L.prev x) (L.next x)}

theorem pushFront_next (L : Links α) (head x : α) :
    (L.pushFront head x).next = Function.update (Function.update L.next x (L.next head)) head x := rfl

theorem pushFront_prev {L : Links α} {head x : α} (other : x ≠ head) :
    (L.pushFront head x).prev = Function.update (Function.update L.prev x head) (L.next head) x := by
  simp only [Links.pushFront,Function.update_of_ne (Ne.symm other)]

theorem unlink_prev (L : Links α) (x : α) :
    (L.unlink x).prev = Function.update L.prev (L.next x) (L.prev x) := rfl

theorem unlink_next {L : Links α} {x : α} (apart : L.next x ≠ x) :
    (L.unlink x).next = Function.update L.next (L.prev x) (L.next x) := by
  simp only [Links.unlink,Function.update_of_ne (Ne.symm apart)]

end Surgery

section Chains

variable {L L' : Links α} {a x z : α} {l l₁ l₂ : List α}

@[simp] theorem chain_nil : Chain L a [] z ↔ L.next a = z ∧ L.prev z = a := Iff.rfl

@[simp] theorem chain_cons : Chain L a (x :: l) z ↔ L.next a = x ∧ L.prev x = a ∧ Chain L x l z := Iff.rfl

theorem chain_append : Chain L a (l₁ ++ x :: l₂) z ↔ Chain L a l₁ x ∧ Chain L x l₂ z := by
  induction l₁ generalizing a with
  | nil => simp [and_assoc]
  | cons y l₁ ih => simp [ih,and_assoc]

theorem Chain.congr (chain : Chain L a l z) (nexts : ∀ y ∈ a :: l, L'.next y = L.next y)
    (prevs : ∀ y ∈ l ++ [z], L'.prev y = L.prev y) : Chain L' a l z := by
  induction l generalizing a with
  | nil =>
    obtain ⟨forward,back⟩ := chain
    exact ⟨(nexts a (by simp)).trans forward,(prevs z (by simp)).trans back⟩
  | cons y l ih =>
    obtain ⟨forward,back,rest⟩ := chain
    refine ⟨(nexts a (by simp)).trans forward,(prevs y (by simp)).trans back,?_⟩
    exact ih rest (fun w mem => nexts w (List.mem_cons_of_mem _ mem))
      (fun w mem => prevs w (List.mem_cons_of_mem _ mem))

theorem Chain.swap (chain : Chain L a l z) : Chain L.swap z l.reverse a := by
  induction l generalizing a with
  | nil => exact ⟨chain.2,chain.1⟩
  | cons y l ih =>
    obtain ⟨forward,back,rest⟩ := chain
    rw [List.reverse_cons,chain_append]
    exact ⟨ih rest,back,forward⟩

theorem Chain.scan [DecidableEq α] (chain : Chain L a l z) (outside : z ∉ l) (p : α → Bool)
    {fuel : Nat} (enough : l.length < fuel) : scan L.next z p fuel (L.next a) = l.find? p := by
  induction l generalizing a fuel with
  | nil =>
    obtain ⟨fuel,rfl⟩ : ∃ k, fuel = k + 1 := ⟨fuel - 1,by simp at enough; omega⟩
    simp [Dlist.scan,chain.1]
  | cons y l ih =>
    obtain ⟨fuel,rfl⟩ : ∃ k, fuel = k + 1 := ⟨fuel - 1,by simp at enough; omega⟩
    obtain ⟨forward,-,rest⟩ := chain
    have apart : y ≠ z := fun same => outside (same ▸ List.mem_cons_self)
    rw [forward]
    by_cases hit : p y
    · simp [Dlist.scan,apart,hit]
    · simp only [Dlist.scan,apart,hit,if_false,Bool.false_eq_true,List.find?_cons]
      exact ih rest (fun mem => outside (List.mem_cons_of_mem _ mem)) (by simp at enough; omega)

theorem Chain.determined {l' : List α} (chain : Chain L a l z) (other : Chain L a l' z) (outside : z ∉ l)
    (outside' : z ∉ l') : l = l' := by
  induction l generalizing a l' with
  | nil =>
    cases l' with
    | nil => rfl
    | cons y r => exact absurd (other.1.symm.trans chain.1) (fun same => outside' (same ▸ List.mem_cons_self))
  | cons x r ih =>
    cases l' with
    | nil => exact absurd (chain.1.symm.trans other.1) (fun same => outside (same ▸ List.mem_cons_self))
    | cons y r' =>
      have same : x = y := chain.1.symm.trans other.1
      subst same
      rw [ih chain.2.2 other.2.2 (fun mem => outside (List.mem_cons_of_mem _ mem))
        (fun mem => outside' (List.mem_cons_of_mem _ mem))]

theorem Chain.next_mem (chain : Chain L a l z) : L.next a ∈ l ++ [z] := by
  cases l with
  | nil => simp [chain.1]
  | cons y l => simp [chain.1]

theorem Chain.prev_mem (chain : Chain L a l z) : L.prev z ∈ a :: l := by
  induction l generalizing a with
  | nil => simp [chain.2]
  | cons y l ih => exact List.mem_cons_of_mem _ (ih chain.2.2)

theorem Cycle.single {head : α} (forward : L.next head = head) (back : L.prev head = head) : Cycle L head [] :=
  ⟨⟨forward,back⟩,List.nodup_singleton head⟩

theorem Cycle.swap {head : α} (cycle : Cycle L head l) : Cycle L.swap head l.reverse := by
  refine ⟨cycle.chain.swap,?_⟩
  have nodup := cycle.nodup
  simp only [List.nodup_cons,List.mem_reverse,List.nodup_reverse] at nodup ⊢
  exact nodup

section Unlink

variable [DecidableEq α]

theorem Chain.unlink (chain : Chain L a (l₁ ++ x :: l₂) z) (nodup : (a :: (l₁ ++ x :: l₂)).Nodup)
    (outside : z ∉ l₁ ++ x :: l₂) : Chain (L.unlink x) a (l₁ ++ l₂) z := by
  obtain ⟨before,after⟩ := chain_append.mp chain
  clear chain
  have tail := List.nodup_cons.mp (List.nodup_cons.mp nodup).2.of_append_right
  have later : L.next x ∈ l₂ ++ [z] := after.next_mem
  have apart : L.next x ≠ x := fun same => by
    rcases List.mem_append.mp (same ▸ later) with mem | mem
    · exact tail.1 mem
    · exact outside (by rw [← List.mem_singleton.mp mem]; simp)
  -- induction on the nodes before x; the base case is the joint itself
  induction l₁ generalizing a with
  | nil =>
    obtain ⟨forward,back⟩ := before
    cases l₂ with
    | nil => simp [unlink_next apart,unlink_prev,back,after.1]
    | cons y r =>
      obtain ⟨next,-,rest⟩ := after
      refine ⟨by simp [unlink_next apart,back,next],by simp [unlink_prev,back,next],?_⟩
      apply rest.congr
      · intro w mem
        have : w ≠ a := fun same =>
          (List.nodup_cons.mp nodup).1 (same ▸ List.mem_append_right _ (List.mem_cons_of_mem _ mem))
        simp [unlink_next apart,back,this]
      · intro w mem
        have : w ≠ y := fun same => by
          rcases List.mem_append.mp mem with mem | mem
          · exact (List.nodup_cons.mp tail.2).1 (same ▸ mem)
          · exact outside (by rw [← List.mem_singleton.mp mem,same]; simp)
        simp [unlink_prev,next,this]
  | cons w l₁ ih =>
    obtain ⟨forward,back,rest⟩ := before
    have inner := (List.nodup_cons.mp nodup).2
    rw [List.cons_append] at inner
    have first : L.prev x ≠ a := fun same =>
      (List.nodup_cons.mp nodup).1 (List.mem_append_left _ (same ▸ rest.prev_mem))
    have last : L.next x ≠ w := fun same => by
      rcases List.mem_append.mp (same ▸ later) with mem | mem
      · exact (List.nodup_cons.mp inner).1 (List.mem_append_right _ (List.mem_cons_of_mem _ mem))
      · exact outside (by rw [List.mem_singleton.mp mem]; simp)
    refine ⟨by simp [unlink_next apart,Function.update_of_ne (Ne.symm first),forward],
      by simp [unlink_prev,Function.update_of_ne (Ne.symm last),back],?_⟩
    exact ih inner (fun mem => outside (List.mem_cons_of_mem _ mem)) rest

end Unlink

end Chains

section Cycles

variable [DecidableEq α] {L : Links α} {head x : α} {l l₁ l₂ : List α}

theorem Cycle.scan_next (cycle : Cycle L head l) (p : α → Bool) {fuel : Nat} (enough : l.length < fuel) :
    scan L.next head p fuel (L.next head) = l.find? p :=
  cycle.chain.scan (List.nodup_cons.mp cycle.nodup).1 p enough

theorem Cycle.scan_prev (cycle : Cycle L head l) (p : α → Bool) {fuel : Nat} (enough : l.length < fuel) :
    scan L.prev head p fuel (L.prev head) = l.reverse.find? p :=
  cycle.swap.scan_next p (by simpa using enough)

theorem Cycle.pushFront (cycle : Cycle L head l) (fresh : x ∉ head :: l) :
    Cycle (L.pushFront head x) head (x :: l) := by
  obtain ⟨chain,nodup⟩ := cycle
  have apart : x ≠ head := fun same => fresh (same ▸ List.mem_cons_self)
  have outside : x ∉ l := fun mem => fresh (List.mem_cons_of_mem _ mem)
  have first : L.next head ≠ x := by
    cases l with
    | nil => rw [chain.1]; exact Ne.symm apart
    | cons y l => rw [chain.1]; exact fun same => outside (same ▸ List.mem_cons_self)
  refine ⟨⟨?_,?_,?_⟩,List.nodup_cons.mpr ⟨?_,List.nodup_cons.mpr ⟨outside,(List.nodup_cons.mp nodup).2⟩⟩⟩
  · simp [pushFront_next]
  · simp [pushFront_prev apart,Function.update_of_ne (Ne.symm first)]
  · cases l with
    | nil =>
      obtain ⟨forward,-⟩ := chain
      constructor
      · simp [pushFront_next,forward,apart]
      · simp [pushFront_prev apart,forward]
    | cons y l =>
      obtain ⟨forward,back,rest⟩ := chain
      simp only [List.nodup_cons,List.mem_cons,not_or] at nodup outside
      refine ⟨by simp [pushFront_next,forward,apart],by simp [pushFront_prev apart,forward],?_⟩
      apply rest.congr
      · intro w mem
        have : w ≠ head ∧ w ≠ x := by
          rcases List.mem_cons.mp mem with rfl | mem
          · exact ⟨Ne.symm nodup.1.1,Ne.symm outside.1⟩
          · exact ⟨fun same => nodup.1.2 (same ▸ mem),fun same => outside.2 (same ▸ mem)⟩
        simp [pushFront_next,this.1,this.2]
      · intro w mem
        have : w ≠ y ∧ w ≠ x := by
          rcases List.mem_append.mp mem with mem | mem
          · exact ⟨fun same => nodup.2.1 (same ▸ mem),fun same => outside.2 (same ▸ mem)⟩
          · rw [List.mem_singleton.mp mem]
            exact ⟨nodup.1.1,Ne.symm apart⟩
        simp [pushFront_prev apart,forward,this.1,this.2]
  · simp only [List.mem_cons,not_or]
    exact ⟨Ne.symm apart,(List.nodup_cons.mp nodup).1⟩

theorem Cycle.unlink (cycle : Cycle L head (l₁ ++ x :: l₂)) : Cycle (L.unlink x) head (l₁ ++ l₂) := by
  obtain ⟨chain,nodup⟩ := cycle
  refine ⟨chain.unlink nodup (List.nodup_cons.mp nodup).1,?_⟩
  exact nodup.sublist (((List.sublist_cons_self x l₂).append_left l₁).cons_cons head)

theorem Cycle.moveFront (cycle : Cycle L head (l₁ ++ x :: l₂)) :
    Cycle ((L.unlink x).pushFront head x) head (x :: (l₁ ++ l₂)) := by
  have nodup := cycle.nodup
  have inner := (List.nodup_cons.mp nodup).2
  have before : x ∉ l₁ := fun mem => List.disjoint_of_nodup_append inner mem List.mem_cons_self
  apply cycle.unlink.pushFront
  simp only [List.mem_cons,List.mem_append,not_or]
  refine ⟨fun same => (List.nodup_cons.mp nodup).1 ?_,before,(List.nodup_cons.mp inner.of_append_right).1⟩
  exact List.mem_append_right _ (List.mem_cons.mpr (Or.inl same.symm))

-- binit's loop: every node of bs in turn pushed after head.
theorem Cycle.pushAll {bs : List α} (cycle : Cycle L head l) (distinct : bs.Nodup)
    (fresh : ∀ b ∈ bs, b ∉ head :: l) :
    Cycle (bs.foldl (fun L b => L.pushFront head b) L) head (bs.reverse ++ l) := by
  induction bs generalizing L l with
  | nil => exact cycle
  | cons b bs ih =>
    obtain ⟨outside,distinct⟩ := List.nodup_cons.mp distinct
    rw [List.foldl_cons,List.reverse_cons,List.append_assoc,List.singleton_append]
    apply ih (cycle.pushFront (fresh b List.mem_cons_self)) distinct
    intro c mem
    simp only [List.mem_cons,not_or]
    have other := fresh c (List.mem_cons_of_mem _ mem)
    simp only [List.mem_cons,not_or] at other
    exact ⟨other.1,fun same => outside (same ▸ mem),other.2⟩

end Cycles

section Find

variable {p q : α → Bool} {l : List α} {x y : α}

theorem find?_of_unique (mem : x ∈ l) (hit : p x) (only : ∀ y ∈ l, p y → y = x) : l.find? p = some x := by
  cases found : l.find? p with
  | none => exact absurd hit (List.find?_eq_none.mp found x mem)
  | some y => rw [only y (List.mem_of_find?_eq_some found) (List.find?_some found)]

theorem find?_erase [BEq α] [LawfulBEq α] (miss : p x = false) : (l.erase x).find? p = l.find? p := by
  induction l with
  | nil => rfl
  | cons y l ih =>
    by_cases same : y = x
    · subst same
      simp [miss]
    · rw [List.erase_cons_tail (by simpa using same),List.find?_cons,List.find?_cons,ih]

theorem find?_retest [DecidableEq α] (found : l.find? p = some x) (other : x ≠ y) (miss : q y = false)
    (agree : ∀ z, z ≠ y → q z = p z) : l.find? q = some x := by
  obtain ⟨hit,as,bs,rfl,before⟩ := List.find?_eq_some_iff_append.mp found
  refine List.find?_eq_some_iff_append.mpr ⟨by rw [agree x other]; exact hit,as,bs,rfl,fun z mem => ?_⟩
  by_cases same : z = y
  · subst same
    simp [miss]
  · rw [agree z same]
    exact before z mem

end Find

end Dlist
