import Mathlib.Logic.Function.Basic
import Mathlib.Data.List.Count

namespace Alloc

variable {ι : Type}

-- A table of block numbers over slots, 0 for an empty slot, against a bitmap of
-- blocks in use: every block in a slot is marked, and no block is in two slots.
structure Owned (ref : ι → Nat) (marked : Nat → Bool) : Prop where
  marked_of_ref : ∀ k, ref k ≠ 0 → marked (ref k) = true
  unique : ∀ k k', ref k ≠ 0 → ref k = ref k' → k = k'

-- Putting an unmarked block into an empty slot and marking it.
theorem Owned.claim [DecidableEq ι] {ref : ι → Nat} {marked : Nat → Bool} (owned : Owned ref marked) {k : ι}
    {b : Nat} (empty : ref k = 0) (free : marked b = false) :
    Owned (Function.update ref k b) (Function.update marked b true) := by
  constructor
  · intro k' filled
    by_cases same : k' = k
    · subst same
      simp
    · rw [Function.update_of_ne same] at filled ⊢
      have mine := owned.marked_of_ref k' filled
      have other : ref k' ≠ b := fun eq => by rw [eq,free] at mine; cases mine
      rw [Function.update_of_ne other,mine]
  · intro k₁ k₂ filled same
    by_cases one : k₁ = k <;> by_cases two : k₂ = k
    · rw [one,two]
    · rw [one,Function.update_self] at filled
      rw [one,Function.update_self,Function.update_of_ne two] at same
      have mine := owned.marked_of_ref k₂ (same ▸ filled)
      rw [← same,free] at mine
      cases mine
    · rw [two,Function.update_self,Function.update_of_ne one] at same
      rw [Function.update_of_ne one] at filled
      have mine := owned.marked_of_ref k₁ filled
      rw [same,free] at mine
      cases mine
    · rw [Function.update_of_ne one,Function.update_of_ne two] at same
      rw [Function.update_of_ne one] at filled
      exact owned.unique k₁ k₂ filled same

-- The unmarked blocks below size, and the filled slots of a list of slots.
def freeCount (marked : Nat → Bool) (size : Nat) : Nat := (List.range size).countP fun b => !marked b

def refCount (ref : ι → Nat) (slots : List ι) : Nat := slots.countP fun k => ref k ≠ 0

theorem freeCount_mark {marked : Nat → Bool} {size b : Nat} (free : marked b = false) (below : b < size) :
    freeCount (Function.update marked b true) size + 1 = freeCount marked size := by
  simp only [freeCount]
  induction size with
  | zero => omega
  | succ size ih =>
    rw [List.range_succ,List.countP_append,List.countP_append]
    by_cases last : b = size
    · subst last
      have before : (List.range b).countP (fun c => !Function.update marked b true c) =
          (List.range b).countP fun c => !marked c := by
        apply List.countP_congr
        intro c mem
        rw [Function.update_of_ne (by simp at mem; omega)]
      simp [before,free]
    · have same : Function.update marked b true size = marked size := Function.update_of_ne (Ne.symm last) _ _
      rw [← ih (by omega)]
      simp [same]
      omega

theorem refCount_claim [DecidableEq ι] {ref : ι → Nat} {slots : List ι} (distinct : slots.Nodup) {k : ι}
    (mem : k ∈ slots) (empty : ref k = 0) {b : Nat} (nonzero : b ≠ 0) :
    refCount (Function.update ref k b) slots = refCount ref slots + 1 := by
  simp only [refCount]
  induction slots with
  | nil => cases mem
  | cons k' slots ih =>
    obtain ⟨fresh,distinct⟩ := List.nodup_cons.mp distinct
    rw [List.countP_cons,List.countP_cons]
    by_cases same : k' = k
    · subst same
      have rest : slots.countP (fun j => Function.update ref k' b j ≠ 0) = slots.countP fun j => ref j ≠ 0 := by
        apply List.countP_congr
        intro j memj
        rw [Function.update_of_ne (by rintro rfl; exact fresh memj)]
      rw [rest]
      simp [empty,nonzero]
    · rw [ih distinct (List.mem_of_ne_of_mem (Ne.symm same) mem),Function.update_of_ne same]
      omega

theorem refCount_lt {ref : ι → Nat} {slots : List ι} {k : ι} (mem : k ∈ slots) (empty : ref k = 0) :
    refCount ref slots < slots.length := by
  simp only [refCount]
  refine Nat.lt_of_le_of_ne List.countP_le_length fun all => ?_
  have filled := List.countP_eq_length.mp all k mem
  simp [empty] at filled

-- A bitmap with the first m blocks in use.
theorem freeCount_prefix {m size : Nat} (le : m ≤ size) : freeCount (fun b => decide (b < m)) size = size - m := by
  induction size with
  | zero => simp [freeCount]
  | succ size ih =>
    by_cases top : m ≤ size
    · have step : freeCount (fun b => decide (b < m)) (size + 1) = freeCount (fun b => decide (b < m)) size + 1 := by
        simp only [freeCount,List.range_succ,List.countP_append]
        simp [Nat.not_lt.mpr top]
      rw [step,ih top]
      omega
    · have all : m = size + 1 := by omega
      subst all
      rw [Nat.sub_self]
      simp only [freeCount,List.countP_eq_zero]
      intro b mem
      simpa using List.mem_range.mp mem

-- The first unmarked block, as a scan of the bitmap finds it.
theorem find_free {marked : Nat → Bool} {size b : Nat}
    (found : (List.range size).find? (fun c => !marked c) = some b) : marked b = false ∧ b < size := by
  have mem := List.mem_of_find?_eq_some found
  have test := List.find?_some found
  simp only [Bool.not_eq_eq_eq_not,Bool.not_true] at test
  exact ⟨test,List.mem_range.mp mem⟩

theorem freeCount_of_find_none {marked : Nat → Bool} {size : Nat}
    (missing : (List.range size).find? (fun c => !marked c) = none) : freeCount marked size = 0 := by
  simp only [freeCount,List.countP_eq_zero]
  intro c mem
  simpa using List.find?_eq_none.mp missing c mem

end Alloc
