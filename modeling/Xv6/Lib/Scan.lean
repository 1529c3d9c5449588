import Mathlib.Order.Basic
import Mathlib.Data.List.Induction

namespace Scan

-- The minimum search C code writes as a loop over indices with a running
-- best (index, key), started from a sentinel key: the strict comparison keeps
-- the first of equal keys.
variable {α β : Type}

def firstStep [LT β] [DecidableLT β] (ok : α → Bool) (key : α → β) (best : Option α × β) (i : α) : Option α × β :=
  if ok i && decide (key i < best.2) then (some i,key i) else best

-- i is a candidate of least key in l, and no other such candidate lies below it.
def FirstLeast [LE α] [LE β] (ok : α → Bool) (key : α → β) (l : List α) (i : α) : Prop :=
  i ∈ l ∧ ok i ∧ (∀ j ∈ l, ok j → key i ≤ key j) ∧ ∀ j ∈ l, ok j → key j = key i → i ≤ j

variable {ok : α → Bool} {key : α → β}

theorem firstLeast_snoc_new [LE α] [Std.IsLinearOrder α] [LE β] [LT β] [Std.IsLinearOrder β] [Std.LawfulOrderLT β]
    {l : List α} {x : α} {bound : β} (okx : ok x) (below : key x < bound)
    (above : ∀ j ∈ l, ok j → bound ≤ key j) : FirstLeast ok key (l ++ [x]) x := by
  have beyond (j : α) (mem : j ∈ l) (okj : ok j) : key x < key j := Std.lt_of_lt_of_le below (above j mem okj)
  refine ⟨by simp,okx,?_,?_⟩
  · intro j mem okj
    rcases List.mem_append.mp mem with mem | single
    · exact Std.le_of_lt (beyond j mem okj)
    · rw [List.mem_singleton.mp single]; exact Std.le_refl _
  · intro j mem okj same
    rcases List.mem_append.mp mem with mem | single
    · exact absurd same (Std.ne_of_lt (beyond j mem okj)).symm
    · rw [List.mem_singleton.mp single]; exact Std.le_refl _

theorem firstLeast_snoc_keep [LE α] [LT α] [Std.IsLinearOrder α] [Std.LawfulOrderLT α]
    [LE β] [LT β] [Std.IsLinearOrder β] [Std.LawfulOrderLT β]
    {l : List α} {x i : α} (least : FirstLeast ok key l i) (after : ∀ j ∈ l, j < x)
    (kept : ok x → ¬ key x < key i) : FirstLeast ok key (l ++ [x]) i := by
  obtain ⟨mem,oki,minimal,first⟩ := least
  refine ⟨List.mem_append_left _ mem,oki,?_,?_⟩
  · intro j memj okj
    rcases List.mem_append.mp memj with memj | single
    · exact minimal j memj okj
    · rw [List.mem_singleton.mp single] at okj ⊢; exact Std.not_lt.mp (kept okj)
  · intro j memj okj same
    rcases List.mem_append.mp memj with memj | single
    · exact first j memj okj same
    · rw [List.mem_singleton.mp single]; exact Std.le_of_lt (after i mem)

-- Over an increasing list of indices: either no candidate beats the sentinel
-- and the search comes back empty, or it names the first candidate of least key.
theorem foldl_firstStep [LE α] [LT α] [Std.IsLinearOrder α] [Std.LawfulOrderLT α]
    [LE β] [LT β] [Std.IsLinearOrder β] [Std.LawfulOrderLT β] [DecidableLT β]
    (ok : α → Bool) (key : α → β) {l : List α} (sorted : l.Pairwise (· < ·)) (top : β) :
    ((∀ j ∈ l, ok j → top ≤ key j) ∧ l.foldl (firstStep ok key) (none,top) = (none,top)) ∨
      ∃ i, l.foldl (firstStep ok key) (none,top) = (some i,key i) ∧ key i < top ∧ FirstLeast ok key l i := by
  induction l using List.reverseRecOn with
  | nil => exact Or.inl ⟨by simp,rfl⟩
  | append_singleton l x ih =>
    obtain ⟨sortedl,-,after⟩ := List.pairwise_append.mp sorted
    have before : ∀ j ∈ l, j < x := fun j mem => after j mem x (by simp)
    rw [List.foldl_append,List.foldl_cons,List.foldl_nil]
    rcases ih sortedl with ⟨above,empty⟩ | ⟨i,found,below,least⟩
    · rw [empty]
      by_cases better : ok x && decide (key x < top)
      · simp only [Bool.and_eq_true,decide_eq_true_eq] at better
        refine Or.inr ⟨x,by simp [firstStep,better],better.2,firstLeast_snoc_new better.1 better.2 above⟩
      · refine Or.inl ⟨?_,by rw [firstStep,if_neg better]⟩
        intro j mem okj
        rcases List.mem_append.mp mem with mem | single
        · exact above j mem okj
        · rw [List.mem_singleton.mp single] at okj ⊢
          simp only [okj,Bool.true_and,decide_eq_true_eq] at better
          exact Std.not_lt.mp better
    · rw [found]
      by_cases better : ok x && decide (key x < key i)
      · simp only [Bool.and_eq_true,decide_eq_true_eq] at better
        have above : ∀ j ∈ l, ok j → key i ≤ key j := least.2.2.1
        exact Or.inr ⟨x,by simp [firstStep,better],Std.lt_trans better.2 below,
          firstLeast_snoc_new better.1 better.2 above⟩
      · refine Or.inr ⟨i,by rw [firstStep,if_neg better],below,firstLeast_snoc_keep least before ?_⟩
        intro okx
        simpa [okx] using better

end Scan
