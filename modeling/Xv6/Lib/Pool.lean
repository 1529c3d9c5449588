import Mathlib

namespace Pool

open Finset

-- A pool of slots, each free or held by exactly one client. Clients take
-- free slots and give back all they hold; the slots in use are then always
-- the clients' holdings, and the free ones are what is left.
variable {ι P : Type} [DecidableEq ι]

structure Parts (free : ι → Bool) (held : P → Finset ι) : Prop where
  disjoint : ∀ p q, p ≠ q → Disjoint (held p) (held q)
  covers : ∀ i, free i = false ↔ ∃ p, i ∈ held p

variable {free : ι → Bool} {held : P → Finset ι}

-- Taking the free slots s for a client that holds none.
theorem Parts.take [DecidableEq P] (parts : Parts free held) (p : P) (s : Finset ι) (idle : held p = ∅)
    (avail : ∀ i ∈ s, free i = true) :
    Parts (fun i => if i ∈ s then false else free i) (Function.update held p s) := by
  constructor
  · intro q r ne
    by_cases qp : q = p
    · subst qp
      rw [Function.update_self,Function.update_of_ne (Ne.symm ne)]
      refine Finset.disjoint_left.mpr fun i mine theirs => ?_
      have used := (parts.covers i).mpr ⟨r,theirs⟩
      rw [avail i mine] at used
      cases used
    · by_cases rp : r = p
      · subst rp
        rw [Function.update_self,Function.update_of_ne qp]
        refine Finset.disjoint_left.mpr fun i theirs mine => ?_
        have used := (parts.covers i).mpr ⟨q,theirs⟩
        rw [avail i mine] at used
        cases used
      · rw [Function.update_of_ne qp,Function.update_of_ne rp]
        exact parts.disjoint q r ne
  · intro i
    by_cases mem : i ∈ s
    · simp only [mem,↓reduceIte,true_iff]
      exact ⟨p,by rw [Function.update_self]; exact mem⟩
    · simp only [mem,↓reduceIte]
      rw [parts.covers i]
      constructor
      · rintro ⟨q,held⟩
        have qp : q ≠ p := by
          rintro rfl
          rw [idle] at held
          cases held
        exact ⟨q,by rwa [Function.update_of_ne qp]⟩
      · rintro ⟨q,held⟩
        by_cases qp : q = p
        · subst qp
          rw [Function.update_self] at held
          exact absurd held mem
        · exact ⟨q,by rwa [Function.update_of_ne qp] at held⟩

-- A client giving back everything it holds.
theorem Parts.give [DecidableEq P] (parts : Parts free held) (p : P) :
    Parts (fun i => if i ∈ held p then true else free i) (Function.update held p ∅) := by
  constructor
  · intro q r ne
    by_cases qp : q = p
    · subst qp
      rw [Function.update_self]
      exact Finset.disjoint_empty_left _
    · by_cases rp : r = p
      · subst rp
        rw [Function.update_self]
        exact Finset.disjoint_empty_right _
      · rw [Function.update_of_ne qp,Function.update_of_ne rp]
        exact parts.disjoint q r ne
  · intro i
    by_cases mem : i ∈ held p
    · simp only [mem,↓reduceIte,Bool.true_eq_false,false_iff,not_exists]
      intro q inner
      by_cases qp : q = p
      · subst qp
        rw [Function.update_self] at inner
        cases inner
      · rw [Function.update_of_ne qp] at inner
        exact Finset.disjoint_left.mp (parts.disjoint p q (Ne.symm qp)) mem inner
    · simp only [mem,↓reduceIte]
      rw [parts.covers i]
      constructor
      · rintro ⟨q,inner⟩
        have qp : q ≠ p := by
          rintro rfl
          exact mem inner
        exact ⟨q,by rwa [Function.update_of_ne qp]⟩
      · rintro ⟨q,inner⟩
        by_cases qp : q = p
        · subst qp
          rw [Function.update_self] at inner
          cases inner
        · exact ⟨q,by rwa [Function.update_of_ne qp] at inner⟩

-- The slots in use are the union of the holdings.
theorem Parts.used_eq [Fintype ι] [Fintype P] (parts : Parts free held) :
    univ.filter (fun i => free i = false) = univ.biUnion held := by
  ext i
  simp [parts.covers i]

-- Conservation: the free slots and the slots held by each client count every
-- slot once.
theorem Parts.card_add [Fintype ι] [Fintype P] (parts : Parts free held) :
    (univ.filter fun i => free i = true).card + ∑ p, (held p).card = Fintype.card ι := by
  rw [← card_biUnion fun p _ q _ ne => parts.disjoint p q ne,← parts.used_eq]
  have split := card_filter_add_card_filter_not (s := (univ : Finset ι)) fun i => free i = true
  simpa using split

end Pool
