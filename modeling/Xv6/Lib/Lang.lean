import Mathlib.Computability.Language

namespace Language

open Computability

variable {α : Type} {l m : Language α} {x : List α}

-- The words of one symbol that satisfies p.
def symbol (p : α → Prop) : Language α := {w | ∃ t, p t ∧ w = [t]}

def every : Language α := {_w | True}

@[simp]
theorem mem_symbol {p : α → Prop} : x ∈ symbol p ↔ ∃ t, p t ∧ x = [t] := Iff.rfl

@[simp]
theorem mem_every : x ∈ (every : Language α) := trivial

theorem mem_symbol_mul {p : α → Prop} : x ∈ symbol p * l ↔ ∃ t v, x = t :: v ∧ p t ∧ v ∈ l := by
  rw [mem_mul]
  constructor
  · rintro ⟨_,⟨t,admits,rfl⟩,v,mem,rfl⟩
    exact ⟨t,v,rfl,admits,mem⟩
  · rintro ⟨t,v,rfl,admits,mem⟩
    exact ⟨[t],⟨t,admits,rfl⟩,v,mem,rfl⟩

theorem nil_not_mem_symbol_mul {p : α → Prop} : [] ∉ symbol p * l := by
  rw [mem_symbol_mul]
  rintro ⟨_,_,nil,-⟩
  cases nil

theorem cons_mem_symbol_mul {p : α → Prop} {t : α} : t :: x ∈ symbol p * l ↔ p t ∧ x ∈ l := by
  rw [mem_symbol_mul]
  constructor
  · rintro ⟨_,_,same,admits,mem⟩
    cases same
    exact ⟨admits,mem⟩
  · rintro ⟨admits,mem⟩
    exact ⟨t,x,rfl,admits,mem⟩

-- A star followed by m: m at once, or one word of l first.
theorem mem_kstar_mul : x ∈ l∗ * m ↔ x ∈ m ∨ x ∈ l * (l∗ * m) := by
  conv_lhs => rw [← one_add_self_mul_kstar_eq_kstar l]
  rw [add_mul,one_mul,mul_assoc,mem_add]

theorem mem_mul_every : x ∈ l * every ↔ ∃ u v, x = u ++ v ∧ u ∈ l := by
  rw [mem_mul]
  constructor
  · rintro ⟨u,mem,v,-,rfl⟩
    exact ⟨u,v,rfl,mem⟩
  · rintro ⟨u,v,rfl,mem⟩
    exact ⟨u,mem,v,mem_every,rfl⟩

-- Some suffix of x is in l, from the first position on.
theorem mem_every_mul : x ∈ every * l ↔ ∃ i ≤ x.length, x.drop i ∈ l := by
  rw [mem_mul]
  constructor
  · rintro ⟨u,-,v,mem,rfl⟩
    exact ⟨u.length,by simp,by simpa using mem⟩
  · rintro ⟨i,-,mem⟩
    exact ⟨x.take i,mem_every,x.drop i,mem,List.take_append_drop i x⟩

theorem nil_mem_every_mul : [] ∈ every * l ↔ [] ∈ l := by
  simp [mem_every_mul]

theorem cons_mem_every_mul {t : α} : t :: x ∈ every * l ↔ t :: x ∈ l ∨ x ∈ every * l := by
  simp only [mem_every_mul]
  constructor
  · rintro ⟨i,within,mem⟩
    cases i with
    | zero => exact .inl mem
    | succ i => exact .inr ⟨i,by simpa using within,mem⟩
  · rintro (mem | ⟨i,within,mem⟩)
    · exact ⟨0,by simp,mem⟩
    · exact ⟨i + 1,by simpa using within,mem⟩

end Language
