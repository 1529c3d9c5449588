import Mathlib.Logic.Function.Basic

namespace Slots

-- A table of slots addressed by index, some of them in use, each slot in use
-- holding a key: the first slot in use under a key is what the key leads to.
variable {α κ : Type} (live : α → Prop) (key : α → κ)

def Unique (es : List α) : Prop :=
  ∀ (i j : Nat) (a b : α), i ≠ j → es[i]? = some a → es[j]? = some b → live a → live b → key a ≠ key b

def find [DecidablePred live] [DecidableEq κ] (es : List α) (k : κ) : Option α := es.find? fun a => live a && key a = k

-- A write of one slot: over a slot of the table, or one past its last.
def write (es : List α) (slot : Nat) (a : α) : List α := if slot < es.length then es.set slot a else es ++ [a]

variable {live key} {es : List α} {slot : Nat} {a x : α}

section Find

variable [DecidablePred live] [DecidableEq κ] {k : κ}

theorem find_eq_none_iff : find live key es k = none ↔ ∀ a ∈ es, live a → key a ≠ k := by
  simp [find,List.find?_eq_none]

theorem find_some {a : α} (found : find live key es k = some a) : live a ∧ key a = k ∧ a ∈ es := by
  have test := List.find?_some found
  simp only [Bool.and_eq_true,decide_eq_true_eq] at test
  exact ⟨test.1,test.2,List.mem_of_find?_eq_some found⟩

-- With keys unique among the slots in use, the slot in use under a key is
-- the one find returns.
theorem find_eq_some_iff (unique : Unique live key es) : find live key es k = some a ↔ live a ∧ key a = k ∧ a ∈ es := by
  refine ⟨find_some,?_⟩
  rintro ⟨alive,rfl,mem⟩
  have present : (find live key es (key a)).isSome := by
    rw [find,List.find?_isSome]
    exact ⟨a,mem,by simp [alive]⟩
  obtain ⟨b,hit⟩ := Option.isSome_iff_exists.mp present
  obtain ⟨test,i,hi,found,-⟩ := List.find?_eq_some_iff_getElem.mp hit
  simp only [Bool.and_eq_true,decide_eq_true_eq] at test
  obtain ⟨j,spot⟩ := List.mem_iff_getElem?.mp mem
  have same : i = j := by
    by_contra other
    exact unique i j b a other (by rw [List.getElem?_eq_getElem hi,found]) spot test.1 alive test.2
  subst same
  rw [List.getElem?_eq_getElem hi,found] at spot
  rw [hit,spot]

end Find

theorem getElem?_write (inside : slot ≤ es.length) (k : Nat) :
    (write es slot a)[k]? = if k = slot then some a else es[k]? := by
  unfold write
  split
  · rename_i within
    rw [List.getElem?_set]
    by_cases same : k = slot
    · simp [same,within]
    · simp [same,Ne.symm same]
  · have last : slot = es.length := by omega
    subst last
    by_cases same : k = es.length
    · simp [same]
    · by_cases below : k < es.length
      · simp [same,List.getElem?_append_left below]
      · rw [if_neg same,List.getElem?_eq_none (by simp; omega),List.getElem?_eq_none (by omega)]

theorem mem_write (inside : slot ≤ es.length) : x ∈ write es slot a ↔ x = a ∨ ∃ k, k ≠ slot ∧ es[k]? = some x := by
  simp only [List.mem_iff_getElem?,getElem?_write inside]
  constructor
  · rintro ⟨k,spot⟩
    by_cases same : k = slot
    · rw [if_pos same] at spot
      exact .inl (Option.some.inj spot).symm
    · rw [if_neg same] at spot
      exact .inr ⟨k,same,spot⟩
  · rintro (rfl | ⟨k,other,spot⟩)
    · exact ⟨slot,by simp⟩
    · exact ⟨k,by rw [if_neg other]; exact spot⟩

theorem mem_write_cases (mem : x ∈ write es slot a) : x = a ∨ x ∈ es := by
  unfold write at mem
  split at mem
  · exact (List.mem_or_eq_of_mem_set mem).symm
  · rcases List.mem_append.mp mem with old | new
    · exact .inr old
    · exact .inl (List.mem_singleton.mp new)

-- A slot not in use, written anywhere, leaves every slot in use where it was.
theorem getElem?_write_dead {k : Nat} (dead : ¬live a) (spot : (write es slot a)[k]? = some x) (alive : live x) :
    es[k]? = some x := by
  unfold write at spot
  split at spot
  · rw [List.getElem?_set] at spot
    split at spot
    · cases spot
      exact absurd alive dead
    · exact spot
  · rw [List.getElem?_append] at spot
    split at spot
    · exact spot
    · rw [List.getElem?_singleton] at spot
      split at spot
      · cases spot
        exact absurd alive dead
      · cases spot

theorem unique_write (unique : Unique live key es) (inside : slot ≤ es.length)
    (fresh : live a → ∀ x ∈ es, live x → key x ≠ key a) : Unique live key (write es slot a) := by
  intro i j b c other ati atj liveb livec
  rw [getElem?_write inside] at ati atj
  by_cases first : i = slot
  · rw [if_pos first] at ati
    rw [if_neg (fun same => other (first.trans same.symm))] at atj
    cases Option.some.inj ati
    exact (fresh liveb c (List.mem_of_getElem? atj) livec).symm
  · rw [if_neg first] at ati
    by_cases second : j = slot
    · rw [if_pos second] at atj
      cases Option.some.inj atj
      exact fresh livec b (List.mem_of_getElem? ati) liveb
    · rw [if_neg second] at atj
      exact unique i j b c other ati atj liveb livec

theorem unique_write_dead (unique : Unique live key es) (dead : ¬live a) : Unique live key (write es slot a) :=
  fun i j b c other ati atj liveb livec =>
    unique i j b c other (getElem?_write_dead dead ati liveb) (getElem?_write_dead dead atj livec) liveb livec

theorem unique_append_dead {rest : List α} (unique : Unique live key es) (dead : ∀ a ∈ rest, ¬live a) :
    Unique live key (es ++ rest) := by
  have kept : ∀ (i : Nat) (b : α), (es ++ rest)[i]? = some b → live b → es[i]? = some b := by
    intro i b spot alive
    rw [List.getElem?_append] at spot
    split at spot
    · exact spot
    · exact absurd alive (dead b (List.mem_of_getElem? spot))
  exact fun i j b c other ati atj liveb livec =>
    unique i j b c other (kept i b ati liveb) (kept j c atj livec) liveb livec

theorem unique_pair {b : α} (apart : key a ≠ key b) : Unique live key [a,b] := by
  intro i j c d other ati atj _ _
  match i,j with
  | 0,0 | 1,1 => exact absurd rfl other
  | 0,1 =>
    cases ati
    cases atj
    exact apart
  | 1,0 =>
    cases ati
    cases atj
    exact Ne.symm apart
  | i + 2,_ => cases ati
  | _,j + 2 => cases atj

section Update

variable [DecidablePred live] [DecidableEq κ]

-- A key not in use, written over a free slot or past the last: the map gains
-- the key and keeps every other.
theorem find_write (unique : Unique live key es) (inside : slot ≤ es.length) (free : ∀ b, es[slot]? = some b → ¬live b)
    (alive : live a) (absent : find live key es (key a) = none) :
    find live key (write es slot a) = Function.update (find live key es) (key a) (some a) := by
  have fresh : ∀ x ∈ es, live x → key x ≠ key a := fun x mem livex => find_eq_none_iff.mp absent x mem livex
  have unique' := unique_write unique inside fun _ => fresh
  funext k
  apply Option.ext
  intro b
  rw [find_eq_some_iff unique',mem_write inside]
  by_cases same : k = key a
  · subst same
    rw [Function.update_self,Option.some.injEq]
    constructor
    · rintro ⟨liveb,named,hit | ⟨j,-,spot⟩⟩
      · exact hit.symm
      · exact absurd named (fresh b (List.mem_of_getElem? spot) liveb)
    · rintro rfl
      exact ⟨alive,rfl,.inl rfl⟩
  · rw [Function.update_of_ne same,find_eq_some_iff unique]
    constructor
    · rintro ⟨liveb,named,hit | ⟨j,-,spot⟩⟩
      · subst hit
        exact absurd named.symm same
      · exact ⟨liveb,named,List.mem_of_getElem? spot⟩
    · rintro ⟨liveb,named,mem⟩
      obtain ⟨j,spot⟩ := List.mem_iff_getElem?.mp mem
      have other : j ≠ slot := fun there => free b (there ▸ spot) liveb
      exact ⟨liveb,named,.inr ⟨j,other,spot⟩⟩

-- A slot in use overwritten by one not in use: its key goes, every other stays.
theorem find_write_dead (unique : Unique live key es) (spot : es[slot]? = some x) (alive : live x) (dead : ¬live a) :
    find live key (write es slot a) = Function.update (find live key es) (key x) none := by
  have inside : slot ≤ es.length := Nat.le_of_lt (List.getElem?_eq_some_iff.mp spot).1
  have unique' := @unique_write_dead _ _ live key es slot a unique dead
  funext k
  by_cases same : k = key x
  · subst same
    rw [Function.update_self,find_eq_none_iff]
    intro b mem liveb named
    rcases (mem_write inside).mp mem with rfl | ⟨j,other,there⟩
    · exact dead liveb
    · exact unique j slot b x other there spot liveb alive named
  · rw [Function.update_of_ne same]
    apply Option.ext
    intro b
    rw [find_eq_some_iff unique',find_eq_some_iff unique,mem_write inside]
    constructor
    · rintro ⟨liveb,named,rfl | ⟨j,-,there⟩⟩
      · exact absurd liveb dead
      · exact ⟨liveb,named,List.mem_of_getElem? there⟩
    · rintro ⟨liveb,named,mem⟩
      obtain ⟨j,there⟩ := List.mem_iff_getElem?.mp mem
      have other : j ≠ slot := by
        rintro rfl
        rw [spot] at there
        cases there
        exact same named.symm
      exact ⟨liveb,named,.inr ⟨j,other,there⟩⟩

end Update

end Slots
