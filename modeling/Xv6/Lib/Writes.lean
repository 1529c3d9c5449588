import Mathlib.Data.List.Basic

namespace BlockWrites

variable {α : Type}

-- One single-block write of a device `Nat → α`. Its value may read the device
-- as it stands when the write is issued (a copy from another block).
structure Write (α : Type) where
  block : Nat
  value : (Nat → α) → α

-- Writes reach the device one at a time and in program order; a crash after
-- `k` of them leaves `apply (ws.take k) d`.
def apply : List (Write α) → (Nat → α) → (Nat → α)
  | [],d => d
  | w :: ws,d => apply ws (Function.update d w.block (w.value d))

@[simp] theorem apply_cons (w : Write α) (ws : List (Write α)) (d : Nat → α) :
    apply (w :: ws) d = apply ws (Function.update d w.block (w.value d)) := rfl

theorem apply_append (ws vs : List (Write α)) (d : Nat → α) :
    apply (ws ++ vs) d = apply vs (apply ws d) := by
  induction ws generalizing d with
  | nil => rfl
  | cons w ws ih => exact ih _

theorem apply_other (ws : List (Write α)) (d : Nat → α) (b : Nat)
    (untouched : ∀ w ∈ ws, w.block ≠ b) : apply ws d b = d b := by
  induction ws generalizing d with
  | nil => rfl
  | cons w ws ih =>
    rw [apply_cons,ih _ (fun v member => untouched v (List.mem_cons_of_mem _ member))]
    exact Function.update_of_ne (untouched w List.mem_cons_self).symm _ _

-- A set of blocks that every write of a list may read and that none of them writes.
def ReadsOnly (R : Nat → Prop) (ws : List (Write α)) : Prop :=
  ∀ w ∈ ws, ¬ R w.block ∧ ∀ d d' : Nat → α, (∀ r, R r → d r = d' r) → w.value d = w.value d'

theorem ReadsOnly.tail {R : Nat → Prop} {w : Write α} {ws : List (Write α)}
    (reads : ReadsOnly R (w :: ws)) : ReadsOnly R ws :=
  fun v member => reads v (List.mem_cons_of_mem _ member)

theorem ReadsOnly.take {R : Nat → Prop} {ws : List (Write α)} (reads : ReadsOnly R ws) (k : Nat) :
    ReadsOnly R (ws.take k) :=
  fun v member => reads v (List.mem_of_mem_take member)

theorem ReadsOnly.keeps {R : Nat → Prop} {ws : List (Write α)} (reads : ReadsOnly R ws)
    (d : Nat → α) : ∀ r, R r → apply ws d r = d r := by
  intro r inR
  apply apply_other
  intro w member same
  exact (reads w member).1 (same ▸ inR)

def lastWrite (ws : List (Write α)) (b : Nat) : Option (Write α) :=
  (ws.filter (·.block = b)).getLast?

theorem lastWrite_cons (w : Write α) (ws : List (Write α)) (b : Nat) :
    lastWrite (w :: ws) b = (lastWrite ws b).or (if w.block = b then some w else none) := by
  unfold lastWrite
  by_cases same : w.block = b
  · cases rest : (ws.filter (·.block = b)).getLast? with
    | none =>
      have empty : ws.filter (·.block = b) = [] := List.getLast?_eq_none_iff.mp rest
      simp [same,empty]
    | some v =>
      simp only [List.filter_cons,same,decide_true,if_true,Option.some_or]
      rw [List.getLast?_cons,rest]; rfl
  · simp [same]

theorem lastWrite_mem {ws : List (Write α)} {b : Nat} {w : Write α}
    (last : lastWrite ws b = some w) : w ∈ ws ∧ w.block = b := by
  have member := List.mem_of_getLast? last
  simpa using member

theorem lastWrite_none {ws : List (Write α)} {b : Nat} (none : lastWrite ws b = none) :
    ∀ w ∈ ws, w.block ≠ b := by
  intro w member same
  have empty : ws.filter (·.block = b) = [] := List.getLast?_eq_none_iff.mp none
  have kept : w ∈ ws.filter (·.block = b) := List.mem_filter.mpr ⟨member,by simpa using same⟩
  simp [empty] at kept

-- When the blocks a program reads are never written by it, every block ends up
-- with the value its last write computes on the initial device.
theorem apply_snapshot {R : Nat → Prop} {ws : List (Write α)} (reads : ReadsOnly R ws)
    (d : Nat → α) (b : Nat) :
    apply ws d b = match lastWrite ws b with | some w => w.value d | none => d b := by
  induction ws generalizing d with
  | nil => rfl
  | cons w ws ih =>
    have kept : ∀ r, R r → Function.update d w.block (w.value d) r = d r := by
      intro r inR
      apply Function.update_of_ne
      intro same
      exact (reads w List.mem_cons_self).1 (same ▸ inR)
    rw [apply_cons,ih reads.tail,lastWrite_cons]
    cases later : lastWrite ws b with
    | some v =>
      exact ((reads.tail v (lastWrite_mem later).1).2 _ _ kept)
    | none =>
      by_cases same : w.block = b
      · subst same; simp
      · simp [same,Function.update_of_ne (Ne.symm same)]

theorem apply_after_crash {R : Nat → Prop} {ws : List (Write α)} (reads : ReadsOnly R ws)
    (d : Nat → α) (k : Nat) : apply ws (apply (ws.take k) d) = apply ws d := by
  funext b
  have agree := (reads.take k).keeps d
  rw [apply_snapshot reads,apply_snapshot reads]
  cases last : lastWrite ws b with
  | some w => exact (reads w (lastWrite_mem last).1).2 _ _ agree
  | none =>
    apply apply_other
    intro w member
    exact lastWrite_none last w (List.mem_of_mem_take member)

theorem apply_uniform {R : Nat → Prop} {ws : List (Write α)} (reads : ReadsOnly R ws)
    (d : Nat → α) (b : Nat) (v : α) (written : ∃ w ∈ ws, w.block = b)
    (uniform : ∀ w ∈ ws, w.block = b → w.value d = v) : apply ws d b = v := by
  rw [apply_snapshot reads]
  cases last : lastWrite ws b with
  | some w => exact uniform w (lastWrite_mem last).1 (lastWrite_mem last).2
  | none =>
    obtain ⟨w,member,same⟩ := written
    exact absurd same (lastWrite_none last w member)

end BlockWrites
