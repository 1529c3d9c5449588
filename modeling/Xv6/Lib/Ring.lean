import Mathlib

namespace Ring

variable {α : Type}

-- A ring of size cells read as a queue from head on, each index modulo size.
def cells (size : Nat) (data : Nat → α) (head count : Nat) : List α :=
  (List.range count).map fun k => data ((head + k) % size)

theorem length_cells (size : Nat) (data : Nat → α) (head count : Nat) :
    (cells size data head count).length = count := by
  simp [cells]

theorem cells_succ (size : Nat) (data : Nat → α) (head count : Nat) :
    cells size data head (count + 1) = cells size data head count ++ [data ((head + count) % size)] := by
  simp [cells,List.range_succ]

theorem mod_ne_of_lt {size head k count : Nat} (earlier : k < count) (lap : count < size) :
    (head + k) % size ≠ (head + count) % size := by
  intro same
  have apart : (head + count - (head + k)) % size = 0 := Nat.sub_mod_eq_zero_of_mod_eq same.symm
  rw [show head + count - (head + k) = count - k by omega,Nat.mod_eq_of_lt (by omega)] at apart
  omega

theorem cells_update_outside {size : Nat} {data : Nat → α} {head count : Nat} {x : α} (lap : count < size) :
    cells size (Function.update data ((head + count) % size) x) head count = cells size data head count := by
  apply List.map_congr_left
  intro k mem
  exact Function.update_of_ne (mod_ne_of_lt (List.mem_range.mp mem) lap) _ _

theorem cells_update_beyond {size : Nat} {data : Nat → α} {head count k : Nat} {x : α} (within : count ≤ k)
    (lap : k < size) : cells size (Function.update data ((head + k) % size) x) head count = cells size data head count := by
  apply List.map_congr_left
  intro j mem
  exact Function.update_of_ne (mod_ne_of_lt (Nat.lt_of_lt_of_le (List.mem_range.mp mem) within) lap) _ _

theorem cells_push {size : Nat} {data : Nat → α} {head count : Nat} (x : α) (lap : count < size) :
    cells size (Function.update data ((head + count) % size) x) head (count + 1) = cells size data head count ++ [x] := by
  rw [cells_succ,cells_update_outside lap,Function.update_self]

theorem cells_pop {size : Nat} (data : Nat → α) (head count : Nat) :
    cells size data head (count + 1) = data (head % size) :: cells size data (head + 1) count := by
  simp only [cells,List.range_succ_eq_map,List.map_cons,List.map_map,Nat.add_zero]
  congr 1
  apply List.map_congr_left
  intro k _
  simp only [Function.comp_apply]
  congr 2
  omega

theorem cells_mod_head {size width : Nat} (divides : size ∣ width) (data : Nat → α) (head count : Nat) :
    cells size data (head % width) count = cells size data head count := by
  apply List.map_congr_left
  intro k _
  rw [Nat.add_mod (head % width),Nat.mod_mod_of_dvd head divides,← Nat.add_mod]

theorem cells_append (size : Nat) (data : Nat → α) (head a b : Nat) :
    cells size data head (a + b) = cells size data head a ++ cells size data (head + a) b := by
  simp [cells,List.range_add,Nat.add_assoc]

-- Free-running 32-bit counters into the ring: their distance is the number of cells between them.
section Counters

variable {a b c : UInt32}

theorem toNat_sub_eq_zero_iff : (a - b).toNat = 0 ↔ a = b := by
  have x := a.toNat_lt
  have y := b.toNat_lt
  rw [← UInt32.toNat_inj,UInt32.toNat_sub]
  omega

theorem toNat_succ_sub (room : (a - b).toNat + 1 < 2 ^ 32) : (a + 1 - b).toNat = (a - b).toNat + 1 := by
  have x := a.toNat_lt
  have y := b.toNat_lt
  simp only [UInt32.toNat_sub,UInt32.toNat_add,UInt32.toNat_one] at room ⊢
  omega

theorem toNat_sub_succ (apart : a ≠ b) : (a - (b + 1)).toNat = (a - b).toNat - 1 := by
  have x := a.toNat_lt
  have y := b.toNat_lt
  have ne : a.toNat ≠ b.toNat := fun same => apart (UInt32.toNat_inj.mp same)
  simp only [UInt32.toNat_sub,UInt32.toNat_add,UInt32.toNat_one]
  omega

theorem toNat_pred_sub (apart : a ≠ b) : (a - 1 - b).toNat = (a - b).toNat - 1 := by
  have x := a.toNat_lt
  have y := b.toNat_lt
  have ne : a.toNat ≠ b.toNat := fun same => apart (UInt32.toNat_inj.mp same)
  simp only [UInt32.toNat_sub,UInt32.toNat_one]
  omega

theorem toNat_sub_split (between : (b - a).toNat ≤ (c - a).toNat) : (c - a).toNat = (b - a).toNat + (c - b).toNat := by
  have x := a.toNat_lt
  have y := b.toNat_lt
  have z := c.toNat_lt
  simp only [UInt32.toNat_sub] at between ⊢
  omega

theorem toNat_eq_add_sub (a b : UInt32) : b.toNat = (a.toNat + (b - a).toNat) % 2 ^ 32 := by
  have x := a.toNat_lt
  have y := b.toNat_lt
  rw [UInt32.toNat_sub]
  omega

end Counters

-- size divides 2^32, so the cells stay right when a counter wraps.
def window (size : Nat) (data : Nat → α) (lo hi : UInt32) : List α := cells size data lo.toNat (hi - lo).toNat

section Window

variable {size : Nat} {data : Nat → α} {lo mid hi : UInt32}

@[simp]
theorem length_window : (window size data lo hi).length = (hi - lo).toNat := length_cells ..

@[simp]
theorem window_self : window size data lo lo = [] := by
  simp [window,cells]

variable (divides : size ∣ 2 ^ 32)
include divides

theorem cells_counter (count : Nat) : cells size data (lo.toNat + (hi - lo).toNat) count = cells size data hi.toNat count := by
  rw [toNat_eq_add_sub lo hi,cells_mod_head divides]

theorem window_append (between : (mid - lo).toNat ≤ (hi - lo).toNat) :
    window size data lo hi = window size data lo mid ++ window size data mid hi := by
  rw [window,toNat_sub_split between,cells_append,cells_counter divides]
  rfl

theorem window_pop (apart : lo ≠ hi) : window size data lo hi = data (lo.toNat % size) :: window size data (lo + 1) hi := by
  have some : (hi - lo).toNat ≠ 0 := fun none => apart (toNat_sub_eq_zero_iff.mp none).symm
  obtain ⟨rest,counted⟩ : ∃ rest, (hi - lo).toNat = rest + 1 := ⟨(hi - lo).toNat - 1,by omega⟩
  have next : (hi - (lo + 1)).toNat = rest := by
    rw [toNat_sub_succ (Ne.symm apart)]
    omega
  have head : (lo + 1).toNat = (lo.toNat + 1) % 2 ^ 32 := by simp [UInt32.toNat_add]
  rw [window,window,counted,cells_pop,next,head,cells_mod_head divides]

theorem slot_counter : (lo.toNat + (hi - lo).toNat) % size = hi.toNat % size := by
  rw [toNat_eq_add_sub lo hi,Nat.mod_mod_of_dvd _ divides]

theorem window_push (room : (hi - lo).toNat < size) (small : size < 2 ^ 32) (x : α) :
    window size (Function.update data (hi.toNat % size) x) lo (hi + 1) = window size data lo hi ++ [x] := by
  rw [window,toNat_succ_sub (by omega),← slot_counter divides]
  exact cells_push x room

theorem window_update_beyond {x : UInt32} (within : (hi - lo).toNat ≤ (x - lo).toNat) (room : (x - lo).toNat < size)
    (a : α) : window size (Function.update data (x.toNat % size) a) lo hi = window size data lo hi := by
  rw [window,← slot_counter divides]
  exact cells_update_beyond within room

theorem window_last (apart : lo ≠ hi) :
    window size data lo hi = window size data lo (hi - 1) ++ [data ((hi - 1).toNat % size)] := by
  have some : (hi - lo).toNat ≠ 0 := fun none => apart (toNat_sub_eq_zero_iff.mp none).symm
  have before : (hi - 1 - lo).toNat + 1 = (hi - lo).toNat := by
    rw [toNat_pred_sub (Ne.symm apart)]
    omega
  rw [window,window,← before,cells_succ,slot_counter divides]

end Window

end Ring
