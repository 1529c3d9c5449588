import Mathlib.Logic.Function.Basic
import Mathlib.Data.Nat.Basic

namespace Bytes

variable {α : Type}

-- Contents as a function of the offset: a write of n items from src at off.
def put (f : Nat → α) (off n : Nat) (src : Nat → α) : Nat → α :=
  fun i => if off ≤ i ∧ i < off + n then src (i - off) else f i

variable {f : Nat → α} {off n i : Nat} {src : Nat → α}

theorem put_inside (lo : off ≤ i) (hi : i < off + n) : put f off n src i = src (i - off) := by
  simp [put,lo,hi]

theorem put_outside (out : i < off ∨ off + n ≤ i) : put f off n src i = f i := by
  have miss : ¬ (off ≤ i ∧ i < off + n) := by omega
  simp only [put,miss,if_false]

@[simp] theorem put_zero (f : Nat → α) (off : Nat) (src : Nat → α) : put f off 0 src = f := by
  funext i
  exact put_outside (by omega)

-- Two adjacent writes are one write of both.
theorem put_put_adjacent (f : Nat → α) (off a b : Nat) (src : Nat → α) :
    put (put f off a src) (off + a) b (fun j => src (a + j)) = put f off (a + b) src := by
  funext i
  by_cases second : off + a ≤ i ∧ i < off + a + b
  · rw [put_inside second.1 second.2,put_inside (by omega) (by omega)]
    congr 1
    omega
  · rw [put_outside (by omega)]
    by_cases first : off ≤ i ∧ i < off + a
    · rw [put_inside first.1 first.2,put_inside first.1 (by omega)]
    · rw [put_outside (by omega),put_outside (by omega)]

-- Only the first n items of src are read.
theorem put_congr (f : Nat → α) (off n : Nat) {src src' : Nat → α} (agree : ∀ j < n, src j = src' j) :
    put f off n src = put f off n src' := by
  funext i
  by_cases inside : off ≤ i ∧ i < off + n
  · rw [put_inside inside.1 inside.2,put_inside inside.1 inside.2,agree _ (by omega)]
  · rw [put_outside (by omega),put_outside (by omega)]

end Bytes
