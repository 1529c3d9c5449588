import Mathlib
import Xv6.Lib.Bytes

namespace Endian

-- Little-endian fields in a byte array: the n bytes from off, least
-- significant first, as a number, and x written there.
def byte (x k : Nat) : UInt8 := (x / 256 ^ k).toUInt8

def get (f : Nat → UInt8) (off : Nat) : Nat → Nat
  | 0 => 0
  | n + 1 => (f off).toNat + 256 * get f (off + 1) n

def set (f : Nat → UInt8) (off n x : Nat) : Nat → UInt8 := Bytes.put f off n (byte x)

variable {f g : Nat → UInt8} {off n x : Nat}

theorem byte_succ (x k : Nat) : byte x (k + 1) = byte (x / 256) k := by
  simp only [byte,Nat.pow_succ,Nat.div_div_eq_div_mul,Nat.mul_comm]

-- Only the n bytes of the field are read.
theorem get_congr (agree : ∀ k < n, f (off + k) = g (off + k)) : get f off n = get g off n := by
  induction n generalizing off with
  | zero => rfl
  | succ n ih =>
    have first := agree 0 (Nat.zero_lt_succ n)
    have rest : get f (off + 1) n = get g (off + 1) n := ih fun k below => by
      rw [Nat.add_assoc,Nat.add_comm 1 k]
      exact agree (k + 1) (by omega)
    rw [Nat.add_zero] at first
    simp only [get,first,rest]

@[simp] theorem get_zero (off n : Nat) : get (fun _ => 0) off n = 0 := by
  induction n generalizing off with
  | zero => rfl
  | succ n ih => simp [get,ih]

-- A field reads back what was written, cut to its width.
theorem get_set (f : Nat → UInt8) (off n x : Nat) : get (set f off n x) off n = x % 256 ^ n := by
  induction n generalizing off x with
  | zero => simp [get,Nat.mod_one]
  | succ n ih =>
    have rest : get (set f off (n + 1) x) (off + 1) n = get (set f (off + 1) n (x / 256)) (off + 1) n := by
      apply get_congr
      intro k below
      simp only [set]
      rw [Bytes.put_inside (by omega) (by omega),Bytes.put_inside (by omega) (by omega),
        show off + 1 + k - off = k + 1 by omega,show off + 1 + k - (off + 1) = k by omega,byte_succ]
    have first : (set f off (n + 1) x off).toNat = x % 256 := by
      simp [set,Bytes.put_inside (Nat.le_refl off) (by omega : off < off + (n + 1)),byte]
    simp only [get]
    rw [rest,ih,first,Nat.pow_succ,Nat.mul_comm (256 ^ n) 256,Nat.mod_mul]

theorem get_set_small (f : Nat → UInt8) (off n : Nat) {x : Nat} (small : x < 256 ^ n) :
    get (set f off n x) off n = x := by
  rw [get_set,Nat.mod_eq_of_lt small]

-- Writing one field leaves a field beside it as it was.
theorem get_set_apart (apart : off' + n' ≤ off ∨ off + n ≤ off') : get (set f off n x) off' n' = get f off' n' :=
  get_congr fun k below => Bytes.put_outside (by omega)

-- An array of count n-byte elements from off, element c at off + n * c.
def setArray (f : Nat → UInt8) (off n : Nat) (xs : Nat → Nat) : Nat → Nat → UInt8
  | 0 => f
  | count + 1 => set (setArray f off n xs count) (off + n * count) n (xs count)

theorem setArray_outside {xs : Nat → Nat} {count i : Nat} (out : i < off ∨ off + n * count ≤ i) :
    setArray f off n xs count i = f i := by
  induction count with
  | zero => rfl
  | succ count ih =>
    rw [Nat.mul_succ] at out
    rw [setArray,set,Bytes.put_outside (by omega),ih (by omega)]

theorem get_setArray_outside {xs : Nat → Nat} {count off' n' : Nat}
    (apart : off' + n' ≤ off ∨ off + n * count ≤ off') : get (setArray f off n xs count) off' n' = get f off' n' :=
  get_congr fun k below => setArray_outside (by omega)

theorem get_setArray {xs : Nat → Nat} {count k : Nat} (below : k < count) :
    get (setArray f off n xs count) (off + n * k) n = xs k % 256 ^ n := by
  induction count with
  | zero => omega
  | succ count ih =>
    rw [setArray]
    by_cases last : k = count
    · rw [last,get_set]
    · have before : k < count := by omega
      have room : n * (k + 1) ≤ n * count := Nat.mul_le_mul_left n before
      rw [get_set_apart (Or.inl (by rw [Nat.mul_succ] at room; omega)),ih before]

end Endian
