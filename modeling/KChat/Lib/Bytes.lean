import Mathlib.Data.List.Induction
import Mathlib.Data.Nat.Bitwise
import Mathlib.Tactic.Ring

/-!
# Byte strings and fixed-width integers

* `toBE k n`: the `k` big-endian bytes of `n`; `ofBE`: the number they stand for;
  **`ofBE_toBE`**, **`toBE_ofBE`**: the two are inverse below `256 ^ k`.
* `ofLE`: the little-endian reading, and `leFold`, the loop that computes it with shifts and ors;
  **`leFold_eq`**: the loop computes the number.
* `ascii`: the bytes of a label.
-/

namespace Lib

/-- A byte string. -/
abbrev Bytes : Type := List UInt8

/-- The bytes of a label of ASCII characters. -/
def ascii (label : String) : Bytes := label.toList.map fun c => UInt8.ofNat c.toNat

/-! ## Big-endian integers -/

/-- The `k` low bytes of `n`, most significant first. -/
def toBE : ℕ → ℕ → Bytes
  | 0, _ => []
  | k + 1, n => toBE k (n / 256) ++ [UInt8.ofNat n]

/-- The number a big-endian byte string stands for. -/
def ofBE (b : Bytes) : ℕ := b.foldl (fun n x => n * 256 + x.toNat) 0

@[simp] theorem toBE_length (k n : ℕ) : (toBE k n).length = k := by
  induction k generalizing n with
  | zero => rfl
  | succ k ih => simp [toBE, ih]

theorem ofBE_append_singleton (b : Bytes) (x : UInt8) : ofBE (b ++ [x]) = ofBE b * 256 + x.toNat := by
  simp [ofBE]

theorem ofBE_toBE_mod (k n : ℕ) : ofBE (toBE k n) = n % 256 ^ k := by
  induction k generalizing n with
  | zero => simp [toBE, ofBE, Nat.mod_one]
  | succ k ih =>
    rw [toBE, ofBE_append_singleton, ih, pow_succ', Nat.mod_mul]
    have : (UInt8.ofNat n).toNat = n % 256 := by simp
    rw [this]
    ring

/-- **Reading back the big-endian bytes of a number that fits.** -/
theorem ofBE_toBE {k n : ℕ} (h : n < 256 ^ k) : ofBE (toBE k n) = n := by
  rw [ofBE_toBE_mod, Nat.mod_eq_of_lt h]

/-- **A byte string is the big-endian form of the number it stands for.** -/
theorem toBE_ofBE (b : Bytes) : toBE b.length (ofBE b) = b := by
  induction b using List.reverseRecOn with
  | nil => rfl
  | append_singleton b x ih =>
    have hx := x.toNat_lt
    rw [ofBE_append_singleton, List.length_append, List.length_singleton, toBE]
    have h1 : (ofBE b * 256 + x.toNat) / 256 = ofBE b := by omega
    have h2 : UInt8.ofNat (ofBE b * 256 + x.toNat) = x := by
      apply UInt8.toNat_inj.mp
      rw [UInt8.toNat_ofNat']
      omega
    rw [h1, h2, ih]

/-! ## Little-endian integers -/

/-- The number a little-endian byte string stands for. -/
def ofLE : Bytes → ℕ
  | [] => 0
  | x :: b => x.toNat + 256 * ofLE b

/-- The loop `size |= byte << (8 * i)`, from index `i` on. -/
def leFold : ℕ → ℕ → Bytes → ℕ
  | _, size, [] => size
  | i, size, x :: b => leFold (i + 1) (size ||| x.toNat <<< (8 * i)) b

theorem ofLE_lt (b : Bytes) : ofLE b < 256 ^ b.length := by
  induction b with
  | nil => simp [ofLE]
  | cons x b ih =>
    have := x.toNat_lt
    rw [ofLE, List.length_cons, pow_succ]
    omega

theorem or_shiftLeft_eq {i size x : ℕ} (h : size < 256 ^ i) :
    size ||| x <<< (8 * i) = size + 256 ^ i * x := by
  have h' : size < 2 ^ (8 * i) := by rw [pow_mul]; exact h
  rw [Nat.or_comm, Nat.shiftLeft_eq, Nat.mul_comm x, ← Nat.two_pow_add_eq_or_of_lt h', pow_mul]
  ring

/-- **The shift-and-or loop computes the little-endian number.** -/
theorem leFold_eq (i size : ℕ) (b : Bytes) (h : size < 256 ^ i) :
    leFold i size b = size + 256 ^ i * ofLE b := by
  induction b generalizing i size with
  | nil => simp [leFold, ofLE]
  | cons x b ih =>
    have hx := x.toNat_lt
    have hlt : size + 256 ^ i * x.toNat < 256 ^ (i + 1) := by
      rw [pow_succ]
      have : 256 ^ i * x.toNat ≤ 256 ^ i * 255 := Nat.mul_le_mul_left _ (by omega)
      omega
    rw [leFold, or_shiftLeft_eq h, ih _ _ hlt, ofLE, pow_succ]
    ring

end Lib
