/-
# `Muduo.Lib.BigEndian` — integers as bytes, the most significant first

`bytes n x` are the `n` lowest bytes of `x`, and `value` reads them back.  An
integer that may be negative is written as its two's complement (`ofInt`); for
the value of a bit vector that is the bytes of the vector (`ofInt_toInt`).
-/
import Mathlib.Algebra.Order.Ring.Int
import Mathlib.Data.List.Basic
import Mathlib.Data.List.Induction
import Mathlib.Data.Nat.Basic
import Mathlib.Tactic.Ring

namespace BigEndian

/-- The `n` lowest bytes of `x`. -/
def bytes : ℕ → ℕ → List (BitVec 8)
  | 0, _ => []
  | n + 1, x => bytes n (x / 256) ++ [BitVec.ofNat 8 x]

/-- The number that the bytes make. -/
def value (bs : List (BitVec 8)) : ℕ := bs.foldl (fun x b => x * 256 + b.toNat) 0

/-- The two's complement of `x` in `n` bytes. -/
def ofInt (n : ℕ) (x : ℤ) : List (BitVec 8) := bytes n (x % (256 ^ n : ℕ)).toNat

variable {n x : ℕ} {bs : List (BitVec 8)} {b : BitVec 8}

@[simp] theorem length_bytes (n x : ℕ) : (bytes n x).length = n := by
  induction n generalizing x with
  | zero => rfl
  | succ n ih => rw [bytes, List.length_append, ih, List.length_singleton]

@[simp] theorem length_ofInt (n : ℕ) (x : ℤ) : (ofInt n x).length = n := length_bytes n _

theorem value_snoc (bs : List (BitVec 8)) (b : BitVec 8) :
    value (bs ++ [b]) = value bs * 256 + b.toNat := by
  rw [value, List.foldl_append]
  rfl

theorem value_bytes (n x : ℕ) : value (bytes n x) = x % 256 ^ n := by
  induction n generalizing x with
  | zero => exact (Nat.mod_one x).symm
  | succ n ih =>
      have hlow : (BitVec.ofNat 8 x).toNat = x % 256 := BitVec.toNat_ofNat x 8
      rw [bytes, value_snoc, ih, hlow, Nat.pow_succ', Nat.mod_mul]
      ring

theorem value_lt (bs : List (BitVec 8)) : value bs < 256 ^ bs.length := by
  induction bs using List.reverseRecOn with
  | nil => exact Nat.one_pos
  | append_singleton bs b ih =>
      have hb : b.toNat < 256 := b.isLt
      rw [value_snoc, List.length_append, List.length_singleton, Nat.pow_succ]
      omega

theorem bytes_value (bs : List (BitVec 8)) : bytes bs.length (value bs) = bs := by
  induction bs using List.reverseRecOn with
  | nil => rfl
  | append_singleton bs b ih =>
      have hb : b.toNat < 256 := b.isLt
      have hlow : BitVec.ofNat 8 (value bs * 256 + b.toNat) = b := by
        refine BitVec.eq_of_toNat_eq ?_
        rw [BitVec.toNat_ofNat]
        omega
      have hhigh : (value bs * 256 + b.toNat) / 256 = value bs := by omega
      rw [List.length_append, List.length_singleton, bytes, value_snoc, hlow, hhigh, ih]

/-- A number below `256 ^ n` is read back. -/
theorem value_bytes_of_lt (h : x < 256 ^ n) : value (bytes n x) = x := by
  rw [value_bytes, Nat.mod_eq_of_lt h]

theorem toNat_lt (x : BitVec (8 * n)) : x.toNat < 256 ^ n := by
  have h := x.isLt
  rwa [Nat.pow_mul] at h

/-- The two's complement of the value of a bit vector is the bit vector. -/
theorem ofInt_toInt (x : BitVec (8 * n)) : ofInt n x.toInt = bytes n x.toNat := by
  have hpow : (256 ^ n : ℕ) = 2 ^ (8 * n) := (Nat.pow_mul 2 8 n).symm
  have hmod : x.toInt % (2 ^ (8 * n) : ℕ) = x.toNat := by
    rw [BitVec.toInt_eq_toNat_bmod, Int.bmod_emod]
    exact_mod_cast Nat.mod_eq_of_lt x.isLt
  rw [ofInt, hpow, hmod, Int.toNat_natCast]

end BigEndian
