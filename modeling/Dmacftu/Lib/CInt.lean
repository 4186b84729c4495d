import Mathlib.Algebra.Ring.Int.Defs
import Mathlib.Algebra.Ring.Nat
import Mathlib.Tactic.Common
/-!
# Conversions between C integers

A value of an unsigned type is a `Nat`, one of a signed type an `Int`. Where C
converts, the model says so with one of these functions, named after the type
converted to. A value in the type's range is unchanged.
-/

namespace Lib.CInt

/-- Conversion to `unsigned short`. -/
def u16 (x : Int) : Nat := (x % 2 ^ 16).toNat

/-- Conversion to `unsigned int`. -/
def u32 (x : Int) : Nat := (x % 2 ^ 32).toNat

/-- Conversion to a 64-bit unsigned type (`unsigned long`, `size_t`, a pointer). -/
def u64 (x : Int) : Nat := (x % 2 ^ 64).toNat

/-- Conversion to `short`. -/
def s16 (x : Int) : Int := if u16 x < 2 ^ 15 then (u16 x : Int) else (u16 x : Int) - 2 ^ 16

/-- Conversion to `int`. -/
def s32 (x : Int) : Int := if u32 x < 2 ^ 31 then (u32 x : Int) else (u32 x : Int) - 2 ^ 32

/-- Conversion to `long long`. -/
def s64 (x : Int) : Int := if u64 x < 2 ^ 63 then (u64 x : Int) else (u64 x : Int) - 2 ^ 64

theorem u16_of_lt {n : Nat} (h : n < 2 ^ 16) : u16 n = n := by unfold u16; omega

theorem u32_of_lt {n : Nat} (h : n < 2 ^ 32) : u32 n = n := by unfold u32; omega

theorem u32_of_range {x : Int} (h0 : 0 ≤ x) (h : x < 2 ^ 32) : u32 x = x.toNat := by unfold u32; omega

theorem u64_of_lt {n : Nat} (h : n < 2 ^ 64) : u64 n = n := by unfold u64; omega

theorem u64_of_range {x : Int} (h0 : 0 ≤ x) (h : x < 2 ^ 64) : u64 x = x.toNat := by unfold u64; omega

theorem s16_of_range {x : Int} (h0 : -2 ^ 15 ≤ x) (h : x < 2 ^ 15) : s16 x = x := by
  unfold s16 u16; split <;> omega

theorem s32_of_range {x : Int} (h0 : -2 ^ 31 ≤ x) (h : x < 2 ^ 31) : s32 x = x := by
  unfold s32 u32; split <;> omega

theorem s64_of_range {x : Int} (h0 : -2 ^ 63 ≤ x) (h : x < 2 ^ 63) : s64 x = x := by
  unfold s64 u64; split <;> omega

/-- An `unsigned long` survives an `int` where sign extension gives it back. -/
theorem u64_s32_iff {n : Nat} (h : n < 2 ^ 64) : u64 (s32 n) = n ↔ n < 2 ^ 31 ∨ 2 ^ 64 - 2 ^ 31 ≤ n := by
  unfold u64 s32 u32
  split <;> omega

theorem s32_range (x : Int) : -2 ^ 31 ≤ s32 x ∧ s32 x < 2 ^ 31 := by
  unfold s32 u32
  split <;> omega

theorem s32_le {x : Int} (h : 0 ≤ x) : s32 x ≤ x := by
  unfold s32 u32
  split <;> omega

/-- Above the range of an `int`, what is left is negative. -/
theorem lt_of_s32_nonneg {x : Int} (hx : x < 2 ^ 32) (h : 0 ≤ s32 x) : x < 2 ^ 31 := by
  unfold s32 u32 at h
  split at h <;> omega

theorem s16_add (x y : Int) : s16 (s16 x + y) = s16 (x + y) := by
  unfold s16 u16
  split <;> split <;> split <;> omega

theorem s16_range (x : Int) : -2 ^ 15 ≤ s16 x ∧ s16 x < 2 ^ 15 := by
  unfold s16 u16
  split <;> omega

theorem s32_add (x y : Int) : s32 (s32 x + y) = s32 (x + y) := by
  unfold s32 u32
  split <;> split <;> split <;> omega

theorem s32_mul (x y : Int) : s32 (s32 x * y) = s32 (x * y) := by
  have hmul : ∀ k : Int, s32 (x * y - 2 ^ 32 * (k * y)) = s32 (x * y) := by
    intro k
    unfold s32 u32
    omega
  have hx : ∃ k, s32 x = x - 2 ^ 32 * k := by
    unfold s32 u32
    split
    · exact ⟨x / 2 ^ 32, by omega⟩
    · exact ⟨x / 2 ^ 32 + 1, by omega⟩
  obtain ⟨k, hk⟩ := hx
  rw [hk, Int.sub_mul, Int.mul_assoc, hmul]

/-- A sum with an `int` that is not negative as a `size_t` is itself. -/
theorem u64_add_s32 {m : Nat} (hm : m < 2 ^ 63) {x : Int} (h : u64 (m + s32 x) < 2 ^ 63) :
    (u64 (m + s32 x) : Int) = m + s32 x := by
  unfold u64 s32 u32 at *
  split at h <;> split <;> omega

end Lib.CInt
