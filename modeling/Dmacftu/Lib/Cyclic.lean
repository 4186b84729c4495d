import Mathlib.Logic.Function.Iterate
/-!
# A counter that starts over

A counter runs from 1 to `N` and then starts over at 1. Its value alone does not
say how often it went round, yet of values not more than a round apart it can be
told which came first: `passed_iff`.
-/

namespace Lib.Cyclic

/-- The value after the `k`th step from `r + 1` on. -/
def value (N r k : Nat) : Int := ((r + k) % N : Nat) + 1

def next (N : Nat) (c : Int) : Int := if c = N then 1 else c + 1

/-- Whether `c` is among the values up to `last`, where `used` is the newest value. -/
def passed (c last used : Int) : Prop := if last ≤ used then c ≤ last ∨ used < c else c ≤ last ∧ used < c

instance (c last used : Int) : Decidable (passed c last used) :=
  inferInstanceAs (Decidable (if last ≤ used then c ≤ last ∨ used < c else c ≤ last ∧ used < c))

variable {N r a b i k : Nat}

theorem value_pos : 1 ≤ value N r k := by unfold value; omega

theorem value_le (h : 0 < N) : value N r k ≤ N := by
  have := Nat.mod_lt (r + k) h
  unfold value
  omega

theorem next_value (h : 0 < N) : next N (value N r k) = value N r (k + 1) := by
  have hlt := Nat.mod_lt (r + k) h
  have hmod : (r + (k + 1)) % N = ((r + k) % N + 1) % N := by rw [← Nat.add_assoc, Nat.mod_add_mod]
  unfold next value
  rw [hmod]
  generalize (r + k) % N = m at hlt
  split
  · have hm : m + 1 = N := by omega
    rw [hm, Nat.mod_self]
    rfl
  · rw [Nat.mod_eq_of_lt (show m + 1 < N by omega)]
    rfl

/-- A function that counts like this does so from any value on. -/
theorem iterate_eq {f : Int → Int} (h : 0 < N) (hf : ∀ c : Int, 1 ≤ c → c ≤ N → f c = next N c) (hr : r < N) (k : Nat) :
    f^[k] (r + 1) = value N r k := by
  induction k with
  | zero => rw [value, Nat.add_zero, Nat.mod_eq_of_lt hr]; rfl
  | succ k ih => rw [Function.iterate_succ_apply', ih, hf _ value_pos (value_le h), next_value h]

/-- A value comes up again within the last round. -/
theorem exists_recent (h : 0 < N) (hi : i < a) :
    ∃ j, i ≤ j ∧ j < a ∧ a ≤ j + N ∧ ∀ r k, value N r (j + k) = value N r (i + k) := by
  have hdiv := Nat.div_add_mod (a - 1 - i) N
  have hlt := Nat.mod_lt (a - 1 - i) h
  refine ⟨i + N * ((a - 1 - i) / N), Nat.le_add_right _ _, by omega, by omega, fun r k => ?_⟩
  rw [value, value, Nat.add_right_comm i, ← Nat.add_assoc, Nat.add_mul_mod_self_left]

/-- Numbers less than a round apart. -/
theorem mod_window (h : b ≤ a) (ha : a < b + N) : a % N = b % N + (a - b) ∨ a % N + N = b % N + (a - b) := by
  have hlt : b % N < N := Nat.mod_lt b (by omega)
  have hmod : a % N = (b % N + (a - b)) % N := by rw [Nat.mod_add_mod, Nat.add_sub_cancel' h]
  rw [hmod]
  rcases Nat.lt_or_ge (b % N + (a - b)) N with hs | hs
  · exact .inl (Nat.mod_eq_of_lt hs)
  · rw [Nat.mod_eq_sub_mod hs, Nat.mod_eq_of_lt (by omega)]
    exact .inr (by omega)

/-- The `i`th value is among those up to the `b`th exactly if it says so. -/
theorem passed_iff (hi : i ≤ a) (hb : b ≤ a) (hia : a < i + N) (hba : a < b + N) :
    passed (value N r i) (value N r b) (value N r a) ↔ i ≤ b := by
  have hN : 0 < N := by omega
  have hA := Nat.mod_lt (r + a) hN
  have hB := Nat.mod_lt (r + b) hN
  have hI := Nat.mod_lt (r + i) hN
  have hab := mod_window (N := N) (Nat.add_le_add_left hb r) (by omega)
  have hai := mod_window (N := N) (Nat.add_le_add_left hi r) (by omega)
  unfold passed value
  split <;> omega

end Lib.Cyclic
