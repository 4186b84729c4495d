import Mathlib.Data.List.Basic
/-!
# Borders

A border of a text is what it both begins and ends with, short of the text itself. A text
without one cannot be put together with a piece of its own beginning for an end.
-/

namespace Lib.Borders

variable {α : Type}

def Unbordered (s : List α) : Prop := ∀ b, 0 < b → b < s.length → s.take b ≠ s.drop (s.length - b)

theorem Unbordered.append_take_ne {s : List α} (h : Unbordered s) {front : List α} {b : Nat} (hb : 0 < b)
    (hlt : b < s.length) : front ++ s.take b ≠ s := by
  intro heq
  have hlen : front.length = s.length - b := by
    have := congrArg List.length heq
    rw [List.length_append, List.length_take] at this
    omega
  apply h b hb hlt
  calc s.take b = (front ++ s.take b).drop front.length := by rw [List.drop_left]
    _ = s.drop (s.length - b) := by rw [heq, hlen]

/-- The characters of a border, one by one. -/
theorem unbordered_of_getElem {s : List α} (h : ∀ b, 0 < b → b < s.length → ∃ i < b, s[i]? ≠ s[s.length - b + i]?) :
    Unbordered s := by
  intro b hb hlt heq
  obtain ⟨i, hi, hne⟩ := h b hb hlt
  apply hne
  have hget := congrArg (fun t => t[i]?) heq
  rwa [List.getElem?_take, if_pos hi, List.getElem?_drop] at hget

theorem getElem?_ne {s t : List α} {z : α} (h : z ∉ s) {i : Nat} (hi : i < s.length) : (s ++ t)[i]? ≠ some z := by
  rw [List.getElem?_append_left hi]
  intro hget
  exact h (List.mem_of_getElem? hget)

theorem unbordered_end {s : List α} {z : α} (h : z ∉ s) : Unbordered (s ++ [z]) := by
  apply unbordered_of_getElem
  intro b hb hlt
  rw [List.length_append, List.length_singleton] at hlt ⊢
  refine ⟨b - 1, by omega, ?_⟩
  rw [show s.length + 1 - b + (b - 1) = s.length by omega, List.getElem?_concat_length]
  exact getElem?_ne h (by omega)

/-- A last line of one character. -/
theorem unbordered_end_line {s : List α} {z c : α} (h : z ∉ s) (hc : c ≠ z) (hlen : 2 ≤ s.length) :
    Unbordered (s ++ [z, c, z]) := by
  apply unbordered_of_getElem
  intro b hb hlt
  rw [List.length_append, List.length_cons, List.length_cons, List.length_singleton] at hlt ⊢
  have hend : (s ++ [z, c, z])[s.length + 2]? = some z := by simp
  by_cases hle : b ≤ s.length
  · -- it would end in `s`
    refine ⟨b - 1, by omega, ?_⟩
    rw [show s.length + (0 + 1 + 1 + 1) - b + (b - 1) = s.length + 2 by omega, hend]
    exact getElem?_ne h (by omega)
  · by_cases heq : b = s.length + 1
    · -- the first `z` would be in `s`
      subst heq
      refine ⟨s.length - 2, by omega, ?_⟩
      rw [show s.length + (0 + 1 + 1 + 1) - (s.length + 1) + (s.length - 2) = s.length by omega]
      have hfirst : (s ++ [z, c, z])[s.length]? = some z := by simp
      rw [hfirst]
      exact getElem?_ne h (by omega)
    · -- it would end with `c`
      obtain rfl : b = s.length + 2 := by omega
      refine ⟨s.length + 1, by omega, ?_⟩
      rw [show s.length + (0 + 1 + 1 + 1) - (s.length + 2) + (s.length + 1) = s.length + 2 by omega, hend]
      simpa using hc

end Lib.Borders
