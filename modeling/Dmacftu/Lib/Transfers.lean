import Mathlib.Data.List.Basic
/-!
# Partial transfers

`read` and `write` fail, or move some of the bytes they are asked to: no more than these,
and at least one if there is one. A `Transfer` is what one call makes of its request, and
`moves` what a series of calls makes of one, each asked for what is left.
-/

namespace Lib.Transfers

/-- How many of so many bytes a call moves; `none` if it fails. -/
structure Transfer where
  moved : Nat → Option Nat
  le : ∀ {n m}, moved n = some m → m ≤ n
  pos : ∀ {n m}, moved n = some m → 0 < n → 0 < m

/-- A call that moves what it is asked to. -/
def whole : Transfer where
  moved := some
  le h := by cases h; exact Nat.le_refl _
  pos h hn := by cases h; exact hn

/-- A call that moves one byte more than `k` at most. -/
def upTo (k : Nat) : Transfer where
  moved n := some (min n (k + 1))
  le h := by cases h; exact Nat.min_le_left _ _
  pos h hn := by cases h; omega

def failing : Transfer where
  moved _ := none
  le h := by cases h
  pos h := by cases h

/-- The first of the calls after those that move `n` bytes from call `c` on; `none` if one of them
fails. -/
def moves (t : Nat → Transfer) (c n : Nat) : Option Nat :=
  if n = 0 then some c
  else match _h : (t c).moved n with
    | none => none
    | some m => moves t (c + 1) (n - m)
termination_by n
decreasing_by
  have := (t c).pos _h (by omega)
  omega

section

variable {t : Nat → Transfer} {c n : Nat}

@[simp] theorem moves_zero : moves t c 0 = some c := by
  unfold moves
  rfl

theorem moves_fails (hn : 0 < n) (h : (t c).moved n = none) : moves t c n = none := by
  rw [moves, if_neg (by omega)]
  split
  · rfl
  · simp_all

theorem moves_some {m : Nat} (hn : 0 < n) (h : (t c).moved n = some m) : moves t c n = moves t (c + 1) (n - m) := by
  rw [moves, if_neg (by omega)]
  split
  · simp_all
  · simp_all

theorem moves_all (hn : 0 < n) (h : (t c).moved n = some n) : moves t c n = some (c + 1) := by
  rw [moves_some hn h, Nat.sub_self, moves_zero]

end

end Lib.Transfers
