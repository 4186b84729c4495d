import Dmacftu.Lib.CText
/-!
# `double`

Its arithmetic, and the conversion `%.nf`, whichever they are.
-/
open Lib.CText

namespace Lib.CDouble

structure Double where
  Val : Type
  ofNat : Nat → Val
  add : Val → Val → Val
  sub : Val → Val → Val
  mul : Val → Val → Val
  div : Val → Val → Val
  pow : Val → Val → Val
  /-- What `%.nf` makes of a value. -/
  fixed : Nat → Val → List Char
  printable : ∀ n x, Printable (fixed n x)

/-- Whole numbers for all there is. -/
def wholeNumbers : Double where
  Val := Nat
  ofNat n := n
  add := Nat.add
  sub := Nat.sub
  mul := Nat.mul
  div := Nat.div
  pow := Nat.pow
  fixed n x := decimal x ++ '.' :: List.replicate n '0'
  printable n x := by
    refine (graphic_decimal x).printable.append fun c hc => ?_
    rcases List.mem_cons.1 hc with rfl | hc
    · simp
    · rw [List.eq_of_mem_replicate hc]
      simp

end Lib.CDouble
