import Mathlib.Data.List.Basic
/-!
# Pools that may run dry

A `Pool` hands out resources one at a time and takes them back; a request may fail.
`take` makes requests until it has as many resources as it wants or one request
fails, and `giveBack` returns resources one by one, each once.

`allOrNone` is what an acquisition with a rollback comes to. Its users keep their
resources in tables and find out from the tables what to return.
-/

namespace Lib

/-- A state to take resources from and to give them back to. -/
structure Pool (E R : Type*) where
  request : E → E × Option R
  release : E → R → E

namespace Pool

variable {E R : Type*} (p : Pool E R)

/-- Up to `n` requests, until one fails: the state after them, and what they got. -/
def take : Nat → E → E × List R
  | 0, e => (e, [])
  | n + 1, e => match p.request e with
    | (e', some r) => ((take n e').1, r :: (take n e').2)
    | (e', none) => (e', [])

def giveBack (e : E) (rs : List R) : E := rs.foldl p.release e

/-- None of `n` requests fails. -/
def Grants (n : Nat) (e : E) : Prop := (p.take n e).2.length = n

instance (n : Nat) (e : E) : Decidable (p.Grants n e) := inferInstanceAs (Decidable (_ = _))

/-- `n` resources, or none and those there were are given back. -/
def allOrNone (n : Nat) (e : E) : E × Option (List R) :=
  if p.Grants n e then ((p.take n e).1, some (p.take n e).2) else (p.giveBack (p.take n e).1 (p.take n e).2, none)

variable {p} {n : Nat} {e e' : E} {r : R}

theorem take_some (h : p.request e = (e', some r)) : p.take (n + 1) e = ((p.take n e').1, r :: (p.take n e').2) := by
  rw [take, h]

theorem take_none (h : p.request e = (e', none)) : p.take (n + 1) e = (e', []) := by
  rw [take, h]

theorem take_length_le : ∀ {n : Nat} {e : E}, (p.take n e).2.length ≤ n
  | 0, _ => Nat.le_refl 0
  | n + 1, e => by
    cases h : p.request e with
    | mk e' r =>
      cases r with
      | some r =>
        rw [take_some h]
        exact Nat.succ_le_succ take_length_le
      | none =>
        rw [take_none h]
        exact Nat.zero_le _

theorem grants_zero : p.Grants 0 e := rfl

theorem grants_some (h : p.request e = (e', some r)) : p.Grants (n + 1) e ↔ p.Grants n e' := by
  unfold Grants
  rw [take_some h]
  exact Nat.succ_inj

theorem not_grants_none (h : p.request e = (e', none)) : ¬ p.Grants (n + 1) e := by
  unfold Grants
  rw [take_none h]
  exact Nat.noConfusion

theorem allOrNone_granted (h : p.Grants n e) : p.allOrNone n e = ((p.take n e).1, some (p.take n e).2) := if_pos h

theorem allOrNone_refused (h : ¬ p.Grants n e) :
    p.allOrNone n e = (p.giveBack (p.take n e).1 (p.take n e).2, none) := if_neg h

end Pool

end Lib
