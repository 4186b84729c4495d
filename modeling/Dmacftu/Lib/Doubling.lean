import Dmacftu.Lib.CInt
import Dmacftu.Lib.Loop
/-!
# `for(i = start; i <= max; i <<= 1)`

The index is an `unsigned long`: with 64 bits it ends up at 0 and stays there, below
any maximum. So a loop that is left at its end has seen `start`, `2 * start`, … and no
more than the maximum.
-/
open Lib.CInt Lib.Loop

namespace Lib.Doubling

variable {S : Type}

/-- `round` counts the passes. -/
structure Index (S : Type) where
  round : Nat
  i : Nat
  s : S

/-- The body goes on, or leaves the function with a result; `none` if it does not come back. -/
def pass (body : Nat → Nat → S → Option (S ⊕ Int × S)) (max : Nat) (x : Index S) : Index S ⊕ Option (Int × S) :=
  if x.i ≤ max then
    match body x.round x.i x.s with
    | none => .inr none
    | some (.inr r) => .inr (some r)
    | some (.inl s) => .inl ⟨x.round + 1, u64 (x.i * 2), s⟩
  else .inr (some (0, x.s))

def loop (body : Nat → Nat → S → Option (S ⊕ Int × S)) (start max fuel : Nat) (s : S) : Option (Int × S) :=
  (run (pass body max) fuel ⟨0, start, s⟩).join

section

variable {body : Nat → Nat → S → Option (S ⊕ Int × S)} {max : Nat}

theorem run_pass (fuel round i : Nat) (s : S) : (run (pass body max) (fuel + 1) ⟨round, i, s⟩).join =
    if i ≤ max then
      match body round i s with
      | none => none
      | some (.inr r) => some r
      | some (.inl s) => (run (pass body max) fuel ⟨round + 1, u64 (i * 2), s⟩).join
    else some (0, s) := by
  by_cases hle : i ≤ max
  · cases hbody : body round i s with
    | none => simp [run, pass, hle, hbody]
    | some r => cases r <;> simp [run, pass, hle, hbody]
  · simp [run, pass, hle]

/-- What holds wherever the loop is left. -/
theorem loop_inv {I P : S → Prop} (hnext : ∀ round i s s', I s → body round i s = some (.inl s') → I s')
    (hleave : ∀ round i s ret s', I s → body round i s = some (.inr (ret, s')) → P s') (hend : ∀ s, I s → P s)
    {start fuel : Nat} {s s' : S} {ret : Int} (hs : I s) (h : loop body start max fuel s = some (ret, s')) : P s' := by
  have hrun : ∀ {fuel round i : Nat} {s : S}, I s → (run (pass body max) fuel ⟨round, i, s⟩).join = some (ret, s') → P s' := by
    intro fuel
    induction fuel with
    | zero => simp [run]
    | succ fuel ih =>
      intro round i s hs h
      rw [run_pass] at h
      split at h
      · split at h
        next => cases h
        next r hbody =>
          obtain rfl := Option.some.inj h
          exact hleave _ _ _ _ _ hs hbody
        next s₁ hbody => exact ih (hnext _ _ _ _ hs hbody) h
      · obtain ⟨-, rfl⟩ := Prod.mk.inj (Option.some.inj h)
        exact hend s hs
  exact hrun hs h

/-- An index of 0 is never above the maximum. -/
theorem zero_stuck (hleave : ∀ round i s ret s', body round i s = some (.inr (ret, s')) → ret ≠ 0) {fuel round : Nat}
    {s s' : S} : (run (pass body max) fuel ⟨round, 0, s⟩).join ≠ some (0, s') := by
  induction fuel generalizing round s with
  | zero => simp [run]
  | succ fuel ih =>
    rw [run_pass, if_pos (Nat.zero_le max)]
    split
    next => simp
    next r hbody =>
      rintro heq
      obtain rfl := Option.some.inj heq
      exact hleave _ _ _ _ _ hbody rfl
    next => exact ih

/-- What the passes of a loop that is left at its end come to, for a relation that each of them
satisfies and that composes. -/
theorem loop_done {E : Type} (W : List E → S → S → Prop) (lines : Nat → Nat → List E) (k : Nat) (hk : k < 64)
    (hnil : ∀ s, W [] s s) (happend : ∀ {es es' s s' s''}, W es s s' → W es' s' s'' → W (es ++ es') s s'')
    (hleave : ∀ round i s ret s', body round i s = some (.inr (ret, s')) → ret ≠ 0)
    (hbody : ∀ round i s s', body round i s = some (.inl s') → W (lines round i) s s') {fuel : Nat} {s s' : S}
    (h : loop body (2 ^ k) max fuel s = some (0, s')) :
    ∃ K, (∀ r < K, 2 ^ (k + r) ≤ max) ∧ max < 2 ^ (k + K) ∧
      W ((List.range K).flatMap fun r => lines r (2 ^ (k + r))) s s' := by
  have hrun : ∀ {fuel round : Nat} {s : S}, k + round < 64 →
      (run (pass body max) fuel ⟨round, 2 ^ (k + round), s⟩).join = some (0, s') →
      ∃ K, (∀ r < K, 2 ^ (k + (round + r)) ≤ max) ∧ max < 2 ^ (k + (round + K)) ∧
        W ((List.range K).flatMap fun r => lines (round + r) (2 ^ (k + (round + r)))) s s' := by
    intro fuel
    induction fuel with
    | zero => simp [run]
    | succ fuel ih =>
      intro round s hround h
      rw [run_pass] at h
      by_cases hle : 2 ^ (k + round) ≤ max
      · rw [if_pos hle] at h
        split at h
        next => cases h
        next r hpass =>
          obtain rfl := Option.some.inj h
          exact absurd rfl (hleave _ _ _ _ _ hpass)
        next s₁ hpass =>
          have hdouble : u64 ((2 ^ (k + round) : Nat) * 2) = u64 (2 ^ (k + (round + 1)) : Nat) := by
            rw [← Nat.add_assoc, Nat.pow_succ]
            rfl
          rw [hdouble] at h
          rcases Nat.lt_or_eq_of_le (Nat.succ_le_of_lt hround) with hnext | hlast
          · rw [u64_of_lt (Nat.pow_lt_pow_right (by simp) (by omega))] at h
            obtain ⟨K, hbelow, habove, hW⟩ := ih (by omega) h
            refine ⟨K + 1, fun r hr => ?_, ?_, ?_⟩
            · cases r with
              | zero => exact hle
              | succ r =>
                rw [Nat.add_comm r 1, ← Nat.add_assoc round]
                exact hbelow r (Nat.lt_of_succ_lt_succ hr)
            · rwa [Nat.add_comm K 1, ← Nat.add_assoc round]
            · rw [List.range_succ_eq_map, List.flatMap_cons, List.flatMap_map]
              simp only [Nat.add_zero, Nat.add_assoc, Nat.add_comm 1] at hW ⊢
              exact happend (hbody _ _ _ _ hpass) hW
          · -- behind the largest power there is, the index is 0
            have hzero : u64 (2 ^ (k + (round + 1)) : Nat) = 0 := by
              rw [show k + (round + 1) = 64 by omega]
              rfl
            rw [hzero] at h
            exact absurd h (zero_stuck hleave)
      · rw [if_neg hle] at h
        obtain ⟨-, rfl⟩ := Prod.mk.inj (Option.some.inj h)
        exact ⟨0, by simp, by simpa using hle, by simpa using hnil s⟩
  obtain ⟨K, hK⟩ := @hrun fuel 0 s (by simpa using hk) (by simpa [loop] using h)
  exact ⟨K, by simpa using hK⟩

end

end Lib.Doubling
