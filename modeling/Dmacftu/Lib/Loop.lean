import Mathlib.Data.Nat.Basic
/-!
# Loops that may not end

A loop body maps a state to the next state, or to the result the loop is left
with. `run` gives it fuel, and `Returns` says that enough fuel gives a result,
whatever the amount; `after` is the state after so many passes. `run_inv` is the rule for what holds of a result without
asking whether there is one. `outputs` is what the passes put out on the way;
`outputs_inv` is the rule for each of these, `outputs_acc` the one for all of them, and
`run_outputs` the one for a result together with them. `foldlM_inv` is the rule for a loop
over a list, `foldlM_total` the one that says that it comes back.
-/

namespace Lib.Loop

variable {S R E : Type} {body : S → S ⊕ R}

def run (body : S → S ⊕ R) : Nat → S → Option R
  | 0, _ => none
  | fuel + 1, s => match body s with
    | .inl s' => run body fuel s'
    | .inr r => some r

/-- From `s` the loop ends, with a result that satisfies `Post`. -/
def Returns (body : S → S ⊕ R) (s : S) (Post : R → Prop) : Prop :=
  ∃ r, Post r ∧ ∃ N, ∀ fuel, N ≤ fuel → run body fuel s = some r

theorem Returns.done {s : S} {r : R} {Post : R → Prop} (h : body s = .inr r) (hp : Post r) : Returns body s Post := by
  refine ⟨r, hp, 1, fun fuel hf => ?_⟩
  obtain ⟨fuel, rfl⟩ := Nat.exists_eq_add_of_le' hf
  simp [run, h]

theorem Returns.step {s s' : S} {Post : R → Prop} (h : body s = .inl s') (hr : Returns body s' Post) :
    Returns body s Post := by
  obtain ⟨r, hp, N, hN⟩ := hr
  refine ⟨r, hp, N + 1, fun fuel hf => ?_⟩
  obtain ⟨fuel, rfl⟩ := Nat.exists_eq_add_of_le' (Nat.le_trans (Nat.le_add_left 1 N) hf)
  simpa [run, h] using hN fuel (Nat.le_of_succ_le_succ hf)

/-- More fuel changes nothing. -/
theorem run_of_le {n m : Nat} {s : S} {r : R} (h : run body n s = some r) (hle : n ≤ m) : run body m s = some r := by
  induction n generalizing s m with
  | zero => cases h
  | succ n ih =>
    obtain ⟨m, rfl⟩ := Nat.exists_eq_add_of_le' (Nat.le_trans (Nat.le_add_left 1 n) hle)
    rw [run] at h ⊢
    split at h
    · exact ih h (Nat.le_of_succ_le_succ hle)
    · exact h

/-- A result inherits what the body preserves on the way to it. -/
theorem run_inv {I : S → Prop} {P : R → Prop} (hstep : ∀ s s', I s → body s = .inl s' → I s')
    (hdone : ∀ s r, I s → body s = .inr r → P r) {fuel : Nat} {s : S} {r : R} (hs : I s)
    (h : run body fuel s = some r) : P r := by
  induction fuel generalizing s with
  | zero => cases h
  | succ fuel ih =>
    rw [run] at h
    split at h
    · rename_i s' hb
      exact ih (hstep s s' hs hb) h
    · rename_i r' hb
      cases h
      exact hdone s r hs hb

/-- The state after so many passes, if the loop is not left before. -/
def after (body : S → S ⊕ R) : Nat → S → Option S
  | 0, s => some s
  | n + 1, s => match body s with
    | .inl s' => after body n s'
    | .inr _ => none

theorem after_succ {n : Nat} {s s' s'' : S} (h : after body n s = some s') (hb : body s' = .inl s'') :
    after body (n + 1) s = some s'' := by
  induction n generalizing s with
  | zero =>
    cases h
    simp [after, hb]
  | succ n ih =>
    rw [after] at h ⊢
    split at h
    · exact ih h
    · cases h

theorem run_after {n : Nat} {s s' : S} (h : after body n s = some s') (fuel : Nat) :
    run body (n + fuel) s = run body fuel s' := by
  induction n generalizing s with
  | zero =>
    cases h
    rw [Nat.zero_add]
  | succ n ih =>
    rw [after] at h
    rw [Nat.succ_add, run]
    split at h
    · rename_i t hb
      simpa [hb] using ih h
    · cases h

theorem Returns.after {n : Nat} {s s' : S} {Post : R → Prop} (h : after body n s = some s') (hr : Returns body s' Post) :
    Returns body s Post := by
  obtain ⟨r, hp, N, hN⟩ := hr
  refine ⟨r, hp, n + N, fun fuel hf => ?_⟩
  obtain ⟨k, rfl⟩ := Nat.exists_eq_add_of_le hf
  rw [Nat.add_assoc, run_after h]
  exact hN (N + k) (Nat.le_add_right N k)

/-- What the passes from `s` on put out, in order. -/
def outputs (body : S → S ⊕ R) (out : S → List E) : Nat → S → List E
  | 0, _ => []
  | fuel + 1, s => out s ++ match body s with
    | .inl s' => outputs body out fuel s'
    | .inr _ => []

theorem outputs_flatMap (out : S → List E) (fuel : Nat) (s : S) :
    outputs body out fuel s = (outputs body (fun s => [s]) fuel s).flatMap out := by
  induction fuel generalizing s with
  | zero => rfl
  | succ fuel ih =>
    rw [outputs, outputs, List.flatMap_append, List.flatMap_singleton]
    split
    · rw [ih]
    · rfl

/-- What is put out, whether the loop ends or not. -/
theorem outputs_inv {out : S → List E} {I : S → Prop} {P : E → Prop} (hstep : ∀ s s', I s → body s = .inl s' → I s')
    (hout : ∀ s, I s → ∀ e ∈ out s, P e) {fuel : Nat} {s : S} (hs : I s) : ∀ e ∈ outputs body out fuel s, P e := by
  induction fuel generalizing s with
  | zero => simp [outputs]
  | succ fuel ih =>
    intro e he
    rw [outputs] at he
    rcases List.mem_append.1 he with he | he
    · exact hout s hs e he
    · split at he
      · rename_i s' hb
        exact ih (hstep s s' hs hb) e he
      · cases he

/-- The rule of `run_inv` for a result and the outputs on the way to it. -/
theorem run_outputs {out : S → List E} {I : S → List E → Prop} {P : R → List E → Prop}
    (hstep : ∀ s s' es, I s es → body s = .inl s' → I s' (es ++ out s))
    (hdone : ∀ s r es, I s es → body s = .inr r → P r (es ++ out s)) {fuel : Nat} {s : S} {r : R} (es : List E)
    (hs : I s es) (h : run body fuel s = some r) : P r (es ++ outputs body out fuel s) := by
  induction fuel generalizing s es with
  | zero => cases h
  | succ fuel ih =>
    rw [run] at h
    rw [outputs, ← List.append_assoc]
    split at h
    · rename_i s' hb
      exact ih _ (hstep s s' es hs hb) h
    · rename_i r' hb
      cases h
      rw [List.append_nil]
      exact hdone s r es hs hb

/-- What the outputs come to as a whole, whether the loop ends or not. -/
theorem outputs_acc {out : S → List E} {I : S → List E → Prop} {P : List E → Prop} (hopen : ∀ s es, I s es → P es)
    (hstep : ∀ s s' es, I s es → body s = .inl s' → I s' (es ++ out s))
    (hdone : ∀ s r es, I s es → body s = .inr r → P (es ++ out s)) {fuel : Nat} {s : S} (es : List E) (hs : I s es) :
    P (es ++ outputs body out fuel s) := by
  induction fuel generalizing s es with
  | zero =>
    rw [outputs, List.append_nil]
    exact hopen s es hs
  | succ fuel ih =>
    rw [outputs, ← List.append_assoc]
    split
    · rename_i s' hb
      exact ih _ (hstep s s' es hs hb)
    · rename_i r hb
      rw [List.append_nil]
      exact hdone s r es hs hb

/-- The rule for a loop over a list whose body may not come back. -/
theorem foldlM_inv {f : S → E → Option S} (I : S → Prop) (hstep : ∀ s e s', I s → f s e = some s' → I s') {es : List E}
    {s s' : S} (hs : I s) (h : es.foldlM f s = some s') : I s' := by
  induction es generalizing s with
  | nil => cases h; exact hs
  | cons e es ih =>
    obtain ⟨t, ht, h⟩ := Option.bind_eq_some_iff.1 h
    exact ih (hstep s e t hs ht) h

/-- If the body comes back for each of the elements, so does the loop. -/
theorem foldlM_total {f : S → E → Option S} (I : S → Prop) {es : List E}
    (hstep : ∀ s, ∀ e ∈ es, I s → ∃ s', f s e = some s' ∧ I s') {s : S} (hs : I s) :
    ∃ s', es.foldlM f s = some s' ∧ I s' := by
  induction es generalizing s with
  | nil => exact ⟨s, rfl, hs⟩
  | cons e es ih =>
    obtain ⟨t, ht, hi⟩ := hstep s e List.mem_cons_self hs
    obtain ⟨s', hs', hi'⟩ := ih (fun u d hd => hstep u d (List.mem_cons_of_mem _ hd)) hi
    refine ⟨s', ?_, hi'⟩
    rw [List.foldlM_cons, ht]
    exact hs'

/-- `foldlM_inv` for a loop over `0, …, n - 1` and what holds after so many passes. -/
theorem foldlM_range_inv {f : S → Nat → Option S} (I : Nat → S → Prop)
    (hstep : ∀ i s s', I i s → f s i = some s' → I (i + 1) s') {n : Nat} {s s' : S} (hs : I 0 s)
    (h : (List.range n).foldlM f s = some s') : I n s' := by
  induction n generalizing s' with
  | zero => cases h; exact hs
  | succ n ih =>
    rw [List.range_succ, List.foldlM_append] at h
    obtain ⟨t, ht, h⟩ := Option.bind_eq_some_iff.1 h
    obtain ⟨t', ht', h⟩ := Option.bind_eq_some_iff.1 h
    cases h
    exact hstep n t _ (ih ht) ht'

end Lib.Loop
