import Mathlib.Logic.Basic
/-!
# Runs of a partial step function

A system is a function `step : S → L → Option S` from a state and a label to
the next state, `none` where the label is not enabled. `exec` runs a list of
labels. `exec_inv` is the invariant rule and `exec_sim` the simulation rule:
each needs one fact about a single step and gives one about every run.
-/

namespace Lib.Runs

variable {S T L M : Type*}

/-- The state after the labels, if each of them is enabled when its turn comes. -/
def exec (step : S → L → Option S) : S → List L → Option S
  | s, [] => some s
  | s, l :: ls => (step s l).bind fun s' => exec step s' ls

theorem exec_cons {step : S → L → Option S} {s s' : S} {l : L} {ls : List L} :
    exec step s (l :: ls) = some s' ↔ ∃ t, step s l = some t ∧ exec step t ls = some s' := by
  simp [exec, Option.bind_eq_some_iff]

theorem exec_append {step : S → L → Option S} {s s' : S} {ks ls : List L} :
    exec step s (ks ++ ls) = some s' ↔ ∃ t, exec step s ks = some t ∧ exec step t ls = some s' := by
  induction ks generalizing s with
  | nil => simp [exec]
  | cons k ks ih => simp only [List.cons_append, exec, Option.bind_eq_some_iff, ih]; grind

theorem exec_concat {step : S → L → Option S} {s s' : S} {ls : List L} {l : L} :
    exec step s (ls ++ [l]) = some s' ↔ ∃ t, exec step s ls = some t ∧ step t l = some s' := by
  simp [exec_append, exec]

/-- An invariant kept by every enabled step holds after every run. -/
theorem exec_inv {step : S → L → Option S} (I : S → Prop)
    (hstep : ∀ s l s', I s → step s l = some s' → I s') {s s' : S} {ls : List L}
    (h0 : I s) (h : exec step s ls = some s') : I s' := by
  induction ls generalizing s with
  | nil => cases h; exact h0
  | cons l ls ih =>
    obtain ⟨t, ht, hs⟩ := exec_cons.1 h
    exact ih (hstep s l t h0 ht) hs

/-- `P` holds at every step of a run. -/
def along (step : S → L → Option S) (P : S → L → Prop) : S → List L → Prop
  | _, [] => True
  | s, l :: ls => P s l ∧ ∀ t, step s l = some t → along step P t ls

instance along.decidable (step : S → L → Option S) (P : S → L → Prop) [∀ s l, Decidable (P s l)] :
    ∀ (s : S) (ls : List L), Decidable (along step P s ls)
  | _, [] => .isTrue trivial
  | s, l :: ls =>
    have : Decidable (∀ t, step s l = some t → along step P t ls) :=
      match step s l with
      | none => .isTrue nofun
      | some t =>
        have := along.decidable step P t ls
        decidable_of_iff (along step P t ls) ⟨fun h _ ht => Option.some.inj ht ▸ h, fun h => h t rfl⟩
    inferInstanceAs (Decidable (P s l ∧ ∀ t, step s l = some t → along step P t ls))

/-- An invariant kept by the steps that have `P` holds after every run of such steps. -/
theorem exec_inv_along {step : S → L → Option S} {P : S → L → Prop} (I : S → Prop)
    (hstep : ∀ s l s', I s → P s l → step s l = some s' → I s') {s s' : S} {ls : List L}
    (h0 : I s) (hP : along step P s ls) (h : exec step s ls = some s') : I s' := by
  induction ls generalizing s with
  | nil => cases h; exact h0
  | cons l ls ih =>
    obtain ⟨t, ht, hs⟩ := exec_cons.1 h
    obtain ⟨hl, hls⟩ := hP
    exact ih (hstep s l t h0 hl ht) (hls t ht) hs

/-- A property that the labels have in any state holds along their runs. -/
theorem along_of_mem {step : S → L → Option S} {P : S → L → Prop} {ls : List L} (h : ∀ s, ∀ l ∈ ls, P s l) :
    ∀ {s : S}, along step P s ls := by
  induction ls with
  | nil => exact trivial
  | cons l ls ih => exact fun {s} => ⟨h s l List.mem_cons_self, fun _ _ => ih fun t k hk => h t k (List.mem_cons_of_mem l hk)⟩

/-- Two properties of steps that agree under an invariant hold along the same runs, of the steps that keep it. -/
theorem along_congr {step : S → L → Option S} {P Q R : S → L → Prop} (I : S → Prop)
    (hstep : ∀ s l s', I s → R s l → step s l = some s' → I s') (h : ∀ s l, I s → (P s l ↔ Q s l)) :
    ∀ {ls : List L} {s : S}, I s → along step R s ls → (along step P s ls ↔ along step Q s ls) := by
  intro ls
  induction ls with
  | nil => intro s _ _; exact Iff.rfl
  | cons l ls ih =>
    intro s hs hR
    obtain ⟨hl, hls⟩ := hR
    unfold along
    rw [h s l hs]
    apply and_congr_right
    intro _
    apply forall_congr'
    intro t
    exact imp_congr_right fun ht => ih (hstep s l t hs hl ht) (hls t ht)

/-- If, on states satisfying `I`, a step of the first system is a step of the
second one on the abstract states, a run of the first is a run of the second. -/
theorem exec_sim {step : S → L → Option S} {step' : T → M → Option T} (I : S → Prop) (abs : S → T) (f : L → M)
    (hstep : ∀ s l s', I s → step s l = some s' → I s' ∧ step' (abs s) (f l) = some (abs s')) {s s' : S}
    {ls : List L} (h0 : I s) (h : exec step s ls = some s') :
    exec step' (abs s) (ls.map f) = some (abs s') := by
  induction ls generalizing s with
  | nil => cases h; rfl
  | cons l ls ih =>
    obtain ⟨t, ht, hs⟩ := exec_cons.1 h
    obtain ⟨hi, ha⟩ := hstep s l t h0 ht
    exact exec_cons.2 ⟨_, ha, ih hi hs⟩

/-- A goal that every marked label brings closer and no label moves away is reached on every run with marks enough. -/
theorem exec_reaches {step : S → L → Option S} {ok : L → Prop} {mark : L → Bool} (I Q : S → Prop) (rank : S → Nat)
    (hpos : ∀ s, 0 < rank s)
    (hstep : ∀ s l s', I s → ¬ Q s → ok l → step s l = some s' →
      I s' ∧ (Q s' ∨ rank s' + (if mark l then 1 else 0) ≤ rank s)) {s s' : S} {ls : List L} (hs : I s)
    (hok : ∀ l ∈ ls, ok l) (h : exec step s ls = some s') (hmarks : rank s ≤ ls.countP mark) :
    ∃ ls₁ ls₂ t, ls = ls₁ ++ ls₂ ∧ exec step s ls₁ = some t ∧ I t ∧ Q t := by
  by_cases hq : Q s
  · exact ⟨[], ls, s, rfl, rfl, hs, hq⟩
  induction ls generalizing s with
  | nil => exact absurd hmarks (Nat.not_le.2 (hpos s))
  | cons l ls ih =>
    obtain ⟨t, ht, hrest⟩ := exec_cons.1 h
    obtain ⟨hi, hprog⟩ := hstep s l t hs hq (hok l List.mem_cons_self) ht
    by_cases hqt : Q t
    · exact ⟨[l], ls, t, rfl, exec_cons.2 ⟨t, ht, rfl⟩, hi, hqt⟩
    have hrank := hprog.resolve_left hqt
    rw [List.countP_cons] at hmarks
    obtain ⟨ls₁, ls₂, u, hsplit, hrun, hu⟩ := ih hi (fun k hk => hok k (List.mem_cons_of_mem l hk)) hrest (by omega) hqt
    exact ⟨l :: ls₁, ls₂, u, congrArg (l :: ·) hsplit, exec_cons.2 ⟨t, ht, hrun⟩, hu⟩

end Lib.Runs
