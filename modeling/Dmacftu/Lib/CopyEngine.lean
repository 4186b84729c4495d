import Mathlib.Data.List.Basic
/-!
# A copy engine that works through its descriptors in order

An engine holds a memory, the descriptors submitted to it so far and how many
of these it has carried out. It carries them out in submission order, at times
of its own choosing, while others may submit descriptors too.

A `Task` is what one client wants copied, byte by byte. `Sound` is what holds
from the moment the client starts submitting, as long as it submits only
descriptors that serve the task and the others stay away from its bytes: the
source is untouched, and a byte covered by a completed descriptor has arrived.
-/

namespace Lib.CopyEngine

variable {B : Type}

/-- Copy `len` bytes from `src` on to `dst` on. -/
structure Desc where
  dst : Nat
  src : Nat
  len : Nat
  deriving DecidableEq, Repr

namespace Desc

/-- The addresses a descriptor writes. -/
def Covers (d : Desc) (p : Nat) : Prop := d.dst ≤ p ∧ p < d.dst + d.len

instance (d : Desc) (p : Nat) : Decidable (d.Covers p) := inferInstanceAs (Decidable (_ ∧ _))

def run (d : Desc) (mem : Nat → B) : Nat → B :=
  fun p => if d.Covers p then mem (d.src + (p - d.dst)) else mem p

theorem run_of_not_covers {d : Desc} {p : Nat} (h : ¬ d.Covers p) (mem : Nat → B) : d.run mem p = mem p := if_neg h

theorem run_of_covers {d : Desc} {p : Nat} (h : d.Covers p) (mem : Nat → B) :
    d.run mem p = mem (d.src + (p - d.dst)) := if_pos h

end Desc

/-- Memory, submitted descriptors, and the number carried out. -/
structure Engine (B : Type) where
  mem : Nat → B
  log : List Desc
  done : Nat

/-- What an engine does of its own accord, and what other clients do to it. -/
inductive Ev where
  | run
  | submit (d : Desc)

namespace Engine

def submit (e : Engine B) (d : Desc) : Engine B := { e with log := e.log ++ [d] }

def tick (e : Engine B) : Ev → Engine B
  | .run => match e.log[e.done]? with
    | some d => { e with mem := d.run e.mem, done := e.done + 1 }
    | none => e
  | .submit d => e.submit d

def play (e : Engine B) (evs : List Ev) : Engine B := evs.foldl tick e

end Engine

/-- `n` bytes to copy, the `i`th from `src i` to `dst i`. -/
structure Task where
  n : Nat
  src : Nat → Nat
  dst : Nat → Nat
  dst_inj : ∀ i < n, ∀ j < n, dst i = dst j → i = j
  disjoint : ∀ i < n, ∀ j < n, dst i ≠ src j

namespace Task

/-- Every byte the descriptor moves is a byte of the task. -/
def Serves (t : Task) (d : Desc) : Prop := ∀ k < d.len, ∃ i < t.n, d.dst + k = t.dst i ∧ d.src + k = t.src i

/-- The descriptor writes no byte of the task. -/
def Away (t : Task) (d : Desc) : Prop := ∀ i < t.n, ¬ d.Covers (t.dst i) ∧ ¬ d.Covers (t.src i)

/-- The other clients' descriptors among the events stay away from the task. -/
def Quiet (t : Task) (evs : List Ev) : Prop := ∀ d, Ev.submit d ∈ evs → t.Away d

/-- What holds while the task is under way: `mem` is the memory at its start
and `base` the number of descriptors submitted before. -/
structure Sound (t : Task) (mem : Nat → B) (base : Nat) (e : Engine B) : Prop where
  source : ∀ i < t.n, e.mem (t.src i) = mem (t.src i)
  pending : ∀ k d, e.done ≤ k → e.log[k]? = some d → t.Serves d ∨ t.Away d
  copied : ∀ k d, base ≤ k → k < e.done → e.log[k]? = some d → ∀ i < t.n, d.Covers (t.dst i) →
    e.mem (t.dst i) = mem (t.src i)
  done_le : e.done ≤ e.log.length

/-- The first `m` bytes are covered by descriptors submitted for the task. -/
def Covered (t : Task) (base m : Nat) (e : Engine B) : Prop :=
  ∀ i < m, ∃ k d, base ≤ k ∧ e.log[k]? = some d ∧ d.Covers (t.dst i)

variable {t : Task} {mem : Nat → B} {base : Nat} {e : Engine B}

/-- An idle engine, or one whose pending work is elsewhere, is sound. -/
theorem sound_start (hd : e.done ≤ e.log.length)
    (hp : ∀ k d, e.done ≤ k → e.log[k]? = some d → t.Away d) : t.Sound e.mem e.log.length e where
  source _ _ := rfl
  pending k d hk h := .inr (hp k d hk h)
  copied k d hb hk := by omega
  done_le := hd

theorem serves_source {d : Desc} (hd : t.Serves d) {i : Nat} (hi : i < t.n) : ¬ d.Covers (t.src i) := by
  rintro ⟨h1, h2⟩
  obtain ⟨j, hj, hdst, -⟩ := hd (t.src i - d.dst) (by omega)
  exact t.disjoint j hj i hi (by omega)

/-- A descriptor serving the task writes the right byte wherever it writes. -/
theorem serves_run {d : Desc} (hd : t.Serves d) {i : Nat} (hi : i < t.n) (hc : d.Covers (t.dst i)) (m : Nat → B) :
    d.run m (t.dst i) = m (t.src i) := by
  rw [Desc.run_of_covers hc]
  obtain ⟨h1, h2⟩ := hc
  obtain ⟨j, hj, hdst, hsrc⟩ := hd (t.dst i - d.dst) (by omega)
  rw [Nat.add_sub_cancel' h1] at hdst
  rw [hsrc, t.dst_inj i hi j hj hdst]

theorem Sound.run (h : t.Sound mem base e) : t.Sound mem base (e.tick .run) := by
  simp only [Engine.tick]
  split
  · rename_i d hd
    have hlt : e.done < e.log.length := (List.getElem?_eq_some_iff.1 hd).1
    refine ⟨fun i hi => ?_, fun k d' hk => h.pending k d' (by dsimp only at hk; omega), ?_, hlt⟩
    · have hnot : ¬ d.Covers (t.src i) := by
        rcases h.pending _ d (Nat.le_refl _) hd with hs | ha
        · exact serves_source hs hi
        · exact (ha i hi).2
      dsimp only
      rw [Desc.run_of_not_covers hnot, h.source i hi]
    · intro k d' hb hk hd' i hi hc
      dsimp only at hk hd' ⊢
      by_cases hci : d.Covers (t.dst i)
      · rcases h.pending _ d (Nat.le_refl _) hd with hs | ha
        · rw [serves_run hs hi hci, h.source i hi]
        · exact absurd hci (ha i hi).1
      · rw [Desc.run_of_not_covers hci]
        rcases Nat.lt_succ_iff_lt_or_eq.1 hk with hk | rfl
        · exact h.copied k d' hb hk hd' i hi hc
        · rw [hd] at hd'; cases hd'; exact absurd hc hci
  · exact h

theorem Sound.submit (h : t.Sound mem base e) {d : Desc} (hd : t.Serves d ∨ t.Away d) :
    t.Sound mem base (e.submit d) := by
  have hdl := h.done_le
  refine ⟨h.source, fun k d' hk hd' => ?_, fun k d' hb hk hd' => ?_, ?_⟩
  · rcases Nat.lt_or_ge k e.log.length with hkl | hkl
    · rw [Engine.submit, List.getElem?_append_left hkl] at hd'
      exact h.pending k d' hk hd'
    · have hk' : k < (e.log ++ [d]).length := (List.getElem?_eq_some_iff.1 hd').1
      rw [List.length_append, List.length_singleton] at hk'
      have : k = e.log.length := by omega
      subst this
      rw [Engine.submit, List.getElem?_concat_length] at hd'
      cases hd'
      exact hd
  · have hk' : k < e.done := hk
    rw [Engine.submit, List.getElem?_append_left (by omega)] at hd'
    exact h.copied k d' hb hk hd'
  · show e.done ≤ (e.log ++ [d]).length
    rw [List.length_append]; omega

theorem Sound.play (h : t.Sound mem base e) {evs : List Ev} (hq : t.Quiet evs) : t.Sound mem base (e.play evs) := by
  induction evs generalizing e with
  | nil => exact h
  | cons ev evs ih =>
    have hq' : t.Quiet evs := fun d hd => hq d (List.mem_cons_of_mem _ hd)
    cases ev with
    | run => exact ih h.run hq'
    | submit d => exact ih (h.submit (.inr (hq d List.mem_cons_self))) hq'

theorem log_tick (e : Engine B) (ev : Ev) : e.log <+: (e.tick ev).log := by
  cases ev with
  | run => simp only [Engine.tick]; split <;> exact List.prefix_rfl
  | submit d => exact List.prefix_append _ _

theorem log_play (e : Engine B) (evs : List Ev) : e.log <+: (e.play evs).log := by
  induction evs generalizing e with
  | nil => exact List.prefix_rfl
  | cons ev evs ih => exact (log_tick e ev).trans (ih _)

theorem Covered.mono {e' : Engine B} {m : Nat} (h : t.Covered base m e) (hl : e.log <+: e'.log) :
    t.Covered base m e' := by
  intro i hi
  obtain ⟨k, d, hk, hd, hc⟩ := h i hi
  obtain ⟨xs, hx⟩ := hl
  refine ⟨k, d, hk, ?_, hc⟩
  rw [← hx, List.getElem?_append_left (List.getElem?_eq_some_iff.1 hd).1, hd]

/-- One more descriptor, covering the bytes from `m` to `m'`. -/
theorem Covered.submit {m m' : Nat} (h : t.Covered base m e) (hb : base ≤ e.log.length) {d : Desc}
    (hd : ∀ i, m ≤ i → i < m' → d.Covers (t.dst i)) : t.Covered base m' (e.submit d) := by
  intro i hi
  rcases Nat.lt_or_ge i m with hm | hm
  · exact Covered.mono h (List.prefix_append _ [d]) i hm
  · exact ⟨e.log.length, d, hb, List.getElem?_concat_length, hd i hm hi⟩

/-- Once everything submitted for the task up to `c` is carried out, and that
covers all of it, the copy is complete. -/
theorem Sound.complete (h : t.Sound mem base e) {e₀ : Engine B} (hl : e₀.log <+: e.log)
    (hc : t.Covered base t.n e₀) (hdone : e₀.log.length ≤ e.done) :
    ∀ i < t.n, e.mem (t.dst i) = mem (t.src i) := by
  intro i hi
  obtain ⟨k, d, hk, hd, hcov⟩ := hc i hi
  obtain ⟨xs, hx⟩ := hl
  have hklt := (List.getElem?_eq_some_iff.1 hd).1
  refine h.copied k d hk (by omega) ?_ i hi hcov
  rw [← hx, List.getElem?_append_left hklt, hd]

end Task

end Lib.CopyEngine
