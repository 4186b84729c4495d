import Mathlib.Logic.Function.Basic
import Mathlib.Data.List.Basic
import Mathlib.Data.Nat.ModEq
/-!
# Windows of a circular array, and the bounded queue

`window arr size start n` lists `n` consecutive slots of an array of `size`
slots, from `start` on and wrapping at the end. Appending, taking and dropping
are changes of its two indices. `Fifo` is the bounded queue such a window is
meant to be: a list, an insertion that does nothing at full capacity, and
removals from the front. `StaleAtMost` is the invariant by which removals drain
the elements it had, whatever is inserted behind them.
-/

namespace Lib.Ring

variable {α : Type*}

/-- The slots `start, start + 1, …` modulo `size`, `n` of them. -/
def window (arr : Nat → α) (size start n : Nat) : List α :=
  (List.range n).map fun i => arr ((start + i) % size)

@[simp] theorem length_window (arr : Nat → α) (size start n : Nat) : (window arr size start n).length = n := by
  simp [window]

@[simp] theorem window_zero (arr : Nat → α) (size start : Nat) : window arr size start 0 = [] := rfl

theorem getElem?_window (arr : Nat → α) (size start n i : Nat) :
    (window arr size start n)[i]? = if i < n then some (arr ((start + i) % size)) else none := by
  by_cases h : i < n <;> simp [window, h]

theorem window_succ (arr : Nat → α) (size start n : Nat) :
    window arr size start (n + 1) = window arr size start n ++ [arr ((start + n) % size)] := by
  simp [window, List.range_succ]

theorem window_congr {arr arr' : Nat → α} {size start n : Nat}
    (h : ∀ i < n, arr ((start + i) % size) = arr' ((start + i) % size)) :
    window arr size start n = window arr' size start n := by
  refine List.map_congr_left fun i hi => h i (List.mem_range.1 hi)

/-- A start index past the end of the array means the same as its remainder. -/
theorem window_mod (arr : Nat → α) (size start n : Nat) :
    window arr size (start % size) n = window arr size start n := by
  apply List.map_congr_left
  intro i _
  rw [Nat.mod_add_mod]

theorem window_drop (arr : Nat → α) (size start n m : Nat) :
    (window arr size start n).drop m = window arr size ((start + m) % size) (n - m) := by
  rw [window_mod]
  refine List.ext_getElem? fun i => ?_
  rw [List.getElem?_drop, getElem?_window, getElem?_window, Nat.add_assoc]
  exact if_congr (by omega) rfl rfl

/-- The slot after a window that does not fill the array is not in it. -/
theorem slot_ne {size start n i : Nat} (hn : n < size) (hi : i < n) :
    (start + i) % size ≠ (start + n) % size := by
  intro h
  have hm : i ≡ n [MOD size] := Nat.ModEq.add_left_cancel' start h
  have : i = n := hm.eq_of_lt_of_lt (by omega) hn
  omega

/-- Storing into the slot after a window that does not fill the array appends. -/
theorem window_store (arr : Nat → α) {size start n : Nat} (hn : n < size) (x : α) :
    window (Function.update arr ((start + n) % size) x) size start (n + 1) = window arr size start n ++ [x] := by
  rw [window_succ, Function.update_self]
  congr 1
  exact window_congr fun i hi => Function.update_of_ne (slot_ne hn hi) _ _

end Lib.Ring

namespace Lib.Fifo

variable {α : Type*}

/-- An operation on a queue. -/
inductive Op (α : Type*) where
  | push (a : α)
  | pop
  | popUpTo (n : Nat)

/-- One operation on a queue of at most `cap` elements: the elements it
removes, oldest first, and the queue after it. -/
def step (cap : Nat) (q : List α) : Op α → Option (List α × List α)
  | .push a => some ([], if q.length < cap then q ++ [a] else q)
  | .pop => match q with
    | [] => none
    | a :: q => some ([a], q)
  | .popUpTo n => some (q.take n, q.drop n)

/-- A run of the queue, with everything removed so far. -/
def next (cap : Nat) (s : List α × List α) (op : Op α) : Option (List α × List α) :=
  (step cap s.2 op).map fun r => (s.1 ++ r.1, r.2)

/-! ## Draining a queue that is still written to -/

/-- At most `b` elements are not `fresh`, and these are the oldest ones. -/
def StaleAtMost (fresh : α → Prop) (b : Nat) (q : List α) : Prop :=
  ∃ olds news, q = olds ++ news ∧ olds.length ≤ b ∧ ∀ a ∈ news, fresh a

variable {fresh : α → Prop} {b : Nat} {q : List α}

theorem staleAtMost_of_length (h : q.length ≤ b) : StaleAtMost fresh b q :=
  ⟨q, [], (List.append_nil q).symm, h, fun _ ha => absurd ha List.not_mem_nil⟩

theorem StaleAtMost.mono (h : StaleAtMost fresh b q) {c : Nat} (hbc : b ≤ c) : StaleAtMost fresh c q := by
  obtain ⟨olds, news, hq, hlen, hnews⟩ := h
  exact ⟨olds, news, hq, Nat.le_trans hlen hbc, hnews⟩

theorem StaleAtMost.push (h : StaleAtMost fresh b q) {a : α} (ha : fresh a) : StaleAtMost fresh b (q ++ [a]) := by
  obtain ⟨olds, news, rfl, hlen, hnews⟩ := h
  refine ⟨olds, news ++ [a], List.append_assoc .., hlen, ?_⟩
  intro x hx
  rcases List.mem_append.1 hx with hx | hx
  · exact hnews x hx
  · exact List.mem_singleton.1 hx ▸ ha

theorem StaleAtMost.drop (h : StaleAtMost fresh b q) (n : Nat) : StaleAtMost fresh (b - n) (q.drop n) := by
  obtain ⟨olds, news, rfl, hlen, hnews⟩ := h
  refine ⟨olds.drop n, news.drop (n - olds.length), List.drop_append, ?_, ?_⟩
  · rw [List.length_drop]
    omega
  · intro x hx
    exact hnews x (List.mem_of_mem_drop hx)

theorem StaleAtMost.all_fresh (h : StaleAtMost fresh 0 q) : ∀ a ∈ q, fresh a := by
  obtain ⟨olds, news, rfl, hlen, hnews⟩ := h
  rw [List.eq_nil_of_length_eq_zero (Nat.le_zero.1 hlen), List.nil_append]
  exact hnews

end Lib.Fifo
