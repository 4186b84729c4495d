import Mathlib.Data.List.Induction
/-!
# Work in blocks, each followed by a notice

A list of jobs is carried out in order: each job's pieces of work, then one
notice that the job is done. `script` is the whole of it and a run gets to some
prefix. `noticed_of_prefix` says what the notices of a prefix are worth: they are
those of the first jobs, and all of the work of these jobs comes before them.
-/

namespace Lib.Script

variable {A W N : Type*} (work : A → List W) (notice : A → N)

def block (a : A) : List (W ⊕ N) := (work a).map .inl ++ [.inr (notice a)]

def script (l : List A) : List (W ⊕ N) := l.flatMap (block work notice)

/-- The pieces of work in a prefix. -/
def worked (past : List (W ⊕ N)) : List W := past.filterMap Sum.getLeft?

/-- The notices in a prefix. -/
def noticed (past : List (W ⊕ N)) : List N := past.filterMap Sum.getRight?

@[simp] theorem worked_append (p q : List (W ⊕ N)) : worked (p ++ q) = worked p ++ worked q := List.filterMap_append

@[simp] theorem noticed_append (p q : List (W ⊕ N)) : noticed (p ++ q) = noticed p ++ noticed q := List.filterMap_append

@[simp] theorem worked_inl (l : List W) : worked (l.map (Sum.inl (β := N))) = l := by
  simp [worked, List.filterMap_map, Function.comp_def]

@[simp] theorem noticed_inl (l : List W) : noticed (l.map (Sum.inl (β := N))) = [] := by
  simp [noticed, List.filterMap_map, Function.comp_def]

@[simp] theorem worked_inr (n : N) : worked [Sum.inr (α := W) n] = [] := rfl

@[simp] theorem noticed_inr (n : N) : noticed [Sum.inr (α := W) n] = [n] := rfl

variable {work notice} {past : List (W ⊕ N)} {l : List A}

@[simp] theorem script_concat (a : A) : script work notice (l ++ [a]) = script work notice l ++ block work notice a := by
  simp [script]

@[simp] theorem worked_block (a : A) : worked (block work notice a) = work a := by simp [block]

@[simp] theorem noticed_block (a : A) : noticed (block work notice a) = [notice a] := by simp [block]

theorem worked_script (l : List A) : worked (script work notice l) = l.flatMap work := by
  induction l with
  | nil => rfl
  | cons a l ih => rw [script, List.flatMap_cons, worked_append, worked_block, List.flatMap_cons, ← ih, script]

theorem noticed_script (l : List A) : noticed (script work notice l) = l.map notice := by
  induction l with
  | nil => rfl
  | cons a l ih => rw [script, List.flatMap_cons, noticed_append, noticed_block, List.map_cons, ← ih]; rfl

/-- A prefix is some whole blocks and a part of the next one's work. -/
theorem prefix_cases (h : past <+: script work notice l) :
    ∃ n ≤ l.length, ∃ part : List W, past = script work notice (l.take n) ++ part.map .inl := by
  induction l using List.reverseRecOn with
  | nil => exact ⟨0, Nat.le_refl 0, [], List.prefix_nil.1 h⟩
  | append_singleton l a ih =>
    obtain ⟨t, h⟩ := h
    rw [script_concat, List.append_eq_append_iff] at h
    have hlen : l.length ≤ (l ++ [a]).length := by simp
    rcases h with ⟨x, hx, -⟩ | ⟨x, hx, hb⟩
    · obtain ⟨n, hn, part, hp⟩ := ih ⟨x, hx.symm⟩
      refine ⟨n, Nat.le_trans hn hlen, part, ?_⟩
      rw [List.take_append_of_le_length hn]
      exact hp
    · rcases List.prefix_concat_iff.1 ⟨t, hb.symm⟩ with rfl | hw
      · refine ⟨(l ++ [a]).length, Nat.le_refl _, [], ?_⟩
        rw [List.take_length, script_concat, List.map_nil, List.append_nil]
        exact hx
      · obtain ⟨part, -, rfl⟩ := List.prefix_map_iff.1 hw
        refine ⟨l.length, hlen, part, ?_⟩
        rw [List.take_left]
        exact hx

/-- The notices of a prefix are those of the first jobs, and their work is done. -/
theorem noticed_of_prefix (h : past <+: script work notice l) :
    ∃ n ≤ l.length, noticed past = (l.take n).map notice ∧ (l.take n).flatMap work <+: worked past := by
  obtain ⟨n, hn, part, rfl⟩ := prefix_cases h
  refine ⟨n, hn, ?_, ?_⟩
  · rw [noticed_append, noticed_inl, List.append_nil, noticed_script]
  · rw [worked_append, worked_inl, worked_script]
    exact List.prefix_append _ _

theorem worked_prefix (h : past <+: script work notice l) : worked past <+: l.flatMap work := by
  obtain ⟨t, h⟩ := h
  have hall : worked (script work notice l) = l.flatMap work := worked_script l
  rw [← hall, ← h, worked_append]
  exact List.prefix_append _ _

end Lib.Script
