import Mathlib.Data.List.Basic
import Mathlib.Data.List.Nodup
/-!
# Lists held together by a `next` field

Nodes live in a memory that gives each its `next`. `Linked next l e` says that
following `next` from the first node of `l` passes through the nodes of `l` in
order and then comes to `e`. A list grows at its end by one write, to the `next`
of its last node (`Linked.splice`), and loses nodes at its front by none
(`Linked.drop`).
-/

namespace Lib.Links

variable {P : Type*} {next next' : P → P} {l m : List P} {e f p : P}

/-- Each node's `next` is the node after it, that of the last one is `e`. -/
def Linked (next : P → P) : List P → P → Prop
  | [], _ => True
  | p :: l, e => next p = l.headD e ∧ Linked next l e

@[simp] theorem linked_nil : Linked next [] e := trivial

@[simp] theorem linked_singleton : Linked next [p] e ↔ next p = e := by simp [Linked]

theorem linked_append : Linked next (l ++ m) e ↔ Linked next l (m.headD e) ∧ Linked next m e := by
  induction l with
  | nil => simp
  | cons p l ih =>
    cases l with
    | nil => simp [Linked]
    | cons q l =>
      rw [List.cons_append, Linked, ih, Linked]
      exact and_assoc.symm

/-- Only the nodes of the list matter. -/
theorem Linked.congr (h : Linked next l e) (hn : ∀ p ∈ l, next' p = next p) : Linked next' l e := by
  induction l with
  | nil => trivial
  | cons p l ih =>
    obtain ⟨hp, hl⟩ := h
    refine ⟨?_, ih hl fun q hq => hn q (List.mem_cons_of_mem p hq)⟩
    rw [hn p List.mem_cons_self, hp]

theorem Linked.drop (h : Linked next l e) (k : Nat) : Linked next (l.drop k) e := by
  rw [← List.take_append_drop k l, linked_append] at h
  exact h.2

/-- What a node's `next` is, by the node's place in the list. -/
theorem Linked.next_eq (h : Linked next l e) {i : Nat} (hp : l[i]? = some p) : next p = l[i + 1]?.getD e := by
  induction l generalizing i with
  | nil => cases hp
  | cons q l ih =>
    cases i with
    | zero =>
      cases hp
      rw [h.1]
      cases l <;> rfl
    | succ i => exact ih h.2 hp

/-- The last node is made to lead elsewhere. -/
theorem Linked.redirect (h : Linked next (l ++ [p]) e) (hn : ∀ q ∈ l, next' q = next q) (hp : next' p = f) :
    Linked next' (l ++ [p]) f := by
  obtain ⟨hl, -⟩ := linked_append.1 h
  exact linked_append.2 ⟨hl.congr hn, linked_singleton.2 hp⟩

/-- Two lists become one by a write to the last node of the first. -/
theorem Linked.splice (hl : Linked next (l ++ [p]) e) (hm : Linked next m f)
    (hn : ∀ q ∈ l ++ m, next' q = next q) (hp : next' p = m.headD f) : Linked next' (l ++ [p] ++ m) f := by
  refine linked_append.2 ⟨?_, hm.congr fun q hq => hn q (List.mem_append_right l hq)⟩
  exact hl.redirect (fun q hq => hn q (List.mem_append_left m hq)) hp

end Lib.Links
