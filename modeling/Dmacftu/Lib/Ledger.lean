import Mathlib.Data.List.Perm.Basic
/-!
# Resources taken and given back

A ledger is the list of the resources that are held. Giving back what is not
held is `none`, so a release that succeeds gives each of its resources back
exactly once. `getAll` is the loop that takes resources in turn and at the first
failure gives those it has back, the last one first; `getAll_spec` says that it
leaves the ledger with all of them or as it was, up to order.
-/

namespace Lib.Ledger

variable {R : Type} [DecidableEq R]

def put (r : R) (held : List R) : Option (List R) := if r ∈ held then some (held.erase r) else none

def putAll : List R → List R → Option (List R)
  | [], held => some held
  | r :: rs, held => (put r held).bind (putAll rs)

/-- Take `res i`, …, `res (i + m - 1)`, after those below `i`. An outcome below 0 is
a failure; `ret` is the outcome before. -/
def getAll (res : Nat → R) (outcome : Nat → Int) : (i m : Nat) → (ret : Int) → List R → Option (Int × List R)
  | _, 0, ret, held => some (ret, held)
  | i, m + 1, _, held =>
    if outcome i < 0 then (putAll ((List.range i).reverse.map res) held).map (outcome i, ·)
    else getAll res outcome (i + 1) m (outcome i) (res i :: held)

theorem putAll_perm : ∀ {rs held rest : List R}, held.Perm (rs ++ rest) →
    ∃ held', putAll rs held = some held' ∧ held'.Perm rest := by
  intro rs
  induction rs with
  | nil => intro held rest h; exact ⟨held, rfl, h⟩
  | cons r rs ih =>
    intro held rest h
    have hr : r ∈ held := h.mem_iff.2 (by simp)
    have herase : (held.erase r).Perm (rs ++ rest) := by
      have := h.erase r
      simpa using this
    obtain ⟨held', hput, hperm⟩ := ih herase
    refine ⟨held', ?_, hperm⟩
    rw [putAll, put, if_pos hr]
    exact hput

theorem getAll_spec {res : Nat → R} {outcome : Nat → Int} {base : List R} : ∀ {m i : Nat} {ret : Int} {held : List R},
    held.Perm ((List.range i).map res ++ base) → 0 ≤ ret → ∃ ret' held',
      getAll res outcome i m ret held = some (ret', held') ∧ (ret' = ret ∨ ∃ j, ret' = outcome j) ∧
        (ret' < 0 ∧ (∃ j < i + m, outcome j < 0) ∧ held'.Perm base ∨
          0 ≤ ret' ∧ (∀ j < i + m, i ≤ j → 0 ≤ outcome j) ∧ held'.Perm ((List.range (i + m)).map res ++ base)) := by
  intro m
  induction m with
  | zero =>
    intro i ret held h hret
    exact ⟨ret, held, rfl, .inl rfl, .inr ⟨hret, fun j hj hij => absurd hj (Nat.not_lt.2 hij), h⟩⟩
  | succ m ih =>
    intro i ret held h hret
    unfold getAll
    split
    next hfail =>
      have hback : held.Perm ((List.range i).reverse.map res ++ base) :=
        h.trans (((List.reverse_perm _).symm.map res).append_right base)
      obtain ⟨held', hput, hperm⟩ := putAll_perm hback
      exact ⟨outcome i, held', by rw [hput]; rfl, .inr ⟨i, rfl⟩, .inl ⟨hfail, ⟨i, by omega, hfail⟩, hperm⟩⟩
    next hok =>
      have hnext : (res i :: held).Perm ((List.range (i + 1)).map res ++ base) := by
        rw [List.range_succ, List.map_append, List.append_assoc]
        exact (h.cons (res i)).trans List.perm_middle.symm
      obtain ⟨ret', held', hrun, hfrom, hres⟩ := ih hnext (Int.not_lt.1 hok)
      refine ⟨ret', held', hrun, ?_, ?_⟩
      · rcases hfrom with rfl | hj
        · exact .inr ⟨i, rfl⟩
        · exact .inr hj
      · rw [Nat.add_right_comm i 1 m] at hres
        rcases hres with hfail | ⟨hge, hall, hperm⟩
        · exact .inl hfail
        · refine .inr ⟨hge, ?_, hperm⟩
          intro j hj hij
          rcases Nat.eq_or_lt_of_le hij with rfl | hlt
          · exact Int.not_lt.1 hok
          · exact hall j hj hlt

end Lib.Ledger
