import Dmacftu.DmaCopy
import Dmacftu.Lib.CInt
import Dmacftu.Lib.Loop
/-!
# The threads of a round

The Band and the Cache benchmark create a thread for each channel, and join them. If one
cannot be created, those that there are already are to be cancelled, by a loop that counts down
from the last of them; but it goes on while the index is not positive.

`rollback_returns` is what it cancels: nothing, if there are two threads or more; and if there are
none or one, whatever the indices from there down to the smallest `int` lead to.
-/
open Lib.CInt Lib.Loop

namespace Dmacftu.Bench

/-! ## The code -/

/-- What is done to the threads and to the rest that has to be undone. -/
inductive ThreadEvent where
  | create (j : Nat)
  | create_failed (j : Nat)
  | join (j : Nat)
  | cancel (j : Int)
  | free_region
  | cond_destroy
  | mutex_destroy
  | attr_destroy
  | close
  deriving DecidableEq

def TH_STATE_OK : Int := 0

/-- What the calls for thread `j` come to, and the state that it ends in. -/
structure RoundEnv where
  create : Nat → Int
  join : Nat → Int
  state_thread : Nat → Int

/-- One pass of `for( ; j <= 0 ; --j)`. -/
def cancelPass (s : Int × List ThreadEvent) : (Int × List ThreadEvent) ⊕ List ThreadEvent :=
  let (j, log) := s
  if j ≤ 0 then .inl (s32 (j - 1), log.concat (.cancel j)) else .inr log

/-- The cleanup after thread `j`; it begins with `--j`. -/
def rollback (fuel j : Nat) (log : List ThreadEvent) : Option (List ThreadEvent) := run cancelPass fuel ((j : Int) - 1, log)

/-- Creates these threads; the result is that of the last `pthread_create`. -/
def createThreads (create : Nat → Int) (fuel : Nat) : List Nat → List ThreadEvent → Option (Int × List ThreadEvent)
  | [], log => some (0, log)
  | j :: js, log =>
    if create j ≠ 0 then (rollback fuel j (log.concat (.create_failed j))).map fun log => (create j, log)
    else createThreads create fuel js (log.concat (.create j))

/-- The result if thread `j` has failed, or could not be joined. -/
def joinResult (env : RoundEnv) (j : Nat) : Int := if env.join j ≥ 0 then -1 else env.join j

/-- Joins these threads. After one that has failed the others are cancelled. -/
def joinThreads (env : RoundEnv) : List Nat → List ThreadEvent → Int × List ThreadEvent
  | [], log => (0, log)
  | j :: js, log =>
    let log := log.concat (.join j)
    if env.join j ≠ 0 ∨ env.state_thread j ≠ TH_STATE_OK then (joinResult env j, log ++ js.map fun i : Nat => .cancel i)
    else joinThreads env js log

/-! ## The cleanup -/

/-- The indices from `j` down, if there are `n` and one. -/
def downFrom (j : Int) (n : Nat) : List Int := (List.range (n + 1)).map fun i : Nat => j - i

theorem downFrom_succ (j : Int) (n : Nat) : downFrom j (n + 1) = j :: downFrom (j - 1) n := by
  rw [downFrom, List.range_succ_eq_map, List.map_cons, List.map_map, downFrom]
  congr 1
  · simp
  · apply List.map_congr_left
    intro i _
    simp only [Function.comp_apply]
    omega

/-- The indices that the cleanup after thread `k` uses, one after the other. -/
def cancelled (k : Nat) : List Int := if k ≤ 1 then downFrom ((k : Int) - 1) (2 ^ 31 - 1 + k) else []

theorem cancelPass_pos {j : Int} (h : 0 < j) (log : List ThreadEvent) : cancelPass (j, log) = .inr log := by
  rw [cancelPass, if_neg (by omega)]

theorem cancelPass_nonpos {j : Int} (h : j ≤ 0) (log : List ThreadEvent) :
    cancelPass (j, log) = .inl (s32 (j - 1), log.concat (.cancel j)) := by
  rw [cancelPass, if_pos h]

/-- It goes on down to the smallest `int`, and with the largest it is over. -/
theorem cancelPass_returns {n : Nat} : ∀ {j : Int} {log : List ThreadEvent}, j = n - 2 ^ 31 → j ≤ 0 →
    Returns cancelPass (j, log) fun log' => log' = log ++ (downFrom j n).map .cancel := by
  -- the induction is on how far the index is from the smallest `int`
  induction n with
  | zero =>
    intro j log hj hle
    have hwrap : s32 (j - 1) = 2 ^ 31 - 1 := by
      rw [hj]
      rfl
    refine .step (cancelPass_nonpos hle log) ?_
    rw [hwrap]
    exact .done (cancelPass_pos (by simp) _) (by simp [downFrom])
  | succ n ih =>
    intro j log hj hle
    have hnext : s32 (j - 1) = j - 1 := s32_of_range (by omega) (by omega)
    refine .step (cancelPass_nonpos hle log) ?_
    rw [hnext, downFrom_succ]
    have hrest : Returns cancelPass (j - 1, log.concat (.cancel j)) fun log' =>
        log' = log.concat (.cancel j) ++ (downFrom (j - 1) n).map .cancel := ih (by omega) (by omega)
    obtain ⟨log', rfl, hrun⟩ := hrest
    exact ⟨_, by simp, hrun⟩

/-- The cleanup comes to an end. -/
theorem rollback_returns (k : Nat) (log : List ThreadEvent) :
    Returns cancelPass ((k : Int) - 1, log) fun log' => log' = log ++ (cancelled k).map .cancel := by
  unfold cancelled
  split
  · exact cancelPass_returns (by omega) (by omega)
  · exact .done (cancelPass_pos (by omega) log) (by simp)

theorem rollback_eq {fuel k : Nat} {log log' : List ThreadEvent} (h : rollback fuel k log = some log') :
    log' = log ++ (cancelled k).map .cancel := by
  obtain ⟨r, hr, N, hN⟩ := rollback_returns k log
  have heq := (run_of_le h (Nat.le_max_left fuel N)).symm.trans (hN _ (Nat.le_max_right fuel N))
  rw [Option.some.inj heq, hr]

/-- No number of threads is one that it is right for. -/
theorem cancelled_count_ne (k : Nat) :
    ∃ j : Int, (cancelled k).count j ≠ if 0 ≤ j ∧ j < k then 1 else 0 := by
  unfold cancelled
  split
  next hle =>
    -- below the first thread is memory that belongs to none
    have hmem : (-1 : Int) ∈ downFrom ((k : Int) - 1) (2 ^ 31 - 1 + k) :=
      List.mem_map.2 ⟨k, List.mem_range.2 (by omega), by omega⟩
    refine ⟨-1, ?_⟩
    rw [if_neg (by omega)]
    exact Nat.ne_of_gt (List.count_pos_iff.2 hmem)
  next hgt =>
    refine ⟨0, ?_⟩
    rw [List.count_nil, if_pos (by omega)]
    simp

/-! ## The log -/

/-- Nothing has gone wrong so far. -/
def Quiet (log : List ThreadEvent) : Prop := ∀ e ∈ log, (∃ j, e = .create j) ∨ ∃ j, e = .join j

/-- Where a thread could not be created, the cleanup has followed, and nothing else. -/
def Cut (log : List ThreadEvent) : Prop :=
  ∀ k, .create_failed k ∈ log → ∃ before, Quiet before ∧ log = before ++ .create_failed k :: (cancelled k).map .cancel

section

variable {log log' : List ThreadEvent}

theorem quiet_nil : Quiet [] := fun _ he => by cases he

theorem Quiet.create (h : Quiet log) (j : Nat) : Quiet (log.concat (.create j)) := by
  intro e he
  rw [List.concat_eq_append, List.mem_append, List.mem_singleton] at he
  rcases he with he | rfl
  · exact h e he
  · exact .inl ⟨j, rfl⟩

theorem Quiet.join (h : Quiet log) (j : Nat) : Quiet (log.concat (.join j)) := by
  intro e he
  rw [List.concat_eq_append, List.mem_append, List.mem_singleton] at he
  rcases he with he | rfl
  · exact h e he
  · exact .inr ⟨j, rfl⟩

theorem Quiet.not_failed (h : Quiet log) (k : Nat) : .create_failed k ∉ log := by
  intro hmem
  rcases h _ hmem with ⟨j, hj⟩ | ⟨j, hj⟩ <;> cases hj

theorem Quiet.cut (h : Quiet log) : Cut log := fun k hk => absurd hk (h.not_failed k)

/-- Other threads are cancelled where a thread has failed. -/
theorem Quiet.cut_cancel (h : Quiet log) (js : List Nat) : Cut (log ++ js.map fun i : Nat => .cancel i) := by
  intro k hk
  rcases List.mem_append.1 hk with hk | hk
  · exact absurd hk (h.not_failed k)
  · simp at hk

theorem createThreads_spec {create : Nat → Int} {fuel : Nat} {ret : Int} {js : List Nat} :
    ∀ {log : List ThreadEvent}, Quiet log → createThreads create fuel js log = some (ret, log') →
      Cut log' ∧ (ret = 0 → Quiet log') := by
  induction js with
  | nil =>
    intro log h hcall
    obtain ⟨-, rfl⟩ := Prod.mk.inj (Option.some.inj hcall)
    exact ⟨h.cut, fun _ => h⟩
  | cons j js ih =>
    intro log h hcall
    rw [createThreads] at hcall
    split at hcall
    next hfail =>
      obtain ⟨log₁, hrollback, hcall⟩ := Option.map_eq_some_iff.1 hcall
      obtain ⟨rfl, rfl⟩ := Prod.mk.inj hcall
      refine ⟨fun k hk => ?_, fun hret => absurd hret hfail⟩
      rw [rollback_eq hrollback, List.concat_eq_append, List.append_assoc, List.singleton_append] at hk ⊢
      rcases List.mem_append.1 hk with hk | hk
      · exact absurd hk (h.not_failed k)
      · obtain rfl : k = j := by simpa using hk
        exact ⟨log, h, rfl⟩
    next => exact ih (h.create j) hcall

/-- Where `pthread_create` fails for the first time with thread `k`, the call comes back from the
cleanup, with this behind it. -/
theorem createThreads_fails {create : Nat → Int} {N_CHAN k : Nat} (hk : k < N_CHAN) (hbefore : ∀ j < k, create j = 0)
    (hfail : create k ≠ 0) (log : List ThreadEvent) : ∃ N, ∀ fuel, N ≤ fuel →
      createThreads create fuel (List.range N_CHAN) log = some (create k,
        log ++ (List.range k).map ThreadEvent.create ++ .create_failed k :: (cancelled k).map .cancel) := by
  obtain ⟨n, rfl⟩ := Nat.exists_eq_add_of_lt hk
  have hlist : List.range (k + n + 1) = List.range k ++ k :: (List.range n).map fun i => k + 1 + i := by
    rw [Nat.add_assoc, List.range_add, List.range_succ_eq_map, List.map_cons, List.map_map, Nat.add_zero]
    simp [Function.comp_def, Nat.add_assoc, Nat.add_comm 1]
  have hcreated : ∀ {js : List Nat} (rest : List Nat) (fuel : Nat) {log : List ThreadEvent}, (∀ j ∈ js, create j = 0) →
      createThreads create fuel (js ++ rest) log = createThreads create fuel rest (log ++ js.map ThreadEvent.create) := by
    intro js
    induction js with
    | nil => simp
    | cons j js ih =>
      intro rest fuel log hjs
      rw [List.cons_append, createThreads, if_neg (not_not.2 (hjs j List.mem_cons_self)),
        ih rest fuel fun i hi => hjs i (List.mem_cons_of_mem _ hi)]
      simp
  obtain ⟨log', hlog', N, hN⟩ := rollback_returns k ((log ++ (List.range k).map ThreadEvent.create).concat (.create_failed k))
  refine ⟨N, fun fuel hfuel => ?_⟩
  rw [hlist, hcreated _ fuel fun j hj => hbefore j (List.mem_range.1 hj), createThreads, if_pos hfail, rollback, hN fuel hfuel,
    hlog']
  simp

theorem joinResult_ne_zero (env : RoundEnv) (j : Nat) : joinResult env j ≠ 0 := by
  unfold joinResult
  split <;> omega

theorem joinThreads_spec {env : RoundEnv} {js : List Nat} : ∀ {log : List ThreadEvent}, Quiet log →
    Cut (joinThreads env js log).2 ∧ ((joinThreads env js log).1 = 0 → Quiet (joinThreads env js log).2) := by
  induction js with
  | nil => exact fun h => ⟨h.cut, fun _ => h⟩
  | cons j js ih =>
    intro log h
    rw [joinThreads]
    split
    next => exact ⟨(h.join j).cut_cancel js, fun hret => absurd hret (joinResult_ne_zero env j)⟩
    next => exact ih (h.join j)

/-- The memory is freed after the cleanup. -/
def Freed (log : List ThreadEvent) : Prop :=
  ∃ before rest, Cut before ∧ (∀ k, .create_failed k ∉ rest) ∧ log = before ++ .free_region :: rest

/-- The threads `0, …, k - 1` have been cancelled, each once, when their memory is freed, and
no other index has been used. -/
def RolledBack (k : Nat) (log : List ThreadEvent) : Prop :=
  ∀ j : Int, (log.takeWhile fun e => e ≠ .free_region).count (.cancel j) = if 0 ≤ j ∧ j < k then 1 else 0

theorem Quiet.count_cancel (h : Quiet log) (j : Int) : log.count (.cancel j) = 0 := by
  apply List.count_eq_zero_of_not_mem
  intro hmem
  rcases h _ hmem with ⟨i, hi⟩ | ⟨i, hi⟩ <;> cases hi

theorem Freed.not_rolledBack (h : Freed log) {k : Nat} (hfail : .create_failed k ∈ log) : ¬ RolledBack k log := by
  obtain ⟨before, rest, hcut, hrest, rfl⟩ := h
  have hmem : .create_failed k ∈ before := by
    rcases List.mem_append.1 hfail with hmem | hmem
    · exact hmem
    · exact absurd (List.mem_of_ne_of_mem (by simp) hmem) (hrest k)
  obtain ⟨first, hquiet, rfl⟩ := hcut k hmem
  obtain ⟨j, hj⟩ := cancelled_count_ne k
  intro hrolled
  apply hj
  rw [← hrolled j, List.takeWhile_append_of_pos, List.takeWhile_cons_of_neg (by simp), List.append_nil, List.count_append,
    hquiet.count_cancel, List.count_cons_of_ne (by simp), Nat.zero_add]
  · exact (List.count_map_of_injective _ _ (fun _ _ heq => ThreadEvent.cancel.inj heq) j).symm
  · intro e he
    rcases List.mem_append.1 he with he | he
    · rcases hquiet e he with ⟨i, rfl⟩ | ⟨i, rfl⟩ <;> simp
    · rcases List.mem_cons.1 he with rfl | he
      · simp
      · obtain ⟨i, -, rfl⟩ := List.mem_map.1 he
        simp

end

end Dmacftu.Bench
