import Dmacftu.BenchThreads
import Dmacftu.Lib.CDouble
import Dmacftu.Lib.Doubling
import Dmacftu.TraceDaemon
import Dmacftu.WriteLoop
/-!
# `start_micro_benchmark`

The Cache benchmark runs one round of threads until a key is pressed. The Band benchmark runs a
first round for the caches, and then one for each size, of which each thread's line goes to the
measures file. Both free the memory of the threads on the way out.

`never_rolled_back`: where a thread of a round could not be created, the others still use it.
-/
open Lib.CDouble Lib.CInt Lib.CText Lib.Transfers
open Dmacftu.Bench Dmacftu.Lines

namespace Dmacftu.CacheDaemon

/-- What `start_micro_benchmark` meets. -/
structure Env where
  attr_init : Int
  attr_setdetachstate : Int
  mutex_init : Int
  cond_init : Int
  malloc : Bool
  round : RoundEnv

/-- What is undone from the label `err_start` of this number on, which is also what is undone at the end. -/
def err_start (n : Nat) : List ThreadEvent := ([.attr_destroy, .mutex_destroy, .cond_destroy, .free_region].take (n - 1)).reverse

/-- The result, and what has happened. -/
def start_micro_benchmark (N_CHAN : Nat) (env : Env) (fuel : Nat) : Option (Int × List ThreadEvent) :=
  if env.attr_init ≠ 0 then some (env.attr_init, err_start 1)
  else if env.attr_setdetachstate ≠ 0 then some (env.attr_setdetachstate, err_start 2)
  else if env.mutex_init ≠ 0 then some (env.mutex_init, err_start 2)
  else if env.cond_init ≠ 0 then some (env.cond_init, err_start 3)
  else if !env.malloc then some (-ENOMEM, err_start 4)
  else do
    let (ret, log) ← createThreads env.round.create fuel (List.range N_CHAN) []
    if ret ≠ 0 then return (ret, log ++ err_start 5)
    let (ret, log) := joinThreads env.round (List.range N_CHAN) log
    return (ret, log ++ err_start 5)

/-- Either no thread was to be created, or the memory is freed after the cleanup. -/
theorem start_micro_benchmark_log {N_CHAN fuel : Nat} {env : Env} {ret : Int} {log : List ThreadEvent}
    (h : start_micro_benchmark N_CHAN env fuel = some (ret, log)) :
    (∀ k, .create_failed k ∉ log) ∨ Freed log := by
  have hlog : ∀ {ret' : Int} {log' : List ThreadEvent}, some (ret', log') = some (ret, log) → log = log' := fun heq =>
    (Prod.mk.inj (Option.some.inj heq)).2.symm
  have hearly : ∀ n k, .create_failed k ∉ err_start n := by
    intro n k hmem
    have := List.mem_of_mem_take (List.mem_reverse.1 hmem)
    simp at this
  have hfreed : ∀ before, Cut before → Freed (before ++ err_start 5) := fun before hcut =>
    ⟨before, _, hcut, fun k => by simp, rfl⟩
  unfold start_micro_benchmark at h
  split at h
  · exact .inl (hlog h ▸ hearly 1)
  split at h
  · exact .inl (hlog h ▸ hearly 2)
  split at h
  · exact .inl (hlog h ▸ hearly 2)
  split at h
  · exact .inl (hlog h ▸ hearly 3)
  split at h
  · exact .inl (hlog h ▸ hearly 4)
  obtain ⟨⟨ret₁, log₁⟩, hcreate, h⟩ := Option.bind_eq_some_iff.1 h
  obtain ⟨hcut, hquiet⟩ := createThreads_spec quiet_nil hcreate
  dsimp only at h
  split at h
  · exact .inr (hlog h ▸ hfreed _ hcut)
  next hzero => exact .inr (hlog h ▸ hfreed _ (joinThreads_spec (hquiet (by simpa using hzero))).1)

end Dmacftu.CacheDaemon

namespace Dmacftu.BandDaemon

def _1MB_TO_BYTE : Nat := 1048576
def _1KB_TO_BYTE : Nat := 1024
def SEC_TO_NS : Nat := 1000000000
def TYPE_MEASURE_FROM_TO : Int := 2

def diff_time (start end_ : Nat) : Nat := Trace.diff_time start end_

def FIRST_ROW : List Char :=
  ("# id_chan        Size_Msg    n_op        StartTime___(ns)          EndTime___(ns)" ++
    "         DiffTime(ns)    Bandwidth(MB/sec)\n#\n").toList

def write_first_row (write : Nat → Transfer) (fuel : Nat) (fd : Out) : Option (Int × Out) :=
  (writeLine write fuel FIRST_ROW fd).map fun (ok, fd) => (if ok then 0 else -EFAULT, fd)

/-- What `start_micro_benchmark` meets: the round for the caches, and those for the sizes with
the times that their threads take. -/
structure Env where
  open_ : Int
  attr_init : Int
  attr_setdetachstate : Int
  mutex_init : Int
  cond_init : Int
  malloc : Bool
  cache : RoundEnv
  round : Nat → RoundEnv
  time_start : Nat → Nat → UInt64
  time_end : Nat → Nat → UInt64
  n_op : Nat → UInt64
  write : Nat → Transfer

/-- What has happened, and the measures file. -/
structure State where
  log : List ThreadEvent
  fd : Out

section

variable (dbl : Double) (N_CHAN : Nat) (type : Int) (env : Env)

/-- The bandwidth of thread `j` of a round with this size. -/
def bandwidth (round size j : Nat) : dbl.Val :=
  let dif_time := diff_time (env.time_start round j).toNat (env.time_end round j).toNat
  let bandwidth := dbl.div (dbl.ofNat size) (dbl.ofNat _1MB_TO_BYTE)
  let bandwidth := dbl.mul bandwidth (dbl.ofNat (env.n_op j).toNat)
  let bandwidth := dbl.div bandwidth (dbl.div (dbl.ofNat dif_time) (dbl.ofNat SEC_TO_NS))
  if type = TYPE_MEASURE_FROM_TO then dbl.mul bandwidth (dbl.ofNat 2) else bandwidth

/-- `" %8d%16lu%8lu%24llu%24llu%21llu%21.6f"`. -/
def threadColumns (round size j : Nat) : List Char :=
  let dif_time := diff_time (env.time_start round j).toNat (env.time_end round j).toNat
  ' ' :: (pad 8 (signed (s16 j)) ++ pad 16 (decimal size) ++ pad 8 (decimal (env.n_op j).toNat) ++
    pad 24 (decimal (env.time_start round j).toNat) ++ pad 24 (decimal (env.time_end round j).toNat) ++
    pad 21 (decimal dif_time) ++ pad 21 (dbl.fixed 6 (bandwidth dbl type env round size j)))

/-- The line of a thread; that of the last one goes on with `" -> total_band = %15.6f\n#\n"`. -/
def threadText (round size j : Nat) (tot_band : dbl.Val) : List Char :=
  let columns := threadColumns dbl type env round size j
  if (j : Int) ≠ N_CHAN - 1 then columns ++ ['\n']
  else columns ++ " -> total_band = ".toList ++ pad 15 (dbl.fixed 6 tot_band) ++ ['\n', '#', '\n']

/-- Joins the threads of a round, and writes the line of each. -/
def measureThreads (fuel round size : Nat) : List Nat → dbl.Val → State → Option (State ⊕ Int × State)
  | [], _, s => some (.inl s)
  | j :: js, tot_band, s =>
    let s := { s with log := s.log.concat (.join j) }
    let others : List ThreadEvent := js.map fun i : Nat => .cancel i
    if (env.round round).join j = 0 ∧ (env.round round).state_thread j = TH_STATE_OK then do
      let tot_band := dbl.add tot_band (bandwidth dbl type env round size j)
      let (ok, fd) ← writeLine env.write fuel (threadText dbl N_CHAN type env round size j tot_band) s.fd
      let s := { s with fd }
      if ok then measureThreads fuel round size js tot_band s
      else return .inr (-1, { s with log := s.log ++ others })
    else some (.inr (joinResult (env.round round) j, { s with log := s.log ++ others }))

/-- A round for a size. -/
def measureSize (fuel round i : Nat) (s : State) : Option (State ⊕ Int × State) := do
  let (ret, log) ← createThreads (env.round round).create fuel (List.range N_CHAN) s.log
  let s := { s with log }
  if ret ≠ 0 then return .inr (ret, s)
  measureThreads dbl N_CHAN type env fuel round i (List.range N_CHAN) (dbl.ofNat 0) s

/-- What is undone from the label `err_start` of this number on. -/
def err_start (n : Nat) : List ThreadEvent :=
  ([.close, .attr_destroy, .mutex_destroy, .cond_destroy, .free_region].take (n - 1)).reverse

def State.leave (s : State) (n : Nat) : State := { s with log := s.log ++ err_start n }

/-- The rounds of `start_micro_benchmark`, and the end. -/
def runRounds (max_size fuel : Nat) (s : State) : Option (Int × State) := do
  let (ret, log) ← createThreads env.cache.create fuel (List.range N_CHAN) s.log
  let s := { s with log }
  if ret ≠ 0 then return (ret, s.leave 6)
  let (ret, log) := joinThreads env.cache (List.range N_CHAN) s.log
  let s := { s with log }
  if ret ≠ 0 then return (ret, s.leave 6)
  let (ret, s) ← Lib.Doubling.loop (measureSize dbl N_CHAN type env fuel) _1KB_TO_BYTE max_size fuel s
  return (ret, s.leave 6)

def start_micro_benchmark (max_size fuel : Nat) : Option (Int × State) :=
  let s : State := ⟨[], 0, []⟩
  if env.open_ < 0 then some (env.open_, s.leave 1)
  else do
    let (ret, fd) ← write_first_row env.write fuel s.fd
    let s := { s with fd }
    if ret < 0 then return (ret, s.leave 2)
    if env.attr_init ≠ 0 then return (env.attr_init, s.leave 2)
    if env.attr_setdetachstate ≠ 0 then return (env.attr_setdetachstate, s.leave 3)
    if env.mutex_init ≠ 0 then return (env.mutex_init, s.leave 3)
    if env.cond_init ≠ 0 then return (env.cond_init, s.leave 4)
    if !env.malloc then return (-ENOMEM, s.leave 5)
    runRounds dbl N_CHAN type env max_size fuel s

end

/-! ## The cleanup -/

section

variable {dbl : Double} {N_CHAN : Nat} {type : Int} {env : Env} {fuel : Nat}

theorem measureThreads_spec {round size : Nat} {js : List Nat} : ∀ {tot_band : dbl.Val} {s : State}, Quiet s.log →
    (∀ s', measureThreads dbl N_CHAN type env fuel round size js tot_band s = some (.inl s') → Quiet s'.log) ∧
    ∀ ret s', measureThreads dbl N_CHAN type env fuel round size js tot_band s = some (.inr (ret, s')) → Cut s'.log := by
  induction js with
  | nil =>
    intro tot_band s h
    exact ⟨fun s' hs' => Sum.inl.inj (Option.some.inj hs') ▸ h, fun ret s' hs' => by cases hs'⟩
  | cons j js ih =>
    intro tot_band s h
    rw [measureThreads]
    dsimp only
    split
    next =>
      cases hline : writeLine env.write fuel (threadText dbl N_CHAN type env round size j
          (dbl.add tot_band (bandwidth dbl type env round size j))) s.fd with
      | none => exact ⟨fun s' hs' => by simp at hs', fun ret s' hs' => by simp at hs'⟩
      | some r =>
        obtain ⟨ok, fd⟩ := r
        cases ok with
        | true => exact ih (h.join j)
        | false =>
          refine ⟨fun s' hs' => by simp at hs', fun ret s' hs' => ?_⟩
          obtain ⟨-, rfl⟩ := Prod.mk.inj (Sum.inr.inj (Option.some.inj hs'))
          exact (h.join j).cut_cancel js
    next =>
      refine ⟨fun s' hs' => by simp at hs', fun ret s' hs' => ?_⟩
      obtain ⟨-, rfl⟩ := Prod.mk.inj (Sum.inr.inj (Option.some.inj hs'))
      exact (h.join j).cut_cancel js

theorem measureSize_spec {round i : Nat} {s : State} (h : Quiet s.log) :
    (∀ s', measureSize dbl N_CHAN type env fuel round i s = some (.inl s') → Quiet s'.log) ∧
    ∀ ret s', measureSize dbl N_CHAN type env fuel round i s = some (.inr (ret, s')) → Cut s'.log := by
  unfold measureSize
  cases hcreate : createThreads (env.round round).create fuel (List.range N_CHAN) s.log with
  | none => exact ⟨fun s' hs' => by simp at hs', fun ret s' hs' => by simp at hs'⟩
  | some r =>
    obtain ⟨ret, log⟩ := r
    obtain ⟨hcut, hquiet⟩ := createThreads_spec h hcreate
    rw [Option.bind_eq_bind, Option.bind_some]
    dsimp only
    split
    next =>
      refine ⟨fun s' hs' => by simp at hs', fun ret s' hs' => ?_⟩
      obtain ⟨-, rfl⟩ := Prod.mk.inj (Sum.inr.inj (Option.some.inj hs'))
      exact hcut
    next hret => exact measureThreads_spec (hquiet (by simpa using hret))

theorem not_failed_err_start (n k : Nat) : .create_failed k ∉ err_start n := by
  intro hmem
  have := List.mem_of_mem_take (List.mem_reverse.1 hmem)
  simp at this

/-- When the rounds are left the memory is freed, after the cleanup if there is one. -/
theorem runRounds_log {max_size : Nat} {ret : Int} {s s' : State} (h : Quiet s.log)
    (hrun : runRounds dbl N_CHAN type env max_size fuel s = some (ret, s')) : Freed s'.log := by
  have hfreed : ∀ {ret' : Int} {t : State}, some (ret', t.leave 6) = some (ret, s') → Cut t.log → Freed s'.log := by
    intro ret' t heq hcut
    obtain ⟨-, rfl⟩ := Prod.mk.inj (Option.some.inj heq)
    exact ⟨t.log, _, hcut, fun k => by simp, rfl⟩
  obtain ⟨⟨ret₁, log⟩, hcreate, hrun⟩ := Option.bind_eq_some_iff.1 hrun
  obtain ⟨hcut, hquiet⟩ := createThreads_spec h hcreate
  dsimp only at hrun
  split at hrun
  · exact hfreed hrun hcut
  next hzero =>
    obtain ⟨hcut', hquiet'⟩ := @joinThreads_spec env.cache (List.range N_CHAN) log (hquiet (by simpa using hzero))
    split at hrun
    · exact hfreed hrun hcut'
    next hzero' =>
      obtain ⟨⟨ret₂, t⟩, hloop, hrun⟩ := Option.bind_eq_some_iff.1 hrun
      refine hfreed hrun ?_
      exact Lib.Doubling.loop_inv (I := fun t => Quiet t.log) (P := fun t => Cut t.log)
        (fun _ _ _ _ ht => (measureSize_spec ht).1 _) (fun _ _ _ _ _ ht => (measureSize_spec ht).2 _ _)
        (fun _ ht => ht.cut) (hquiet' (by simpa using hzero')) hloop

/-- Either no thread was to be created, or the memory is freed after the cleanup. -/
theorem start_micro_benchmark_log {max_size : Nat} {ret : Int} {s : State}
    (h : start_micro_benchmark dbl N_CHAN type env max_size fuel = some (ret, s)) :
    (∀ k, .create_failed k ∉ s.log) ∨ Freed s.log := by
  have hearly : ∀ {ret' : Int} {n : Nat} {fd : Out}, some (ret', State.leave ⟨[], fd⟩ n) = some (ret, s) →
      ∀ k, .create_failed k ∉ s.log := by
    intro ret' n fd heq k
    obtain ⟨-, rfl⟩ := Prod.mk.inj (Option.some.inj heq)
    rw [State.leave, List.nil_append]
    exact not_failed_err_start n k
  unfold start_micro_benchmark at h
  dsimp only at h
  split at h
  · exact .inl (hearly h)
  obtain ⟨⟨ret₁, fd⟩, -, h⟩ := Option.bind_eq_some_iff.1 h
  dsimp only at h
  split at h
  · exact .inl (hearly h)
  split at h
  · exact .inl (hearly h)
  split at h
  · exact .inl (hearly h)
  split at h
  · exact .inl (hearly h)
  split at h
  · exact .inl (hearly h)
  split at h
  · exact .inl (hearly h)
  exact .inr (runRounds_log quiet_nil h)

end

end Dmacftu.BandDaemon

namespace Dmacftu.Bench

open BandDaemon

/-- The cleanup after a failed `pthread_create` comes to an end, but there is no number of threads for
which it is right: in the Cache daemon, and in both kinds of rounds in the Band daemon, the memory is
freed under threads that are not cancelled, or after indices that are no thread's have been used. -/
theorem never_rolled_back (N_CHAN k : Nat) :
    (∀ (create : Nat → Int) (log : List ThreadEvent), k < N_CHAN → (∀ j < k, create j = 0) → create k ≠ 0 →
      ∃ N, ∀ fuel, N ≤ fuel → createThreads create fuel (List.range N_CHAN) log = some (create k,
        log ++ (List.range k).map ThreadEvent.create ++ .create_failed k :: (cancelled k).map .cancel)) ∧
    (∀ (env : CacheDaemon.Env) (fuel : Nat) (ret : Int) (log : List ThreadEvent),
      CacheDaemon.start_micro_benchmark N_CHAN env fuel = some (ret, log) → .create_failed k ∈ log → ¬ RolledBack k log) ∧
    ∀ (dbl : Double) (type : Int) (env : Env) (max_size fuel : Nat) (ret : Int) (s : State),
      start_micro_benchmark dbl N_CHAN type env max_size fuel = some (ret, s) → .create_failed k ∈ s.log →
      ¬ RolledBack k s.log := by
  refine ⟨fun create log hk hbefore hfail => createThreads_fails hk hbefore hfail log, ?_, ?_⟩
  · intro env fuel ret log h hmem
    exact ((CacheDaemon.start_micro_benchmark_log h).resolve_left fun hnot => hnot k hmem).not_rolledBack hmem
  · intro dbl type env max_size fuel ret s h hmem
    exact ((start_micro_benchmark_log h).resolve_left fun hnot => hnot k hmem).not_rolledBack hmem

/-- The third thread cannot be created. -/
def noThird : RoundEnv := ⟨fun j => if j = 2 then 11 else 0, fun _ => 0, fun _ => TH_STATE_OK⟩

def allFour : RoundEnv := ⟨fun _ => 0, fun _ => 0, fun _ => TH_STATE_OK⟩

def cacheEnv : CacheDaemon.Env := ⟨0, 0, 0, 0, true, noThird⟩

def bandEnv (cache size : RoundEnv) : Env :=
  ⟨3, 0, 0, 0, 0, true, cache, fun _ => size, fun _ _ => 10, fun _ _ => 20, fun _ => 1, fun _ => whole⟩

/-- The cleanup with 2 threads: the second is the last of them, and the loop over before it begins. -/
theorem never_rolled_back_sample :
    (∃ log, CacheDaemon.start_micro_benchmark 4 cacheEnv 1 = some (11, log) ∧ ¬ RolledBack 2 log) ∧
    (∃ s, start_micro_benchmark wholeNumbers 4 0 (bandEnv noThird allFour) 1024 2 = some (11, s) ∧ ¬ RolledBack 2 s.log) ∧
    ∃ s, start_micro_benchmark wholeNumbers 4 0 (bandEnv allFour noThird) 1024 2 = some (11, s) ∧ ¬ RolledBack 2 s.log := by
  have hband : ∀ cache size : RoundEnv, ∀ log : List ThreadEvent,
      ((start_micro_benchmark wholeNumbers 4 0 (bandEnv cache size) 1024 2).map fun r => (r.1, r.2.log)) = some (11, log) →
      .create_failed 2 ∈ log →
      ∃ s, start_micro_benchmark wholeNumbers 4 0 (bandEnv cache size) 1024 2 = some (11, s) ∧ ¬ RolledBack 2 s.log := by
    intro cache size log hrun hmem
    obtain ⟨⟨ret, s⟩, hs, heq⟩ := Option.map_eq_some_iff.1 hrun
    obtain ⟨rfl, rfl⟩ := Prod.mk.inj heq
    exact ⟨s, hs, (never_rolled_back 4 2).2.2 wholeNumbers 0 (bandEnv cache size) 1024 2 11 s hs hmem⟩
  refine ⟨⟨_, rfl, (never_rolled_back 4 2).2.1 cacheEnv 1 11 _ rfl (by decide)⟩, ?_, ?_⟩
  · exact hband noThird allFour ([.create 0, .create 1, .create_failed 2] ++ err_start 6) (by decide +kernel) (by decide)
  · exact hband allFour noThird ((List.range 4).map .create ++ (List.range 4).map .join ++
      [.create 0, .create 1, .create_failed 2] ++ err_start 6) (by decide +kernel) (by decide)

/-- Two threads are running, neither is cancelled, and their memory is freed. -/
theorem left_running :
    CacheDaemon.start_micro_benchmark 4 cacheEnv 1 = some (11, [.create 0, .create 1, .create_failed 2, .free_region,
      .cond_destroy, .mutex_destroy, .attr_destroy]) ∧
    ¬ RolledBack 2 [.create 0, .create 1, .create_failed 2, .free_region, .cond_destroy, .mutex_destroy, .attr_destroy] :=
  ⟨rfl, fun hrolled => absurd (hrolled 0) (by decide)⟩

end Dmacftu.Bench
