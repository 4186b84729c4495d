import Dmacftu.Lib.CInt
import Dmacftu.Lib.Condvar
import Dmacftu.Lib.Runs
import Mathlib.Data.Fintype.Card
/-!
# The start of a round

The threads of a round wait for each other before they take their start time and begin with their
transfers: each of them adds one to `count_queue`, the last one wakes the others, and a thread that is
not the last waits, once. Nothing looks at the count again after the wait.

`starts_together`: no thread is ahead of the others as long as no wait ends by itself.
-/
open Lib.CInt Lib.Condvar Lib.Runs

namespace Dmacftu.Bench

/-! ## The code -/

/-- The system calls of a thread. -/
inductive Call where
  | setaffinity
  | getaffinity
  | open_
  | mb_load
  | clock_gettime
  | read
  | write
  deriving DecidableEq

/-- What a thread function calls before the section, and after it up to its first transfer. -/
structure Body where
  setup : List Call
  start : List Call

/-- Where a thread is. -/
inductive Pc where
  | absent
  | setup (calls : List Call)
  | locked
  /-- Between the load and the store of `++count_queue`. -/
  | loaded (count_queue : Int)
  | stored
  | waiting
  | unlock
  | out (calls : List Call)
  /-- It has been cancelled or has given up, with or without being counted. -/
  | ended (counted : Bool)
  deriving DecidableEq

/-- The threads of a round, and how many of them have been created. -/
structure Round (N_CHAN : Nat) where
  pc : Fin N_CHAN → Pc
  created : Nat
  count_queue : Int
  monitor : Monitor (Fin N_CHAN)

variable {N_CHAN : Nat}

def Round.start : Round N_CHAN := ⟨fun _ => .absent, 0, 0, .free⟩

def Round.move (s : Round N_CHAN) (j : Fin N_CHAN) (pc : Pc) (monitor : Monitor (Fin N_CHAN)) : Round N_CHAN :=
  { s with pc := Function.update s.pc j pc, monitor }

inductive Label (N_CHAN : Nat) where
  | create (j : Fin N_CHAN)
  /-- The next call before the section, and whether it succeeds. -/
  | setup (j : Fin N_CHAN) (ok : Bool)
  | lock (j : Fin N_CHAN)
  | load (j : Fin N_CHAN)
  | store (j : Fin N_CHAN)
  /-- `if(count_queue == N_CHAN)`, and what follows. -/
  | test (j : Fin N_CHAN)
  /-- The wait of a thread ends by itself. -/
  | wake (j : Fin N_CHAN)
  | resume (j : Fin N_CHAN)
  | unlock (j : Fin N_CHAN)
  | call (j : Fin N_CHAN)
  | cancel (j : Fin N_CHAN)
  deriving DecidableEq

def step (body : Body) (s : Round N_CHAN) : Label N_CHAN → Option (Round N_CHAN)
  | .create j =>
    if s.created = j ∧ s.pc j = .absent then some { s.move j (.setup body.setup) s.monitor with created := s.created + 1 }
    else none
  | .setup j ok =>
    match s.pc j with
    | .setup (_ :: calls) => some (s.move j (if ok then .setup calls else .ended false) s.monitor)
    | _ => none
  | .lock j => if s.pc j = .setup [] then (s.monitor.lock j).map (s.move j .locked) else none
  | .load j => if s.pc j = .locked then some (s.move j (.loaded s.count_queue) s.monitor) else none
  | .store j =>
    match s.pc j with
    | .loaded count_queue => some { s.move j .stored s.monitor with count_queue := s16 (count_queue + 1) }
    | _ => none
  | .test j =>
    if s.pc j = .stored then
      if s.count_queue = N_CHAN then some (s.move j .unlock s.monitor.broadcast)
      else (s.monitor.wait j).map (s.move j .waiting)
    else none
  | .wake j => if s.pc j = .waiting then (s.monitor.wake j).map (s.move j .waiting) else none
  | .resume j => if s.pc j = .waiting then (s.monitor.resume j).map (s.move j .unlock) else none
  | .unlock j => if s.pc j = .unlock then (s.monitor.unlock j).map (s.move j (.out body.start)) else none
  | .call j =>
    match s.pc j with
    | .out (_ :: calls) => some (s.move j (.out calls) s.monitor)
    | _ => none
  | .cancel j =>
    match s.pc j with
    | .setup _ => some (s.move j (.ended false) s.monitor)
    -- a thread that is cancelled in its wait takes the mutex with it
    | .waiting => (s.monitor.lock j).map (s.move j (.ended true))
    | .out _ => some (s.move j (.ended true) s.monitor)
    | _ => none

/-! ## The count -/

/-- The thread has incremented `count_queue`. -/
def Pc.counted : Pc → Bool
  | .stored | .waiting | .unlock | .out _ | .ended true => true
  | _ => false

/-- The thread holds the mutex. -/
def Pc.critical : Pc → Bool
  | .locked | .loaded _ | .stored | .unlock => true
  | _ => false

/-- Nothing is left that the thread waits for. -/
def Round.Passed (s : Round N_CHAN) (j : Fin N_CHAN) : Prop :=
  s.pc j = .unlock ∨ (∃ calls, s.pc j = .out calls) ∨ s.pc j = .waiting ∧ s.monitor.waiting j = false

def Round.arrived (s : Round N_CHAN) : Finset (Fin N_CHAN) := Finset.univ.filter fun j => (s.pc j).counted

structure Inv (s : Round N_CHAN) : Prop where
  mutex : s.monitor.Excludes fun j => (s.pc j).critical
  loaded : ∀ j v, s.pc j = .loaded v → v = s.count_queue
  count : s.count_queue = s16 s.arrived.card
  passed : ∀ j, s.Passed j → ∀ i, (s.pc i).counted

theorem Inv.start : Inv (Round.start : Round N_CHAN) where
  mutex j hj := by simp [Round.start, Pc.critical] at hj
  loaded j v hj := by simp [Round.start] at hj
  count := by simp [Round.start, Round.arrived, Pc.counted, s16, u16]
  passed j hj := by simp [Round.Passed, Round.start] at hj

section

variable {s : Round N_CHAN} {j : Fin N_CHAN} {pc : Pc} {m : Monitor (Fin N_CHAN)}

theorem move_self : (s.move j pc m).pc j = pc := Function.update_self ..

theorem move_of_ne {i : Fin N_CHAN} (h : i ≠ j) : (s.move j pc m).pc i = s.pc i := Function.update_of_ne h ..

theorem move_cases (s : Round N_CHAN) (j : Fin N_CHAN) (pc : Pc) (m : Monitor (Fin N_CHAN)) (i : Fin N_CHAN) :
    i = j ∧ (s.move j pc m).pc i = pc ∨ i ≠ j ∧ (s.move j pc m).pc i = s.pc i := by
  by_cases h : i = j
  · exact .inl ⟨h, h ▸ move_self⟩
  · exact .inr ⟨h, move_of_ne h⟩

/-- A thread that goes on without being counted, or having been, leaves the count as it is. -/
theorem arrived_move (h : pc.counted = (s.pc j).counted) : (s.move j pc m).arrived = s.arrived := by
  ext i
  simp only [Round.arrived, Finset.mem_filter, Finset.mem_univ, true_and]
  rcases move_cases s j pc m i with ⟨rfl, hi⟩ | ⟨-, hi⟩ <;> rw [hi]
  rw [h]

/-- A step of a thread that does not change the count keeps the invariant, if it keeps the order of
the section, and does not let the thread pass before the others have arrived. -/
theorem Inv.move (h : Inv s) (hcounted : pc.counted = (s.pc j).counted) (hloaded : ∀ v, pc = .loaded v → v = s.count_queue)
    (hmutex : m.Excludes fun i => ((s.move j pc m).pc i).critical)
    (hpassed : (s.move j pc m).Passed j → ∀ i, (s.pc i).counted)
    (hothers : ∀ i ≠ j, m.waiting i = false → s.monitor.waiting i = false ∨ ∀ i, (s.pc i).counted) : Inv (s.move j pc m) := by
  have hall : (∀ i, (s.pc i).counted) → ∀ i, ((s.move j pc m).pc i).counted := by
    intro hs i
    rcases move_cases s j pc m i with ⟨rfl, hi⟩ | ⟨-, hi⟩ <;> rw [hi]
    · rw [hcounted]
      exact hs i
    · exact hs i
  refine ⟨hmutex, fun i v hv => ?_, ?_, fun i hi => hall ?_⟩
  · rcases move_cases s j pc m i with ⟨rfl, hi⟩ | ⟨-, hi⟩ <;> rw [hi] at hv
    · exact hloaded v hv
    · exact h.loaded i v hv
  · rw [arrived_move hcounted]
    exact h.count
  · by_cases hij : i = j
    · exact hpassed (hij ▸ hi)
    · rw [Round.Passed, move_of_ne hij] at hi
      rcases hi with hi | hi | ⟨hi, hgo⟩
      · exact h.passed i (.inl hi)
      · exact h.passed i (.inr (.inl hi))
      · rcases hothers i hij hgo with hgo | hs
        · exact h.passed i (.inr (.inr ⟨hi, hgo⟩))
        · exact hs

/-- No thread comes into the section with this step. -/
theorem Inv.outside (h : Inv s) (hpc : pc.critical → (s.pc j).critical) (hholder : m.holder = s.monitor.holder) :
    m.Excludes fun i => ((s.move j pc m).pc i).critical := by
  refine h.mutex.mono (fun i hi => ?_) hholder
  rcases move_cases s j pc m i with ⟨rfl, heq⟩ | ⟨-, heq⟩ <;> rw [heq] at hi
  · exact hpc hi
  · exact hi

/-- A step outside the section, or inside, of a thread that has not passed then. -/
theorem Inv.stay (h : Inv s) (hcounted : pc.counted = (s.pc j).counted) (hloaded : ∀ v, pc = .loaded v → v = s.count_queue)
    (hcritical : pc.critical → (s.pc j).critical) (hpassed : ¬ (s.move j pc s.monitor).Passed j) :
    Inv (s.move j pc s.monitor) :=
  h.move hcounted hloaded (h.outside hcritical rfl) (fun hpass => absurd hpass hpassed) fun _ _ hgo => .inl hgo

/-- The thread takes the mutex. -/
theorem Inv.enter (h : Inv s) (hfree : s.monitor.holder = none) (hholder : m.holder = some j) :
    m.Excludes fun i => ((s.move j pc m).pc i).critical := by
  refine h.mutex.enter hfree (fun i hi => ?_) hholder
  rcases move_cases s j pc m i with ⟨rfl, -⟩ | ⟨-, heq⟩
  · exact .inl rfl
  · exact .inr (heq ▸ hi)

/-- The thread gives the mutex back. -/
theorem Inv.leave (h : Inv s) (hheld : s.monitor.holder = some j) (hpc : pc.critical = false) :
    m.Excludes fun i => ((s.move j pc m).pc i).critical := by
  refine h.mutex.leave hheld (t := j) fun i hi => ?_
  rcases move_cases s j pc m i with ⟨rfl, heq⟩ | ⟨hne, heq⟩ <;> rw [heq] at hi
  · rw [hpc] at hi
    cases hi
  · exact ⟨hi, hne⟩

/-- With the count at the number of threads, all have been counted. -/
theorem Inv.all_counted (h : Inv s) (hcount : s.count_queue = N_CHAN) (i : Fin N_CHAN) : (s.pc i).counted := by
  have hle : s.arrived.card ≤ N_CHAN := (Finset.card_le_univ s.arrived).trans_eq (Fintype.card_fin N_CHAN)
  have hrange := s16_range s.arrived.card
  -- `N_CHAN` is a value of a `short` then, and the count has not wrapped on the way to it
  have hcard : s.arrived.card = N_CHAN := by
    have heq := h.count
    rw [hcount] at heq
    rw [s16_of_range (by omega) (by omega)] at heq
    omega
  have huniv : s.arrived = Finset.univ := Finset.card_eq_iff_eq_univ _ |>.1 (hcard.trans (Fintype.card_fin N_CHAN).symm)
  have hmem : i ∈ s.arrived := huniv ▸ Finset.mem_univ i
  exact (Finset.mem_filter.1 hmem).2

/-- The store of `++count_queue`. -/
theorem Inv.store (h : Inv s) {v : Int} (hpc : s.pc j = .loaded v) :
    Inv { s.move j .stored s.monitor with count_queue := s16 (v + 1) } := by
  have hcritical : (s.pc j).critical := by rw [hpc]; rfl
  have hnot : ¬ (s.pc j).counted := by rw [hpc]; simp [Pc.counted]
  have harrived : (s.move j .stored s.monitor).arrived = insert j s.arrived := by
    ext i
    simp only [Round.arrived, Finset.mem_filter, Finset.mem_univ, true_and, Finset.mem_insert]
    rcases move_cases s j .stored s.monitor i with ⟨rfl, hi⟩ | ⟨hne, hi⟩ <;> rw [hi]
    · simp [Pc.counted]
    · simp [hne]
  refine ⟨h.outside (fun _ => hcritical) rfl, fun i w hi => ?_, ?_, fun i hi => ?_⟩
  · -- two threads cannot both be at it
    rcases move_cases s j .stored s.monitor i with ⟨rfl, heq⟩ | ⟨hne, heq⟩
    · exact absurd (heq.symm.trans hi) (by simp)
    · have hloaded : s.pc i = .loaded w := heq.symm.trans hi
      exact absurd (h.mutex.unique (by simp [hloaded, Pc.critical]) hcritical) hne
  · have hmem : j ∉ s.arrived := fun hmem => hnot (Finset.mem_filter.1 hmem).2
    show s16 (v + 1) = s16 (s.move j .stored s.monitor).arrived.card
    rw [harrived, Finset.card_insert_of_notMem hmem, h.loaded j v hpc, h.count, s16_add]
    norm_cast
  · -- nobody has passed, as this thread was missing
    refine absurd (h.passed i ?_ j) hnot
    rcases move_cases s j .stored s.monitor i with ⟨rfl, heq⟩ | ⟨-, heq⟩
    · have : (s.move i .stored s.monitor).Passed i := hi
      simp [Round.Passed, heq] at this
    · have : (s.move j .stored s.monitor).Passed i := hi
      rwa [Round.Passed, heq] at this

end

/-! ## Runs -/

/-- If this is a wait that ends by itself, all threads have been counted before. -/
def WokenInTime (s : Round N_CHAN) (l : Label N_CHAN) : Prop := ∀ j, l = .wake j → ∀ i, (s.pc i).counted

theorem inv_step {body : Body} (s : Round N_CHAN) (l : Label N_CHAN) (s' : Round N_CHAN) (h : Inv s)
    (hwake : WokenInTime s l) (hstep : step body s l = some s') : Inv s' := by
  cases l with
  | create j =>
    simp only [step] at hstep
    split at hstep
    next hpc =>
      obtain rfl := Option.some.inj hstep
      have hmove : Inv (s.move j (.setup body.setup) s.monitor) := by
        apply h.stay
        · rw [hpc.2]; rfl
        · simp
        · simp [Pc.critical]
        · simp [Round.Passed, move_self]
      exact ⟨hmove.mutex, hmove.loaded, hmove.count, hmove.passed⟩
    next => cases hstep
  | setup j ok =>
    simp only [step] at hstep
    split at hstep
    next c calls hpc =>
      obtain rfl := Option.some.inj hstep
      apply h.stay
      · rw [hpc]; cases ok <;> rfl
      · cases ok <;> simp
      · cases ok <;> simp [Pc.critical]
      · cases ok <;> simp [Round.Passed, move_self]
    next => cases hstep
  | lock j =>
    simp only [step] at hstep
    split at hstep
    next hpc =>
      obtain ⟨m, hlock, rfl⟩ := Option.map_eq_some_iff.1 hstep
      obtain ⟨hfree, rfl⟩ := lock_eq hlock
      refine h.move ?_ ?_ (h.enter hfree rfl) ?_ fun _ _ hgo => .inl hgo
      · rw [hpc]; rfl
      · simp
      · simp [Round.Passed, move_self]
    next => cases hstep
  | load j =>
    simp only [step] at hstep
    split at hstep
    next hpc =>
      obtain rfl := Option.some.inj hstep
      apply h.stay
      · rw [hpc]; rfl
      · intro v hv
        exact (Pc.loaded.inj hv).symm
      · simp [hpc, Pc.critical]
      · simp [Round.Passed, move_self]
    next => cases hstep
  | store j =>
    simp only [step] at hstep
    split at hstep
    next v hpc =>
      obtain rfl := Option.some.inj hstep
      exact h.store hpc
    next => cases hstep
  | test j =>
    simp only [step] at hstep
    split at hstep
    next hpc =>
      split at hstep
      next hcount =>
        -- the last one lets the others go, and all have been counted
        obtain rfl := Option.some.inj hstep
        have hall := h.all_counted hcount
        refine h.move ?_ ?_ (h.outside ?_ rfl) (fun _ => hall) fun _ _ _ => .inr hall
        · rw [hpc]; rfl
        · simp
        · simp [hpc, Pc.critical]
      next =>
        obtain ⟨m, hwait, rfl⟩ := Option.map_eq_some_iff.1 hstep
        obtain ⟨hheld, rfl⟩ := wait_eq hwait
        refine h.move ?_ ?_ (h.leave hheld rfl) ?_ ?_
        · rw [hpc]; rfl
        · simp
        · simp [Round.Passed, Round.move]
        · intro i hne hgo
          exact .inl (by simpa [hne] using hgo)
    next => cases hstep
  | wake j =>
    simp only [step] at hstep
    split at hstep
    next hpc =>
      obtain ⟨m, hwoken, rfl⟩ := Option.map_eq_some_iff.1 hstep
      obtain ⟨-, rfl⟩ := wake_eq hwoken
      -- nothing else in the code keeps this thread from passing before the others have arrived
      have hall := hwake j rfl
      refine h.move ?_ ?_ (h.outside ?_ rfl) (fun _ => hall) fun _ _ _ => .inr hall
      · rw [hpc]
      · simp
      · simp [Pc.critical]
    next => cases hstep
  | resume j =>
    simp only [step] at hstep
    split at hstep
    next hpc =>
      obtain ⟨m, hresume, rfl⟩ := Option.map_eq_some_iff.1 hstep
      obtain ⟨hgo, hfree, rfl⟩ := resume_eq hresume
      refine h.move ?_ ?_ (h.enter hfree rfl) (fun _ => h.passed j (.inr (.inr ⟨hpc, hgo⟩))) fun _ _ hgo => .inl hgo
      · rw [hpc]; rfl
      · simp
    next => cases hstep
  | unlock j =>
    simp only [step] at hstep
    split at hstep
    next hpc =>
      obtain ⟨m, hunlock, rfl⟩ := Option.map_eq_some_iff.1 hstep
      obtain ⟨hheld, rfl⟩ := unlock_eq hunlock
      refine h.move ?_ ?_ (h.leave hheld rfl) (fun _ => h.passed j (.inl hpc)) fun _ _ hgo => .inl hgo
      · rw [hpc]; rfl
      · simp
    next => cases hstep
  | call j =>
    simp only [step] at hstep
    split at hstep
    next c calls hpc =>
      obtain rfl := Option.some.inj hstep
      refine h.move ?_ ?_ (h.outside ?_ rfl) (fun _ => h.passed j (.inr (.inl ⟨_, hpc⟩))) fun _ _ hgo => .inl hgo
      · rw [hpc]; rfl
      · simp
      · simp [Pc.critical]
    next => cases hstep
  | cancel j =>
    simp only [step] at hstep
    split at hstep
    next calls hpc =>
      obtain rfl := Option.some.inj hstep
      apply h.stay
      · rw [hpc]; rfl
      · simp
      · simp [Pc.critical]
      · simp [Round.Passed, move_self]
    next hpc =>
      obtain ⟨m, hlock, rfl⟩ := Option.map_eq_some_iff.1 hstep
      obtain ⟨hfree, rfl⟩ := lock_eq hlock
      refine h.move ?_ ?_ (h.enter hfree rfl) ?_ fun _ _ hgo => .inl hgo
      · rw [hpc]; rfl
      · simp
      · simp [Round.Passed, move_self]
    next calls hpc =>
      obtain rfl := Option.some.inj hstep
      apply h.stay
      · rw [hpc]; rfl
      · simp
      · simp [Pc.critical]
      · simp [Round.Passed, move_self]
    next => cases hstep

/-- As long as no wait ends by itself before all threads have incremented the count, no thread is out
of the section before they have. Whatever becomes of the threads on the way. -/
theorem starts_together {body : Body} {labels : List (Label N_CHAN)} {s : Round N_CHAN}
    (hwake : along (step body) WokenInTime .start labels) (hrun : exec (step body) .start labels = some s) {j : Fin N_CHAN}
    {calls : List Call} (hout : s.pc j = .out calls) (i : Fin N_CHAN) : (s.pc i).counted = true :=
  (exec_inv_along Inv inv_step .start hwake hrun).passed j (.inr (.inl ⟨calls, hout⟩)) i

end Dmacftu.Bench

/-! ## The thread functions -/

namespace Dmacftu.BandDaemon

open Bench

def setup : List Call := [.setaffinity, .getaffinity, .open_, .mb_load]

def start_thread_from_to : Body := ⟨setup, [.clock_gettime, .read]⟩
def start_thread_from : Body := ⟨setup, [.clock_gettime, .write]⟩
def start_thread_to : Body := ⟨setup, [.clock_gettime, .read]⟩

end Dmacftu.BandDaemon

namespace Dmacftu.CacheDaemon

open Bench

def setup : List Call := [.setaffinity, .getaffinity, .open_]

def start_thread_from_to : Body := ⟨setup, [.read]⟩
def start_thread_from : Body := ⟨setup, [.write]⟩
def start_thread_to : Body := ⟨setup, [.read]⟩

end Dmacftu.CacheDaemon

namespace Dmacftu.Bench

/-- What a thread does until it tests the count. -/
def arrive (body : Body) {N_CHAN : Nat} (j : Fin N_CHAN) : List (Label N_CHAN) :=
  .create j :: body.setup.map (fun _ => .setup j true) ++ [.lock j, .load j, .store j, .test j]

/-- Two threads of the Cache benchmark; the second wakes the first. -/
theorem starts_together_sample : ∃ s : Round 2,
    exec (step CacheDaemon.start_thread_from) .start
      (arrive CacheDaemon.start_thread_from 0 ++ arrive CacheDaemon.start_thread_from 1 ++ [.unlock 1, .resume 0, .unlock 0]) = some s ∧
    s.pc 0 = .out [.write] ∧ (s.pc 1).counted = true := by
  have hrun : ((exec (step CacheDaemon.start_thread_from) (Round.start : Round 2)
      (arrive CacheDaemon.start_thread_from 0 ++ arrive CacheDaemon.start_thread_from 1 ++ [.unlock 1, .resume 0, .unlock 0])).map
        fun s => s.pc 0) = some (.out [.write]) := by
    decide
  obtain ⟨s, hs, hpc⟩ := Option.map_eq_some_iff.1 hrun
  have hnone : ∀ j : Fin 2, .wake j ∉ arrive CacheDaemon.start_thread_from 0 ++ arrive CacheDaemon.start_thread_from 1 ++
      [.unlock 1, .resume 0, .unlock 0] := by
    decide
  refine ⟨s, hs, hpc, starts_together (along_of_mem ?_) hs hpc 1⟩
  rintro _ _ hl j rfl
  exact absurd hl (hnone j)

/-- The first of four threads waits, its wait ends by itself, and it takes its start time. The others
have not even been created. -/
theorem starts_alone : ∃ s : Round 4,
    exec (step BandDaemon.start_thread_from_to) .start
      (arrive BandDaemon.start_thread_from_to 0 ++ [.wake 0, .resume 0, .unlock 0, .call 0]) = some s ∧
    s.pc 0 = .out [.read] ∧ (s.pc 1).counted = false := by
  have hrun : ((exec (step BandDaemon.start_thread_from_to) (Round.start : Round 4)
      (arrive BandDaemon.start_thread_from_to 0 ++ [.wake 0, .resume 0, .unlock 0, .call 0])).map
        fun s => (s.pc 0, (s.pc 1).counted)) = some (.out [.read], false) := by
    decide
  obtain ⟨s, hs, heq⟩ := Option.map_eq_some_iff.1 hrun
  exact ⟨s, hs, (Prod.mk.inj heq).1, (Prod.mk.inj heq).2⟩

end Dmacftu.Bench
