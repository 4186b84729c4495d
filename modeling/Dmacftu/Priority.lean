import Dmacftu.Policy
/-!
# The priority schedule

`prio_hrtimer_callback` alternates between suspending and resuming the
channels below `DMA_HIGH_PRIO`. Which of the two a firing does is encoded in
`tick`: it starts at `MAX_QUANTUM`, is reduced at the start of a firing, used as
an index twice and then incremented. `Running` reads it off the number of
firings since the last start.

A `Round` is a state with the firings since the last start; in between, the other
policies may be started and stopped at will.
-/
open Lib.CInt Lib.Runs

namespace Dmacftu.Policy

open Dmaengine

/-- What a firing did: the function it called, the interval it programmed, and
what `hrtimer_forward_now` returned. -/
structure Firing where
  func : PrioFunc
  interval : Int
  ret : Nat
deriving DecidableEq, Repr

/-- A firing is `none` where the source would index past an array or follow a
NULL pointer. -/
def prio_hrtimer_callback (ret : Nat) (s : State) : Option (State × Firing) := do
  let prio := s.prio_timer
  let tick := prio.tick % MAX_QUANTUM
  let func ← prio.prio_func_array[tick]?
  if !prio.list_chan then none
  let suspended ← func.run s.list_chan_prio DMA_HIGH_PRIO s.suspended
  let interval ← prio.quantum[tick]?
  let overruns_2 := if 1 < ret then u64 (prio.overruns_2 + 1) else prio.overruns_2
  return ({ s with suspended, prio_timer := { prio with timer := some interval, tick := u16 (tick + 1), overruns_2 } },
    ⟨func, interval, ret⟩)

structure Round where
  s : State
  high : Int
  low : Int
  firings : List Firing

inductive Event where
  | fire (ret : Nat)
  | call (c : Call)
deriving DecidableEq, Repr

def Round.active (r : Round) : Prop := r.s.prio_timer.timer.isSome

instance (r : Round) : Decidable r.active := inferInstanceAs (Decidable (_ = true))

/-- The timer fires while it is active; the priority policy is started when it is
not running and stopped when it is; the shared policy is never stopped more
often than started. -/
def step (b : Board) (r : Round) : Event → Option Round
  | .fire ret =>
    if r.active then
      (prio_hrtimer_callback ret r.s).map fun (s, f) => { r with s, firings := r.firings ++ [f] }
    else none
  | .call (.start_policy_prio2 high low) =>
    if r.active then none
    else (start_policy_prio2 b high low r.s).map fun (s, ret) =>
      if ret < 0 then { r with s } else { s, high, low, firings := [] }
  | .call .stop_policy_prio =>
    if r.active then (stop_policy_prio b r.s).map fun s => { r with s } else none
  | .call c =>
    if c = .stop_policy_sh ∧ r.s.engine.dmaengine_ref_count ≤ 0 then none
    else (call b r.s c).map fun s => { r with s }

/-- The firings whose forward count exceeded 1. -/
def overruns (firings : List Firing) : Nat := firings.countP (1 < ·.ret)

/-! ## The invariant -/

/-- The state of a running round, after `firings.length` firings. -/
structure Running (r : Round) : Prop where
  list_chan : r.s.prio_timer.list_chan = true
  quantum : r.s.prio_timer.quantum = [ktime_set 0 r.high, ktime_set 0 r.low]
  prio_func_array : r.s.prio_timer.prio_func_array = [.supend_chan_prio, .resume_chan_prio]
  size : r.s.list_chan_prio.size = DMA_MAX_CHAN_PRIO
  priority : ∀ i < DMA_MAX_CHAN_PRIO, r.s.list_chan_prio.priority i = i + DMA_HIGH_PRIO
  tick : r.s.prio_timer.tick % MAX_QUANTUM = r.firings.length % 2
  suspended : ∀ chan, r.s.suspended chan = true ↔
    r.firings.length % 2 = 1 ∧ Lower r.s.list_chan_prio DMA_HIGH_PRIO chan

structure RoundInv (b : Board) (r : Round) : Prop where
  ok : ∃ n, Ok b False n r.s
  tick_le : r.s.prio_timer.tick ≤ MAX_QUANTUM
  overruns_2 : r.s.prio_timer.overruns_2 = overruns r.firings % 2 ^ 64
  func : ∀ k f, r.firings[k]? = some f → (f.func = .supend_chan_prio ↔ k % 2 = 0)
  interval : ∀ f ∈ r.firings, f.interval = ktime_set 0 (if f.func = .supend_chan_prio then r.high else r.low)
  running : r.active → Running r
  idle : ¬ r.active → ∀ chan, r.s.suspended chan = false

variable {b : Board} {r r' : Round}

/-- The function and the interval of a firing are those of the parity of the
firings before it. -/
theorem Running.fire (h : Running r) (hok : ∃ n, Ok b False n r.s) (ret : Nat) :
    ∃ suspended, prio_hrtimer_callback ret r.s = some
      ({ r.s with
          suspended
          prio_timer := { r.s.prio_timer with
            timer := some (ktime_set 0 (if r.firings.length % 2 = 0 then r.high else r.low))
            tick := r.firings.length % 2 + 1
            overruns_2 := if 1 < ret then u64 (r.s.prio_timer.overruns_2 + 1) else r.s.prio_timer.overruns_2 } },
        ⟨if r.firings.length % 2 = 0 then .supend_chan_prio else .resume_chan_prio,
          ktime_set 0 (if r.firings.length % 2 = 0 then r.high else r.low), ret⟩) ∧
      ∀ chan, suspended chan = true ↔
        (r.firings.length + 1) % 2 = 1 ∧ Lower r.s.list_chan_prio DMA_HIGH_PRIO chan := by
  obtain ⟨n, hok⟩ := hok
  have htick := h.tick
  rcases Nat.mod_two_eq_zero_or_one r.firings.length with hk | hk
  · -- an even number of firings: the next one suspends
    obtain ⟨suspended, hrun, hsus⟩ := run_lower .supend_chan_prio DMA_HIGH_PRIO r.s.suspended hok.prio_chan
    refine ⟨suspended, ?_, ?_⟩
    · rw [hk] at htick
      simp [prio_hrtimer_callback, h.list_chan, h.quantum, h.prio_func_array, htick, hrun, hk, u16]
    · intro chan
      have hno : r.s.suspended chan = false := by
        rw [← Bool.not_eq_true, h.suspended chan]
        omega
      by_cases hl : Lower r.s.list_chan_prio DMA_HIGH_PRIO chan
      · simp [(hsus chan).1 hl, hl]
        omega
      · simp [(hsus chan).2 hl, hl, hno]
  · -- an odd number: it resumes
    obtain ⟨suspended, hrun, hsus⟩ := run_lower .resume_chan_prio DMA_HIGH_PRIO r.s.suspended hok.prio_chan
    refine ⟨suspended, ?_, ?_⟩
    · rw [hk] at htick
      simp [prio_hrtimer_callback, h.list_chan, h.quantum, h.prio_func_array, htick, hrun, hk, u16]
    · intro chan
      have hodd : ¬ (r.firings.length + 1) % 2 = 1 := by omega
      by_cases hl : Lower r.s.list_chan_prio DMA_HIGH_PRIO chan
      · simp [(hsus chan).1 hl, hodd]
      · have := h.suspended chan
        simp [(hsus chan).2 hl, hl, this]

theorem overruns_append (firings : List Firing) (f : Firing) :
    overruns (firings ++ [f]) = overruns firings + if 1 < f.ret then 1 else 0 := by
  by_cases h : 1 < f.ret <;> simp [overruns, h]

/-- A firing of an active timer always completes. -/
theorem fire_inv (h : RoundInv b r) (ha : r.active) (ret : Nat) :
    ∃ r', step b r (.fire ret) = some r' ∧ RoundInv b r' ∧ r'.active ∧
      r'.firings.map Firing.ret = r.firings.map Firing.ret ++ [ret] := by
  have hrun := h.running ha
  obtain ⟨suspended, hcb, hsus⟩ := hrun.fire h.ok ret
  have hk := Nat.mod_two_eq_zero_or_one r.firings.length
  refine ⟨_, by rw [step, if_pos ha, hcb]; rfl, ⟨?_, ?_, ?_, ?_, ?_, ?_, ?_⟩, ?_, ?_⟩
  · obtain ⟨n, hok⟩ := h.ok
    exact ⟨n, hok.owns, hok.use_chan, hok.prio_chan⟩
  · show r.firings.length % 2 + 1 ≤ MAX_QUANTUM
    unfold MAX_QUANTUM
    omega
  · -- the one place where the sum of the overruns is kept modulo 2^64
    have hov := h.overruns_2
    simp only [overruns_append]
    split
    · simp only [u64, hov]
      omega
    · simpa using hov
  · intro k f hf
    rw [List.getElem?_append] at hf
    split at hf
    · exact h.func k f hf
    next hge =>
      obtain ⟨hlt, hf⟩ := List.getElem?_eq_some_iff.1 hf
      rw [List.length_singleton] at hlt
      have hkl : k = r.firings.length := by omega
      simp only [hkl, Nat.sub_self, List.getElem_cons_zero] at hf
      rw [← hf, hkl]
      rcases hk with hk | hk <;> simp [hk]
  · intro f hf
    rcases List.mem_append.1 hf with hf | hf
    · exact h.interval f hf
    · rw [List.mem_singleton.1 hf]
      rcases hk with hk | hk <;> simp [hk]
  · intro _
    refine ⟨hrun.list_chan, hrun.quantum, hrun.prio_func_array, hrun.size, hrun.priority, ?_, ?_⟩
    · simp only [List.length_append, List.length_singleton, MAX_QUANTUM]
      omega
    · simpa using hsus
  · intro hidle
    exact absurd rfl hidle
  · exact rfl
  · simp

/-- `start_policy_prio2` of a round that is not running. -/
theorem start_inv (h : RoundInv b r) (ha : ¬ r.active) (high low : Int) :
    ∃ r', step b r (.call (.start_policy_prio2 high low)) = some r' ∧ RoundInv b r' := by
  obtain ⟨n, hok⟩ := h.ok
  obtain ⟨⟨s', ret⟩, hr, hok', hsus, hret⟩ := start_policy_prio2_ok hok high low
  refine ⟨_, by rw [step, if_neg ha, hr]; rfl, ?_⟩
  simp only at hsus hret hok' ⊢
  rcases hret with ⟨rfl, htimer⟩ | ⟨rfl, hsize, hprio, htimer⟩
  · -- the start failed: the timer is as it was
    rw [if_pos (by decide)]
    refine ⟨⟨n, hok'⟩, ?_, ?_, h.func, h.interval, ?_, ?_⟩
    · simpa only [htimer] using h.tick_le
    · simpa only [htimer] using h.overruns_2
    · intro hact
      exact absurd (by simpa only [Round.active, htimer] using hact) ha
    · intro _ chan
      simpa only [hsus] using h.idle ha chan
  · rw [if_neg (by decide)]
    refine ⟨⟨n, hok'⟩, ?_, ?_, by simp, by simp, ?_, ?_⟩
    · simp [htimer, prioTimer2, u16, MAX_QUANTUM]
    · simp [htimer, prioTimer2, overruns]
    · intro _
      refine ⟨by simp [htimer, prioTimer2], by simp [htimer, prioTimer2], by simp [htimer, prioTimer2],
        hsize, hprio, by simp [htimer, prioTimer2, u16, MAX_QUANTUM], ?_⟩
      intro chan
      simp [hsus, h.idle ha chan]
    · intro hidle
      exact absurd (by simp [Round.active, htimer, prioTimer2]) hidle

/-- `stop_policy_prio` in either phase. -/
theorem stop_inv (h : RoundInv b r) (ha : r.active) :
    ∃ r', step b r (.call .stop_policy_prio) = some r' ∧ RoundInv b r' ∧ ¬ r'.active := by
  obtain ⟨n, hok⟩ := h.ok
  obtain ⟨s', hs', hok', htimer, hsus⟩ := stop_policy_prio_ok hok
  have hoff : ¬ Round.active { r with s := s' } := by simp [Round.active, htimer]
  refine ⟨_, by rw [step, if_pos ha, hs']; rfl, ?_, hoff⟩
  refine ⟨⟨n, hok'⟩, ?_, ?_, h.func, h.interval, fun hact => absurd hact hoff, ?_⟩
  · simp [htimer]
  · simpa only [htimer] using h.overruns_2
  · intro _ chan
    by_cases hl : Lower r.s.list_chan_prio DMA_HIGH_PRIO chan
    · exact (hsus chan).1 hl
    · have := (h.running ha).suspended chan
      simp only [(hsus chan).2 hl]
      rw [← Bool.not_eq_true, this]
      exact fun hc => hl hc.2

/-- A call of another policy. -/
theorem other_inv (h : RoundInv b r) {c : Call} (hc : c = .stop_policy_sh → 0 < r.s.engine.dmaengine_ref_count)
    (hp : c.isPrio = false) {s' : State} (hs : call b r.s c = some s') : RoundInv b { r with s := s' } := by
  obtain ⟨n, hok⟩ := h.ok
  have hn : r.s.engine.dmaengine_ref_count = n := by
    obtain ⟨held, howns⟩ := hok.owns
    exact (Prod.mk.inj howns.refs_eq).1
  obtain ⟨s₁, hs₁, hok', hlist, htimer, hsus⟩ := other_call_ok hok (fun h => hn ▸ hc h) False.elim hp
  obtain rfl : s₁ = s' := Option.some.inj (hs₁.symm.trans hs)
  have hactive : Round.active { r with s := s₁ } ↔ r.active := by simp [Round.active, htimer]
  refine ⟨⟨_, hok'⟩, ?_, ?_, h.func, h.interval, ?_, ?_⟩
  · simpa only [htimer] using h.tick_le
  · simpa only [htimer] using h.overruns_2
  · intro ha
    have hrun := h.running (hactive.1 ha)
    refine ⟨?_, ?_, ?_, ?_, ?_, ?_, ?_⟩
    · simpa only [htimer] using hrun.list_chan
    · simpa only [htimer] using hrun.quantum
    · simpa only [htimer] using hrun.prio_func_array
    · simpa only [hlist] using hrun.size
    · simpa only [hlist] using hrun.priority
    · simpa only [htimer] using hrun.tick
    · simpa only [hlist, hsus] using hrun.suspended
  · intro ha
    simpa only [hsus] using h.idle (fun h => ha (hactive.2 h))

theorem step_other {c : Call} (hp : c.isPrio = false) : step b r (.call c) =
    if c = .stop_policy_sh ∧ r.s.engine.dmaengine_ref_count ≤ 0 then none
    else (call b r.s c).map fun s => { r with s } := by
  cases c with
  | start_policy_prio2 high low => cases hp
  | stop_policy_prio => cases hp
  | _ => rfl

theorem step_inv (h : RoundInv b r) {e : Event} (hs : step b r e = some r') : RoundInv b r' := by
  cases e with
  | fire ret =>
    by_cases ha : r.active
    · obtain ⟨r₁, h₁, hinv, -⟩ := fire_inv h ha ret
      exact Option.some.inj (h₁.symm.trans hs) ▸ hinv
    · rw [step, if_neg ha] at hs
      cases hs
  | call c =>
    cases hp : c.isPrio with
    | true =>
      cases c with
      | start_policy_prio2 high low =>
        by_cases ha : r.active
        · rw [step, if_pos ha] at hs
          cases hs
        · obtain ⟨r₁, h₁, hinv⟩ := start_inv h ha high low
          exact Option.some.inj (h₁.symm.trans hs) ▸ hinv
      | stop_policy_prio =>
        by_cases ha : r.active
        · obtain ⟨r₁, h₁, hinv, -⟩ := stop_inv h ha
          exact Option.some.inj (h₁.symm.trans hs) ▸ hinv
        · rw [step, if_neg ha] at hs
          cases hs
      | _ => cases hp
    | false =>
      rw [step_other hp] at hs
      split at hs
      · cases hs
      next hguard =>
        obtain ⟨s', hs', rfl⟩ := Option.map_eq_some_iff.1 hs
        refine other_inv h ?_ hp hs'
        intro hc
        by_contra hr
        exact hguard ⟨hc, by omega⟩

/-! ## The schedule -/

/-- No policy is started and no channel suspended. -/
structure Fresh (b : Board) (r : Round) : Prop where
  no_policy : NoPolicy b r.s
  timer : r.s.prio_timer.timer = none
  tick : r.s.prio_timer.tick = 0
  overruns_2 : r.s.prio_timer.overruns_2 = 0
  suspended : ∀ chan, r.s.suspended chan = false
  firings : r.firings = []

theorem Fresh.inv (h : Fresh b r) : RoundInv b r := by
  have hoff : ¬ r.active := by simp [Round.active, h.timer]
  refine ⟨⟨0, h.no_policy.ok⟩, ?_, ?_, ?_, ?_, fun ha => absurd ha hoff, fun _ => h.suspended⟩
  · simp [h.tick]
  · simp [h.overruns_2, h.firings, overruns]
  · simp [h.firings]
  · simp [h.firings]

/-- The channel of the highest priority is in no other place of the list. -/
theorem high_not_lower {n : Int} {s : State} (h : Ok b False n s) {i : Nat}
    (hi : s.list_chan_prio.priority i = DMA_HIGH_PRIO) {chan : Chan}
    (hchan : s.list_chan_prio.chan_prio i = some chan) : ¬ Lower s.list_chan_prio DMA_HIGH_PRIO chan := by
  rintro ⟨j, -, hj, hchan'⟩
  obtain ⟨held, howns⟩ := h.owns
  have hij : i = j := Slot.prio.inj (howns.inj (.prio i) (.prio j) chan hchan hchan')
  rw [← hij, hi] at hj
  exact Nat.lt_irrefl _ hj

/-- What the schedule promises of a round, `overruns_2` counting modulo `2 ^ 64`. -/
structure Schedule (b : Board) (r : Round) : Prop where
  /-- The list of a running round has one channel per priority. -/
  channels : r.active → r.s.list_chan_prio.size = DMA_MAX_CHAN_PRIO ∧
    ∀ i < DMA_MAX_CHAN_PRIO, r.s.list_chan_prio.priority i = i + DMA_HIGH_PRIO
  suspended : r.active → ∀ chan, r.s.suspended chan = true ↔
    r.firings.length % 2 = 1 ∧ Lower r.s.list_chan_prio DMA_HIGH_PRIO chan
  high : ∀ i chan, r.s.list_chan_prio.priority i = DMA_HIGH_PRIO → r.s.list_chan_prio.chan_prio i = some chan →
    r.s.suspended chan = false
  func : ∀ k f, r.firings[k]? = some f → (f.func = .supend_chan_prio ↔ k % 2 = 0)
  interval : ∀ f ∈ r.firings, f.interval = ktime_set 0 (if f.func = .supend_chan_prio then r.high else r.low)
  tick_le : r.s.prio_timer.tick ≤ MAX_QUANTUM
  in_range : r.active → r.s.prio_timer.tick % MAX_QUANTUM < r.s.prio_timer.quantum.length ∧
    r.s.prio_timer.tick % MAX_QUANTUM < r.s.prio_timer.prio_func_array.length
  /-- The next firing completes. -/
  fires : r.active → ∀ ret, ∃ r', step b r (.fire ret) = some r'
  overruns_2 : r.s.prio_timer.overruns_2 = overruns r.firings % 2 ^ 64
  stopped : ¬ r.active → ∀ chan, r.s.suspended chan = false

theorem RoundInv.schedule (h : RoundInv b r) : Schedule b r := by
  refine ⟨?_, ?_, ?_, h.func, h.interval, h.tick_le, ?_, ?_, h.overruns_2, h.idle⟩
  · intro ha
    exact ⟨(h.running ha).size, (h.running ha).priority⟩
  · intro ha
    exact (h.running ha).suspended
  · intro i chan hi hchan
    by_cases ha : r.active
    · obtain ⟨n, hok⟩ := h.ok
      rw [← Bool.not_eq_true, (h.running ha).suspended chan]
      exact fun hs => high_not_lower hok hi hchan hs.2
    · exact h.idle ha chan
  · intro ha
    have hlt : r.s.prio_timer.tick % MAX_QUANTUM < 2 := Nat.mod_lt _ (by decide)
    rw [(h.running ha).quantum, (h.running ha).prio_func_array]
    exact ⟨hlt, hlt⟩
  · intro ha ret
    obtain ⟨r', hr', -⟩ := fire_inv h ha ret
    exact ⟨r', hr'⟩

/-- In every run of rounds, with the other policies started and stopped in
between. -/
theorem schedule_holds (b : Board) (r₀ r : Round) (events : List Event) (h₀ : Fresh b r₀)
    (h : exec (step b) r₀ events = some r) : Schedule b r :=
  (exec_inv (RoundInv b) (fun _ _ _ hi hs => step_inv hi hs) h₀.inv h).schedule

def sampleRound : Round := ⟨sampleState, 0, 0, []⟩

theorem sample_fresh : Fresh sampleBoard sampleRound :=
  ⟨sample_no_policy, rfl, rfl, rfl, fun _ => rfl, rfl⟩

/-- A round stopped in its suspended phase, and the first firing of the next one. -/
def sampleEvents : List Event :=
  [.call (.start_policy_prio2 700 300), .fire 1, .fire 2, .fire 1, .call .stop_policy_prio,
    .call (.start_policy_prio2 900 100), .fire 3]

theorem schedule_holds_sample :
    ∃ r, exec (step sampleBoard) sampleRound sampleEvents = some r ∧
      r.firings = [⟨.supend_chan_prio, 900, 3⟩] ∧ [0, 1, 2, 3].map r.s.suspended = [false, true, true, true] ∧
      Schedule sampleBoard r := by
  have hsome : (exec (step sampleBoard) sampleRound sampleEvents).isSome = true := by decide
  refine ⟨(exec (step sampleBoard) sampleRound sampleEvents).get hsome, (Option.some_get hsome).symm, ?_, ?_, ?_⟩
  · rfl
  · rfl
  · exact schedule_holds sampleBoard sampleRound _ sampleEvents sample_fresh (Option.some_get hsome).symm

/-- Any number of firings of an active timer. -/
theorem fires_inv (ret : Nat) : ∀ {k : Nat} {r : Round}, RoundInv b r → r.active →
    ∃ r', exec (step b) r (List.replicate k (.fire ret)) = some r' ∧ RoundInv b r' ∧ r'.active ∧
      r'.firings.map Firing.ret = r.firings.map Firing.ret ++ List.replicate k ret := by
  intro k
  induction k with
  | zero =>
    intro r h ha
    exact ⟨r, rfl, h, ha, by simp⟩
  | succ k ih =>
    intro r h ha
    obtain ⟨r₁, hs₁, h₁, ha₁, hret₁⟩ := fire_inv h ha ret
    obtain ⟨r₂, hs₂, h₂, ha₂, hret₂⟩ := ih h₁ ha₁
    refine ⟨r₂, exec_cons.2 ⟨r₁, hs₁, hs₂⟩, h₂, ha₂, ?_⟩
    rw [hret₂, hret₁, List.replicate_succ, List.append_assoc, List.singleton_append]

theorem overruns_map (firings : List Firing) : overruns firings = (firings.map Firing.ret).countP (1 < ·) := by
  rw [List.countP_map]
  rfl

/-- `k` firings, each a period late, after a start. -/
theorem late_firings (k : Nat) :
    ∃ r, exec (step sampleBoard) sampleRound
        (.call (.start_policy_prio2 700 300) :: List.replicate k (.fire 2)) = some r ∧
      r.active ∧ overruns r.firings = k ∧ r.s.prio_timer.overruns_2 = k % 2 ^ 64 := by
  obtain ⟨r₁, hs₁, h₁⟩ := start_inv sample_fresh.inv (by decide) 700 300
  have hstart : (step sampleBoard sampleRound (.call (.start_policy_prio2 700 300))).map
      (fun r => (decide r.active, r.firings)) = some (true, []) := by decide
  rw [hs₁, Option.map_some, Option.some.injEq, Prod.mk.injEq] at hstart
  obtain ⟨r, hs, h, ha, hret⟩ := fires_inv 2 h₁ (of_decide_eq_true hstart.1)
  rw [hstart.2, List.map_nil, List.nil_append] at hret
  have hk : overruns r.firings = k := by
    rw [overruns_map, hret, List.countP_replicate]
    rfl
  exact ⟨r, exec_cons.2 ⟨r₁, hs₁, hs⟩, ha, hk, hk ▸ h.overruns_2⟩

/-- `overruns_2` is an `unsigned long`. -/
theorem overruns_2_wraps :
    ∃ r, exec (step sampleBoard) sampleRound
        (.call (.start_policy_prio2 700 300) :: List.replicate (2 ^ 64) (.fire 2)) = some r ∧
      r.active ∧ r.s.prio_timer.overruns_2 ≠ overruns r.firings := by
  obtain ⟨r, hs, ha, hk, hov⟩ := late_firings (2 ^ 64)
  refine ⟨r, hs, ha, ?_⟩
  rw [hk, hov, Nat.mod_self]
  decide

end Dmacftu.Policy
