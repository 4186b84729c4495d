import Dmacftu.DmaengineInv
import Dmacftu.Lib.CInt
import Dmacftu.Lib.Loop
import Dmacftu.Lib.Runs
/-!
# The copy policies

`drivers/dma/dma_policy_ex_sh.c` and `drivers/dma/dma_policy_prio.c`: the
shared policy is a public client of the DMA engine, the exclusive policy keeps
one private channel per present CPU, the priority policy four of them whose
suspension a timer alternates. The policies are started and stopped
independently, and a start over a running policy forgets the channels it had.

A call is `none` where the source would follow a NULL channel; the results
below say that none of them does. `Owns` says who has which channel: the slots
of the two private policies hold distinct channels, all of them handed out by
`dma_request_channel`.

`policies_exclusive` takes an `int`'s worth of outstanding starts of the shared
policy; `shared_channel_taken` is what comes of more.
-/
open Lib.CInt Lib.Runs

namespace Dmacftu.Policy

open Dmaengine Dmaengine.TxType

def DMA_HIGH_PRIO : Nat := 0
def DMA_LOW_PRIO : Nat := 128
def DMA_MAX_CHAN_PRIO : Nat := 4
def MAX_QUANTUM : Nat := 2

/-- `struct dma_chan_copy`. -/
structure ChanCopy where
  chan : Option Chan
  use : Int

/-- `struct list_dma_chan_prio`. -/
structure ListDmaChanPrio where
  chan_prio : Nat → Option Chan
  priority : Nat → Nat
  size : Nat

/-- The functions of `prio_func_array`. -/
inductive PrioFunc where
  | supend_chan_prio
  | resume_chan_prio
deriving DecidableEq, Repr

/-- `struct priority_timer`. `list_chan` says whether the pointer is set, `timer`
is the interval the timer is programmed with, if it is active; the arrays are
empty until the first start. -/
structure PriorityTimer where
  list_chan : Bool
  timer : Option Int
  tick : Nat
  overruns_2 : Nat
  quantum : List Int
  prio_func_array : List PrioFunc

structure State where
  engine : Dmaengine.State
  percpu_chan_copy : Cpu → ChanCopy
  list_chan_prio : ListDmaChanPrio
  prio_timer : PriorityTimer
  /-- The channels whose last `CHANCMD` was a suspend. -/
  suspended : Chan → Bool

variable (b : Board)

/-! ## Shared channels -/

def start_policy_sh (s : State) : State := { s with engine := copy_dmaengine_get b s.engine }

def stop_policy_sh (s : State) : State := { s with engine := copy_dmaengine_put b s.engine }

/-! ## Exclusive channels -/

def setCpu (s : State) (i : Cpu) (cpu_chan : ChanCopy) : State :=
  { s with percpu_chan_copy := Function.update s.percpu_chan_copy i cpu_chan }

def releaseCpu (s : State) (i : Cpu) : Option State :=
  if (s.percpu_chan_copy i).use = 1 then
    (s.percpu_chan_copy i).chan.map fun chan =>
      setCpu { s with engine := dma_release_channel b s.engine chan } i ⟨none, 0⟩
  else some s

def release_dma_chan_excl (s : State) : Option State := b.present.foldlM (releaseCpu b) s

def init_dma_chan_excl (s : State) : State :=
  { s with percpu_chan_copy := fun i => if i ∈ b.present then ⟨none, 0⟩ else s.percpu_chan_copy i }

/-- `dma_request_channel(mask, NULL, NULL)` of both private policies. -/
def requestMemcpy (s : Dmaengine.State) : Dmaengine.State × Option Chan :=
  dma_request_channel b [DMA_MEMCPY] none s

def completeExcl : List Cpu → State → Option (State × Int)
  | [], s => some (s, 0)
  | i :: is, s =>
    let (engine, chan) := requestMemcpy b s.engine
    let s := { s with engine }
    match chan with
    | some chan => completeExcl is (setCpu s i ⟨some chan, 1⟩)
    | none => (release_dma_chan_excl b s).map (·, -1)

def complete_dma_chan_excl (s : State) : Option (State × Int) := completeExcl b b.present s

def start_policy_excl (s : State) : Option (State × Int) := complete_dma_chan_excl b (init_dma_chan_excl b s)

def stop_policy_excl (s : State) : Option State := release_dma_chan_excl b s

/-! ## Priority channels -/

def setPrio (s : State) (i : Nat) (chan : Option Chan) : State :=
  { s with list_chan_prio :=
    { s.list_chan_prio with chan_prio := Function.update s.list_chan_prio.chan_prio i chan } }

def setSize (s : State) (size : Nat) : State :=
  { s with list_chan_prio := { s.list_chan_prio with size } }

def releasePrio (s : State) (i : Nat) : Option State :=
  (s.list_chan_prio.chan_prio i).map fun chan =>
    setPrio { s with engine := dma_release_channel b s.engine chan } i none

def release_dma_chan_prio (s : State) : Option State :=
  ((List.range s.list_chan_prio.size).foldlM (releasePrio b) s).map (setSize · 0)

def init_dma_chan_prio (s : State) : State :=
  { s with list_chan_prio :=
    { chan_prio := fun i => if i < DMA_MAX_CHAN_PRIO then none else s.list_chan_prio.chan_prio i
      priority := fun i => if i < DMA_MAX_CHAN_PRIO then DMA_LOW_PRIO else s.list_chan_prio.priority i
      size := 0 } }

def completePrio : List Nat → State → Option (State × Int)
  | [], s => some (s, 0)
  | i :: is, s =>
    let (engine, chan) := requestMemcpy b s.engine
    let s := setPrio { s with engine } i chan
    if chan.isSome then completePrio is (setSize s (u16 (s.list_chan_prio.size + 1)))
    else (release_dma_chan_prio b s).map (·, -1)

def complete_dma_chan_prio (s : State) : Option (State × Int) := completePrio b (List.range DMA_MAX_CHAN_PRIO) s

/-- `ktime_set`: a count of nanoseconds. -/
def ktime_set (secs nsecs : Int) : Int := secs * 1000000000 + nsecs

/-- Priorities from `DMA_HIGH_PRIO` on, in the order of the list. -/
def setPriorities (s : State) : State :=
  { s with list_chan_prio := { s.list_chan_prio with
    priority := fun i =>
      if i < s.list_chan_prio.size then u16 (i + DMA_HIGH_PRIO) else s.list_chan_prio.priority i } }

/-- The timer as `start_policy_prio2` sets it up. -/
def prioTimer2 (nanosecs_high nanosecs_low : Int) : PriorityTimer where
  list_chan := true
  timer := some (ktime_set 0 nanosecs_high)
  tick := u16 MAX_QUANTUM
  overruns_2 := 0
  quantum := [ktime_set 0 nanosecs_high, ktime_set 0 nanosecs_low]
  prio_func_array := [.supend_chan_prio, .resume_chan_prio]

def start_policy_prio2 (nanosecs_high nanosecs_low : Int) (s : State) : Option (State × Int) :=
  (complete_dma_chan_prio b (init_dma_chan_prio s)).map fun (s, ret) =>
    if ret < 0 then (s, -1)
    else ({ setPriorities s with prio_timer := prioTimer2 nanosecs_high nanosecs_low }, s.list_chan_prio.size)

/-- The body of `supend_chan_prio` and `resume_chan_prio`: write the command to
channel `i` if its priority is lower than `priority`. -/
def PrioFunc.command (f : PrioFunc) (list_prio : ListDmaChanPrio) (priority : Nat) (suspended : Chan → Bool)
    (i : Nat) : Option (Chan → Bool) :=
  if priority < list_prio.priority i then
    (list_prio.chan_prio i).map fun chan => Function.update suspended chan (decide (f = .supend_chan_prio))
  else some suspended

def PrioFunc.run (f : PrioFunc) (list_prio : ListDmaChanPrio) (priority : Nat) (suspended : Chan → Bool) :
    Option (Chan → Bool) :=
  (List.range list_prio.size).foldlM (f.command list_prio priority) suspended

def stop_policy_prio (s : State) : Option State := do
  let suspended ← PrioFunc.resume_chan_prio.run s.list_chan_prio DMA_HIGH_PRIO s.suspended
  release_dma_chan_prio b { s with
    suspended
    prio_timer := { s.prio_timer with timer := none, list_chan := false, tick := 0 } }

/-! ## Lookups -/

def copy_dma_get_channel_excl (s : State) (cpu : Cpu) : Option Chan :=
  alignedChan b (s.percpu_chan_copy cpu).chan

def copy_dma_get_channel_prio (s : State) (priority : Nat) : Option Chan :=
  alignedChan b (((List.range s.list_chan_prio.size).find? (s.list_chan_prio.priority · = priority)).bind
    s.list_chan_prio.chan_prio)

/-! ## Who owns which channel -/

/-- The places where the private policies keep a channel. -/
inductive Slot where
  | percpu (i : Cpu)
  | prio (i : Nat)
deriving DecidableEq

def State.slot (s : State) : Slot → Option Chan
  | .percpu i => (s.percpu_chan_copy i).chan
  | .prio i => s.list_chan_prio.chan_prio i

/-- The slots hold distinct channels, each of them handed out privately, and the
shared policy, started `n` times, is the only public client; `few` says that it
was never started more often than an `int` counts. -/
structure Owns (b : Board) (few : Prop) (n : Int) (held : List Chan) (slot : Slot → Option Chan)
    (engine : Dmaengine.State) : Prop where
  priv : Private b held engine
  inv : few → Inv b held engine
  refs_eq : refs engine = (n, n)
  inj : ∀ i j chan, slot i = some chan → slot j = some chan → i = j
  held_of_slot : ∀ i chan, slot i = some chan → chan ∈ held

variable {b} {few : Prop} {n : Int} {slot : Slot → Option Chan} {held : List Chan} {engine : Dmaengine.State}

/-- Slots may be emptied without a release: their channels stay handed out. -/
theorem Owns.forget (h : Owns b few n held slot engine) {slot' : Slot → Option Chan}
    (hs : ∀ i, slot' i = none ∨ slot' i = slot i) : Owns b few n held slot' engine := by
  have hsub : ∀ i chan, slot' i = some chan → slot i = some chan := by
    intro i chan hi
    rcases hs i with h' | h'
    · simp [h'] at hi
    · exact h' ▸ hi
  refine ⟨h.priv, h.inv, h.refs_eq, ?_, ?_⟩
  · intro i j chan hi hj
    exact h.inj i j chan (hsub i chan hi) (hsub j chan hj)
  · intro i chan hi
    exact h.held_of_slot i chan (hsub i chan hi)

theorem Owns.release (h : Owns b few n held slot engine) {i : Slot} {chan : Chan} (hi : slot i = some chan) :
    Owns b few n (held.erase chan) (Function.update slot i none) (dma_release_channel b engine chan) := by
  have hheld := h.held_of_slot i chan hi
  have hforget : Owns b few n held (Function.update slot i none) engine := by
    apply h.forget
    intro j
    by_cases hj : j = i <;> simp [hj]
  rw [dma_release_channel_eq h.priv hheld]
  refine ⟨h.priv.release hheld, fun hf => (h.inv hf).release hheld, h.refs_eq, hforget.inj, ?_⟩
  intro j c hj
  -- the channel of another slot is not the released one
  have hji : j ≠ i := by rintro rfl; simp at hj
  have hne : c ≠ chan := by
    rintro rfl
    rw [Function.update_of_ne hji] at hj
    exact hji (h.inj j i c hj hi)
  exact (List.mem_erase_of_ne hne).2 (hforget.held_of_slot j c hj)

theorem Owns.request_failed (h : Owns b few n held slot engine) {engine' : Dmaengine.State}
    (hr : requestMemcpy b engine = (engine', none)) : Owns b few n held slot engine' := by
  obtain ⟨hpriv, hrefs⟩ := dma_request_channel_private [DMA_MEMCPY] none h.priv
  have hinv := fun hf => dma_request_channel_inv [DMA_MEMCPY] none (h.inv hf)
  rw [requestMemcpy] at hr
  rw [hr] at hpriv hrefs hinv
  exact ⟨hpriv, hinv, hrefs.trans h.refs_eq, h.inj, h.held_of_slot⟩

theorem Owns.request (h : Owns b few n held slot engine) {engine' : Dmaengine.State} {chan : Chan}
    (hr : requestMemcpy b engine = (engine', some chan)) (i : Slot) :
    Owns b few n (chan :: held) (Function.update slot i (some chan)) engine' := by
  obtain ⟨hpriv, hrefs⟩ := dma_request_channel_private [DMA_MEMCPY] none h.priv
  have hinv := fun hf => dma_request_channel_inv [DMA_MEMCPY] none (h.inv hf)
  rw [requestMemcpy] at hr
  rw [hr] at hpriv hrefs hinv
  -- the new channel is in no slot yet
  have hnew : ∀ j, slot j ≠ some chan := fun j hj =>
    (List.nodup_cons.1 hpriv.held_nodup).1 (h.held_of_slot j chan hj)
  refine ⟨hpriv, hinv, hrefs.trans h.refs_eq, ?_, ?_⟩
  · intro j k c hj hk
    by_cases hji : j = i
    · by_cases hki : k = i
      · rw [hji, hki]
      · subst hji
        simp only [Function.update_self, Option.some.injEq] at hj
        rw [Function.update_of_ne hki] at hk
        exact absurd (hj ▸ hk) (hnew k)
    · rw [Function.update_of_ne hji] at hj
      by_cases hki : k = i
      · subst hki
        simp only [Function.update_self, Option.some.injEq] at hk
        exact absurd (hk ▸ hj) (hnew j)
      · rw [Function.update_of_ne hki] at hk
        exact h.inj j k c hj hk
  · intro j c hj
    by_cases hji : j = i
    · subst hji
      simp only [Function.update_self, Option.some.injEq] at hj
      simp [hj]
    · rw [Function.update_of_ne hji] at hj
      simp [h.held_of_slot j c hj]

theorem Owns.get (h : Owns b few n held slot engine) (hlt : few → n + 1 < 2 ^ 31) :
    Owns b few (n + 1) held slot (copy_dmaengine_get b engine) := by
  obtain ⟨href, hcopy⟩ := Prod.mk.inj (dmaengine_get_refs b engine)
  obtain ⟨h1, h2⟩ := Prod.mk.inj h.refs_eq
  refine ⟨{ h.priv.get with }, fun hf => ?_, ?_, h.inj, h.held_of_slot⟩
  · exact { dmaengine_get_inv (h.inv hf) (h1 ▸ hlt hf) with }
  · simp [refs, copy_dmaengine_get, href, hcopy, h1, h2]

theorem Owns.put (h : Owns b few n held slot engine) (hn : 0 < n) :
    Owns b few (n - 1) held slot (copy_dmaengine_put b engine) := by
  obtain ⟨href, hcopy⟩ := Prod.mk.inj (dmaengine_put_refs b engine)
  obtain ⟨h1, h2⟩ := Prod.mk.inj h.refs_eq
  refine ⟨{ h.priv.put with }, fun hf => ?_, ?_, h.inj, h.held_of_slot⟩
  · exact { dmaengine_put_inv (h.inv hf) (h1 ▸ hn) with }
  · simp [refs, copy_dmaengine_put, href, hcopy, h1, h2]

/-- The shared lookup never finds a channel of a slot. -/
theorem Owns.not_shared (h : Owns b few n held slot engine) (hf : few) {i : Slot} {chan : Chan} (hi : slot i = some chan)
    {cpu : Cpu} (hcpu : cpu ∈ b.possible) : copy_dma_get_channel_sh b engine cpu ≠ some chan := by
  intro hsh
  simp only [copy_dma_get_channel_sh, alignedChan, Option.filter_eq_some_iff] at hsh
  obtain ⟨hfind, -⟩ := hsh
  split at hfind
  next hcopy =>
    obtain ⟨h1, h2⟩ := Prod.mk.inj h.refs_eq
    have hr : 0 < engine.dmaengine_ref_count := by omega
    exact ((h.inv hf).table hr DMA_MEMCPY (by decide) cpu hcpu chan hfind).2 (h.held_of_slot i chan hi)
  next => cases hfind

/-! ## The loops of the private policies -/

/-- What holds between calls, with the shared policy started `n` times: the
loops find no NULL where they release. -/
structure Ok (b : Board) (few : Prop) (n : Int) (s : State) : Prop where
  owns : ∃ held, Owns b few n held s.slot s.engine
  use_chan : ∀ i, (s.percpu_chan_copy i).use = 1 → (s.percpu_chan_copy i).chan.isSome
  prio_chan : ∀ i < s.list_chan_prio.size, (s.list_chan_prio.chan_prio i).isSome

/-- What the calls of the other policies leave alone. -/
def SamePrio (s s' : State) : Prop :=
  s'.list_chan_prio = s.list_chan_prio ∧ s'.prio_timer = s.prio_timer ∧ s'.suspended = s.suspended

theorem SamePrio.trans {s s' s'' : State} (h : SamePrio s s') (h' : SamePrio s' s'') : SamePrio s s'' :=
  ⟨h'.1.trans h.1, h'.2.1.trans h.2.1, h'.2.2.trans h.2.2⟩

theorem slot_setCpu (s : State) (i : Cpu) (cpu_chan : ChanCopy) :
    (setCpu s i cpu_chan).slot = Function.update s.slot (.percpu i) cpu_chan.chan := by
  funext j
  cases j with
  | percpu j => by_cases h : j = i <;> simp [State.slot, setCpu, h]
  | prio j => simp [State.slot, setCpu]

theorem slot_setPrio (s : State) (i : Nat) (chan : Option Chan) :
    (setPrio s i chan).slot = Function.update s.slot (.prio i) chan := by
  funext j
  cases j with
  | percpu j => simp [State.slot, setPrio]
  | prio j => by_cases h : j = i <;> simp [State.slot, setPrio, h]

/-- Setting a CPU's slot to what a request gave or a release left. -/
theorem Ok.setCpu {s : State} (h : Ok b few n s) {i : Cpu} {cpu_chan : ChanCopy} {engine : Dmaengine.State}
    (howns : ∃ held, Owns b few n held (Function.update s.slot (.percpu i) cpu_chan.chan) engine)
    (huse : cpu_chan.use = 1 → cpu_chan.chan.isSome) : Ok b few n (setCpu { s with engine } i cpu_chan) where
  owns := by
    obtain ⟨held, howns⟩ := howns
    exact ⟨held, by rw [slot_setCpu]; exact howns⟩
  use_chan j hj := by
    by_cases hji : j = i
    · subst hji
      simpa [Policy.setCpu] using huse (by simpa [Policy.setCpu] using hj)
    · simpa [Policy.setCpu, hji] using h.use_chan j (by simpa [Policy.setCpu, hji] using hj)
  prio_chan := h.prio_chan

theorem releaseCpu_ok {s : State} (h : Ok b few n s) (i : Cpu) :
    ∃ s', releaseCpu b s i = some s' ∧ Ok b few n s' ∧ SamePrio s s' := by
  unfold releaseCpu
  split
  next huse =>
    obtain ⟨chan, hchan⟩ := Option.isSome_iff_exists.1 (h.use_chan i huse)
    obtain ⟨held, howns⟩ := h.owns
    rw [hchan]
    exact ⟨_, rfl, h.setCpu ⟨_, howns.release (i := .percpu i) hchan⟩ (by simp), rfl, rfl, rfl⟩
  next => exact ⟨s, rfl, h, rfl, rfl, rfl⟩

theorem foldlM_releaseCpu_ok {is : List Cpu} {s : State} (h : Ok b few n s) :
    ∃ s', is.foldlM (releaseCpu b) s = some s' ∧ Ok b few n s' ∧ SamePrio s s' := by
  refine Lib.Loop.foldlM_total (fun t => Ok b few n t ∧ SamePrio s t) ?_ ⟨h, rfl, rfl, rfl⟩
  rintro t i - ⟨ht, hp⟩
  obtain ⟨t', ht', hok, hp'⟩ := releaseCpu_ok ht i
  exact ⟨t', ht', hok, hp.trans hp'⟩

theorem completeExcl_ok : ∀ {is : List Cpu} {s : State}, Ok b few n s →
    ∃ r, completeExcl b is s = some r ∧ Ok b few n r.1 ∧ SamePrio s r.1 := by
  intro is
  induction is with
  | nil => intro s h; exact ⟨_, rfl, h, rfl, rfl, rfl⟩
  | cons i is ih =>
    intro s h
    obtain ⟨held, howns⟩ := h.owns
    unfold completeExcl
    cases hr : requestMemcpy b s.engine with
    | mk engine chan =>
      cases chan with
      | some chan =>
        have hset : Ok b few n (setCpu { s with engine } i ⟨some chan, 1⟩) :=
          h.setCpu ⟨_, howns.request hr _⟩ (by simp)
        obtain ⟨r, hr, hok, hp⟩ := ih hset
        exact ⟨r, hr, hok, hp⟩
      | none =>
        have hok : Ok b few n { s with engine } := { h with owns := ⟨held, howns.request_failed hr⟩ }
        obtain ⟨s', hs', hok', hp⟩ := @foldlM_releaseCpu_ok b few n b.present _ hok
        refine ⟨(s', -1), ?_, hok', hp⟩
        simp only [release_dma_chan_excl, hs', Option.map_some]

theorem start_policy_excl_ok {s : State} (h : Ok b few n s) :
    ∃ r, start_policy_excl b s = some r ∧ Ok b few n r.1 ∧ SamePrio s r.1 := by
  have hinit : Ok b few n (init_dma_chan_excl b s) := by
    obtain ⟨held, howns⟩ := h.owns
    -- a start over a running policy leaks its channels: they stay handed out
    refine ⟨⟨held, howns.forget ?_⟩, ?_, h.prio_chan⟩
    · intro i
      cases i with
      | percpu i => by_cases hi : i ∈ b.present <;> simp [State.slot, init_dma_chan_excl, hi]
      | prio i => exact .inr rfl
    · intro i hi
      simp only [init_dma_chan_excl] at hi ⊢
      split at hi
      · simp at hi
      next hp => simpa [hp] using h.use_chan i hi
  exact completeExcl_ok hinit

/-- What the channel loops of the priority policy leave alone. -/
def SameRest (s s' : State) : Prop :=
  s'.percpu_chan_copy = s.percpu_chan_copy ∧ s'.prio_timer = s.prio_timer ∧ s'.suspended = s.suspended

theorem releasePrio_some {s : State} {i : Nat} {chan : Chan} (h : s.list_chan_prio.chan_prio i = some chan) :
    releasePrio b s i = some (setPrio { s with engine := dma_release_channel b s.engine chan } i none) := by
  unfold releasePrio
  rw [h]
  rfl

/-- The loop that gives channels back: what each release keeps holds in the end, and the
slots are empty. -/
theorem foldlM_releasePrio_rule {P : State → Prop} (hrelease : ∀ s i chan, P s → s.list_chan_prio.chan_prio i = some chan →
    P (setPrio { s with engine := dma_release_channel b s.engine chan } i none)) : ∀ {is : List Nat} {s : State}, is.Nodup →
    (∀ i ∈ is, (s.list_chan_prio.chan_prio i).isSome) → P s →
    ∃ s', is.foldlM (releasePrio b) s = some s' ∧ P s' ∧ SameRest s s' ∧
      ∀ i, s'.list_chan_prio.chan_prio i = if i ∈ is then none else s.list_chan_prio.chan_prio i := by
  intro is
  induction is with
  | nil => intro s _ _ h; exact ⟨s, rfl, h, ⟨rfl, rfl, rfl⟩, fun i => (if_neg List.not_mem_nil).symm⟩
  | cons i is ih =>
    intro s hnd hsome h
    obtain ⟨hi, hnd⟩ := List.nodup_cons.1 hnd
    obtain ⟨chan, hchan⟩ := Option.isSome_iff_exists.1 (hsome i (by simp))
    let s₁ := setPrio { s with engine := dma_release_channel b s.engine chan } i none
    have hsome₁ : ∀ j ∈ is, (s₁.list_chan_prio.chan_prio j).isSome := by
      intro j hj
      have : j ≠ i := by rintro rfl; exact hi hj
      simpa [s₁, setPrio, this] using hsome j (by simp [hj])
    obtain ⟨s₂, hs₂, h₂, hrest, hprio⟩ := ih hnd hsome₁ (hrelease s i chan h hchan)
    refine ⟨s₂, ?_, h₂, hrest, fun j => ?_⟩
    · rw [List.foldlM_cons, releasePrio_some hchan]
      exact hs₂
    · rw [hprio]
      by_cases hj : j = i
      · subst hj
        simp [s₁, setPrio]
      · simp [s₁, setPrio, hj]

theorem foldlM_releasePrio_owns {is : List Nat} {s : State} (hnd : is.Nodup)
    (hsome : ∀ i ∈ is, (s.list_chan_prio.chan_prio i).isSome) (h : ∃ held, Owns b few n held s.slot s.engine) :
    ∃ s', is.foldlM (releasePrio b) s = some s' ∧ (∃ held, Owns b few n held s'.slot s'.engine) ∧ SameRest s s' := by
  have hrelease : ∀ (s : State) i chan, (∃ held, Owns b few n held s.slot s.engine) → s.list_chan_prio.chan_prio i = some chan →
      ∃ held, Owns b few n held (setPrio { s with engine := dma_release_channel b s.engine chan } i none).slot
        (dma_release_channel b s.engine chan) := by
    rintro s i chan ⟨held, howns⟩ hchan
    rw [slot_setPrio]
    exact ⟨_, howns.release (i := .prio i) hchan⟩
  obtain ⟨s', hs', howns, hrest, -⟩ := foldlM_releasePrio_rule hrelease hnd hsome h
  exact ⟨s', hs', howns, hrest⟩

theorem release_dma_chan_prio_ok {s : State} (h : Ok b few n s) :
    ∃ s', release_dma_chan_prio b s = some s' ∧ Ok b few n s' ∧ SameRest s s' := by
  have hsome : ∀ i ∈ List.range s.list_chan_prio.size, (s.list_chan_prio.chan_prio i).isSome := fun i hi =>
    h.prio_chan i (List.mem_range.1 hi)
  obtain ⟨s', hs', howns, hrest⟩ := foldlM_releasePrio_owns List.nodup_range hsome h.owns
  refine ⟨setSize s' 0, ?_, ⟨howns, ?_, ?_⟩, hrest⟩
  · simp [release_dma_chan_prio, hs']
  · intro i hi
    simp only [setSize, hrest.1] at hi ⊢
    exact h.use_chan i hi
  · intro i hi
    exact absurd hi (Nat.not_lt_zero i)

/-- The loop of `complete_dma_chan_prio` from index `k` on. -/
theorem completePrio_ok : ∀ {m k : Nat} {s : State}, Ok b few n s → s.list_chan_prio.size = k → k + m < 2 ^ 16 →
    ∃ r, completePrio b (List.range' k m) s = some r ∧ Ok b few n r.1 ∧ SameRest s r.1 ∧
      (r.2 = 0 ∧ r.1.list_chan_prio.size = k + m ∨ r.2 = -1) := by
  intro m
  induction m with
  | zero =>
    intro k s h hk _
    exact ⟨_, rfl, h, ⟨rfl, rfl, rfl⟩, .inl ⟨rfl, hk⟩⟩
  | succ m ih =>
    intro k s h hk hlt
    obtain ⟨held, howns⟩ := h.owns
    rw [List.range'_succ]
    unfold completePrio
    cases hr : requestMemcpy b s.engine with
    | mk engine chan =>
      let s₁ := setPrio { s with engine } k chan
      have hsize : s₁.list_chan_prio.size = k := hk
      have hlow : ∀ i < k, (s₁.list_chan_prio.chan_prio i).isSome := by
        intro i hi
        have : i ≠ k := by omega
        simpa [s₁, setPrio, this] using h.prio_chan i (hk ▸ hi)
      cases chan with
      | some chan =>
        have hok : Ok b few n (setSize s₁ (k + 1)) := by
          refine ⟨⟨chan :: held, ?_⟩, h.use_chan, ?_⟩
          · show Owns b few n (chan :: held) s₁.slot engine
            rw [slot_setPrio]
            exact howns.request hr _
          · intro i hi
            rcases Nat.lt_succ_iff_lt_or_eq.1 hi with hi | rfl
            · exact hlow i hi
            · simp [s₁, setSize, setPrio]
        have hsize₁ : (setSize s₁ (k + 1)).list_chan_prio.size = k + 1 := rfl
        obtain ⟨r, hr', hok', hrest, hret⟩ := ih hok hsize₁ (by omega)
        refine ⟨r, ?_, hok', hrest, by omega⟩
        have hu : u16 ((k : Int) + 1) = k + 1 := u16_of_lt (n := k + 1) (by omega)
        simpa [hsize, hu, s₁] using hr'
      | none =>
        -- `size` does not count the slot the request failed for, so the release passes it by
        have hok : Ok b few n s₁ := by
          refine ⟨⟨held, ?_⟩, h.use_chan, fun i hi => hlow i (hsize ▸ hi)⟩
          rw [slot_setPrio]
          refine (howns.request_failed hr).forget ?_
          intro j
          by_cases hj : j = .prio k <;> simp [hj, State.slot]
        obtain ⟨s', hs', hok', hrest⟩ := release_dma_chan_prio_ok hok
        refine ⟨(s', -1), ?_, hok', hrest, .inr rfl⟩
        simp only [s₁] at hs'
        simp [hs']

theorem init_dma_chan_prio_ok {s : State} (h : Ok b few n s) : Ok b few n (init_dma_chan_prio s) := by
  obtain ⟨held, howns⟩ := h.owns
  refine ⟨⟨held, howns.forget ?_⟩, h.use_chan, ?_⟩
  · intro i
    cases i with
    | percpu i => exact .inr rfl
    | prio i => by_cases hi : i < DMA_MAX_CHAN_PRIO <;> simp [State.slot, init_dma_chan_prio, hi]
  · intro i hi
    exact absurd hi (Nat.not_lt_zero i)

/-- A start of the priority policy ends with all its channels and the timer
armed, or with none and the timer as it was. -/
theorem start_policy_prio2_ok {s : State} (h : Ok b few n s) (high low : Int) :
    ∃ r, start_policy_prio2 b high low s = some r ∧ Ok b few n r.1 ∧ r.1.suspended = s.suspended ∧
      (r.2 = -1 ∧ r.1.prio_timer = s.prio_timer ∨
        r.2 = DMA_MAX_CHAN_PRIO ∧ r.1.list_chan_prio.size = DMA_MAX_CHAN_PRIO ∧
          (∀ i < DMA_MAX_CHAN_PRIO, r.1.list_chan_prio.priority i = i + DMA_HIGH_PRIO) ∧
          r.1.prio_timer = prioTimer2 high low) := by
  obtain ⟨⟨s', ret⟩, hr, hok, hrest, hret⟩ :=
    @completePrio_ok b few n DMA_MAX_CHAN_PRIO 0 _ (init_dma_chan_prio_ok h) rfl (by decide)
  unfold start_policy_prio2 complete_dma_chan_prio
  rw [List.range_eq_range', hr, Option.map_some]
  refine ⟨_, rfl, ?_⟩
  rcases hret with ⟨rfl, hsize⟩ | rfl
  · rw [Nat.zero_add] at hsize
    simp only [Int.lt_irrefl, if_false]
    refine ⟨⟨hok.owns, hok.use_chan, hok.prio_chan⟩, hrest.2.2, .inr ⟨by rw [hsize], hsize, ?_, trivial⟩⟩
    intro i hi
    have hlt : i + DMA_HIGH_PRIO < 2 ^ 16 := by
      unfold DMA_MAX_CHAN_PRIO DMA_HIGH_PRIO at *
      omega
    have hi' : i < s'.list_chan_prio.size := hsize ▸ hi
    simp only [setPriorities, hi', if_true]
    exact u16_of_lt hlt
  · exact ⟨hok, hrest.2.2, .inl ⟨rfl, hrest.2.1⟩⟩

/-- The channels of a list that a priority preempts. -/
def Lower (list_prio : ListDmaChanPrio) (priority : Nat) (chan : Chan) : Prop :=
  ∃ i < list_prio.size, priority < list_prio.priority i ∧ list_prio.chan_prio i = some chan

theorem foldlM_command (f : PrioFunc) {list_prio : ListDmaChanPrio} (priority : Nat) : ∀ {is : List Nat}
    {suspended : Chan → Bool}, (∀ i ∈ is, (list_prio.chan_prio i).isSome) →
    ∃ suspended', is.foldlM (f.command list_prio priority) suspended = some suspended' ∧
      ∀ chan, suspended' chan =
        if ∃ i ∈ is, priority < list_prio.priority i ∧ list_prio.chan_prio i = some chan then
          decide (f = .supend_chan_prio)
        else suspended chan := by
  intro is
  induction is with
  | nil =>
    intro suspended _
    exact ⟨suspended, rfl, by simp⟩
  | cons i is ih =>
    intro suspended hsome
    obtain ⟨chan, hchan⟩ := Option.isSome_iff_exists.1 (hsome i (by simp))
    rw [List.foldlM_cons]
    by_cases hp : priority < list_prio.priority i
    · obtain ⟨suspended', hs', h⟩ := @ih (Function.update suspended chan (decide (f = .supend_chan_prio)))
        fun j hj => hsome j (by simp [hj])
      refine ⟨suspended', ?_, ?_⟩
      · simpa [PrioFunc.command, hp, hchan] using hs'
      · intro c
        rw [h c]
        by_cases hc : c = chan
        · subst hc
          simp [hp, hchan]
        · have : ¬ chan = c := fun h => hc h.symm
          simp [hp, hchan, hc, this]
    · obtain ⟨suspended', hs', h⟩ := @ih suspended fun j hj => hsome j (by simp [hj])
      refine ⟨suspended', ?_, ?_⟩
      · simpa [PrioFunc.command, hp] using hs'
      · intro c
        rw [h c]
        simp [hp]

/-- The command reaches the channels of lower priority and no other. -/
theorem run_lower (f : PrioFunc) {list_prio : ListDmaChanPrio} (priority : Nat) (suspended : Chan → Bool)
    (hsome : ∀ i < list_prio.size, (list_prio.chan_prio i).isSome) :
    ∃ suspended', f.run list_prio priority suspended = some suspended' ∧
      ∀ chan, (Lower list_prio priority chan → suspended' chan = decide (f = .supend_chan_prio)) ∧
        (¬ Lower list_prio priority chan → suspended' chan = suspended chan) := by
  obtain ⟨suspended', hs', h⟩ := @foldlM_command f list_prio priority (List.range list_prio.size) suspended
    fun i hi => hsome i (List.mem_range.1 hi)
  refine ⟨suspended', hs', ?_⟩
  intro chan
  have hlower : (∃ i ∈ List.range list_prio.size, priority < list_prio.priority i ∧
      list_prio.chan_prio i = some chan) ↔ Lower list_prio priority chan := by
    simp [Lower]
  rw [h chan]
  constructor
  · intro hl
    rw [if_pos (hlower.2 hl)]
  · intro hl
    rw [if_neg (fun h => hl (hlower.1 h))]

theorem stop_policy_prio_ok {s : State} (h : Ok b few n s) :
    ∃ s', stop_policy_prio b s = some s' ∧ Ok b few n s' ∧
      s'.prio_timer = { s.prio_timer with timer := none, list_chan := false, tick := 0 } ∧
      ∀ chan, (Lower s.list_chan_prio DMA_HIGH_PRIO chan → s'.suspended chan = false) ∧
        (¬ Lower s.list_chan_prio DMA_HIGH_PRIO chan → s'.suspended chan = s.suspended chan) := by
  obtain ⟨suspended, hrun, hsus⟩ := run_lower .resume_chan_prio DMA_HIGH_PRIO s.suspended h.prio_chan
  obtain ⟨s', hs', hok, hrest⟩ := @release_dma_chan_prio_ok b few n { s with
    suspended
    prio_timer := { s.prio_timer with timer := none, list_chan := false, tick := 0 } }
    ⟨h.owns, h.use_chan, h.prio_chan⟩
  refine ⟨s', ?_, hok, hrest.2.1, ?_⟩
  · rw [stop_policy_prio, hrun]
    exact hs'
  · rw [hrest.2.2]
    exact hsus

/-! ## Runs of calls -/

inductive Call where
  | start_policy_sh
  | stop_policy_sh
  | start_policy_excl
  | stop_policy_excl
  | start_policy_prio2 (nanosecs_high nanosecs_low : Int)
  | stop_policy_prio
deriving DecidableEq, Repr

/-- A call to its end. -/
def call (b : Board) (s : State) : Call → Option State
  | .start_policy_sh => some (start_policy_sh b s)
  | .stop_policy_sh => some (stop_policy_sh b s)
  | .start_policy_excl => (start_policy_excl b s).map Prod.fst
  | .stop_policy_excl => stop_policy_excl b s
  | .start_policy_prio2 high low => (start_policy_prio2 b high low s).map Prod.fst
  | .stop_policy_prio => stop_policy_prio b s

/-- From `n` starts of the shared policy on, never more stops than starts. -/
def Balanced : Nat → List Call → Prop
  | _, [] => True
  | n, .start_policy_sh :: calls => Balanced (n + 1) calls
  | n, .stop_policy_sh :: calls => 0 < n ∧ Balanced (n - 1) calls
  | n, _ :: calls => Balanced n calls

/-- No policy is started; the table may be a stale one. -/
structure NoPolicy (b : Board) (s : State) : Prop where
  no_client : NoClient b s.engine
  percpu : ∀ i, s.percpu_chan_copy i = ⟨none, 0⟩
  chan_prio : ∀ i, s.list_chan_prio.chan_prio i = none
  size : s.list_chan_prio.size = 0

theorem NoPolicy.ok {s : State} (h : NoPolicy b s) : Ok b few 0 s := by
  have hslot : ∀ i, s.slot i = none := by
    intro i
    cases i with
    | percpu i => simp [State.slot, h.percpu i]
    | prio i => exact h.chan_prio i
  refine ⟨⟨[], h.no_client.inv.toPrivate, fun _ => h.no_client.inv, h.no_client.refs, ?_, ?_⟩, ?_, ?_⟩
  · intro i j chan hi
    simp [hslot] at hi
  · intro i chan hi
    simp [hslot] at hi
  · intro i hi
    simp [h.percpu i] at hi
  · intro i hi
    simp [h.size] at hi

/-- How often the shared policy is started after a call. -/
def Call.count (n : Int) : Call → Int
  | .start_policy_sh => n + 1
  | .stop_policy_sh => n - 1
  | _ => n

/-- The calls of the priority policy. -/
def Call.isPrio : Call → Bool
  | .start_policy_prio2 _ _ => true
  | .stop_policy_prio => true
  | _ => false

theorem other_call_ok {s : State} (h : Ok b few n s) {c : Call} (hc : c = .stop_policy_sh → 0 < n)
    (hlt : few → c.count n < 2 ^ 31) (hp : c.isPrio = false) :
    ∃ s', call b s c = some s' ∧ Ok b few (c.count n) s' ∧ SamePrio s s' := by
  cases c with
  | start_policy_sh =>
    obtain ⟨held, howns⟩ := h.owns
    exact ⟨_, rfl, ⟨⟨held, howns.get hlt⟩, h.use_chan, h.prio_chan⟩, rfl, rfl, rfl⟩
  | stop_policy_sh =>
    obtain ⟨held, howns⟩ := h.owns
    exact ⟨_, rfl, ⟨⟨held, howns.put (hc rfl)⟩, h.use_chan, h.prio_chan⟩, rfl, rfl, rfl⟩
  | start_policy_excl =>
    obtain ⟨r, hr, hok, hsame⟩ := start_policy_excl_ok h
    exact ⟨r.1, by simp [call, hr], hok, hsame⟩
  | stop_policy_excl => exact foldlM_releaseCpu_ok h
  | start_policy_prio2 high low => cases hp
  | stop_policy_prio => cases hp

theorem call_ok {s : State} (h : Ok b few n s) {c : Call} (hc : c = .stop_policy_sh → 0 < n)
    (hlt : few → c.count n < 2 ^ 31) :
    ∃ s', call b s c = some s' ∧ Ok b few (c.count n) s' := by
  cases hp : c.isPrio with
  | false =>
    obtain ⟨s', hs', hok, -⟩ := other_call_ok h hc hlt hp
    exact ⟨s', hs', hok⟩
  | true =>
    cases c with
    | start_policy_prio2 high low =>
      obtain ⟨r, hr, hok, -⟩ := start_policy_prio2_ok h high low
      exact ⟨r.1, by simp [call, hr], hok⟩
    | stop_policy_prio =>
      obtain ⟨s', hs', hok, -⟩ := stop_policy_prio_ok h
      exact ⟨s', hs', hok⟩
    | _ => cases hp

theorem Balanced.head {n : Nat} {c : Call} {calls : List Call} (h : Balanced n (c :: calls)) :
    (c = .stop_policy_sh → 0 < n) ∧ ∃ m : Nat, c.count n = m ∧ Balanced m calls := by
  cases c with
  | start_policy_sh => exact ⟨by simp, n + 1, rfl, h⟩
  | stop_policy_sh =>
    obtain ⟨hn, h⟩ := h
    exact ⟨fun _ => hn, n - 1, by simp only [Call.count]; omega, h⟩
  | start_policy_excl => exact ⟨by simp, n, rfl, h⟩
  | stop_policy_excl => exact ⟨by simp, n, rfl, h⟩
  | start_policy_prio2 high low => exact ⟨by simp, n, rfl, h⟩
  | stop_policy_prio => exact ⟨by simp, n, rfl, h⟩

/-- From `n` starts of the shared policy on, it is never started more often than
an `int` counts. -/
def Few : Int → List Call → Prop
  | _, [] => True
  | n, c :: calls => c.count n < 2 ^ 31 ∧ Few (c.count n) calls

/-- A balanced run keeps what holds between calls. -/
theorem calls_ok : ∀ {calls : List Call} {n : Nat} {s : State}, Ok b few n s → Balanced n calls → (few → Few n calls) →
    ∃ s' n', exec (call b) s calls = some s' ∧ Ok b few n' s' := by
  intro calls
  induction calls with
  | nil => intro n s h _ _; exact ⟨s, n, rfl, h⟩
  | cons c calls ih =>
    intro n s h hb hfew
    obtain ⟨hc, m, hm, hb⟩ := hb.head
    obtain ⟨s₁, hs₁, hok₁⟩ := call_ok h (fun hc' => Int.natCast_pos.2 (hc hc')) fun hf => (hfew hf).1
    rw [hm] at hok₁
    obtain ⟨s', n', hs', hok'⟩ := ih hok₁ hb fun hf => hm ▸ (hfew hf).2
    exact ⟨s', n', exec_cons.2 ⟨s₁, hs₁, hs'⟩, hok'⟩

/-- Every channel has at most one use: no two slots hold the same one, and no
slot holds one the shared lookup can return on some CPU. -/
structure Exclusive (b : Board) (s : State) : Prop where
  slots : ∀ i j chan, s.slot i = some chan → s.slot j = some chan → i = j
  shared : ∀ i chan, s.slot i = some chan → ∀ cpu ∈ b.possible, copy_dma_get_channel_sh b s.engine cpu ≠ some chan

theorem Ok.exclusive {s : State} (h : Ok b few n s) (hf : few) : Exclusive b s := by
  obtain ⟨held, howns⟩ := h.owns
  exact ⟨howns.inj, fun i chan hi cpu hcpu => howns.not_shared hf hi hcpu⟩

/-- What a CPU's exclusive lookup returns, no other lookup does. -/
theorem Exclusive.lookups {s : State} (h : Exclusive b s) {i : Cpu} {chan : Chan}
    (hi : copy_dma_get_channel_excl b s i = some chan) :
    (∀ cpu ∈ b.possible, copy_dma_get_channel_sh b s.engine cpu ≠ some chan) ∧
      (∀ j ≠ i, copy_dma_get_channel_excl b s j ≠ some chan) ∧
      ∀ priority, copy_dma_get_channel_prio b s priority ≠ some chan := by
  simp only [copy_dma_get_channel_excl, alignedChan, Option.filter_eq_some_iff] at hi
  have hslot : s.slot (.percpu i) = some chan := hi.1
  refine ⟨h.shared _ chan hslot, ?_, ?_⟩
  · intro j hj hjc
    simp only [copy_dma_get_channel_excl, alignedChan, Option.filter_eq_some_iff] at hjc
    have := h.slots (.percpu j) (.percpu i) chan hjc.1 hslot
    exact hj (Slot.percpu.inj this)
  · intro priority hp
    simp only [copy_dma_get_channel_prio, alignedChan, Option.filter_eq_some_iff, Option.bind_eq_some_iff] at hp
    obtain ⟨⟨j, -, hj⟩, -⟩ := hp
    have := h.slots (.prio j) (.percpu i) chan hj hslot
    cases this

/-- After every call of every run: the run may end anywhere, and starts may come
over running policies and fail on any channel. Every call comes back. -/
theorem policies_exclusive (b : Board) (s : State) (h : NoPolicy b s) (calls : List Call) (hb : Balanced 0 calls)
    (hfew : Few 0 calls) : ∃ s', exec (call b) s calls = some s' ∧ s'.engine.stuck = false ∧ Exclusive b s' := by
  obtain ⟨s', n', hs', hok⟩ := calls_ok (h.ok : Ok b True 0 s) hb fun _ => hfew
  obtain ⟨held, howns⟩ := hok.owns
  exact ⟨s', hs', (howns.inv trivial).not_stuck, hok.exclusive trivial⟩

/-- One CPU, a device with five channels and one with a single channel. -/
def sampleBoard : Board where
  channels d := if d = 0 then [0, 1, 2, 3, 4] else if d = 1 then [5] else []
  device chan := if chan < 5 then 0 else 1
  channels_nodup d := by split <;> [decide; split <;> decide]
  channels_length d := by split <;> [decide; split <;> decide]
  device_of_mem d := by
    split
    next h => subst h; decide
    split
    next h => subst h; decide
    next => simp
  cap_mask _ cap := cap = DMA_MEMCPY
  always_private _ := false
  copy_align _ := 0
  possible := [0]
  present := [0]
  online := [0]
  try_module_get _ _ := true
  device_alloc_chan_resources _ _ := 64

def sampleState : State where
  engine :=
    { dma_device_list := [0, 1], client_count := fun _ => 0, table_count := fun _ => 0, dma_private := fun _ => false
      privatecnt := fun _ => 0, dmaengine_ref_count := 0, copy_dmaengine_ref_count := 0
      channel_table := fun _ _ => none, stuck := false, calls := 0 }
  percpu_chan_copy _ := ⟨none, 0⟩
  list_chan_prio := { chan_prio := fun _ => none, priority := fun _ => 0, size := 0 }
  prio_timer := { list_chan := false, timer := none, tick := 0, overruns_2 := 0, quantum := [], prio_func_array := [] }
  suspended _ := false

theorem sample_no_policy : NoPolicy sampleBoard sampleState := by
  refine ⟨⟨by decide, fun _ => rfl, fun _ => rfl, fun _ => rfl, rfl, rfl⟩, fun _ => rfl, fun _ => rfl, rfl⟩

def sampleCalls : List Call := [.start_policy_prio2 700 300, .start_policy_excl, .start_policy_sh]

/-- All three policies at once, each with its own channels. -/
theorem policies_exclusive_sample :
    (exec (call sampleBoard) sampleState sampleCalls).map (fun s =>
        (s.slot (.prio 0), s.slot (.percpu 0), copy_dma_get_channel_sh sampleBoard s.engine 0)) =
      some (some 0, some 4, some 5) ∧
    ∃ s', exec (call sampleBoard) sampleState sampleCalls = some s' ∧ s'.engine.stuck = false ∧
      Exclusive sampleBoard s' :=
  ⟨by decide, policies_exclusive sampleBoard sampleState sample_no_policy sampleCalls trivial
    ⟨by decide, by decide, by decide, trivial⟩⟩

/-! ## More starts than an `int` counts -/

/-- One CPU, and a device with one channel. -/
def loneBoard : Board where
  channels d := if d = 0 then [0] else []
  device _ := 0
  channels_nodup d := by split <;> decide
  channels_length d := by split <;> decide
  device_of_mem d := by
    split
    next h => subst h; decide
    next => simp
  cap_mask _ cap := cap = DMA_MEMCPY
  always_private _ := false
  copy_align _ := 0
  possible := [0]
  present := [0]
  online := [0]
  try_module_get _ _ := true
  device_alloc_chan_resources _ _ := 64

def loneState : State := { sampleState with engine := { sampleState.engine with dma_device_list := [0] } }

theorem lone_no_policy : NoPolicy loneBoard loneState := by
  refine ⟨⟨by decide, fun _ => rfl, fun _ => rfl, fun _ => rfl, rfl, rfl⟩, fun _ => rfl, fun _ => rfl, rfl⟩

/-- The engine after the first start of the shared policy. -/
def firstShared : Dmaengine.State := copy_dmaengine_get loneBoard loneState.engine

/-- The engine after `k` starts of the shared policy, from the first on. -/
def shared (k : Nat) : Dmaengine.State :=
  { firstShared with
    client_count := Function.update firstShared.client_count 0 (s32 k)
    dmaengine_ref_count := k, copy_dmaengine_ref_count := k, calls := k }

theorem shared_one : shared 1 = firstShared := by
  have hcount : s32 (1 : Nat) = firstShared.client_count 0 := by decide
  unfold shared
  rw [hcount, Function.update_eq_self]
  rfl

theorem shared_succ {k : Nat} (h0 : 0 < k) (hk : k < 2 ^ 32) :
    copy_dmaengine_get loneBoard (shared k) = shared (k + 1) := by
  have hcount : s32 k ≠ 0 := by unfold s32 u32; split <;> omega
  have hnext : s32 (s32 k + 1) = s32 (k + 1) := s32_add _ _
  have hone : s32 (k + 1) ≠ 1 := by unfold s32 u32; split <;> omega
  have hlist : firstShared.dma_device_list = [0] := rfl
  have hpriv : firstShared.dma_private 0 = false := rfl
  have hk0 : (k : Int) + 1 ≠ 1 := by omega
  have herr : ¬ (0 : Int) = -ENODEV := by decide
  simp [copy_dmaengine_get, dmaengine_get, shared, hlist, getDevice, hpriv, loneBoard, getChans, dma_chan_get, hcount,
    hnext, hone, hk0, herr, setCount]

theorem shared_starts : ∀ {k : Nat}, k < 2 ^ 32 →
    exec (call loneBoard) loneState (List.replicate (k + 1) .start_policy_sh) =
      some { loneState with engine := shared (k + 1) } := by
  intro k
  induction k with
  | zero =>
    intro _
    rw [shared_one]
    rfl
  | succ k ih =>
    intro hk
    rw [List.replicate_succ']
    refine exec_concat.2 ⟨_, ih (by omega), ?_⟩
    exact congrArg (fun engine : Dmaengine.State => some { loneState with engine }) (shared_succ (by omega) hk)

theorem balanced_starts (k : Nat) : ∀ n, Balanced n (List.replicate k .start_policy_sh ++ [.start_policy_excl]) := by
  induction k with
  | zero => exact fun _ => trivial
  | succ k ih => exact fun n => ih (n + 1)

/-- After `2 ^ 32` starts of the shared policy no channel counts a client: the
exclusive policy is given the one that the table names. Another start of the
shared policy does not come back. -/
theorem shared_channel_taken :
    NoPolicy loneBoard loneState ∧ Balanced 0 (List.replicate (2 ^ 32) .start_policy_sh ++ [.start_policy_excl]) ∧
    (∃ s, exec (call loneBoard) loneState (List.replicate (2 ^ 32) .start_policy_sh ++ [.start_policy_excl]) = some s ∧
      s.engine.stuck = false ∧ ¬ Exclusive loneBoard s) ∧
    ∃ s, exec (call loneBoard) loneState (List.replicate (2 ^ 32) .start_policy_sh ++ [.start_policy_sh]) = some s ∧
      s.engine.stuck = true := by
  have hrun := @shared_starts (2 ^ 32 - 1) (by decide)
  refine ⟨lone_no_policy, ?_, ?_, ?_⟩
  · -- the list is not to be computed
    generalize 2 ^ 32 = k
    exact balanced_starts k 0
  · have hexcl : (call loneBoard { loneState with engine := shared (2 ^ 32 - 1 + 1) } .start_policy_excl).map (fun s =>
        (s.engine.stuck, s.slot (.percpu 0), copy_dma_get_channel_sh loneBoard s.engine 0)) =
        some (false, some 0, some 0) := by decide
    obtain ⟨s, hs, h⟩ := Option.map_eq_some_iff.1 hexcl
    simp only [Prod.mk.injEq] at h
    exact ⟨s, exec_concat.2 ⟨_, hrun, hs⟩, h.1, fun hexclusive =>
      hexclusive.shared (.percpu 0) 0 h.2.1 0 (by decide) h.2.2⟩
  · have hmore : (call loneBoard { loneState with engine := shared (2 ^ 32 - 1 + 1) } .start_policy_sh).map
        (fun s => s.engine.stuck) = some true := by decide
    obtain ⟨s, hs, h⟩ := Option.map_eq_some_iff.1 hmore
    exact ⟨s, exec_concat.2 ⟨_, hrun, hs⟩, h⟩

end Dmacftu.Policy
