import Dmacftu.Lib.Pool
import Dmacftu.Recorded
/-!
# All channels or none

A start of a private policy requests its channels one by one, and when one is refused
it finds out from its own table which of them to release. The code does this three
times over: for the exclusive policy, at boot, and for the priority policy.

Here the three are over any `Pool` of channels, so that every sequence of answers of
`dma_request_channel` is covered; over the DMA engine they are the calls of `Policy`
and `Recorded` (`start_policy_excl_engine` and the two after it). `start_all_or_nothing`
says what they leave.
-/
open Lib Lib.CInt

namespace Dmacftu.Policy

open Dmaengine Dmaengine.TxType

/-- What the private policies keep, over any source of channels. -/
structure Kept (E : Type) where
  engine : E
  percpu_chan_copy : Cpu → ChanCopy
  list_chan_prio : ListDmaChanPrio
  prio_timer : PriorityTimer

namespace Kept

variable {E : Type}

def setCpu (s : Kept E) (i : Cpu) (cpu_chan : ChanCopy) : Kept E :=
  { s with percpu_chan_copy := Function.update s.percpu_chan_copy i cpu_chan }

def setPrio (s : Kept E) (i : Nat) (chan : Option Chan) : Kept E :=
  { s with list_chan_prio :=
    { s.list_chan_prio with chan_prio := Function.update s.list_chan_prio.chan_prio i chan } }

def setSize (s : Kept E) (size : Nat) : Kept E := { s with list_chan_prio := { s.list_chan_prio with size } }

end Kept

section

variable {E : Type} (p : Pool E Chan) (present : List Cpu)

/-! ## The exclusive policy -/

namespace Excl

def releaseCpu (s : Kept E) (i : Cpu) : Option (Kept E) :=
  if (s.percpu_chan_copy i).use = 1 then
    (s.percpu_chan_copy i).chan.map fun chan => ({ s with engine := p.release s.engine chan }).setCpu i ⟨none, 0⟩
  else some s

def release_dma_chan_excl (s : Kept E) : Option (Kept E) := present.foldlM (releaseCpu p) s

def init_dma_chan_excl (s : Kept E) : Kept E :=
  { s with percpu_chan_copy := fun i => if i ∈ present then ⟨none, 0⟩ else s.percpu_chan_copy i }

def completeExcl : List Cpu → Kept E → Option (Kept E × Int)
  | [], s => some (s, 0)
  | i :: is, s =>
    let (engine, chan) := p.request s.engine
    let s := { s with engine }
    match chan with
    | some chan => completeExcl is (s.setCpu i ⟨some chan, 1⟩)
    | none => (release_dma_chan_excl p present s).map (·, -1)

def complete_dma_chan_excl (s : Kept E) : Option (Kept E × Int) := completeExcl p present present s

def start_policy_excl (s : Kept E) : Option (Kept E × Int) :=
  complete_dma_chan_excl p present (init_dma_chan_excl present s)

end Excl

/-! ## Boot -/

namespace Boot

def boot_release_dma_chan (s : Kept E) : Option (Kept E) := present.foldlM (Excl.releaseCpu p) s

def boot_init_dma_chan (s : Kept E) : Kept E :=
  { s with percpu_chan_copy := fun i => if i ∈ present then ⟨none, 0⟩ else s.percpu_chan_copy i }

def bootComplete : List Cpu → Kept E → Option (Kept E)
  | [], s => some s
  | i :: is, s =>
    let (engine, chan) := p.request s.engine
    let s := { s with engine }
    match chan with
    | some chan => bootComplete is (s.setCpu i ⟨some chan, 1⟩)
    | none => boot_release_dma_chan p present s

def boot_complete_dma_chan (s : Kept E) : Option (Kept E) := bootComplete p present present s

theorem boot_eq_start (s : Kept E) : boot_complete_dma_chan p present (boot_init_dma_chan present s) =
    (Excl.start_policy_excl p present s).map Prod.fst := by
  have h : ∀ is s, bootComplete p present is s = (Excl.completeExcl p present is s).map Prod.fst := by
    intro is
    induction is with
    | nil => intro s; rfl
    | cons i is ih =>
      intro s
      unfold bootComplete Excl.completeExcl
      cases hr : p.request s.engine with
      | mk engine chan =>
        cases chan with
        | some chan => exact ih _
        | none =>
          show boot_release_dma_chan p present _ = ((boot_release_dma_chan p present _).map _).map _
          rw [Option.map_map]
          exact Option.map_id'.symm
  exact h _ _

end Boot

/-! ## The priority policy -/

namespace Prio

def releasePrio (s : Kept E) (i : Nat) : Option (Kept E) :=
  (s.list_chan_prio.chan_prio i).map fun chan => ({ s with engine := p.release s.engine chan }).setPrio i none

def release_dma_chan_prio (s : Kept E) : Option (Kept E) :=
  ((List.range s.list_chan_prio.size).foldlM (releasePrio p) s).map (·.setSize 0)

def init_dma_chan_prio (s : Kept E) : Kept E :=
  { s with list_chan_prio :=
    { chan_prio := fun i => if i < DMA_MAX_CHAN_PRIO then none else s.list_chan_prio.chan_prio i
      priority := fun i => if i < DMA_MAX_CHAN_PRIO then DMA_LOW_PRIO else s.list_chan_prio.priority i
      size := 0 } }

def completePrio : List Nat → Kept E → Option (Kept E × Int)
  | [], s => some (s, 0)
  | i :: is, s =>
    let (engine, chan) := p.request s.engine
    let s := ({ s with engine }).setPrio i chan
    if chan.isSome then completePrio is (s.setSize (u16 (s.list_chan_prio.size + 1)))
    else (release_dma_chan_prio p s).map (·, -1)

def complete_dma_chan_prio (s : Kept E) : Option (Kept E × Int) := completePrio p (List.range DMA_MAX_CHAN_PRIO) s

def setPriorities (s : Kept E) : Kept E :=
  { s with list_chan_prio := { s.list_chan_prio with
    priority := fun i =>
      if i < s.list_chan_prio.size then u16 (i + DMA_HIGH_PRIO) else s.list_chan_prio.priority i } }

def start_policy_prio2 (nanosecs_high nanosecs_low : Int) (s : Kept E) : Option (Kept E × Int) :=
  (complete_dma_chan_prio p (init_dma_chan_prio s)).map fun (s, ret) =>
    if ret < 0 then (s, -1)
    else ({ setPriorities s with prio_timer := prioTimer2 nanosecs_high nanosecs_low }, s.list_chan_prio.size)

/-- `aligned` is the last test of the lookups, of a channel's device. -/
def copy_dma_get_channel_prio (aligned : Chan → Bool) (s : Kept E) (priority : Nat) : Option Chan :=
  (((List.range s.list_chan_prio.size).find? (s.list_chan_prio.priority · = priority)).bind
    s.list_chan_prio.chan_prio).filter aligned

end Prio

end

/-! ## Over the DMA engine -/

section

variable (b : Board)

def enginePool : Pool Dmaengine.State Chan := ⟨requestMemcpy b, dma_release_channel b⟩

def State.kept (s : State) : Kept Dmaengine.State := ⟨s.engine, s.percpu_chan_copy, s.list_chan_prio, s.prio_timer⟩

theorem foldlM_map {α β ι : Type} {f : α → ι → Option α} {f' : β → ι → Option β} {g : α → β}
    (h : ∀ s i, (f s i).map g = f' (g s) i) (is : List ι) (s : α) : (is.foldlM f s).map g = is.foldlM f' (g s) := by
  induction is generalizing s with
  | nil => rfl
  | cons i is ih =>
    rw [List.foldlM_cons, List.foldlM_cons, ← h s i]
    cases hf : f s i with
    | none => rfl
    | some s' => exact ih s'

theorem releaseCpu_engine (s : State) (i : Cpu) :
    (releaseCpu b s i).map State.kept = Excl.releaseCpu (enginePool b) s.kept i := by
  unfold releaseCpu Excl.releaseCpu
  split
  next huse => rw [if_pos (show (s.kept.percpu_chan_copy i).use = 1 from huse), Option.map_map]; rfl
  next huse => rw [if_neg (show ¬ (s.kept.percpu_chan_copy i).use = 1 from huse)]; rfl

theorem release_dma_chan_excl_engine (s : State) : (release_dma_chan_excl b s).map State.kept =
    Excl.release_dma_chan_excl (enginePool b) b.present s.kept :=
  foldlM_map (releaseCpu_engine b) b.present s

theorem start_policy_excl_engine (s : State) :
    (start_policy_excl b s).map (fun r => (r.1.kept, r.2)) = Excl.start_policy_excl (enginePool b) b.present s.kept := by
  have h : ∀ is s, (completeExcl b is s).map (fun r => (r.1.kept, r.2)) =
      Excl.completeExcl (enginePool b) b.present is s.kept := by
    intro is
    induction is with
    | nil => intro s; rfl
    | cons i is ih =>
      intro s
      unfold completeExcl Excl.completeExcl
      cases hr : requestMemcpy b s.engine with
      | mk engine chan =>
        have hr' : (enginePool b).request s.kept.engine = (engine, chan) := hr
        rw [hr']
        cases chan with
        | some chan => exact ih _
        | none =>
          show _ = (Excl.release_dma_chan_excl (enginePool b) b.present (State.kept { s with engine })).map (·, (-1 : Int))
          rw [← release_dma_chan_excl_engine, Option.map_map, Option.map_map]
          rfl
  exact h _ _

theorem boot_complete_dma_chan_engine (s : State) : (boot_complete_dma_chan b (boot_init_dma_chan b s)).map State.kept =
    Boot.boot_complete_dma_chan (enginePool b) b.present (Boot.boot_init_dma_chan b.present s.kept) := by
  rw [boot_eq_start, Boot.boot_eq_start, ← start_policy_excl_engine, Option.map_map, Option.map_map]
  rfl

theorem release_dma_chan_prio_engine (s : State) : (release_dma_chan_prio b s).map State.kept =
    Prio.release_dma_chan_prio (enginePool b) s.kept := by
  have hstep : ∀ s i, (releasePrio b s i).map State.kept = Prio.releasePrio (enginePool b) s.kept i := by
    intro s i
    unfold releasePrio Prio.releasePrio
    rw [Option.map_map]
    rfl
  unfold release_dma_chan_prio Prio.release_dma_chan_prio
  have hfold := foldlM_map hstep (List.range s.list_chan_prio.size) s
  rw [show s.kept.list_chan_prio.size = s.list_chan_prio.size from rfl, ← hfold, Option.map_map, Option.map_map]
  rfl

theorem start_policy_prio2_engine (high low : Int) (s : State) :
    (start_policy_prio2 b high low s).map (fun r => (r.1.kept, r.2)) =
      Prio.start_policy_prio2 (enginePool b) high low s.kept := by
  have h : ∀ is s, (completePrio b is s).map (fun r => (r.1.kept, r.2)) = Prio.completePrio (enginePool b) is s.kept := by
    intro is
    induction is with
    | nil => intro s; rfl
    | cons i is ih =>
      intro s
      unfold completePrio Prio.completePrio
      cases hr : requestMemcpy b s.engine with
      | mk engine chan =>
        have hr' : (enginePool b).request s.kept.engine = (engine, chan) := hr
        rw [hr']
        cases chan with
        | some chan => exact ih _
        | none =>
          show _ = (Prio.release_dma_chan_prio (enginePool b) (setPrio { s with engine } i none).kept).map (·, (-1 : Int))
          rw [← release_dma_chan_prio_engine]
          dsimp only
          rw [Option.isSome_none, if_neg Bool.false_ne_true, Option.map_map, Option.map_map]
          rfl
  unfold start_policy_prio2 Prio.start_policy_prio2
  show _ = (Prio.completePrio (enginePool b) _ (init_dma_chan_prio s).kept).map _
  rw [← h, complete_dma_chan_prio, Option.map_map, Option.map_map]
  congr 1
  funext r
  dsimp only [Function.comp]
  split <;> rfl

end

/-! ## The CPUs' slots -/

/-- A slot in use has its channel, and an unused one has none. -/
def cpuSlot : Option Chan → ChanCopy
  | none => ⟨none, 0⟩
  | some chan => ⟨some chan, 1⟩

theorem cpuSlot_chan (chan : Option Chan) : (cpuSlot chan).chan = chan := by cases chan <;> rfl

/-- The channels dealt out to the CPUs, in order. -/
def dealt (is : List Cpu) (chans : List Chan) (i : Cpu) : Option Chan := (is.zip chans).lookup i

theorem dealt_cons (i : Cpu) (is : List Cpu) (chan : Chan) (chans : List Chan) (j : Cpu) :
    dealt (i :: is) (chan :: chans) j = if j = i then some chan else dealt is chans j := by
  unfold dealt
  rw [List.zip_cons_cons, List.lookup_cons]
  by_cases h : j = i
  · rw [if_pos h, beq_iff_eq.2 h]
  · rw [if_neg h, beq_false_of_ne h]

theorem dealt_nil (is : List Cpu) (j : Cpu) : dealt is [] j = none := by
  rw [dealt, List.zip_nil_right, List.lookup_nil]

theorem dealt_of_not_mem {is : List Cpu} {chans : List Chan} {j : Cpu} (h : j ∉ is) : dealt is chans j = none := by
  induction is generalizing chans with
  | nil => rfl
  | cons i is ih =>
    cases chans with
    | nil => exact dealt_nil _ _
    | cons chan chans =>
      rw [dealt_cons, if_neg (List.ne_of_not_mem_cons h)]
      exact ih (List.not_mem_of_not_mem_cons h)

/-- The first CPUs get the channels, and the others none. -/
theorem map_dealt {is : List Cpu} {chans : List Chan} (hnd : is.Nodup) (hle : chans.length ≤ is.length) :
    is.map (dealt is chans) = chans.map some ++ List.replicate (is.length - chans.length) none := by
  induction is generalizing chans with
  | nil =>
    obtain rfl := List.length_eq_zero_iff.1 (Nat.le_zero.1 hle)
    rfl
  | cons i is ih =>
    obtain ⟨hi, hnd⟩ := List.nodup_cons.1 hnd
    cases chans with
    | nil =>
      rw [List.map_congr_left fun j _ => dealt_nil _ j, List.map_const']
      rfl
    | cons chan chans =>
      have hrest : ∀ j ∈ is, dealt (i :: is) (chan :: chans) j = dealt is chans j := by
        intro j hj
        rw [dealt_cons, if_neg (ne_of_mem_of_not_mem hj hi)]
      rw [List.map_cons, List.map_congr_left hrest, ih hnd (Nat.le_of_succ_le_succ hle), dealt_cons, if_pos rfl,
        List.length_cons, List.length_cons, Nat.succ_sub_succ]
      rfl

theorem filterMap_dealt {is : List Cpu} {chans : List Chan} (hnd : is.Nodup) (hle : chans.length ≤ is.length) :
    is.filterMap (dealt is chans) = chans := by
  have h : is.filterMap (dealt is chans) = (is.map (dealt is chans)).filterMap id := by
    rw [List.filterMap_map]
    rfl
  rw [h, map_dealt hnd hle, List.filterMap_append, List.filterMap_map]
  simp

section

variable {E : Type} {p : Pool E Chan} {present : List Cpu}

/-- A release goes through the CPUs and gives back what their slots hold. -/
theorem foldlM_releaseCpu {is : List Cpu} (hnd : is.Nodup) {s : Kept E} {slot : Cpu → Option Chan}
    (hs : s.percpu_chan_copy = fun i => cpuSlot (slot i)) : is.foldlM (Excl.releaseCpu p) s = some { s with
      engine := p.giveBack s.engine (is.filterMap slot)
      percpu_chan_copy := fun i => cpuSlot (if i ∈ is then none else slot i) } := by
  induction is generalizing s slot with
  | nil => simp [Pool.giveBack, ← hs]
  | cons i is ih =>
    obtain ⟨hi, hnd⟩ := List.nodup_cons.1 hnd
    have hslot : s.percpu_chan_copy i = cpuSlot (slot i) := congrFun hs i
    rw [List.foldlM_cons]
    cases hi' : slot i with
    | none =>
      have hrel : Excl.releaseCpu p s i = some s := by
        unfold Excl.releaseCpu
        rw [hslot, hi', if_neg (by decide)]
      rw [hrel, List.filterMap_cons_none hi']
      refine (ih hnd hs).trans (congrArg some ?_)
      congr 1
      funext j
      by_cases hj : j = i
      · subst hj
        simp [hi, hi']
      · simp [hj]
    | some chan =>
      have hrel : Excl.releaseCpu p s i = some (({ s with engine := p.release s.engine chan }).setCpu i (cpuSlot none)) := by
        unfold Excl.releaseCpu
        rw [hslot, hi']
        rfl
      -- with its slot emptied, the table is that of a smaller allotment
      have hs' : Function.update s.percpu_chan_copy i (cpuSlot none) =
          fun j => cpuSlot (Function.update slot i none j) := by
        funext j
        by_cases hj : j = i
        · subst hj
          rw [Function.update_self, Function.update_self]
        · rw [Function.update_of_ne hj, Function.update_of_ne hj, hs]
      have hrest : is.filterMap (Function.update slot i none) = is.filterMap slot := by
        apply List.filterMap_congr
        intro j hj
        rw [Function.update_of_ne (ne_of_mem_of_not_mem hj hi)]
      rw [hrel, List.filterMap_cons_some hi']
      refine (ih hnd hs').trans (congrArg some ?_)
      rw [hrest]
      congr 1
      funext j
      by_cases hj : j = i
      · subst hj
        simp
      · simp [hj]

/-- The loop deals out the channels it gets, and releases the table when one is refused. -/
theorem completeExcl_eq {is : List Cpu} (hnd : is.Nodup) {s : Kept E} {slot : Cpu → Option Chan}
    (hs : s.percpu_chan_copy = fun i => cpuSlot (slot i)) {s₁ : Kept E} (hs₁ : s₁ = { s with
      engine := (p.take is.length s.engine).1
      percpu_chan_copy := fun i => cpuSlot ((dealt is (p.take is.length s.engine).2 i).or (slot i)) }) :
    Excl.completeExcl p present is s =
      if p.Grants is.length s.engine then some (s₁, 0) else (Excl.release_dma_chan_excl p present s₁).map (·, -1) := by
  subst hs₁
  induction is generalizing s slot with
  | nil =>
    rw [if_pos (show p.Grants [].length s.engine from Pool.grants_zero)]
    simp [Excl.completeExcl, Pool.take, dealt, ← hs]
  | cons i is ih =>
    obtain ⟨hi, hnd⟩ := List.nodup_cons.1 hnd
    unfold Excl.completeExcl
    cases hr : p.request s.engine with
    | mk engine chan =>
      cases chan with
      | some chan =>
        have hs' : Function.update s.percpu_chan_copy i (cpuSlot (some chan)) =
            fun j => cpuSlot (Function.update slot i (some chan) j) := by
          funext j
          by_cases hj : j = i
          · subst hj
            rw [Function.update_self, Function.update_self]
          · rw [Function.update_of_ne hj, Function.update_of_ne hj, hs]
        have hih := @ih hnd (({ s with engine }).setCpu i ⟨some chan, 1⟩) _ hs'
        have hslots : ∀ j, (dealt (i :: is) (chan :: (p.take is.length engine).2) j).or (slot j) =
            (dealt is (p.take is.length engine).2 j).or (Function.update slot i (some chan) j) := by
          intro j
          rw [dealt_cons]
          by_cases hj : j = i
          · subst hj
            rw [if_pos rfl, Function.update_self, dealt_of_not_mem hi]
            rfl
          · rw [if_neg hj, Function.update_of_ne hj]
        simp only [List.length_cons, Pool.grants_some hr, Pool.take_some hr, hslots]
        exact hih
      | none =>
        rw [List.length_cons, if_neg (Pool.not_grants_none hr), Pool.take_none hr]
        simp [dealt_nil, ← hs]

/-- The exclusive policy holds no channel. -/
def Kept.NoCpu (s : Kept E) : Prop := ∀ i, s.percpu_chan_copy i = ⟨none, 0⟩

/-- The priority policy holds no channel. -/
def Kept.NoPrio (s : Kept E) : Prop := ∀ i, s.list_chan_prio.chan_prio i = none

/-- A start of the exclusive policy takes a channel for each CPU, or none. -/
theorem start_policy_excl_eq (hnd : present.Nodup) {s : Kept E} (hs : s.NoCpu) :
    Excl.start_policy_excl p present s = some (match p.allOrNone present.length s.engine with
      | (engine, some chans) => ({ s with engine, percpu_chan_copy := fun i => cpuSlot (dealt present chans i) }, 0)
      | (engine, none) => ({ s with engine }, -1)) := by
  have hempty : s.percpu_chan_copy = fun _ => cpuSlot none := funext hs
  have hsame : ∀ (f : Cpu → ChanCopy) (engine : E), (∀ i, f i = ⟨none, 0⟩) →
      { s with engine, percpu_chan_copy := f } = { s with engine } := by
    intro f engine hf
    rw [show f = s.percpu_chan_copy from funext fun i => (hf i).trans (hs i).symm]
  have hinit : Excl.init_dma_chan_excl present s = s :=
    hsame _ s.engine fun i => by rw [hs, ite_self]
  have hdeal := @completeExcl_eq E p present present hnd s _ hempty _ rfl
  simp only [Option.or_none] at hdeal
  rw [Excl.start_policy_excl, Excl.complete_dma_chan_excl, hinit, hdeal]
  by_cases hg : p.Grants present.length s.engine
  · rw [if_pos hg, Pool.allOrNone_granted hg]
  · rw [if_neg hg, Pool.allOrNone_refused hg, Excl.release_dma_chan_excl, foldlM_releaseCpu hnd rfl,
      filterMap_dealt hnd Pool.take_length_le]
    refine congrArg (fun s => some (s, (-1 : Int))) (hsame _ _ fun i => ?_)
    split
    next => rfl
    next hi => rw [dealt_of_not_mem hi]; rfl

/-! ## The list of the priority policy -/

/-- The list with these channels, in this order. -/
def Kept.relist (s : Kept E) (engine : E) (chans : List Chan) : Kept E :=
  { s with engine, list_chan_prio := { s.list_chan_prio with chan_prio := fun i => chans[i]?, size := chans.length } }

/-- The loop adds the channels it gets to the list, and releases the list when one is
refused. -/
theorem completePrio_eq (s : Kept E) {m : Nat} {e : E} {chans : List Chan} (hlt : chans.length + m < 2 ^ 16)
    {s₁ : Kept E} (hs₁ : s₁ = s.relist (p.take m e).1 (chans ++ (p.take m e).2)) :
    Prio.completePrio p (List.range' chans.length m) (s.relist e chans) =
      if p.Grants m e then some (s₁, 0) else (Prio.release_dma_chan_prio p s₁).map (·, -1) := by
  subst hs₁
  induction m generalizing e chans with
  | zero => rw [if_pos Pool.grants_zero, Pool.take, List.append_nil, List.range'_zero, Prio.completePrio]
  | succ m ih =>
    rw [List.range'_succ]
    unfold Prio.completePrio
    have hreq : ∀ r, p.request e = r → p.request (s.relist e chans).engine = r := fun _ h => h
    cases hr : p.request e with
    | mk engine chan =>
      cases chan with
      | some chan =>
        -- the slot behind the last one is filled, and the list is longer by one
        have hset : (({ s.relist e chans with engine }).setPrio chans.length (some chan)).setSize
            (u16 (chans.length + 1 : Int)) = s.relist engine (chans ++ [chan]) := by
          have hupdate : Function.update (fun i => chans[i]?) chans.length (some chan) = fun i => (chans ++ [chan])[i]? := by
            funext i
            by_cases hi : i = chans.length
            · subst hi
              rw [Function.update_self, List.getElem?_concat_length]
            · rw [Function.update_of_ne hi, List.getElem?_append]
              split
              · rfl
              · rw [List.getElem?_eq_none (by omega), List.getElem?_eq_none (by rw [List.length_singleton]; omega)]
          have hsize : u16 (chans.length + 1 : Int) = (chans ++ [chan]).length := by
            rw [List.length_append, List.length_singleton]
            exact u16_of_lt (n := chans.length + 1) (by omega)
          unfold Kept.setSize Kept.setPrio Kept.relist
          rw [hsize]
          dsimp only
          rw [hupdate]
        have hih := @ih engine (chans ++ [chan]) (by rw [List.length_append, List.length_singleton]; omega)
        rw [List.append_assoc, List.singleton_append, List.length_append, List.length_singleton] at hih
        simp only [hreq _ hr, Option.isSome_some, if_true, Pool.grants_some hr, Pool.take_some hr]
        rw [← hih, ← hset]
        rfl
      | none =>
        have hset : ({ s.relist e chans with engine }).setPrio chans.length none = s.relist engine chans := by
          have hupdate : Function.update (fun i => chans[i]?) chans.length none = fun i => chans[i]? := by
            rw [Function.update_eq_self_iff]
            exact (List.getElem?_eq_none (Nat.le_refl _)).symm
          unfold Kept.setPrio Kept.relist
          dsimp only
          rw [hupdate]
        simp only [hreq _ hr, Option.isSome_none, Bool.false_eq_true, if_false, if_neg (Pool.not_grants_none hr),
          Pool.take_none hr, List.append_nil, hset]

/-- A release gives back the channels of the list, and empties it. -/
theorem release_dma_chan_prio_eq (s : Kept E) (e : E) (chans : List Chan) :
    Prio.release_dma_chan_prio p (s.relist e chans) = some (s.relist (p.giveBack e chans) []) := by
  -- the list from index `k` on
  have h : ∀ (chans : List Chan) (k : Nat) (e : E) (s : Kept E), s.engine = e →
      s.list_chan_prio.chan_prio = (fun i => if i < k then none else chans[i - k]?) →
      (List.range' k chans.length).foldlM (Prio.releasePrio p) s = some { s with
        engine := p.giveBack e chans
        list_chan_prio := { s.list_chan_prio with chan_prio := fun _ => none } } := by
    intro chans
    induction chans with
    | nil =>
      intro k e s he hs
      have hnone : s.list_chan_prio.chan_prio = fun _ => none := by
        rw [hs]
        funext i
        split <;> rfl
      subst he
      rw [← hnone]
      rfl
    | cons chan chans ih =>
      intro k e s he hs
      have hk : s.list_chan_prio.chan_prio k = some chan := by
        rw [hs]
        dsimp only
        rw [if_neg (Nat.lt_irrefl k), Nat.sub_self]
        rfl
      have hnext : Function.update s.list_chan_prio.chan_prio k none =
          fun i => if i < k + 1 then none else chans[i - (k + 1)]? := by
        funext i
        by_cases hi : i = k
        · subst hi
          rw [Function.update_self, if_pos (Nat.lt_succ_self i)]
        · rw [Function.update_of_ne hi, hs]
          dsimp only
          by_cases hlt : i < k
          · rw [if_pos hlt, if_pos (Nat.lt_succ_of_lt hlt)]
          · rw [if_neg hlt, if_neg (by omega), show i - k = i - (k + 1) + 1 by omega, List.getElem?_cons_succ]
      rw [List.length_cons, List.range'_succ, List.foldlM_cons, Prio.releasePrio, hk, Option.map_some]
      refine (ih (k + 1) _ _ rfl hnext).trans ?_
      subst he
      rfl
  have hrange := h chans 0 e (s.relist e chans) rfl (by funext i; rw [if_neg (Nat.not_lt_zero i), Nat.sub_zero]; rfl)
  unfold Prio.release_dma_chan_prio
  rw [List.range_eq_range', show (s.relist e chans).list_chan_prio.size = chans.length from rfl, hrange]
  rfl

/-- A start of the priority policy takes all its channels, or none. -/
theorem start_policy_prio2_eq {s : Kept E} (hs : s.NoPrio) (high low : Int) :
    Prio.start_policy_prio2 p high low s = some (match p.allOrNone DMA_MAX_CHAN_PRIO s.engine with
      | (engine, some chans) => ({ Prio.setPriorities ((Prio.init_dma_chan_prio s).relist engine chans) with
          prio_timer := prioTimer2 high low }, DMA_MAX_CHAN_PRIO)
      | (engine, none) => ((Prio.init_dma_chan_prio s).relist engine [], -1)) := by
  have hinit : Prio.init_dma_chan_prio s = (Prio.init_dma_chan_prio s).relist s.engine [] := by
    unfold Prio.init_dma_chan_prio Kept.relist
    congr 2
    funext i
    rw [hs, ite_self]
    rfl
  have hcomplete := @completePrio_eq E p (Prio.init_dma_chan_prio s) DMA_MAX_CHAN_PRIO s.engine [] (by decide) _ rfl
  rw [← hinit] at hcomplete
  rw [List.length_nil, List.nil_append] at hcomplete
  unfold Prio.start_policy_prio2 Prio.complete_dma_chan_prio
  rw [List.range_eq_range', hcomplete]
  by_cases hg : p.Grants DMA_MAX_CHAN_PRIO s.engine
  · rw [if_pos hg, Pool.allOrNone_granted hg, Option.map_some]
    dsimp only
    rw [if_neg (Int.lt_irrefl 0)]
    have hsize : ((p.take DMA_MAX_CHAN_PRIO s.engine).2.length : Int) = DMA_MAX_CHAN_PRIO := congrArg Nat.cast hg
    exact congrArg (fun n => some (_, n)) hsize
  · rw [if_neg hg, Pool.allOrNone_refused hg, release_dma_chan_prio_eq]
    rfl

end

/-! ## What the starts leave -/

section

variable {E : Type}

/-- Every present CPU has a channel of its own, and those are the channels there were;
or every slot is empty, and each of the channels there were has been released once. -/
structure ExclOutcome (p : Pool E Chan) (present : List Cpu) (s s' : Kept E) : Prop where
  granted : p.Grants present.length s.engine →
    (∀ i ∈ present, (s'.percpu_chan_copy i).use = 1 ∧ (s'.percpu_chan_copy i).chan.isSome) ∧
    (∀ i ∈ present, ∀ j ∈ present, (s'.percpu_chan_copy i).chan = (s'.percpu_chan_copy j).chan → i = j) ∧
    present.map (fun i => (s'.percpu_chan_copy i).chan) = (p.take present.length s.engine).2.map some
  refused : ¬ p.Grants present.length s.engine → (∀ i, s'.percpu_chan_copy i = ⟨none, 0⟩) ∧
    s'.engine = p.giveBack (p.take present.length s.engine).1 (p.take present.length s.engine).2
  rest : s'.list_chan_prio = s.list_chan_prio ∧ s'.prio_timer = s.prio_timer

/-- The same for the list of the priority policy. -/
structure PrioOutcome (p : Pool E Chan) (aligned : Chan → Bool) (high low : Int) (s s' : Kept E) : Prop where
  granted : p.Grants DMA_MAX_CHAN_PRIO s.engine → s'.list_chan_prio.size = DMA_MAX_CHAN_PRIO ∧
    (∀ i < DMA_MAX_CHAN_PRIO, ∀ j < DMA_MAX_CHAN_PRIO,
      s'.list_chan_prio.priority i = s'.list_chan_prio.priority j → i = j) ∧
    (∀ i < DMA_MAX_CHAN_PRIO, (s'.list_chan_prio.chan_prio i).isSome ∧
      Prio.copy_dma_get_channel_prio aligned s' (s'.list_chan_prio.priority i) = s'.list_chan_prio.chan_prio i) ∧
    (∀ priority, (∀ i < DMA_MAX_CHAN_PRIO, s'.list_chan_prio.priority i ≠ priority) →
      Prio.copy_dma_get_channel_prio aligned s' priority = none) ∧
    (List.range DMA_MAX_CHAN_PRIO).map s'.list_chan_prio.chan_prio = (p.take DMA_MAX_CHAN_PRIO s.engine).2.map some ∧
    s'.prio_timer = prioTimer2 high low
  refused : ¬ p.Grants DMA_MAX_CHAN_PRIO s.engine → s'.list_chan_prio.size = 0 ∧
    (∀ i, s'.list_chan_prio.chan_prio i = none) ∧
    s'.engine = p.giveBack (p.take DMA_MAX_CHAN_PRIO s.engine).1 (p.take DMA_MAX_CHAN_PRIO s.engine).2 ∧
    s'.prio_timer = s.prio_timer
  rest : s'.percpu_chan_copy = s.percpu_chan_copy

variable {p : Pool E Chan} {present : List Cpu} {s : Kept E}

theorem start_policy_excl_outcome (hnd : present.Nodup) (hs : s.NoCpu)
    (hdistinct : (p.take present.length s.engine).2.Nodup) :
    ∃ s' ret, Excl.start_policy_excl p present s = some (s', ret) ∧ ExclOutcome p present s s' ∧
      ret = if p.Grants present.length s.engine then 0 else -1 := by
  rw [start_policy_excl_eq hnd hs]
  by_cases hg : p.Grants present.length s.engine
  · rw [Pool.allOrNone_granted hg, if_pos hg]
    refine ⟨_, _, rfl, ⟨fun _ => ?_, fun hn => absurd hg hn, rfl, rfl⟩, rfl⟩
    have hmap : present.map (fun i => (cpuSlot (dealt present (p.take present.length s.engine).2 i)).chan) =
        (p.take present.length s.engine).2.map some := by
      have := map_dealt hnd (Nat.le_of_eq hg)
      rw [hg, Nat.sub_self, List.replicate_zero, List.append_nil] at this
      rw [← this]
      exact List.map_congr_left fun i _ => cpuSlot_chan _
    refine ⟨fun i hi => ?_, fun i hi j hj hij => ?_, hmap⟩
    · obtain ⟨chan, -, hchan⟩ := List.mem_map.1 (hmap ▸ List.mem_map_of_mem hi)
      rw [cpuSlot_chan] at hchan
      dsimp only
      rw [← hchan]
      exact ⟨rfl, rfl⟩
    · have hnodup := hdistinct.map fun _ _ h => Option.some.inj h
      rw [← hmap] at hnodup
      exact List.inj_on_of_nodup_map hnodup hi hj hij
  · rw [Pool.allOrNone_refused hg, if_neg hg]
    exact ⟨_, _, rfl, ⟨fun h => absurd h hg, fun _ => ⟨hs, rfl⟩, rfl, rfl⟩, rfl⟩

/-- The lookup in a list whose priorities are the indices. -/
theorem lookup_prio {aligned : Chan → Bool} (haligned : ∀ chan, aligned chan = true)
    (hpriority : ∀ i < s.list_chan_prio.size, s.list_chan_prio.priority i = i) (priority : Nat) :
    Prio.copy_dma_get_channel_prio aligned s priority =
      if priority < s.list_chan_prio.size then s.list_chan_prio.chan_prio priority else none := by
  have hfilter : ∀ chan : Option Chan, chan.filter aligned = chan := by
    intro chan
    cases chan with
    | none => rfl
    | some chan => rw [Option.filter_some, if_pos (haligned chan)]
  unfold Prio.copy_dma_get_channel_prio
  rw [hfilter]
  split
  next hlt =>
    have hfind : (List.range s.list_chan_prio.size).find? (s.list_chan_prio.priority · = priority) = some priority := by
      rw [List.find?_range_eq_some]
      refine ⟨decide_eq_true (hpriority _ hlt), List.mem_range.2 hlt, fun j hj => ?_⟩
      rw [hpriority j (Nat.lt_trans hj hlt)]
      simpa using Nat.ne_of_lt hj
    rw [hfind, Option.bind_some]
  next hge =>
    have hfind : (List.range s.list_chan_prio.size).find? (s.list_chan_prio.priority · = priority) = none := by
      rw [List.find?_range_eq_none]
      intro j hj
      rw [hpriority j hj, Bool.not_eq_true', decide_eq_false_iff_not]
      rintro rfl
      exact hge hj
    rw [hfind, Option.bind_none]

/-- What a full list comes to. -/
theorem full_list {chans : List Chan} (hlen : chans.length = DMA_MAX_CHAN_PRIO)
    (hsize : s.list_chan_prio.size = DMA_MAX_CHAN_PRIO) (hchan : s.list_chan_prio.chan_prio = fun i => chans[i]?)
    (hpriority : ∀ i < DMA_MAX_CHAN_PRIO, s.list_chan_prio.priority i = i) {aligned : Chan → Bool}
    (haligned : ∀ chan, aligned chan = true) :
    (∀ i < DMA_MAX_CHAN_PRIO, ∀ j < DMA_MAX_CHAN_PRIO,
      s.list_chan_prio.priority i = s.list_chan_prio.priority j → i = j) ∧
    (∀ i < DMA_MAX_CHAN_PRIO, (s.list_chan_prio.chan_prio i).isSome ∧
      Prio.copy_dma_get_channel_prio aligned s (s.list_chan_prio.priority i) = s.list_chan_prio.chan_prio i) ∧
    (∀ priority, (∀ i < DMA_MAX_CHAN_PRIO, s.list_chan_prio.priority i ≠ priority) →
      Prio.copy_dma_get_channel_prio aligned s priority = none) ∧
    (List.range DMA_MAX_CHAN_PRIO).map s.list_chan_prio.chan_prio = chans.map some := by
  have hlookup := lookup_prio haligned fun i hi => hpriority i (hsize ▸ hi)
  rw [hsize] at hlookup
  refine ⟨?_, ?_, ?_, ?_⟩
  · intro i hi j hj hij
    rwa [hpriority i hi, hpriority j hj] at hij
  · intro i hi
    rw [hpriority i hi, hlookup, if_pos hi, hchan]
    dsimp only
    rw [List.getElem?_eq_getElem (hlen ▸ hi)]
    exact ⟨rfl, rfl⟩
  · intro priority hfree
    rw [hlookup, if_neg fun hlt => hfree priority hlt (hpriority priority hlt)]
  · rw [hchan, ← hlen]
    apply List.ext_getElem
    · simp
    · intro i _ hi
      simp

theorem start_policy_prio2_outcome (hs : s.NoPrio) {aligned : Chan → Bool} (haligned : ∀ chan, aligned chan = true)
    (high low : Int) : ∃ s' ret, Prio.start_policy_prio2 p high low s = some (s', ret) ∧
      PrioOutcome p aligned high low s s' ∧
      ret = if p.Grants DMA_MAX_CHAN_PRIO s.engine then ( DMA_MAX_CHAN_PRIO : Int) else -1 := by
  rw [start_policy_prio2_eq hs]
  by_cases hg : p.Grants DMA_MAX_CHAN_PRIO s.engine
  · rw [Pool.allOrNone_granted hg, if_pos hg]
    refine ⟨_, _, rfl, ⟨fun _ => ?_, fun hn => absurd hg hn, rfl⟩, rfl⟩
    have hpriority : ∀ i < DMA_MAX_CHAN_PRIO, u16 (i + DMA_HIGH_PRIO : Int) = i := fun i hi =>
      u16_of_lt (Nat.lt_trans hi (by decide))
    obtain ⟨h1, h2, h3, h4⟩ := @full_list E { Prio.setPriorities ((Prio.init_dma_chan_prio s).relist _ _) with
      prio_timer := prioTimer2 high low } _ hg hg rfl (fun i hi => (if_pos (hg.symm ▸ hi)).trans (hpriority i hi)) _ haligned
    exact ⟨hg, h1, h2, h3, h4, rfl⟩
  · rw [Pool.allOrNone_refused hg, if_neg hg]
    exact ⟨_, _, rfl, ⟨fun h => absurd h hg, fun _ => ⟨rfl, fun _ => rfl, rfl, rfl⟩, rfl⟩, rfl⟩

/-- Whatever is answered to the requests, a start of a policy that holds no channel gets everything or leaves nothing. -/
theorem start_all_or_nothing (p : Pool E Chan) (hnd : present.Nodup)
    (hdistinct : (p.take present.length s.engine).2.Nodup) {b : Board} (halign : ∀ chan, b.copy_align (b.device chan) = 0)
    (high low : Int) :
    (s.NoCpu →
      (∃ s' ret, Excl.start_policy_excl p present s = some (s', ret) ∧ ExclOutcome p present s s' ∧
        (ret = 0 ↔ p.Grants present.length s.engine) ∧ (¬ p.Grants present.length s.engine → ret < 0)) ∧
      ∃ s', Boot.boot_complete_dma_chan p present (Boot.boot_init_dma_chan present s) = some s' ∧
        ExclOutcome p present s s') ∧
    (s.NoPrio → ∃ s' ret, Prio.start_policy_prio2 p high low s = some (s', ret) ∧
      PrioOutcome p (fun chan => is_dma_copy_aligned b (b.device chan) 1 1 1) high low s s' ∧
      (p.Grants DMA_MAX_CHAN_PRIO s.engine → ret = DMA_MAX_CHAN_PRIO) ∧
      (¬ p.Grants DMA_MAX_CHAN_PRIO s.engine → ret < 0)) := by
  constructor
  · intro hs
    obtain ⟨s₁, ret₁, h₁, hout₁, rfl⟩ := start_policy_excl_outcome hnd hs hdistinct
    refine ⟨⟨s₁, _, h₁, hout₁, ?_, ?_⟩, s₁, ?_, hout₁⟩
    · split
      next hg => exact iff_of_true rfl hg
      next hg => exact iff_of_false (by decide) hg
    · intro hg
      rw [if_neg hg]
      decide
    · rw [Boot.boot_eq_start, h₁]
      rfl
  · intro hs
    have haligned : ∀ chan, is_dma_copy_aligned b (b.device chan) 1 1 1 = true := by
      intro chan
      rw [is_dma_copy_aligned, halign]
      rfl
    obtain ⟨s₂, ret₂, h₂, hout₂, rfl⟩ := @start_policy_prio2_outcome E p s hs _ haligned high low
    refine ⟨s₂, _, h₂, hout₂, fun hg => if_pos hg, fun hg => ?_⟩
    rw [if_neg hg]
    decide

end

/-- Answers that are laid down, and the channels given back so far. -/
def scripted : Pool (List (Option Chan) × List Chan) Chan where
  request e := ((e.1.tail, e.2), e.1.head?.join)
  release e chan := (e.1, e.2 ++ [chan])

def scriptedStart (answers : List (Option Chan)) : Kept (List (Option Chan) × List Chan) :=
  ⟨(answers, []), sampleState.percpu_chan_copy, sampleState.list_chan_prio, sampleState.prio_timer⟩

/-- The third CPU's request is refused. -/
theorem start_all_or_nothing_sample : ∃ s' ret,
    Excl.start_policy_excl scripted [0, 1, 2] (scriptedStart [some 3, some 5, none]) = some (s', ret) ∧ ret < 0 ∧
      s'.engine.2 = [3, 5] := by
  obtain ⟨hexcl, -⟩ := @start_all_or_nothing _ [0, 1, 2] (scriptedStart [some 3, some 5, none]) scripted (by decide)
    (by decide) sampleBoard (fun _ => rfl) 700 300
  obtain ⟨⟨s', ret, hstart, hout, -, hret⟩, -⟩ := hexcl fun _ => rfl
  have hrefused : ¬ scripted.Grants [0, 1, 2].length (scriptedStart [some 3, some 5, none]).engine := by decide
  refine ⟨s', ret, hstart, hret hrefused, ?_⟩
  rw [(hout.refused hrefused).2]
  decide

/-! ## The DMA engine's answers -/

section

variable {b : Board}

/-- The engine hands out no channel twice. -/
theorem enginePool_distinct : ∀ {n : Nat} {held : List Chan} {e : Dmaengine.State}, Private b held e →
    ((enginePool b).take n e).2.Nodup ∧ ∀ chan ∈ ((enginePool b).take n e).2, chan ∉ held := by
  intro n
  induction n with
  | zero => intro held e _; exact ⟨List.nodup_nil, by simp [Pool.take]⟩
  | succ n ih =>
    intro held e h
    obtain ⟨hpriv, -⟩ := dma_request_channel_private [DMA_MEMCPY] none h
    cases hr : (enginePool b).request e with
    | mk e' r =>
      have hr' : dma_request_channel b [DMA_MEMCPY] none e = (e', r) := hr
      rw [hr'] at hpriv
      cases r with
      | none =>
        rw [Pool.take_none hr]
        exact ⟨List.nodup_nil, by simp⟩
      | some chan =>
        rw [Pool.take_some hr]
        obtain ⟨hnodup, hfresh⟩ := ih hpriv
        have hnew := (List.nodup_cons.1 hpriv.held_nodup).1
        refine ⟨List.nodup_cons.2 ⟨fun hmem => hfresh chan hmem List.mem_cons_self, hnodup⟩, ?_⟩
        intro c hc
        rcases List.mem_cons.1 hc with rfl | hc
        · exact hnew
        · exact fun hheld => hfresh c hc (List.mem_cons_of_mem _ hheld)

/-- The starts over the DMA engine, from a state without policies. -/
theorem engine_all_or_nothing {s : State} (h : NoPolicy b s) (hnd : b.present.Nodup)
    (halign : ∀ chan, is_dma_copy_aligned b (b.device chan) 1 1 1 = true) (high low : Int) :
    (∃ s' ret, start_policy_excl b s = some (s', ret) ∧ ExclOutcome (enginePool b) b.present s.kept s'.kept ∧
      ret = if (enginePool b).Grants b.present.length s.engine then 0 else -1) ∧
    (∃ s', boot_complete_dma_chan b (boot_init_dma_chan b s) = some s' ∧
      ExclOutcome (enginePool b) b.present s.kept s'.kept) ∧
    ∃ s' ret, start_policy_prio2 b high low s = some (s', ret) ∧
      PrioOutcome (enginePool b) (fun chan => is_dma_copy_aligned b (b.device chan) 1 1 1) high low s.kept s'.kept ∧
      ret = if (enginePool b).Grants DMA_MAX_CHAN_PRIO s.engine then ( DMA_MAX_CHAN_PRIO : Int) else -1 := by
  have hdistinct := (@enginePool_distinct b b.present.length [] s.engine h.no_client.inv.toPrivate).1
  obtain ⟨k₁, ret₁, h₁, hout₁, hret₁⟩ := start_policy_excl_outcome hnd (show s.kept.NoCpu from h.percpu) hdistinct
  obtain ⟨k₂, ret₂, h₂, hout₂, hret₂⟩ := @start_policy_prio2_outcome _ (enginePool b) s.kept h.chan_prio _ halign high low
  rw [← start_policy_excl_engine] at h₁
  rw [← start_policy_prio2_engine] at h₂
  obtain ⟨⟨s₁, _⟩, hs₁, heq₁⟩ := Option.map_eq_some_iff.1 h₁
  obtain ⟨⟨s₂, _⟩, hs₂, heq₂⟩ := Option.map_eq_some_iff.1 h₂
  cases heq₁
  cases heq₂
  refine ⟨⟨s₁, _, hs₁, hout₁, hret₁⟩, ⟨s₁, ?_, hout₁⟩, ⟨s₂, _, hs₂, hout₂, hret₂⟩⟩
  rw [boot_eq_start, hs₁]
  rfl

end

end Dmacftu.Policy
