import Dmacftu.Policy
/-!
# Threads on the shared policy

`start_policy_sh` and `stop_policy_sh` take two steps each, every one of them under
`dma_list_mutex`: the engine's reference and `copy_dmaengine_ref_count`. A
lookup tests `copy_dmaengine_ref_count` and then reads the table, under no
lock. Any number of threads interleave these steps.

Both calls move the engine's reference first. A start therefore counts itself
only when the table is there, but a stop leaves its count standing after
`dmaengine_put` has freed the channels, and a lookup that reads the table then
returns one of them. `lookups_in_use_iff` says which reads go wrong, while an
`int` counts the starts.
-/
open Lib.Runs

namespace Dmacftu.SharedPolicy

open Dmaengine Dmaengine.TxType

abbrev Tid := Nat

/-- Where a thread stands. -/
inductive Pc where
  | idle
  /-- In `copy_dmaengine_get`, after `dmaengine_get`. -/
  | getting
  /-- In `copy_dmaengine_put`, after `dmaengine_put`. -/
  | putting
  /-- In `copy_dma_get_channel_sh`, after a test that passed. -/
  | looking
deriving DecidableEq, Repr

structure State where
  engine : Dmaengine.State
  pc : Tid → Pc
  /-- Completed starts that no stop has answered yet. -/
  started : Nat

inductive Act where
  | get (t : Tid)
  | get_count (t : Tid)
  | put (t : Tid)
  | put_count (t : Tid)
  | test (t : Tid)
  | read (t : Tid) (cpu : Cpu)
deriving DecidableEq, Repr

def addCopyRef (engine : Dmaengine.State) (n : Int) : Dmaengine.State :=
  { engine with copy_dmaengine_ref_count := engine.copy_dmaengine_ref_count + n }

def State.goto (s : State) (t : Tid) (pc : Pc) : State := { s with pc := Function.update s.pc t pc }

/-- A stop begins only for a start that has completed. -/
def step (b : Board) (s : State) : Act → Option State
  | .get t =>
    if s.pc t = .idle then some { s.goto t .getting with engine := dmaengine_get b s.engine } else none
  | .get_count t =>
    if s.pc t = .getting then
      some { s.goto t .idle with engine := addCopyRef s.engine 1, started := s.started + 1 }
    else none
  | .put t =>
    if s.pc t = .idle ∧ 0 < s.started then
      some { s.goto t .putting with engine := dmaengine_put b s.engine, started := s.started - 1 }
    else none
  | .put_count t =>
    if s.pc t = .putting then some { s.goto t .idle with engine := addCopyRef s.engine (-1) } else none
  | .test t =>
    if s.pc t = .idle then
      some (if 0 < s.engine.copy_dmaengine_ref_count then s.goto t .looking else s)
    else none
  | .read t cpu => if s.pc t = .looking ∧ cpu ∈ b.possible then some (s.goto t .idle) else none

/-- What the table gives a lookup on `cpu` that passed its test. -/
def found (b : Board) (s : State) (cpu : Cpu) : Option Chan :=
  alignedChan b (dma_find_channel s.engine cpu DMA_MEMCPY)

/-- If the step ends a lookup, the channel returned has a client. -/
def LookupOk (b : Board) (s : State) : Act → Prop
  | .read t cpu => s.pc t = .looking → cpu ∈ b.possible →
    ∀ chan, found b s cpu = some chan → 0 < s.engine.client_count chan
  | _ => True

/-- If the step ends a lookup, there is a public client, or the entry read is no
copy-aligned channel of a listed device. -/
def ReadSafe (b : Board) (s : State) : Act → Prop
  | .read t cpu => s.pc t = .looking → cpu ∈ b.possible →
    0 < s.engine.dmaengine_ref_count ∨
      ∀ chan, s.engine.channel_table DMA_MEMCPY cpu = some chan → is_dma_copy_aligned b (b.device chan) 1 1 1 →
        ∀ d ∈ s.engine.dma_device_list, chan ∉ b.channels d
  | _ => True

/-- If the step begins a start, an `int` counts the starts there are then. -/
def FewStarts (s : State) : Act → Prop
  | .get _ => s.engine.dmaengine_ref_count + 1 < 2 ^ 31
  | _ => True

instance (s : State) : ∀ a, Decidable (FewStarts s a)
  | .get _ => inferInstanceAs (Decidable (_ < _))
  | .get_count _ | .put _ | .put_count _ | .test _ | .read .. => .isTrue trivial

variable {b : Board} {s s' : State}

/-! ## One thread alone -/

theorem start_alone {t : Tid} (h : s.pc t = .idle) :
    exec (step b) s [.get t, .get_count t] =
      some { s with engine := copy_dmaengine_get b s.engine, started := s.started + 1 } := by
  simp [exec, step, State.goto, h, copy_dmaengine_get, addCopyRef]

theorem stop_alone {t : Tid} (h : s.pc t = .idle) (h0 : 0 < s.started) :
    exec (step b) s [.put t, .put_count t] =
      some { s with engine := copy_dmaengine_put b s.engine, started := s.started - 1 } := by
  simp [exec, step, State.goto, h, h0, copy_dmaengine_put, addCopyRef, Int.sub_eq_add_neg]

/-- A lookup that passed its test returns what `copy_dma_get_channel_sh` does. -/
theorem lookup_alone {cpu : Cpu} (h : 0 < s.engine.copy_dmaengine_ref_count) :
    found b s cpu = copy_dma_get_channel_sh b s.engine cpu := by
  simp [found, copy_dma_get_channel_sh, h]

/-! ## The invariant -/

/-- The engine has a reference of each start that no stop has answered and of
each thread between the two steps of a start. An entry of the table has a
client unless its device is listed. -/
structure Inv (b : Board) (s : State) : Prop where
  engine : Dmaengine.Inv b [] s.engine
  refs : ∃ getting : List Tid, getting.Nodup ∧ (∀ t, t ∈ getting ↔ s.pc t = .getting) ∧
    s.engine.dmaengine_ref_count = s.started + getting.length
  stale : ∀ cpu ∈ b.possible, ∀ chan, s.engine.channel_table DMA_MEMCPY cpu = some chan →
    0 < s.engine.client_count chan ∨ ∃ d ∈ s.engine.dma_device_list, chan ∈ b.channels d

theorem entry_in_use (h : Dmaengine.Inv b [] s.engine) (hr : 0 < s.engine.dmaengine_ref_count) {cpu : Cpu}
    (hcpu : cpu ∈ b.possible) {chan : Chan} (hchan : s.engine.channel_table DMA_MEMCPY cpu = some chan) :
    0 < s.engine.client_count chan :=
  (h.table hr DMA_MEMCPY (by decide) cpu hcpu chan hchan).1

/-- Threads that are not between the two steps of a start come and go. -/
theorem Inv.goto (h : Inv b s) {t : Tid} {pc : Pc} (ht : s.pc t ≠ .getting) (hpc : pc ≠ .getting) :
    Inv b (s.goto t pc) := by
  obtain ⟨getting, hnd, hmem, href⟩ := h.refs
  refine ⟨h.engine, ⟨getting, hnd, ?_, href⟩, h.stale⟩
  intro u
  by_cases hu : u = t
  · subst hu
    simp [hmem, State.goto, ht, hpc]
  · simp [hmem, State.goto, hu]

/-- Only the lookups read `copy_dmaengine_ref_count`. -/
theorem Inv.addCopyRef (h : Inv b s) (n : Int) : Inv b { s with engine := addCopyRef s.engine n } :=
  ⟨{ h.engine with }, h.refs, h.stale⟩

theorem get_inv (h : Inv b s) {t : Tid} (ht : s.pc t = .idle) (hfew : FewStarts s (.get t)) :
    Inv b { s.goto t .getting with engine := dmaengine_get b s.engine } := by
  obtain ⟨getting, hnd, hmem, href⟩ := h.refs
  have hinv := dmaengine_get_inv h.engine hfew
  have href' : (dmaengine_get b s.engine).dmaengine_ref_count = s.engine.dmaengine_ref_count + 1 :=
    congrArg Prod.fst (dmaengine_get_refs b s.engine)
  refine ⟨hinv, ⟨t :: getting, ?_, ?_, ?_⟩, ?_⟩
  · refine List.nodup_cons.2 ⟨?_, hnd⟩
    rw [hmem, ht]
    decide
  · intro u
    by_cases hu : u = t
    · subst hu
      simp [State.goto]
    · simp [hmem, State.goto, hu]
  · simp only [href', href, List.length_cons, State.goto]
    omega
  · intro cpu hcpu chan hchan
    have := h.engine.ref_nonneg
    exact .inl (hinv.table (by omega) DMA_MEMCPY (by decide) cpu hcpu chan hchan).1

theorem get_count_inv (h : Inv b s) {t : Tid} (ht : s.pc t = .getting) :
    Inv b { s.goto t .idle with engine := addCopyRef s.engine 1, started := s.started + 1 } := by
  obtain ⟨getting, hnd, hmem, href⟩ := h.refs
  have htg : t ∈ getting := (hmem t).2 ht
  refine ⟨(h.addCopyRef 1).engine, ⟨getting.erase t, hnd.erase t, ?_, ?_⟩, h.stale⟩
  · intro u
    by_cases hu : u = t
    · subst hu
      simp [State.goto, hnd.not_mem_erase]
    · simp [State.goto, hu, List.mem_erase_of_ne hu, hmem]
  · have hpos := List.length_pos_of_mem htg
    have href' : (addCopyRef s.engine 1).dmaengine_ref_count = s.started + getting.length := href
    simp only [href', List.length_erase_of_mem htg]
    omega

theorem put_inv (h : Inv b s) {t : Tid} (ht : s.pc t = .idle) (h0 : 0 < s.started) :
    Inv b { s.goto t .putting with engine := dmaengine_put b s.engine, started := s.started - 1 } := by
  have hgoto : Inv b (s.goto t .putting) := h.goto (by simp [ht]) (by decide)
  obtain ⟨getting, hnd, hmem, href⟩ := hgoto.refs
  have hr : 0 < s.engine.dmaengine_ref_count := by
    have : s.engine.dmaengine_ref_count = s.started + getting.length := href
    omega
  have hinv := dmaengine_put_inv h.engine hr
  have href' : (dmaengine_put b s.engine).dmaengine_ref_count = s.engine.dmaengine_ref_count - 1 :=
    congrArg Prod.fst (dmaengine_put_refs b s.engine)
  obtain ⟨htables, hother⟩ := dmaengine_put_stale b s.engine
  obtain ⟨htable, hlist⟩ := Prod.mk.inj htables
  refine ⟨hinv, ⟨getting, hnd, hmem, ?_⟩, ?_⟩
  · have : s.engine.dmaengine_ref_count = s.started + getting.length := href
    simp only [href']
    omega
  · intro cpu hcpu chan hchan
    simp only [hlist]
    have hchan' : s.engine.channel_table DMA_MEMCPY cpu = some chan := by rw [← htable]; exact hchan
    -- a channel of a listed device may lose its last client here; the table keeps it
    by_cases hd : ∃ d ∈ s.engine.dma_device_list, chan ∈ b.channels d
    · exact .inr hd
    · left
      rw [hother chan fun d hd' hc => hd ⟨d, hd', hc⟩]
      exact entry_in_use h.engine hr hcpu hchan'

theorem step_inv (h : Inv b s) {a : Act} (hfew : FewStarts s a) (hs : step b s a = some s') : Inv b s' := by
  cases a with
  | get t =>
    simp only [step] at hs
    split at hs
    next ht => cases hs; exact get_inv h ht hfew
    next => cases hs
  | get_count t =>
    simp only [step] at hs
    split at hs
    next ht => cases hs; exact get_count_inv h ht
    next => cases hs
  | put t =>
    simp only [step] at hs
    split at hs
    next ht => cases hs; exact put_inv h ht.1 ht.2
    next => cases hs
  | put_count t =>
    simp only [step] at hs
    split at hs
    next ht => cases hs; exact (h.addCopyRef (-1)).goto (by simp [ht]) (by decide)
    next => cases hs
  | test t =>
    simp only [step] at hs
    split at hs
    next ht =>
      cases hs
      split
      · exact h.goto (by simp [ht]) (by decide)
      · exact h
    next => cases hs
  | read t cpu =>
    simp only [step] at hs
    split at hs
    next ht => cases hs; exact h.goto (by simp [ht.1]) (by decide)
    next => cases hs

/-! ## Which lookups return a channel in use -/

/-- Nobody uses the engine, and the table names channels of listed devices only. -/
structure Idle (b : Board) (s : State) : Prop where
  no_client : NoClient b s.engine
  pc : ∀ t, s.pc t = .idle
  started : s.started = 0
  entries : ∀ cpu ∈ b.possible, ∀ chan, s.engine.channel_table DMA_MEMCPY cpu = some chan →
    ∃ d ∈ s.engine.dma_device_list, chan ∈ b.channels d

theorem Idle.inv (h : Idle b s) : Inv b s := by
  refine ⟨h.no_client.inv, ⟨[], List.nodup_nil, ?_, ?_⟩, ?_⟩
  · intro t
    simp [h.pc t]
  · have := (Prod.mk.inj h.no_client.refs).1
    simp [this, h.started]
  · intro cpu hcpu chan hchan
    exact .inr (h.entries cpu hcpu chan hchan)

theorem found_iff {cpu : Cpu} {chan : Chan} : found b s cpu = some chan ↔
    s.engine.channel_table DMA_MEMCPY cpu = some chan ∧ is_dma_copy_aligned b (b.device chan) 1 1 1 = true := by
  simp only [found, alignedChan, Option.filter_eq_some_iff, dma_find_channel]

/-- A channel of a listed device is in use exactly while there is a public
client; one of a device that left the list is never freed. -/
theorem Inv.lookup_ok_iff (h : Inv b s) (a : Act) : LookupOk b s a ↔ ReadSafe b s a := by
  cases a with
  | read t cpu =>
    apply imp_congr_right
    intro _
    apply imp_congr_right
    intro hcpu
    constructor
    · intro hok
      by_cases hr : 0 < s.engine.dmaengine_ref_count
      · exact .inl hr
      right
      intro chan hchan haligned d hd hc
      -- with no public client, a channel of a listed device is free
      have hzero : s.engine.client_count chan = 0 := by
        have hdev := b.device_of_mem d chan hc
        have hnn := h.engine.ref_nonneg
        exact h.engine.idle_count (by omega) (hdev ▸ hd) (hdev.symm ▸ hc) (by simp)
      have := hok chan (found_iff.2 ⟨hchan, haligned⟩)
      omega
    · rintro (hr | hgone) chan hfound
      · exact entry_in_use h.engine hr hcpu (found_iff.1 hfound).1
      · obtain ⟨hchan, haligned⟩ := found_iff.1 hfound
        rcases h.stale cpu hcpu chan hchan with huse | ⟨d, hd, hc⟩
        · exact huse
        · exact absurd hc (hgone chan hchan haligned d hd)
  | _ => exact Iff.rfl

/-- Along every interleaving, every lookup returns a channel in use exactly if
every table read is safe. -/
theorem lookups_in_use_iff (b : Board) (s : State) (h : Idle b s) (acts : List Act)
    (hfew : along (step b) FewStarts s acts) :
    along (step b) (LookupOk b) s acts ↔ along (step b) (ReadSafe b) s acts :=
  along_congr (Inv b) (fun _ _ _ hi hfew hs => step_inv hi hfew hs) (fun _ a hi => hi.lookup_ok_iff a) h.inv hfew

def sampleState : State := ⟨Policy.sampleState.engine, fun _ => .idle, 0⟩

theorem sample_idle : Idle Policy.sampleBoard sampleState :=
  ⟨Policy.sample_no_policy.no_client, fun _ => rfl, rfl, by simp [sampleState, Policy.sampleState]⟩

/-- The lookup of thread 1 before the only stop begins. -/
def calm : List Act := [.get 0, .get_count 0, .test 1, .read 1 0, .put 0, .put_count 0]

theorem lookups_in_use_calm : along (step Policy.sampleBoard) (LookupOk Policy.sampleBoard) sampleState calm := by
  refine (lookups_in_use_iff Policy.sampleBoard sampleState sample_idle calm (by decide)).2 ?_
  refine ⟨trivial, ?_⟩
  rintro s₁ ⟨⟩
  refine ⟨trivial, ?_⟩
  rintro s₂ ⟨⟩
  refine ⟨trivial, ?_⟩
  rintro s₃ ⟨⟩
  refine ⟨fun _ _ => .inl (by decide), ?_⟩
  rintro s₄ ⟨⟩
  refine ⟨trivial, ?_⟩
  rintro s₅ ⟨⟩
  exact ⟨trivial, fun _ _ => trivial⟩

/-- The same lookup between the two steps of the stop. -/
def race : List Act := [.get 0, .get_count 0, .put 0, .test 1, .read 1 0, .put_count 0]

theorem released_channel_returned :
    (exec (step Policy.sampleBoard) sampleState race).isSome ∧
      ¬ along (step Policy.sampleBoard) (LookupOk Policy.sampleBoard) sampleState race := by
  refine ⟨by decide, ?_⟩
  rintro ⟨-, h₁⟩
  obtain ⟨-, h₂⟩ := h₁ _ rfl
  obtain ⟨-, h₃⟩ := h₂ _ rfl
  obtain ⟨-, h₄⟩ := h₃ _ rfl
  obtain ⟨h₅, -⟩ := h₄ _ rfl
  have hpos := h₅ rfl (by decide) 0 rfl
  exact absurd hpos (by decide)

end Dmacftu.SharedPolicy
