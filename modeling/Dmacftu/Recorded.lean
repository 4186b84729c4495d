import Dmacftu.Policy
/-!
# Which channels of the private policies are recorded

The table `percpu_chan_copy` and the list `list_chan_prio` are the only record
of the channels the exclusive and the priority policy have. Both start
functions begin by clearing theirs, so a start over a running policy forgets
channels that stay handed out for good: `recorded_iff` says that this is the
only way to lose one.

`Acquired` reads off the engine's own counters which channels are handed out.
`Core` splits them into those of a slot and the `lost` ones; the loops of the
policies move channels between the engine and the slots and lose none.
-/
open Lib.CInt Lib.Runs

namespace Dmacftu.Dmaengine

/-! ## The channels handed out -/

/-- Handed out by `dma_request_channel` and not released: the channel has a
client, and its device serves no public ones. -/
def Acquired (b : Board) (s : State) (chan : Chan) : Prop :=
  chan ∈ b.channels (b.device chan) ∧ s.dma_private (b.device chan) = true ∧ 0 < s.client_count chan

instance (b : Board) (s : State) (chan : Chan) : Decidable (Acquired b s chan) :=
  inferInstanceAs (Decidable (_ ∧ _))

/-- A private device's channels have no client but those of `held`, whether the
device is in the list or has left it. -/
def Known (b : Board) (held : List Chan) (s : State) : Prop :=
  ∀ d, s.dma_private d = true → ∀ chan ∈ b.channels d, chan ∉ held → s.client_count chan = 0

variable {b : Board} {held : List Chan} {s s' : State}

theorem acquired_iff (hi : Private b held s) (hk : Known b held s) (chan : Chan) :
    Acquired b s chan ↔ chan ∈ held := by
  constructor
  · rintro ⟨hc, hp, hpos⟩
    by_contra hn
    have := hk _ hp chan hc hn
    omega
  · intro h
    refine ⟨hi.held_mem chan h, hi.private_of_held h, ?_⟩
    rw [hi.held_count chan h]
    exact Int.one_pos

theorem Known.passes (hk : Known b held s) (h : Passes b s s') : Known b held s' := by
  intro d hd chan hchan hn
  rw [h.frame.dma_private] at hd
  rw [h.count d hd chan hchan]
  exact hk d hd chan hchan hn

theorem Known.get (hk : Known b held s) : Known b held (dmaengine_get b s) := by
  obtain ⟨s₂, t, tbl, h, heq⟩ := dmaengine_get_passes b s
  have h₁ : Known b held { s with dmaengine_ref_count := s.dmaengine_ref_count + 1 } := hk
  have h₂ : Known b held s₂ := h₁.passes h
  rw [heq]
  exact h₂

theorem Known.put (hk : Known b held s) : Known b held (dmaengine_put b s) :=
  have h₁ : Known b held { s with dmaengine_ref_count := s.dmaengine_ref_count - 1 } := hk
  h₁.passes (dmaengine_put_passes b s)

theorem Known.grant (hk : Known b held s) {d : Dev} {chan : Chan}
    (hfree : s.dma_private d = false → ∀ c ∈ b.channels d, c ≠ chan → s.client_count c = 0) :
    Known b (chan :: held) (setCount (addPrivate s d) chan 1) := by
  intro x hx c hcx hn
  rw [List.mem_cons, not_or] at hn
  have hcount : s.client_count c = 0 := by
    cases hpx : s.dma_private x with
    | true => exact hk x hpx c hcx hn.2
    | false =>
      have hxd : x = d := by
        by_contra hxd
        simp [setCount, addPrivate, hxd, hpx] at hx
      subst hxd
      exact hfree hpx c hcx hn.1
  simpa [setCount, addPrivate, hn.1] using hcount

theorem Known.request (mask : List TxType) (fn : Option (Chan → Bool)) (hi : Private b held s) (hk : Known b held s) :
    Known b ((dma_request_channel b mask fn s).2.toList ++ held) (dma_request_channel b mask fn s).1 := by
  refine (dma_request_channel_rule (P := fun held s => Private b held s ∧ Known b held s) (fun _ h => h.1) ?_ ?_ ?_ mask fn
    ⟨hi, hk⟩).2
  · rintro t d chan ⟨ht, hkt⟩ hc h0 hfree
    exact ⟨(ht.grant hc h0 hfree).calls _, hkt.grant hfree⟩
  · rintro t n ⟨ht, hkt⟩
    exact ⟨ht.calls n, hkt⟩
  · rintro t d ⟨ht, hkt⟩
    exact ⟨ht.list_del_rcu d, hkt⟩

theorem Known.release (hi : Private b held s) (hk : Known b held s) {chan : Chan} (hc : chan ∈ held) :
    Known b (held.erase chan) (dma_release_channel b s chan) := by
  rw [dma_release_channel_eq hi hc]
  intro d hd c hcd hn
  by_cases hcc : c = chan
  · subst hcc
    simp [dropPrivate, setCount]
  · have hheld : c ∉ held := fun h => hn ((List.mem_erase_of_ne hcc).2 h)
    have hpd : s.dma_private d = true := by
      by_cases hdc : d = b.device chan
      · exact hdc ▸ hi.private_of_held hc
      · simpa [dropPrivate, setCount, hdc] using hd
    simpa [dropPrivate, setCount, hcc] using hk d hpd c hcd hheld

end Dmacftu.Dmaengine

namespace Dmacftu.Policy

open Dmaengine Dmaengine.TxType

/-! ## The boot-time start of the exclusive policy -/

section

variable (b : Board)

def boot_release_dma_chan (s : State) : Option State := b.present.foldlM (releaseCpu b) s

def boot_init_dma_chan (s : State) : State :=
  { s with percpu_chan_copy := fun i => if i ∈ b.present then ⟨none, 0⟩ else s.percpu_chan_copy i }

def bootComplete : List Cpu → State → Option State
  | [], s => some s
  | i :: is, s =>
    let (engine, chan) := requestMemcpy b s.engine
    let s := { s with engine }
    match chan with
    | some chan => bootComplete is (setCpu s i ⟨some chan, 1⟩)
    | none => boot_release_dma_chan b s

def boot_complete_dma_chan (s : State) : Option State := bootComplete b b.present s

/-- Booting does what a start of the exclusive policy does, and returns nothing. -/
theorem boot_eq_start (s : State) :
    boot_complete_dma_chan b (boot_init_dma_chan b s) = (start_policy_excl b s).map Prod.fst := by
  have h : ∀ is s, bootComplete b is s = (completeExcl b is s).map Prod.fst := by
    intro is
    induction is with
    | nil => intro s; rfl
    | cons i is ih =>
      intro s
      cases hr : requestMemcpy b s.engine with
      | mk engine chan =>
        cases chan with
        | some chan =>
          simp only [bootComplete, completeExcl, hr]
          exact ih _
        | none =>
          simp only [bootComplete, completeExcl, hr]
          simp [boot_release_dma_chan, release_dma_chan_excl, Option.map_map, Function.comp_def]
  exact h _ _

end

/-! ## The record -/

/-- A slot of the two tables says that its policy has the channel. -/
def Recorded (s : State) (chan : Chan) : Prop :=
  (∃ i, (s.percpu_chan_copy i).use = 1 ∧ (s.percpu_chan_copy i).chan = some chan) ∨
    ∃ i < s.list_chan_prio.size, s.list_chan_prio.chan_prio i = some chan

/-- The channels handed out are those that are recorded. -/
def AllRecorded (b : Board) (s : State) : Prop := ∀ chan, Acquired b s.engine chan ↔ Recorded s chan

/-- A start finds the record of its policy empty. -/
def StartsEmpty (s : State) : Call → Prop
  | .start_policy_excl => ∀ i, (s.percpu_chan_copy i).use ≠ 1
  | .start_policy_prio2 _ _ => s.list_chan_prio.size = 0
  | _ => True

/-! ## Slots and lost channels -/

variable {b : Board} {n : Int} {slot : Slot → Option Chan} {held : List Chan} {engine : Dmaengine.State}
  {lost : Chan → Prop}

/-- The channels handed out are those of the slots and, apart from these, the
`lost` ones, however often the shared policy is started. -/
structure Core (b : Board) (n : Int) (lost : Chan → Prop) (slot : Slot → Option Chan) (engine : Dmaengine.State)
    (held : List Chan) : Prop where
  owns : Owns b False n held slot engine
  known : Known b held engine
  held_iff : ∀ chan, chan ∈ held ↔ (∃ i, slot i = some chan) ∨ lost chan
  lost_slot : ∀ i chan, slot i = some chan → ¬ lost chan

theorem Core.get (h : Core b n lost slot engine held) :
    Core b (n + 1) lost slot (copy_dmaengine_get b engine) held where
  owns := h.owns.get False.elim
  known := h.known.get
  held_iff := h.held_iff
  lost_slot := h.lost_slot

theorem Core.put (h : Core b n lost slot engine held) (hn : 0 < n) :
    Core b (n - 1) lost slot (copy_dmaengine_put b engine) held where
  owns := h.owns.put hn
  known := h.known.put
  held_iff := h.held_iff
  lost_slot := h.lost_slot

/-- Emptying slots without a release loses their channels. -/
theorem Core.forget (h : Core b n lost slot engine held) {slot' : Slot → Option Chan}
    (hs : ∀ i, slot' i = none ∨ slot' i = slot i) :
    Core b n (fun chan => lost chan ∨ ∃ i, slot i = some chan ∧ slot' i = none) slot' engine held := by
  refine ⟨h.owns.forget hs, h.known, ?_, ?_⟩
  · intro chan
    rw [h.held_iff]
    constructor
    · rintro (⟨i, hi⟩ | hl)
      · rcases hs i with h' | h'
        · exact .inr (.inr ⟨i, hi, h'⟩)
        · exact .inl ⟨i, h'.trans hi⟩
      · exact .inr (.inl hl)
    · rintro (⟨i, hi⟩ | hl | ⟨i, hi, -⟩)
      · rcases hs i with h' | h'
        · rw [h'] at hi
          cases hi
        · exact .inl ⟨i, h' ▸ hi⟩
      · exact .inr hl
      · exact .inl ⟨i, hi⟩
  · intro i chan hi hl
    rcases hs i with h' | h'
    · rw [h'] at hi
      cases hi
    · have hsi : slot i = some chan := h' ▸ hi
      rcases hl with hl | ⟨j, hj, hj'⟩
      · exact h.lost_slot i chan hsi hl
      · -- one slot only has the channel, and it was not emptied
        rw [h.owns.inj j i chan hj hsi, h', hsi] at hj'
        cases hj'

theorem Core.release (h : Core b n lost slot engine held) {i : Slot} {chan : Chan} (hi : slot i = some chan) :
    Core b n lost (Function.update slot i none) (dma_release_channel b engine chan) (held.erase chan) := by
  have hheld := h.owns.held_of_slot i chan hi
  refine ⟨h.owns.release hi, Known.release h.owns.priv h.known hheld, ?_, ?_⟩
  · intro c
    rw [h.owns.priv.held_nodup.mem_erase_iff, h.held_iff]
    constructor
    · rintro ⟨hne, ⟨j, hj⟩ | hl⟩
      · have hji : j ≠ i := by
          rintro rfl
          rw [hi] at hj
          exact hne (Option.some.inj hj).symm
        exact .inl ⟨j, by rw [Function.update_of_ne hji]; exact hj⟩
      · exact .inr hl
    · rintro (⟨j, hj⟩ | hl)
      · have hji : j ≠ i := by rintro rfl; simp at hj
        rw [Function.update_of_ne hji] at hj
        refine ⟨?_, .inl ⟨j, hj⟩⟩
        rintro rfl
        exact hji (h.owns.inj j i c hj hi)
      · refine ⟨?_, .inr hl⟩
        rintro rfl
        exact h.lost_slot i c hi hl
  · intro j c hj
    have hji : j ≠ i := by rintro rfl; simp at hj
    rw [Function.update_of_ne hji] at hj
    exact h.lost_slot j c hj

theorem Core.request_failed (h : Core b n lost slot engine held) {engine' : Dmaengine.State}
    (hr : requestMemcpy b engine = (engine', none)) : Core b n lost slot engine' held := by
  have hk := Known.request [DMA_MEMCPY] none h.owns.priv h.known
  rw [requestMemcpy] at hr
  rw [hr] at hk
  exact ⟨h.owns.request_failed hr, hk, h.held_iff, h.lost_slot⟩

/-- A slot that is empty takes what a request gives. -/
theorem Core.request (h : Core b n lost slot engine held) {engine' : Dmaengine.State} {chan : Chan}
    (hr : requestMemcpy b engine = (engine', some chan)) {i : Slot} (hi : slot i = none) :
    Core b n lost (Function.update slot i (some chan)) engine' (chan :: held) := by
  have howns := h.owns.request hr i
  have hk := Known.request [DMA_MEMCPY] none h.owns.priv h.known
  rw [requestMemcpy] at hr
  rw [hr] at hk
  have hnew : chan ∉ held := (List.nodup_cons.1 howns.priv.held_nodup).1
  refine ⟨howns, hk, ?_, ?_⟩
  · intro c
    rw [List.mem_cons, h.held_iff]
    constructor
    · rintro (rfl | ⟨j, hj⟩ | hl)
      · exact .inl ⟨i, Function.update_self ..⟩
      · have hji : j ≠ i := by
          rintro rfl
          rw [hi] at hj
          cases hj
        exact .inl ⟨j, by rw [Function.update_of_ne hji]; exact hj⟩
      · exact .inr hl
    · rintro (⟨j, hj⟩ | hl)
      · by_cases hji : j = i
        · subst hji
          rw [Function.update_self] at hj
          exact .inl (Option.some.inj hj).symm
        · rw [Function.update_of_ne hji] at hj
          exact .inr (.inl ⟨j, hj⟩)
      · exact .inr (.inr hl)
  · intro j c hj hl
    by_cases hji : j = i
    · subst hji
      rw [Function.update_self] at hj
      obtain rfl := Option.some.inj hj
      exact hnew ((h.held_iff _).2 (.inr hl))
    · rw [Function.update_of_ne hji] at hj
      exact h.lost_slot j c hj hl

/-! ## The calls -/

/-- What holds between calls: a slot is marked exactly if it has a channel. -/
structure Books (b : Board) (n : Int) (lost : Chan → Prop) (s : State) : Prop where
  core : ∃ held, Core b n lost s.slot s.engine held
  use_iff : ∀ i, (s.percpu_chan_copy i).use = 1 ↔ (s.percpu_chan_copy i).chan.isSome
  present : ∀ i, (s.percpu_chan_copy i).use = 1 → i ∈ b.present
  prio_iff : ∀ i, i < s.list_chan_prio.size ↔ (s.list_chan_prio.chan_prio i).isSome
  size_le : s.list_chan_prio.size ≤ DMA_MAX_CHAN_PRIO

theorem Books.allSlots_iff {s : State} (h : Books b n lost s) (chan : Chan) :
    Recorded s chan ↔ ∃ i, s.slot i = some chan := by
  constructor
  · rintro (⟨i, -, hi⟩ | ⟨i, -, hi⟩)
    · exact ⟨.percpu i, hi⟩
    · exact ⟨.prio i, hi⟩
  · rintro ⟨i, hi⟩
    cases i with
    | percpu i =>
      have hi : (s.percpu_chan_copy i).chan = some chan := hi
      exact .inl ⟨i, (h.use_iff i).2 (by simp [hi]), hi⟩
    | prio i =>
      have hi : s.list_chan_prio.chan_prio i = some chan := hi
      exact .inr ⟨i, (h.prio_iff i).2 (by simp [hi]), hi⟩

theorem Books.allRecorded_iff {s : State} (h : Books b n lost s) : AllRecorded b s ↔ ∀ chan, ¬ lost chan := by
  obtain ⟨held, hcore⟩ := h.core
  have hacq : ∀ chan, Acquired b s.engine chan ↔ (∃ i, s.slot i = some chan) ∨ lost chan := fun chan =>
    (acquired_iff hcore.owns.priv hcore.known chan).trans (hcore.held_iff chan)
  constructor
  · intro hall chan hl
    obtain ⟨i, hi⟩ := (h.allSlots_iff chan).1 ((hall chan).1 ((hacq chan).2 (.inr hl)))
    exact hcore.lost_slot i chan hi hl
  · intro hnone chan
    rw [hacq, h.allSlots_iff]
    constructor
    · rintro (hi | hl)
      · exact hi
      · exact absurd hl (hnone chan)
    · exact .inl

/-- Setting a CPU's slot to what a request gave or a release left. -/
theorem Books.setCpu {s : State} (h : Books b n lost s) {i : Cpu} {cpu_chan : ChanCopy} {engine : Dmaengine.State}
    (hcore : ∃ held, Core b n lost (Function.update s.slot (.percpu i) cpu_chan.chan) engine held)
    (huse : cpu_chan.use = 1 ↔ cpu_chan.chan.isSome) (hi : i ∈ b.present) :
    Books b n lost (setCpu { s with engine } i cpu_chan) where
  core := by
    rw [slot_setCpu]
    exact hcore
  use_iff j := by
    by_cases hji : j = i
    · subst hji
      simpa [Policy.setCpu] using huse
    · simpa [Policy.setCpu, hji] using h.use_iff j
  present j hj := by
    by_cases hji : j = i
    · exact hji ▸ hi
    · exact h.present j (by simpa [Policy.setCpu, hji] using hj)
  prio_iff := h.prio_iff
  size_le := h.size_le

theorem releaseCpu_books {s : State} (h : Books b n lost s) (i : Cpu) :
    ∃ s', releaseCpu b s i = some s' ∧ Books b n lost s' := by
  unfold releaseCpu
  split
  next huse =>
    obtain ⟨chan, hchan⟩ := Option.isSome_iff_exists.1 ((h.use_iff i).1 huse)
    obtain ⟨held, hcore⟩ := h.core
    rw [hchan]
    refine ⟨_, rfl, h.setCpu ⟨_, hcore.release (i := .percpu i) hchan⟩ (by simp) (h.present i huse)⟩
  next => exact ⟨s, rfl, h⟩

theorem foldlM_releaseCpu_books (is : List Cpu) {s : State} (h : Books b n lost s) :
    ∃ s', is.foldlM (releaseCpu b) s = some s' ∧ Books b n lost s' :=
  Lib.Loop.foldlM_total (Books b n lost) (fun _ i _ ht => releaseCpu_books ht i) h

theorem completeExcl_books : ∀ {is : List Cpu} {s : State}, is.Nodup → (∀ i ∈ is, i ∈ b.present) →
    (∀ i ∈ is, (s.percpu_chan_copy i).chan = none) → Books b n lost s →
    ∃ r, completeExcl b is s = some r ∧ Books b n lost r.1 := by
  intro is
  induction is with
  | nil => intro s _ _ _ h; exact ⟨_, rfl, h⟩
  | cons i is ih =>
    intro s hnd hpres hnone h
    obtain ⟨hi, hnd⟩ := List.nodup_cons.1 hnd
    obtain ⟨held, hcore⟩ := h.core
    unfold completeExcl
    cases hr : requestMemcpy b s.engine with
    | mk engine chan =>
      cases chan with
      | some chan =>
        have hempty : s.slot (.percpu i) = none := hnone i (by simp)
        have hset : Books b n lost (setCpu { s with engine } i ⟨some chan, 1⟩) :=
          h.setCpu ⟨_, hcore.request hr hempty⟩ (by simp) (hpres i (by simp))
        refine ih hnd (fun j hj => hpres j (by simp [hj])) ?_ hset
        intro j hj
        have hji : j ≠ i := by rintro rfl; exact hi hj
        simpa [setCpu, hji] using hnone j (by simp [hj])
      | none =>
        have hfail : Books b n lost { s with engine } := { h with core := ⟨held, hcore.request_failed hr⟩ }
        obtain ⟨s', hs', h'⟩ := foldlM_releaseCpu_books b.present hfail
        refine ⟨(s', -1), ?_, h'⟩
        simp only [release_dma_chan_excl, hs', Option.map_some]

/-- A start of the exclusive policy loses the channels the table had. -/
theorem start_policy_excl_books {s : State} (hnd : b.present.Nodup) (h : Books b n lost s) :
    ∃ r lost', start_policy_excl b s = some r ∧ Books b n lost' r.1 ∧
      ((∀ chan, ¬ lost' chan) ↔ (∀ chan, ¬ lost chan) ∧ StartsEmpty s .start_policy_excl) := by
  obtain ⟨held, hcore⟩ := h.core
  let s₁ := init_dma_chan_excl b s
  have hslot : ∀ i, s₁.slot i = none ∨ s₁.slot i = s.slot i := by
    intro i
    cases i with
    | percpu i => by_cases hi : i ∈ b.present <;> simp [s₁, State.slot, init_dma_chan_excl, hi]
    | prio i => exact .inr rfl
  -- emptying the table loses what it had; the loop that follows loses nothing
  have hinit : Books b n (fun chan => lost chan ∨ ∃ i, s.slot i = some chan ∧ s₁.slot i = none) s₁ := by
    refine ⟨⟨held, hcore.forget hslot⟩, ?_, ?_, h.prio_iff, h.size_le⟩
    · intro i
      by_cases hi : i ∈ b.present
      · simp [s₁, init_dma_chan_excl, hi]
      · simpa [s₁, init_dma_chan_excl, hi] using h.use_iff i
    · intro i hu
      by_contra hi
      simp only [s₁, init_dma_chan_excl, hi, if_false] at hu
      exact hi (h.present i hu)
  have hnone : ∀ i ∈ b.present, (s₁.percpu_chan_copy i).chan = none := by
    intro i hi
    simp [s₁, init_dma_chan_excl, hi]
  obtain ⟨r, hr, hb⟩ := completeExcl_books hnd (fun _ hi => hi) hnone hinit
  refine ⟨r, _, hr, hb, ?_⟩
  constructor
  · intro hno
    refine ⟨fun chan hl => hno chan (.inl hl), ?_⟩
    intro i hu
    obtain ⟨chan, hchan⟩ := Option.isSome_iff_exists.1 ((h.use_iff i).1 hu)
    exact hno chan (.inr ⟨.percpu i, hchan, hnone i (h.present i hu)⟩)
  · rintro ⟨hno, hempty⟩ chan (hl | ⟨i, hi, hi'⟩)
    · exact hno chan hl
    · cases i with
      | percpu i =>
        have hi : (s.percpu_chan_copy i).chan = some chan := hi
        exact hempty i ((h.use_iff i).2 (by simp [hi]))
      | prio i =>
        have hsame : s₁.slot (.prio i) = s.slot (.prio i) := rfl
        rw [← hsame, hi'] at hi
        cases hi

theorem foldlM_releasePrio_core {is : List Nat} {s : State} (hnd : is.Nodup)
    (hsome : ∀ i ∈ is, (s.list_chan_prio.chan_prio i).isSome) (h : ∃ held, Core b n lost s.slot s.engine held) :
    ∃ s', is.foldlM (releasePrio b) s = some s' ∧ (∃ held, Core b n lost s'.slot s'.engine held) ∧
      s'.percpu_chan_copy = s.percpu_chan_copy ∧
      ∀ i, s'.list_chan_prio.chan_prio i = if i ∈ is then none else s.list_chan_prio.chan_prio i := by
  have hrelease : ∀ (s : State) i chan, (∃ held, Core b n lost s.slot s.engine held) → s.list_chan_prio.chan_prio i = some chan →
      ∃ held, Core b n lost (setPrio { s with engine := dma_release_channel b s.engine chan } i none).slot
        (dma_release_channel b s.engine chan) held := by
    rintro s i chan ⟨held, hcore⟩ hchan
    rw [slot_setPrio]
    exact ⟨_, hcore.release (i := .prio i) hchan⟩
  obtain ⟨s', hs', hcore, hrest, hprio⟩ := foldlM_releasePrio_rule hrelease hnd hsome h
  exact ⟨s', hs', hcore, hrest.1, hprio⟩

theorem release_dma_chan_prio_books {s : State} (h : Books b n lost s) :
    ∃ s', release_dma_chan_prio b s = some s' ∧ Books b n lost s' := by
  have hsome : ∀ i ∈ List.range s.list_chan_prio.size, (s.list_chan_prio.chan_prio i).isSome := fun i hi =>
    (h.prio_iff i).1 (List.mem_range.1 hi)
  obtain ⟨s', hs', hcore, hpercpu, hprio⟩ := foldlM_releasePrio_core List.nodup_range hsome h.core
  refine ⟨setSize s' 0, ?_, hcore, ?_, ?_, ?_, Nat.zero_le _⟩
  · simp [release_dma_chan_prio, hs']
  · intro i
    simpa [setSize, hpercpu] using h.use_iff i
  · intro i hu
    exact h.present i (by simpa [setSize, hpercpu] using hu)
  · intro i
    -- the slots from `size` on were empty before
    have := h.prio_iff i
    by_cases hi : i < s.list_chan_prio.size <;> simp_all [setSize]

/-- The loop of `complete_dma_chan_prio` from index `k` on. -/
theorem completePrio_books : ∀ {m k : Nat} {s : State}, Books b n lost s → s.list_chan_prio.size = k →
    k + m ≤ DMA_MAX_CHAN_PRIO → ∃ r, completePrio b (List.range' k m) s = some r ∧ Books b n lost r.1 := by
  intro m
  induction m with
  | zero => intro k s h _ _; exact ⟨_, rfl, h⟩
  | succ m ih =>
    intro k s h hk hle
    obtain ⟨held, hcore⟩ := h.core
    have hempty : s.list_chan_prio.chan_prio k = none := by
      have := h.prio_iff k
      rw [hk] at this
      simpa using this
    rw [List.range'_succ]
    unfold completePrio
    cases hr : requestMemcpy b s.engine with
    | mk engine chan =>
      cases chan with
      | some chan =>
        let s₁ := setSize (setPrio { s with engine } k (some chan)) (k + 1)
        have hbooks : Books b n lost s₁ := by
          refine ⟨⟨chan :: held, ?_⟩, h.use_iff, h.present, ?_, (by omega : k + 1 ≤ DMA_MAX_CHAN_PRIO)⟩
          · show Core b n lost (setPrio { s with engine } k (some chan)).slot engine (chan :: held)
            rw [slot_setPrio]
            exact hcore.request hr hempty
          · intro i
            have hi := h.prio_iff i
            rw [hk] at hi
            by_cases hik : i = k
            · simp [s₁, setSize, setPrio, hik]
            · simp only [s₁, setSize, setPrio, Function.update_of_ne hik, ← hi]
              omega
        obtain ⟨r, hr', hb⟩ := ih (k := k + 1) hbooks rfl (by omega)
        refine ⟨r, ?_, hb⟩
        have hlt : k + 1 < 2 ^ 16 := by
          unfold DMA_MAX_CHAN_PRIO at hle
          omega
        have hu : u16 ((k : Int) + 1) = k + 1 := u16_of_lt hlt
        simpa [setPrio, hk, hu, s₁] using hr'
      | none =>
        have hbooks : Books b n lost (setPrio { s with engine } k none) := by
          have hsame : Function.update s.list_chan_prio.chan_prio k none = s.list_chan_prio.chan_prio := by
            rw [← hempty]
            exact Function.update_eq_self ..
          simp only [setPrio, hsame]
          exact ⟨⟨held, hcore.request_failed hr⟩, h.use_iff, h.present, h.prio_iff, h.size_le⟩
        obtain ⟨s', hs', hb⟩ := release_dma_chan_prio_books hbooks
        exact ⟨(s', -1), by simp [hs'], hb⟩

/-- A start of the priority policy loses the channels the list had. -/
theorem start_policy_prio2_books {s : State} (h : Books b n lost s) (high low : Int) :
    ∃ r lost', start_policy_prio2 b high low s = some r ∧ Books b n lost' r.1 ∧
      ((∀ chan, ¬ lost' chan) ↔ (∀ chan, ¬ lost chan) ∧ StartsEmpty s (.start_policy_prio2 high low)) := by
  obtain ⟨held, hcore⟩ := h.core
  let s₁ := init_dma_chan_prio s
  have hnone : ∀ i, s₁.list_chan_prio.chan_prio i = none := by
    intro i
    have hi := h.prio_iff i
    have hle := h.size_le
    by_cases hlt : i < DMA_MAX_CHAN_PRIO
    · simp [s₁, init_dma_chan_prio, hlt]
    · have hlt' : ¬ i < s.list_chan_prio.size := by omega
      simp only [hlt', false_iff, Bool.not_eq_true, Option.isSome_eq_false_iff, Option.isNone_iff_eq_none] at hi
      simpa [s₁, init_dma_chan_prio, hlt] using hi
  have hslot : ∀ i, s₁.slot i = none ∨ s₁.slot i = s.slot i := by
    intro i
    cases i with
    | percpu i => exact .inr rfl
    | prio i => exact .inl (hnone i)
  -- emptying the list loses what it had; the loop that follows loses nothing
  have hinit : Books b n (fun chan => lost chan ∨ ∃ i, s.slot i = some chan ∧ s₁.slot i = none) s₁ := by
    refine ⟨⟨held, hcore.forget hslot⟩, h.use_iff, h.present, ?_, Nat.zero_le _⟩
    intro i
    rw [hnone]
    exact iff_of_false (Nat.not_lt_zero i) (by simp)
  obtain ⟨⟨s', ret⟩, hr, hb⟩ := completePrio_books (m := DMA_MAX_CHAN_PRIO) (k := 0) hinit rfl (by simp)
  have hempty : (∀ chan, ¬ (lost chan ∨ ∃ i, s.slot i = some chan ∧ s₁.slot i = none)) ↔
      (∀ chan, ¬ lost chan) ∧ StartsEmpty s (.start_policy_prio2 high low) := by
    constructor
    · intro hno
      refine ⟨fun chan hl => hno chan (.inl hl), Nat.eq_zero_of_not_pos ?_⟩
      intro hpos
      obtain ⟨chan, hchan⟩ := Option.isSome_iff_exists.1 ((h.prio_iff 0).1 hpos)
      exact hno chan (.inr ⟨.prio 0, hchan, hnone 0⟩)
    · rintro ⟨hno, hzero⟩ chan (hl | ⟨i, hi, hi'⟩)
      · exact hno chan hl
      · cases i with
        | percpu i =>
          have hsame : s₁.slot (.percpu i) = s.slot (.percpu i) := rfl
          rw [← hsame, hi'] at hi
          cases hi
        | prio i =>
          have hi : s.list_chan_prio.chan_prio i = some chan := hi
          have hlt := (h.prio_iff i).2 (by simp [hi])
          have hzero : s.list_chan_prio.size = 0 := hzero
          omega
  unfold start_policy_prio2 complete_dma_chan_prio
  rw [List.range_eq_range', hr, Option.map_some]
  by_cases hret : ret < 0
  · simp only [hret, if_true]
    exact ⟨_, _, rfl, hb, hempty⟩
  · simp only [hret, if_false]
    exact ⟨_, _, rfl, ⟨hb.core, hb.use_iff, hb.present, hb.prio_iff, hb.size_le⟩, hempty⟩

theorem stop_policy_prio_books {s : State} (h : Books b n lost s) :
    ∃ s', stop_policy_prio b s = some s' ∧ Books b n lost s' := by
  obtain ⟨suspended, hrun, -⟩ := run_lower .resume_chan_prio DMA_HIGH_PRIO s.suspended fun i hi =>
    (h.prio_iff i).1 hi
  have hstop : Books b n lost { s with
      suspended
      prio_timer := { s.prio_timer with timer := none, list_chan := false, tick := 0 } } :=
    ⟨h.core, h.use_iff, h.present, h.prio_iff, h.size_le⟩
  obtain ⟨s', hs', hb⟩ := release_dma_chan_prio_books hstop
  refine ⟨s', ?_, hb⟩
  rw [stop_policy_prio, hrun]
  exact hs'

/-- A call loses channels exactly if it is a start over a running policy. -/
theorem call_books {s : State} (hnd : b.present.Nodup) (h : Books b n lost s) {c : Call}
    (hc : c = .stop_policy_sh → 0 < n) : ∃ s' lost', call b s c = some s' ∧ Books b (c.count n) lost' s' ∧
      ((∀ chan, ¬ lost' chan) ↔ (∀ chan, ¬ lost chan) ∧ StartsEmpty s c) := by
  have hkeep : (∀ chan, ¬ lost chan) ↔ (∀ chan, ¬ lost chan) ∧ True := (iff_of_eq (and_true _)).symm
  cases c with
  | start_policy_sh =>
    obtain ⟨held, hcore⟩ := h.core
    exact ⟨_, lost, rfl, ⟨⟨held, hcore.get⟩, h.use_iff, h.present, h.prio_iff, h.size_le⟩, hkeep⟩
  | stop_policy_sh =>
    obtain ⟨held, hcore⟩ := h.core
    exact ⟨_, lost, rfl, ⟨⟨held, hcore.put (hc rfl)⟩, h.use_iff, h.present, h.prio_iff, h.size_le⟩, hkeep⟩
  | start_policy_excl =>
    obtain ⟨r, lost', hr, hb, hl⟩ := start_policy_excl_books hnd h
    exact ⟨r.1, lost', by simp [call, hr], hb, hl⟩
  | stop_policy_excl =>
    obtain ⟨s', hs', hb⟩ := foldlM_releaseCpu_books b.present h
    exact ⟨s', lost, hs', hb, hkeep⟩
  | start_policy_prio2 high low =>
    obtain ⟨r, lost', hr, hb, hl⟩ := start_policy_prio2_books h high low
    exact ⟨r.1, lost', by simp [call, hr], hb, hl⟩
  | stop_policy_prio =>
    obtain ⟨s', hs', hb⟩ := stop_policy_prio_books h
    exact ⟨s', lost, hs', hb, hkeep⟩

theorem calls_books (hnd : b.present.Nodup) : ∀ (calls : List Call) {n : Nat} {s : State} {lost : Chan → Prop},
    Books b n lost s → Balanced n calls →
    ((∀ pre, pre <+: calls → ∃ s', exec (call b) s pre = some s' ∧ AllRecorded b s') ↔
      (∀ chan, ¬ lost chan) ∧ along (call b) StartsEmpty s calls) := by
  intro calls
  induction calls with
  | nil =>
    intro n s lost h _
    rw [← h.allRecorded_iff]
    simp [exec, along]
  | cons c calls ih =>
    intro n s lost h hb
    obtain ⟨hc, m, hm, hb⟩ := hb.head
    obtain ⟨s₁, lost₁, hs₁, h₁, hl⟩ := call_books hnd h fun hc' => Int.natCast_pos.2 (hc hc')
    have ih := ih (hm ▸ h₁) hb
    have hstep : ∀ pre, (∃ s', exec (call b) s (c :: pre) = some s' ∧ AllRecorded b s') ↔
        ∃ s', exec (call b) s₁ pre = some s' ∧ AllRecorded b s' := by
      intro pre
      simp [exec, hs₁]
    constructor
    · -- what was lost in this call stays lost in every later state
      intro hall
      have hnow : AllRecorded b s := by
        obtain ⟨s', hs', hrec⟩ := hall [] (List.nil_prefix)
        cases hs'
        exact hrec
      have hnext := ih.1 fun pre hpre => (hstep pre).1 (hall (c :: pre) (List.cons_prefix_cons.2 ⟨rfl, hpre⟩))
      refine ⟨h.allRecorded_iff.1 hnow, (hl.1 hnext.1).2, ?_⟩
      intro t ht
      rw [hs₁] at ht
      exact Option.some.inj ht ▸ hnext.2
    · rintro ⟨hno, hempty, halong⟩ pre hpre
      rcases List.prefix_cons_iff.1 hpre with rfl | ⟨pre, rfl, htail⟩
      · exact ⟨s, rfl, h.allRecorded_iff.2 hno⟩
      · exact (hstep pre).2 (ih.2 ⟨hl.2 ⟨hno, hempty⟩, halong s₁ hs₁⟩ pre htail)

theorem NoPolicy.books {s : State} (h : NoPolicy b s) : Books b 0 (fun _ => False) s := by
  have hslot : ∀ i, s.slot i = none := by
    intro i
    cases i with
    | percpu i => simp [State.slot, h.percpu i]
    | prio i => exact h.chan_prio i
  have howns : Owns b False 0 [] s.slot s.engine := by
    refine ⟨h.no_client.inv.toPrivate, False.elim, h.no_client.refs, ?_, ?_⟩
    · intro i j chan hi
      simp [hslot] at hi
    · intro i chan hi
      simp [hslot] at hi
  refine ⟨⟨[], howns, ?_, by simp [hslot], by simp⟩, ?_, ?_, ?_, ?_⟩
  · intro d _ chan _ _
    exact h.no_client.client_count chan
  · intro i
    simp [h.percpu i]
  · intro i hu
    simp [h.percpu i] at hu
  · intro i
    simp [h.size, h.chan_prio i]
  · rw [h.size]
    exact Nat.zero_le _

/-- The channels handed out are recorded after every call of a run exactly if
none of its starts comes over a running policy. -/
theorem recorded_iff (b : Board) (hnd : b.present.Nodup) (s : State) (h : NoPolicy b s) (calls : List Call)
    (hb : Balanced 0 calls) :
    (∀ pre, pre <+: calls → ∃ s', exec (call b) s pre = some s' ∧ AllRecorded b s') ↔
      along (call b) StartsEmpty s calls := by
  rw [calls_books hnd calls h.books hb]
  exact and_iff_right fun _ hl => hl

/-- The priority policy is started again once it was stopped. -/
def sampleRestart : List Call :=
  [.start_policy_excl, .start_policy_prio2 700 300, .stop_policy_prio, .start_policy_prio2 400 100]

theorem recorded_iff_sample :
    (exec (call sampleBoard) sampleState sampleRestart).map (fun s => (s.slot (.percpu 0), s.slot (.prio 0))) =
      some (some 0, some 1) ∧
    ∀ pre, pre <+: sampleRestart →
      ∃ s', exec (call sampleBoard) sampleState pre = some s' ∧ AllRecorded sampleBoard s' := by
  have hfirst : (exec (call sampleBoard) sampleState [.start_policy_excl]).map (fun s => s.list_chan_prio.size) =
      some 0 := by
    decide
  have hagain : (exec (call sampleBoard) sampleState [.start_policy_excl, .start_policy_prio2 700 300,
      .stop_policy_prio]).map (fun s => s.list_chan_prio.size) = some 0 := by
    decide
  refine ⟨by decide, (recorded_iff sampleBoard (by decide) sampleState sample_no_policy sampleRestart trivial).2 ?_⟩
  refine ⟨fun i => by simp [sampleState], fun t ht => ⟨?_, fun u hu => ⟨trivial, fun v hv => ⟨?_, fun _ _ => trivial⟩⟩⟩⟩
  · simpa [exec, ht, StartsEmpty] using hfirst
  · simpa [exec, ht, hu, hv, StartsEmpty] using hagain

/-- Twice a start: the exclusive policy's puts channel 1 over channel 0, the
priority policy's second one fails for want of a channel and empties the list.
The channels of the first starts stay handed out in no slot. -/
theorem second_start_leaks :
    ((exec (call sampleBoard) sampleState [.start_policy_excl, .start_policy_excl]).map fun s =>
        (decide (Acquired sampleBoard s.engine 0), s.slot (.percpu 0))) = some (true, some 1) ∧
    ((exec (call sampleBoard) sampleState [.start_policy_prio2 700 300, .start_policy_prio2 700 300]).map fun s =>
        (decide (Acquired sampleBoard s.engine 0), s.list_chan_prio.size)) = some (true, 0) ∧
    ¬ (∀ pre, pre <+: [.start_policy_excl, .start_policy_excl] →
        ∃ s', exec (call sampleBoard) sampleState pre = some s' ∧ AllRecorded sampleBoard s') ∧
    ¬ (∀ pre, pre <+: [.start_policy_prio2 700 300, .start_policy_prio2 700 300] →
        ∃ s', exec (call sampleBoard) sampleState pre = some s' ∧ AllRecorded sampleBoard s') := by
  have hnd : sampleBoard.present.Nodup := by decide
  refine ⟨by decide, by decide, ?_, ?_⟩
  · rw [calls_books hnd [.start_policy_excl, .start_policy_excl] sample_no_policy.books (n := 0) trivial]
    rintro ⟨-, -, hsecond⟩
    have huse : (call sampleBoard sampleState .start_policy_excl).map (fun s => (s.percpu_chan_copy 0).use) =
        some 1 := by
      decide
    obtain ⟨s, hs, huse⟩ := Option.map_eq_some_iff.1 huse
    exact (hsecond s hs).1 0 huse
  · rw [calls_books hnd [.start_policy_prio2 700 300, .start_policy_prio2 700 300]
      sample_no_policy.books (n := 0) trivial]
    rintro ⟨-, -, hsecond⟩
    have hsize : (call sampleBoard sampleState (.start_policy_prio2 700 300)).map (fun s => s.list_chan_prio.size) =
        some 4 := by
      decide
    obtain ⟨s, hs, hsize⟩ := Option.map_eq_some_iff.1 hsize
    have hzero : s.list_chan_prio.size = 0 := (hsecond s hs).1
    omega

end Dmacftu.Policy
