import Dmacftu.Recorded
/-!
# Starting a policy from scratch

`NotStarted` describes the states with no private policy. From such a state,
`start_policy_excl_notStarted` and `start_policy_prio2_notStarted` say, a start
that fails leads back to one, and a start that succeeds does not, unless there is
no CPU to give a channel to.
-/
open Lib.Runs

namespace Dmacftu.Policy

open Dmaengine Dmaengine.TxType

/-! ## No private policy -/

/-- The policies as they are while no exclusive or priority channels are in use
and the shared policy is started `n` times. -/
structure NotStarted (b : Board) (n : Int) (s : State) : Prop where
  refs : refs s.engine = (n, n)
  channels : ∀ chan, ¬ Acquired b s.engine chan
  slots : ∀ i, s.slot i = none
  timer : s.prio_timer.timer = none

variable {b : Board} {n : Int} {lost : Chan → Prop} {s : State}

theorem not_lost (h : Books b n lost s) (hs : NotStarted b n s) (chan : Chan) : ¬ lost chan := by
  intro hl
  obtain ⟨held, hcore⟩ := h.core
  have hheld : chan ∈ held := (hcore.held_iff chan).2 (.inr hl)
  exact hs.channels chan ((acquired_iff hcore.owns.priv hcore.known chan).2 hheld)

theorem notStarted_of_books (h : Books b n lost s) (hl : ∀ chan, ¬ lost chan) (hslots : ∀ i, s.slot i = none)
    (htimer : s.prio_timer.timer = none) : NotStarted b n s := by
  obtain ⟨held, hcore⟩ := h.core
  refine ⟨hcore.owns.refs_eq, ?_, hslots, htimer⟩
  intro chan hacq
  rcases (hcore.held_iff chan).1 ((acquired_iff hcore.owns.priv hcore.known chan).1 hacq) with ⟨i, hi⟩ | hlost
  · rw [hslots i] at hi
    cases hi
  · exact hl chan hlost

theorem Books.ok (h : Books b n lost s) : Ok b False n s := by
  obtain ⟨held, hcore⟩ := h.core
  exact ⟨⟨held, hcore.owns⟩, fun i => (h.use_iff i).1, fun i => (h.prio_iff i).1⟩

theorem calls_keep_books (hnd : b.present.Nodup) : ∀ {calls : List Call} {n : Nat} {s s' : State} {lost : Chan → Prop},
    Books b n lost s → Balanced n calls → exec (call b) s calls = some s' → ∃ n' lost', Books b n' lost' s' := by
  intro calls
  induction calls with
  | nil => intro n s s' lost h _ hrun; cases hrun; exact ⟨n, lost, h⟩
  | cons c calls ih =>
    intro n s s' lost h hb hrun
    obtain ⟨hc, m, hm, hb⟩ := hb.head
    obtain ⟨s₁, lost₁, hs₁, h₁, -⟩ := call_books hnd h fun hc' => Int.natCast_pos.2 (hc hc')
    obtain ⟨t, ht, hrun⟩ := exec_cons.1 hrun
    obtain rfl := Option.some.inj (hs₁.symm.trans ht)
    exact ih (hm ▸ h₁) hb hrun

/-- A state without private policies that a run of policy calls reaches. -/
theorem reached_books (hnd : b.present.Nodup) {s₀ : State} (h₀ : NoPolicy b s₀) {calls : List Call}
    (hcalls : Balanced 0 calls) (hrun : exec (call b) s₀ calls = some s) (hs : NotStarted b n s) :
    Books b n (fun _ => False) s := by
  obtain ⟨m, lost, h⟩ := calls_keep_books hnd h₀.books hcalls hrun
  have hm : m = n := by
    obtain ⟨held, hcore⟩ := h.core
    exact congrArg Prod.fst (hcore.owns.refs_eq.symm.trans hs.refs)
  subst hm
  have hlost : lost = fun _ => False := funext fun chan => propext (iff_false_intro (not_lost h hs chan))
  exact hlost ▸ h

/-! ## The exclusive policy -/

theorem releaseCpu_use {s' : State} {i : Dmaengine.Cpu} (h : releaseCpu b s i = some s') :
    (s'.percpu_chan_copy i).use ≠ 1 ∧ ∀ j, (s.percpu_chan_copy j).use ≠ 1 → (s'.percpu_chan_copy j).use ≠ 1 := by
  unfold releaseCpu at h
  split at h
  · obtain ⟨chan, -, rfl⟩ := Option.map_eq_some_iff.1 h
    refine ⟨by simp [setCpu], ?_⟩
    intro j hj
    by_cases hji : j = i
    · simp [setCpu, hji]
    · simpa [setCpu, hji] using hj
  next huse =>
    cases h
    exact ⟨huse, fun j hj => hj⟩

theorem foldlM_releaseCpu_use : ∀ {is : List Dmaengine.Cpu} {s s' : State}, is.foldlM (releaseCpu b) s = some s' →
    (∀ i ∈ is, (s'.percpu_chan_copy i).use ≠ 1) ∧
      ∀ j, (s.percpu_chan_copy j).use ≠ 1 → (s'.percpu_chan_copy j).use ≠ 1 := by
  intro is
  induction is with
  | nil => intro s s' h; cases h; exact ⟨by simp, fun j hj => hj⟩
  | cons i is ih =>
    intro s s' h
    obtain ⟨t, ht, h⟩ := Option.bind_eq_some_iff.1 h
    obtain ⟨hi, hkeep⟩ := releaseCpu_use ht
    obtain ⟨his, hkeep'⟩ := ih h
    refine ⟨?_, fun j hj => hkeep' j (hkeep j hj)⟩
    intro j hj
    rcases List.mem_cons.1 hj with rfl | hj
    · exact hkeep' j hi
    · exact his j hj

/-- The loop of `complete_dma_chan_excl` gives every CPU a channel or no CPU one. -/
theorem completeExcl_use : ∀ {is : List Dmaengine.Cpu} {s : State} {r : State × Int},
    completeExcl b is s = some r →
    r.2 = 0 ∧ (∀ i ∈ is, (r.1.percpu_chan_copy i).use = 1) ∧
        (∀ j, (s.percpu_chan_copy j).use = 1 → (r.1.percpu_chan_copy j).use = 1) ∨
      r.2 = -1 ∧ ∀ i ∈ b.present, (r.1.percpu_chan_copy i).use ≠ 1 := by
  intro is
  induction is with
  | nil => intro s r h; cases h; exact .inl ⟨rfl, by simp, fun j hj => hj⟩
  | cons i is ih =>
    intro s r h
    unfold completeExcl at h
    cases hr : requestMemcpy b s.engine with
    | mk engine chan =>
      simp only [hr] at h
      cases chan with
      | none =>
        obtain ⟨s', hs', rfl⟩ := Option.map_eq_some_iff.1 h
        exact .inr ⟨rfl, (foldlM_releaseCpu_use hs').1⟩
      | some chan =>
        rcases ih h with ⟨hret, his, hkeep⟩ | hfail
        · refine .inl ⟨hret, ?_, ?_⟩
          · intro j hj
            rcases List.mem_cons.1 hj with rfl | hj
            · exact hkeep j (by simp [setCpu])
            · exact his j hj
          · intro j hj
            apply hkeep
            by_cases hji : j = i
            · simp [setCpu, hji]
            · simpa [setCpu, hji] using hj
        · exact .inr hfail

theorem start_policy_excl_notStarted (hnd : b.present.Nodup) (h : Books b n lost s) (hs : NotStarted b n s) :
    ∃ s' ret, start_policy_excl b s = some (s', ret) ∧ (ret = 0 ∨ ret = -1) ∧
      (NotStarted b n s' ↔ ret = -1 ∨ b.present = []) := by
  have hempty : StartsEmpty s .start_policy_excl := by
    intro i hi
    have hsome := (h.use_iff i).1 hi
    have hnone : (s.percpu_chan_copy i).chan = none := hs.slots (.percpu i)
    simp [hnone] at hsome
  obtain ⟨⟨s', ret⟩, hr, -, hsame⟩ := start_policy_excl_ok h.ok
  obtain ⟨hlist, htimer, -⟩ : SamePrio s s' := hsame
  obtain ⟨r, lost', hr', hb, hl⟩ := start_policy_excl_books hnd h
  obtain rfl := Option.some.inj (hr'.symm.trans hr)
  have hlost := hl.2 ⟨not_lost h hs, hempty⟩
  have hcpu : ∀ i, s'.slot (.percpu i) = none ↔ (s'.percpu_chan_copy i).use ≠ 1 := by
    intro i
    have := hb.use_iff i
    simp only [State.slot] at this ⊢
    rw [ne_eq, this]
    simp
  have hback : (∀ i ∈ b.present, (s'.percpu_chan_copy i).use ≠ 1) → NotStarted b n s' := by
    intro hnot
    refine notStarted_of_books hb hlost ?_ (by rw [htimer]; exact hs.timer)
    intro i
    cases i with
    | percpu i => exact (hcpu i).2 fun hu => hnot i (hb.present i hu) hu
    | prio i =>
      have hslot : s'.slot (.prio i) = s.slot (.prio i) := by simp only [State.slot, hlist]
      exact hslot.trans (hs.slots (.prio i))
  rcases completeExcl_use hr with ⟨hret, hall, -⟩ | ⟨hret, hnot⟩
  · have hret : ret = 0 := hret
    refine ⟨s', ret, hr, .inl hret, ?_⟩
    constructor
    · intro hs'
      by_contra hne
      obtain ⟨i, hi⟩ := List.exists_mem_of_ne_nil _ (fun hnil => hne (.inr hnil))
      exact (hcpu i).1 (hs'.slots (.percpu i)) (hall i hi)
    · rintro (h1 | hnil)
      · rw [hret] at h1
        cases h1
      · exact hback (by simp [hnil])
  · exact ⟨s', ret, hr, .inr hret, iff_of_true (hback hnot) (.inl hret)⟩

/-! ## The priority policy -/

/-- The loop of `complete_dma_chan_prio` runs to its end, or empties the list. -/
theorem completePrio_size : ∀ {is : List Nat} {s : State} {r : State × Int}, completePrio b is s = some r →
    r.2 = 0 ∨ r.2 = -1 ∧ r.1.list_chan_prio.size = 0 := by
  intro is
  induction is with
  | nil => intro s r h; cases h; exact .inl rfl
  | cons i is ih =>
    intro s r h
    unfold completePrio at h
    cases hr : requestMemcpy b s.engine with
    | mk engine chan =>
      simp only [hr] at h
      split at h
      · exact ih h
      · obtain ⟨s', hs', rfl⟩ := Option.map_eq_some_iff.1 h
        obtain ⟨t, -, rfl⟩ := Option.map_eq_some_iff.1 hs'
        exact .inr ⟨rfl, rfl⟩

theorem start_policy_prio2_notStarted (h : Books b n lost s) (hs : NotStarted b n s) (high low : Int) :
    ∃ s' ret, start_policy_prio2 b high low s = some (s', ret) ∧ (ret = DMA_MAX_CHAN_PRIO ∨ ret = -1) ∧
      (NotStarted b n s' ↔ ret = -1) := by
  have hempty : StartsEmpty s (.start_policy_prio2 high low) := by
    apply Nat.eq_zero_of_not_pos
    intro hpos
    have hsome := (h.prio_iff 0).1 hpos
    have hnone : s.list_chan_prio.chan_prio 0 = none := hs.slots (.prio 0)
    simp [hnone] at hsome
  obtain ⟨⟨s', ret⟩, lost', hr, hb, hl⟩ := start_policy_prio2_books h high low
  have hlost := hl.2 ⟨not_lost h hs, hempty⟩
  obtain ⟨r, hr', -, -, hret⟩ := start_policy_prio2_ok h.ok high low
  obtain rfl := Option.some.inj (hr'.symm.trans hr)
  rcases hret with ⟨hret, htimer⟩ | ⟨hret, -, -, htimer⟩
  · have hret : ret = -1 := hret
    refine ⟨s', ret, hr, .inr hret, iff_of_true ?_ hret⟩
    obtain ⟨⟨t, ret'⟩, hloop, -, hrest, -⟩ := @completePrio_ok b False n DMA_MAX_CHAN_PRIO 0 _ (init_dma_chan_prio_ok h.ok) rfl
      (by decide)
    rw [start_policy_prio2, complete_dma_chan_prio, List.range_eq_range', hloop, Option.map_some] at hr
    by_cases hneg : ret' < 0
    · simp only [hneg, if_true] at hr
      obtain ⟨rfl, -⟩ := Prod.mk.inj (Option.some.inj hr)
      obtain ⟨-, hsize⟩ := (completePrio_size hloop).resolve_left (Int.ne_of_lt hneg)
      refine notStarted_of_books hb hlost ?_ (by rw [htimer]; exact hs.timer)
      intro i
      cases i with
      | percpu i =>
        have hpercpu : t.percpu_chan_copy = s.percpu_chan_copy := hrest.1
        have hslot : t.slot (.percpu i) = s.slot (.percpu i) := by simp only [State.slot, hpercpu]
        exact hslot.trans (hs.slots (.percpu i))
      | prio i =>
        have hi := hb.prio_iff i
        rw [hsize] at hi
        simpa [State.slot] using hi
    · simp only [hneg, if_false] at hr
      have hsize := (Prod.mk.inj (Option.some.inj hr)).2
      omega
  · have hret : ret = DMA_MAX_CHAN_PRIO := hret
    refine ⟨s', ret, hr, .inl hret, iff_of_false ?_ (by rw [hret]; decide)⟩
    intro hs'
    have hset := congrArg PriorityTimer.timer htimer
    rw [hs'.timer] at hset
    cases hset

end Dmacftu.Policy
