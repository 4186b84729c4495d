import Dmacftu.Hotplug
import Dmacftu.Lib.Runs
import Dmacftu.Policy
/-!
# Runs in which devices come and go

Drivers register and unregister devices while clients take and drop channels.
`hotplug_safe`: what `Inv` says of a fixed set of devices holds with any devices
coming and going, and the lookup table never names a channel of a device that
has gone. `registry_exact`: counters, `dma_chan_dev`s and ids are those of the
devices there are, whatever failed on the way; only the id of a device without
channels stays taken when the device goes.
-/
open Lib.CInt Lib.Runs Lib.Ledger

namespace Dmacftu.Dmaengine

variable (b : Board)

/-- The system: the devices whose registration succeeded, the channels handed out to private clients, and the registrations
of devices without channels, with their ids. -/
structure System where
  hub : Hub
  live : List Dev
  held : List Chan
  lost : List (Reg × Nat)

/-- A driver brings a device of its own, as `kzalloc` and its own settings leave it. -/
def probe (d : Dev) (h : Hub) : Hub where
  engine := { h.engine with
    dma_private := Function.update h.engine.dma_private d (b.always_private d)
    privatecnt := Function.update h.engine.privatecnt d 0 }
  registry := { h.registry with
    hasLocal := fun c => if c ∈ b.channels d then false else h.registry.hasLocal c
    dev := fun c => if c ∈ b.channels d then none else h.registry.dev c }

/-- The driver's memory is free again. -/
def kfree (d : Dev) (h : Hub) : Hub :=
  { h with engine := { h.engine with
      dma_private := Function.update h.engine.dma_private d false
      privatecnt := Function.update h.engine.privatecnt d 0 } }

inductive Event where
  | register (d : Dev) (a : Answers)
  | unregister (d : Dev)
  | chan_dev_release (cd : ChanDev)
  | dmaengine_get
  | dmaengine_put
  | dma_request_channel (mask : List TxType) (fn : Option (Chan → Bool))
  | dma_release_channel (chan : Chan)

/-- No client uses a channel of the device: the module references let its driver go. -/
def Unused (sys : System) (d : Dev) : Prop :=
  ∀ chan ∈ b.channels d, sys.hub.engine.client_count chan = 0

instance (sys : System) (d : Dev) : Decidable (Unused b sys d) :=
  inferInstanceAs (Decidable (∀ chan ∈ b.channels d, sys.hub.engine.client_count chan = 0))

/-- A driver registers a device it has not registered yet, and unregisters it once; clients give back what they have. -/
def step (sys : System) : Event → Option System
  | .register d a =>
    if d ∈ sys.live then none
    else (dma_async_device_register b a d (probe b d sys.hub)).map fun (hub, rc) =>
      if rc = 0 then { sys with
        hub := hub, live := d :: sys.live
        lost := addLost sys.hub.registry.registrations (hub.registry.dev_id d) (b.channels d) sys.lost }
      else { sys with hub := kfree d hub }
  | .unregister d =>
    if d ∈ sys.live ∧ Unused b sys d then
      (dma_async_device_unregister b d sys.hub).map fun hub => { sys with hub := kfree d hub, live := sys.live.erase d }
    else none
  | .chan_dev_release cd =>
    (chan_dev_release sys.hub.registry cd).map fun r => { sys with hub := { sys.hub with registry := r } }
  | .dmaengine_get => some { sys with hub := { sys.hub with engine := dmaengine_get b sys.hub.engine } }
  | .dmaengine_put =>
    if 0 < sys.hub.engine.dmaengine_ref_count then
      some { sys with hub := { sys.hub with engine := dmaengine_put b sys.hub.engine } }
    else none
  | .dma_request_channel mask fn =>
    let (s, chan) := dma_request_channel b mask fn sys.hub.engine
    some { sys with hub := { sys.hub with engine := s }, held := chan.toList ++ sys.held }
  | .dma_release_channel chan =>
    if chan ∈ sys.held then some { sys with
      hub := { sys.hub with engine := dma_release_channel b sys.hub.engine chan }, held := sys.held.erase chan }
    else none

/-- An `int` counts the public clients. -/
def FewClients (sys : System) : Event → Prop
  | .dmaengine_get => sys.hub.engine.dmaengine_ref_count + 1 < 2 ^ 31
  | _ => True

instance (sys : System) : ∀ e, Decidable (FewClients sys e)
  | .dmaengine_get => inferInstanceAs (Decidable (_ < _))
  | .register .. | .unregister _ | .chan_dev_release _ | .dmaengine_put | .dma_request_channel .. | .dma_release_channel _ =>
    .isTrue trivial

/-! ## The list and the table -/

variable {b} {s s' : State} {held : List Chan} {d : Dev} {sys sys' : System}

/-- Every entry of the table names a channel of one of the devices. -/
def Names (b : Board) (ds : List Dev) (s : State) : Prop :=
  ∀ cap ∈ dma_cap_mask_all, ∀ cpu ∈ b.possible, ∀ chan, s.channel_table cap cpu = some chan → ∃ d ∈ ds, chan ∈ b.channels d

theorem Names.congr {ds : List Dev} (h : Names b ds s) (ht : s'.channel_table = s.channel_table) : Names b ds s' := by
  intro cap hcap cpu hcpu chan hc
  exact h cap hcap cpu hcpu chan (ht ▸ hc)

theorem rebalance_names {ds : List Dev} (hl : s.dma_device_list ⊆ ds) : Names b ds (dma_channel_rebalance b s) ∧
    (dma_channel_rebalance b s).dma_device_list = s.dma_device_list := by
  obtain ⟨t, tbl, heq, htbl⟩ := rebalance_distributed b s
  rw [heq]
  refine ⟨fun cap hcap cpu hcpu chan hc => ?_, rfl⟩
  obtain ⟨-, d, hd, -, hc⟩ := htbl cap hcap cpu hcpu chan hc
  exact ⟨d, hl hd, hc⟩

theorem dmaengine_get_names {ds : List Dev} (h : Names b ds s) (hl : s.dma_device_list ⊆ ds) :
    Names b ds (dmaengine_get b s) ∧ (dmaengine_get b s).dma_device_list ⊆ ds := by
  have hpass : Passes b { s with dmaengine_ref_count := s.dmaengine_ref_count + 1 }
      (s.dma_device_list.foldl (getDevice b) { s with dmaengine_ref_count := s.dmaengine_ref_count + 1 }) :=
    devices_pass getDevice_passes
  have htable := hpass.frame.channel_table
  have hlist := hpass.list.subset
  unfold dmaengine_get
  dsimp only
  split
  · obtain ⟨hn, hd⟩ := rebalance_names (b := b) (List.Subset.trans hlist hl)
    exact ⟨hn, hd ▸ List.Subset.trans hlist hl⟩
  · exact ⟨h.congr htable, List.Subset.trans hlist hl⟩

theorem dmaengine_put_tables (b : Board) (s : State) : tables (dmaengine_put b s) = tables s :=
  (dmaengine_put_stale b s).1

theorem requestDevices_names (mask : List TxType) (fn : Option (Chan → Bool)) : ∀ (ds : List Dev) {s : State},
    Private b held s → (requestDevices b mask fn ds s).1.channel_table = s.channel_table ∧
      (requestDevices b mask fn ds s).1.dma_device_list ⊆ s.dma_device_list ∧
      ∀ chan, (requestDevices b mask fn ds s).2 = some chan → ∃ d ∈ ds, chan ∈ b.channels d := by
  intro ds
  induction ds with
  | nil => intro s _; exact ⟨rfl, List.Subset.refl _, nofun⟩
  | cons d ds ih =>
    intro s hi
    rcases requestDevices_cons mask fn hi d ds with ⟨chan, hc, -, -, hr⟩ | ⟨s', hs', hr⟩
    · rw [hr]
      refine ⟨rfl, List.Subset.refl _, ?_⟩
      rintro c ⟨⟩
      exact ⟨d, List.mem_cons_self, hc⟩
    · rw [hr]
      have hstep : Private b held s' ∧ s'.channel_table = s.channel_table ∧ s'.dma_device_list ⊆ s.dma_device_list := by
        rcases hs' with rfl | rfl | rfl
        · exact ⟨hi, rfl, List.Subset.refl _⟩
        · exact ⟨hi.calls _, rfl, List.Subset.refl _⟩
        · exact ⟨(hi.calls _).list_del_rcu d, rfl, List.erase_subset⟩
      obtain ⟨htable, hlist, hdev⟩ := ih hstep.1
      refine ⟨htable.trans hstep.2.1, List.Subset.trans hlist hstep.2.2, fun chan hc => ?_⟩
      obtain ⟨x, hx, hcx⟩ := hdev chan hc
      exact ⟨x, List.mem_cons_of_mem _ hx, hcx⟩

/-! ## The invariant without the devices that are not there -/

/-- The machine when only `live` are registered. -/
def Board.among (b : Board) (live : List Dev) : Board :=
  { b with always_private := fun d => b.always_private d && decide (d ∈ live) }

variable {live : List Dev}

theorem getChans_among (b : Board) (live : List Dev) : ∀ (chans : List Chan) (s : State),
    getChans (b.among live) d chans s = getChans b d chans s := by
  intro chans
  induction chans with
  | nil => intro s; rfl
  | cons chan chans ih =>
    intro s
    simp only [getChans, ih]
    rfl

theorem dmaengine_get_among (b : Board) (live : List Dev) (s : State) :
    dmaengine_get (b.among live) s = dmaengine_get b s := by
  have hdev : getDevice (b.among live) = getDevice b := by
    funext s d
    unfold getDevice
    rw [getChans_among]
    rfl
  unfold dmaengine_get
  rw [hdev]
  rfl

theorem dmaengine_put_among (b : Board) (live : List Dev) (s : State) :
    dmaengine_put (b.among live) s = dmaengine_put b s := rfl

theorem requestDevices_among (b : Board) (live : List Dev) (mask : List TxType) (fn : Option (Chan → Bool)) :
    ∀ (ds : List Dev) (s : State), requestDevices (b.among live) mask fn ds s = requestDevices b mask fn ds s := by
  intro ds
  induction ds with
  | nil => intro s; rfl
  | cons d ds ih =>
    intro s
    simp only [requestDevices, ih]
    rfl

/-! ## What a registration does to the clients' counts -/

theorem setCounts (chans : List Chan) (s : State) : chans.foldl (setCount · · 0) s =
    { s with client_count := fun c => if c ∈ chans then 0 else s.client_count c } := by
  induction chans generalizing s with
  | nil => simp
  | cons chan chans ih =>
    rw [List.foldl_cons, ih]
    refine congrArg (fun counts => { s with client_count := counts }) (funext fun c => ?_)
    by_cases hc : c = chan <;> simp [setCount, hc]

theorem takeChans_spec : ∀ {chans : List Chan} {s : State}, s.dmaengine_ref_count < 2 ^ 31 → chans.Nodup →
    (∀ c ∈ chans, s.client_count c = 0 ∧ s.dma_private (b.device c) = false) →
    ∃ counts n, (takeChans b chans s).1 = { s with client_count := counts, calls := n } ∧
      (∀ c ∉ chans, counts c = s.client_count c) ∧ ∀ c ∈ chans, counts c = 0 ∨ counts c = max 1 s.dmaengine_ref_count := by
  intro chans
  induction chans with
  | nil => intro s _ _ _; exact ⟨s.client_count, s.calls, rfl, fun _ _ => rfl, nofun⟩
  | cons chan chans ih =>
    intro s hlt hnd h0
    obtain ⟨hchan, hnd⟩ := List.nodup_cons.1 hnd
    obtain ⟨hzero, hpub⟩ := h0 chan List.mem_cons_self
    obtain ⟨n, hs, hg⟩ := dma_chan_get_cases b s chan (by omega) fun _ => hlt
    have hn : n = 0 ∨ n = max 1 s.dmaengine_ref_count := by
      generalize (dma_chan_get b chan s).2 = err at hg
      cases hg with
      | more h => exact absurd hzero h
      | failed => exact .inl rfl
      | first _ hp => rw [hpub] at hp; cases hp
      | caught_up => exact .inr rfl
    unfold takeChans
    dsimp only
    rw [hs]
    -- `-ENODEV` ends the loop, and the channels behind it stay at 0
    split
    · refine ⟨(setCount s chan n).client_count, s.calls + 1, rfl, fun c hc => ?_, fun c hc => ?_⟩
      · simp [setCount, List.ne_of_not_mem_cons hc]
      · rcases List.mem_cons.1 hc with rfl | hc
        · simpa using hn
        · have hne : c ≠ chan := fun he => hchan (he ▸ hc)
          simp [setCount, hne, (h0 c (List.mem_cons_of_mem _ hc)).1]
    · obtain ⟨counts, m, heq, hother, hcounts⟩ := @ih { setCount s chan n with calls := s.calls + 1 } hlt hnd (by
        intro c hc
        have hne : c ≠ chan := by rintro rfl; exact hchan hc
        simpa [setCount, hne] using h0 c (List.mem_cons_of_mem _ hc))
      refine ⟨counts, m, heq, fun c hc => ?_, fun c hc => ?_⟩
      · rw [hother c fun hm => hc (List.mem_cons_of_mem _ hm)]
        simp [setCount, List.ne_of_not_mem_cons hc]
      · rcases List.mem_cons.1 hc with rfl | hc
        · rw [hother c hchan]
          simpa using hn
        · exact hcounts c hc

/-- Only the counts of the device's own channels change: to those of the public clients there are, where it is public. -/
theorem takeDevice_spec (b : Board) (d : Dev) (hr : 0 ≤ s.dmaengine_ref_count) (hlt : s.dmaengine_ref_count < 2 ^ 31) :
    ∃ counts n, (takeDevice b ((b.channels d).foldl (setCount · · 0) s) d).1 = { s with client_count := counts, calls := n } ∧
      (∀ c ∉ b.channels d, counts c = s.client_count c) ∧
      ∀ c ∈ b.channels d, counts c = 0 ∨ s.dma_private d = false ∧ counts c = s.dmaengine_ref_count := by
  rw [setCounts]
  unfold takeDevice
  split
  next hpub =>
    obtain ⟨hr0, hp⟩ := hpub
    have hp : s.dma_private d = false := by simpa [dma_has_cap] using hp
    obtain ⟨counts, n, heq, hother, hcounts⟩ := @takeChans_spec b (b.channels d)
      { s with client_count := fun c => if c ∈ b.channels d then 0 else s.client_count c } hlt (b.channels_nodup d)
      fun c hc => ⟨if_pos hc, (congrArg s.dma_private (b.device_of_mem d c hc)).trans hp⟩
    refine ⟨counts, n, heq, fun c hc => (hother c hc).trans (if_neg hc), fun c hc => ?_⟩
    refine (hcounts c hc).imp_right fun h => ⟨hp, h.trans ?_⟩
    have : s.dmaengine_ref_count ≠ 0 := hr0
    show max 1 s.dmaengine_ref_count = _
    omega
  · exact ⟨_, s.calls, rfl, fun c hc => if_neg hc, fun c hc => .inl (if_pos hc)⟩

/-! ## What each step does to the invariant -/

theorem Ties.rebalance (hi : Ties b held (fun _ => s.dmaengine_ref_count) s) (hr : 0 ≤ s.dmaengine_ref_count)
    (hlt : s.dmaengine_ref_count < 2 ^ 31) (hs : s.stuck = false) : Inv b held (dma_channel_rebalance b s) := by
  obtain ⟨t, tbl, heq, htbl⟩ := rebalance_distributed b s
  rw [heq]
  exact { hi with
    ref_nonneg := hr
    ref_lt := hlt
    not_stuck := hs
    table := fun h0 cap hcap cpu hcpu chan hc => hi.shareable h0 (htbl cap hcap cpu hcpu chan hc) }

/-- Nothing depends on the counts of a device that is not in the list. -/
theorem Inv.unlisted (hi : Inv b held s) (hd : d ∉ s.dma_device_list) (hheld : ∀ chan ∈ held, b.device chan ≠ d)
    (hnames : Names b live s) (hlive : d ∉ live) {counts : Chan → Int} (n : Nat)
    (hcounts : ∀ c ∉ b.channels d, counts c = s.client_count c) :
    Inv b held { s with client_count := counts, calls := n } := by
  have hother : ∀ x ≠ d, ∀ c ∈ b.channels x, counts c = s.client_count c := by
    intro x hx c hc
    exact hcounts c fun h => hx ((b.device_of_mem x c hc).symm.trans (b.device_of_mem d c h))
  have hcount_held : ∀ chan ∈ held, counts chan = s.client_count chan := fun chan hc =>
    hcounts chan fun h => hheld chan hc (b.device_of_mem d chan h)
  refine { hi with
    held_count := fun chan hc => (hcount_held chan hc).trans (hi.held_count chan hc)
    private_count := fun x hx hp c hc hn => ?_
    public_count := fun x hx hp c hc => ?_
    table := fun hr cap hcap cpu hcpu chan hc => ?_ }
  · have hne : x ≠ d := by rintro rfl; exact hd hx
    show counts c = 0
    rw [hother x hne c hc]
    exact hi.private_count x hx hp c hc hn
  · have hne : x ≠ d := by rintro rfl; exact hd hx
    show counts c = 0 ∨ counts c = _
    rw [hother x hne c hc]
    exact hi.public_count x hx hp c hc
  · obtain ⟨x, hx, hcx⟩ := hnames cap hcap cpu hcpu chan hc
    have hne : x ≠ d := by rintro rfl; exact hlive hx
    obtain ⟨hpos, hn⟩ := hi.table hr cap hcap cpu hcpu chan hc
    refine ⟨?_, hn⟩
    show 0 < counts chan
    rw [hother x hne chan hcx]
    exact hpos

theorem among_always_private (b : Board) (live : List Dev) {x : Dev} (hx : x ≠ d) :
    (b.among (d :: live)).always_private x = (b.among live).always_private x := by
  simp [Board.among, hx]

/-- A device that is not registered counts no clients. -/
theorem Private.unregistered (hi : Private (b.among live) held s) (hlive : d ∉ live) (hheld : ∀ chan ∈ held, b.device chan ≠ d) :
    s.privatecnt d = 0 ∧ s.dma_private d = false := by
  have hcnt : s.privatecnt d = 0 := by
    have hnone : held.countP ((b.among live).device · = d) = 0 :=
      List.countP_eq_zero.2 fun chan hc => by
        simpa using show (b.among live).device chan ≠ d from hheld chan hc
    have h := hi.privatecnt d
    rw [hnone] at h
    simpa [Board.among, hlive] using h
  refine ⟨hcnt, Bool.not_eq_true _ ▸ fun hp => ?_⟩
  have := (hi.private_iff d).1 hp
  omega

/-- A registration that succeeds, up to the rebalancing. -/
theorem Inv.add (hi : Inv (b.among live) held s) (hlive : d ∉ live) (hlist : s.dma_device_list ⊆ live)
    (hheld : ∀ chan ∈ held, b.device chan ≠ d) {counts : Chan → Int} (n : Nat)
    (hother : ∀ c ∉ b.channels d, counts c = s.client_count c)
    (hcounts : ∀ c ∈ b.channels d, counts c = 0 ∨ b.always_private d = false ∧ counts c = s.dmaengine_ref_count) :
    Ties (b.among (d :: live)) held (fun _ => s.dmaengine_ref_count) { s with
      dma_device_list := s.dma_device_list ++ [d], dma_private := Function.update s.dma_private d (b.always_private d)
      privatecnt := Function.update s.privatecnt d (if b.always_private d then 1 else 0)
      client_count := counts, calls := n } where
  list_nodup := by
    rw [List.nodup_append_comm, List.singleton_append]
    exact List.nodup_cons.2 ⟨fun h => hlive (hlist h), hi.list_nodup⟩
  held_nodup := hi.held_nodup
  held_mem := hi.held_mem
  held_count chan hc := by
    have hnot : chan ∉ b.channels d := fun h => hheld chan hc (b.device_of_mem d chan h)
    exact (hother chan hnot).trans (hi.held_count chan hc)
  privatecnt x := by
    by_cases hx : x = d
    · subst hx
      have hnone : held.countP (b.device · = x) = 0 :=
        List.countP_eq_zero.2 fun chan hc => by simpa using hheld chan hc
      show Function.update s.privatecnt x _ x = _ + held.countP (b.device · = x)
      rw [hnone]
      simp [Board.among]
    · rw [among_always_private b live hx]
      exact (Function.update_of_ne hx _ _).trans (hi.privatecnt x)
  private_iff x := by
    by_cases hx : x = d
    · subst hx
      cases hp : b.always_private x <;> simp
    · simpa [hx] using hi.private_iff x
  public_count x hx hp c hc := by
    -- the new device was counted for the clients there are, the others are as before
    by_cases hxd : x = d
    · subst hxd
      exact (hcounts c hc).imp_right And.right
    · have hnot : c ∉ b.channels d := fun h => hxd ((b.device_of_mem x c hc).symm.trans (b.device_of_mem d c h))
      have hmem : x ∈ s.dma_device_list := by simpa [hxd] using hx
      show counts c = 0 ∨ counts c = _
      rw [hother c hnot]
      exact hi.public_count x hmem (by simpa [hxd] using hp) c hc
  private_count x hx hp c hc hn := by
    by_cases hxd : x = d
    · subst hxd
      refine (hcounts c hc).resolve_right fun h => ?_
      simp [h.1] at hp
    · have hnot : c ∉ b.channels d := fun h => hxd ((b.device_of_mem x c hc).symm.trans (b.device_of_mem d c h))
      have hmem : x ∈ s.dma_device_list := by simpa [hxd] using hx
      exact (hother c hnot).trans (hi.private_count x hmem (by simpa [hxd] using hp) c hc hn)

/-- A device that has left the list and has no client may be forgotten. -/
theorem Inv.remove (hi : Inv (b.among live) held s) (hnodup : live.Nodup) (hd : d ∉ s.dma_device_list)
    (hheld : ∀ chan ∈ held, b.device chan ≠ d) : Inv (b.among (live.erase d)) held { s with
      dma_private := Function.update s.dma_private d false, privatecnt := Function.update s.privatecnt d 0 } where
  list_nodup := hi.list_nodup
  held_nodup := hi.held_nodup
  held_mem := hi.held_mem
  held_count := hi.held_count
  privatecnt x := by
    by_cases hx : x = d
    · subst hx
      have hnone : held.countP (b.device · = x) = 0 :=
        List.countP_eq_zero.2 fun chan hc => by simpa using hheld chan hc
      show Function.update s.privatecnt x _ x = _ + held.countP (b.device · = x)
      rw [hnone]
      simp [Board.among, hnodup.mem_erase_iff]
    · have hsame : (b.among (live.erase d)).always_private x = (b.among live).always_private x := by
        simp [Board.among, hnodup.mem_erase_iff, hx]
      rw [hsame]
      exact (Function.update_of_ne hx _ _).trans (hi.privatecnt x)
  private_iff x := by
    by_cases hx : x = d
    · subst hx
      simp
    · simpa [hx] using hi.private_iff x
  public_count x hx hp c hc := by
    have hxd : x ≠ d := by rintro rfl; exact hd hx
    exact hi.public_count x hx (by simpa [hxd] using hp) c hc
  private_count x hx hp c hc hn := by
    have hxd : x ≠ d := by rintro rfl; exact hd hx
    exact hi.private_count x hx (by simpa [hxd] using hp) c hc hn
  ref_nonneg := hi.ref_nonneg
  ref_lt := hi.ref_lt
  not_stuck := hi.not_stuck
  table := hi.table

/-! ## Runs -/

structure Plugged (b : Board) (sys : System) : Prop where
  live_nodup : sys.live.Nodup
  listed : sys.hub.engine.dma_device_list ⊆ sys.live
  held_live : ∀ chan ∈ sys.held, ∃ d ∈ sys.live, chan ∈ b.channels d
  inv : Inv (b.among sys.live) sys.held sys.hub.engine
  names : Names b sys.live sys.hub.engine
  tidy : Tidy (sys.live.flatMap b.channels) sys.lost sys.hub.registry

theorem channels_of_others (hlive : d ∉ live) : ∀ c ∈ b.channels d, c ∉ live.flatMap b.channels := by
  intro c hc hmem
  obtain ⟨x, hx, hcx⟩ := List.mem_flatMap.1 hmem
  exact hlive ((b.device_of_mem d c hc).symm.trans (b.device_of_mem x c hcx) ▸ hx)

theorem Plugged.held_other (h : Plugged b sys) (hlive : d ∉ sys.live) : ∀ chan ∈ sys.held, b.device chan ≠ d := by
  rintro chan hc rfl
  obtain ⟨x, hx, hcx⟩ := h.held_live chan hc
  exact hlive (b.device_of_mem x chan hcx ▸ hx)

theorem Plugged.probe_tidy (h : Plugged b sys) (hlive : d ∉ sys.live) :
    Tidy (sys.live.flatMap b.channels) sys.lost (probe b d sys.hub).registry where
  registered := h.tidy.registered
  percpu := h.tidy.percpu
  dev cd hcd := by
    have hmem := h.tidy.registered.mem_iff.1 (List.mem_map_of_mem hcd)
    exact (if_neg fun hc => channels_of_others hlive cd.chan hc hmem).trans (h.tidy.dev cd hcd)
  ids := { h.tidy.ids with }

/-- What a device had that could not be registered does not matter. -/
theorem Plugged.failed (h : Plugged b sys) (hlive : d ∉ sys.live) {counts : Chan → Int} (n : Nat) {r : Registry}
    (hother : ∀ c ∉ b.channels d, counts c = sys.hub.engine.client_count c) (ht : Tidy (sys.live.flatMap b.channels) sys.lost r) :
    Plugged b { sys with
      hub := kfree d ⟨{ (probe b d sys.hub).engine with client_count := counts, calls := n }, r⟩ } := by
  have hheld := h.held_other hlive
  obtain ⟨hcnt, hpriv⟩ := h.inv.toPrivate.unregistered hlive hheld
  have hback : (kfree d ⟨{ (probe b d sys.hub).engine with client_count := counts, calls := n }, r⟩).engine =
      { sys.hub.engine with client_count := counts, calls := n } := by
    simp only [kfree, probe, Function.update_idem]
    rw [Function.update_eq_self_iff.2 hpriv.symm, Function.update_eq_self_iff.2 hcnt.symm]
  refine ⟨h.live_nodup, ?_, h.held_live, ?_, ?_, ht⟩
  · exact hback ▸ h.listed
  · show Inv _ _ (kfree _ _).engine
    rw [hback]
    exact h.inv.unlisted (fun hd => hlive (h.listed hd)) hheld h.names hlive n hother
  · exact hback ▸ h.names.congr rfl

theorem list_add_tail_rcu_eq (b : Board) (s : State) (d : Dev) : list_add_tail_rcu b s d = { s with
    dma_device_list := s.dma_device_list ++ [d]
    privatecnt := if s.dma_private d then Function.update s.privatecnt d (u32 (s.privatecnt d + 1)) else s.privatecnt } := by
  unfold list_add_tail_rcu
  cases hp : s.dma_private d <;> simp only [dma_has_cap_private, hp, if_true, if_false, Bool.false_eq_true]

theorem Plugged.add (h : Plugged b sys) (hlive : d ∉ sys.live) {counts : Chan → Int} (n : Nat) {r : Registry}
    (hother : ∀ c ∉ b.channels d, counts c = sys.hub.engine.client_count c)
    (hcounts : ∀ c ∈ b.channels d, counts c = 0 ∨
      b.always_private d = false ∧ counts c = sys.hub.engine.dmaengine_ref_count)
    {lost : List (Reg × Nat)} (ht : Tidy (b.channels d ++ sys.live.flatMap b.channels) lost r) :
    Plugged b { sys with
      hub := ⟨dma_channel_rebalance b
        (list_add_tail_rcu b { (probe b d sys.hub).engine with client_count := counts, calls := n } d), r⟩
      live := d :: sys.live
      lost := lost } := by
  have hheld := h.held_other hlive
  have hadd : list_add_tail_rcu b { (probe b d sys.hub).engine with client_count := counts, calls := n } d =
      { sys.hub.engine with
        dma_device_list := sys.hub.engine.dma_device_list ++ [d]
        dma_private := Function.update sys.hub.engine.dma_private d (b.always_private d)
        privatecnt := Function.update sys.hub.engine.privatecnt d (if b.always_private d then 1 else 0)
        client_count := counts, calls := n } := by
    have hone : u32 1 = 1 := by decide
    cases hp : b.always_private d <;> simp [list_add_tail_rcu_eq, probe, hp, hone]
  have hlist : sys.hub.engine.dma_device_list ++ [d] ⊆ d :: sys.live :=
    List.append_subset.2 ⟨List.Subset.trans h.listed (List.subset_cons_self _ _), by simp⟩
  have hties := h.inv.add hlive h.listed hheld n hother hcounts
  have hnames := rebalance_names (b := b) (s := { sys.hub.engine with
    dma_device_list := sys.hub.engine.dma_device_list ++ [d]
    dma_private := Function.update sys.hub.engine.dma_private d (b.always_private d)
    privatecnt := Function.update sys.hub.engine.privatecnt d (if b.always_private d then 1 else 0)
    client_count := counts, calls := n }) hlist
  rw [hadd]
  refine ⟨List.nodup_cons.2 ⟨hlive, h.live_nodup⟩, ?_, ?_, hties.rebalance h.inv.ref_nonneg h.inv.ref_lt h.inv.not_stuck,
    hnames.1, ht⟩
  · exact hnames.2 ▸ hlist
  · intro chan hc
    obtain ⟨x, hx, hcx⟩ := h.held_live chan hc
    exact ⟨x, List.mem_cons_of_mem _ hx, hcx⟩

theorem Plugged.register (h : Plugged b sys) (hlive : d ∉ sys.live) (a : Answers) :
    ∃ sys', step b sys (.register d a) = some sys' ∧ Plugged b sys' ∧
      (sys'.live = d :: sys.live ∨ sys'.live = sys.live ∧ tables sys'.hub.engine = tables sys.hub.engine) := by
  have hlocal : ∀ c ∈ b.channels d, (probe b d sys.hub).registry.hasLocal c = false := fun c hc => if_pos hc
  obtain ⟨⟨hub, rc⟩, hrun, hreg⟩ :=
    dma_async_device_register_registered b a d (h.probe_tidy hlive) (channels_of_others hlive) hlocal
  obtain ⟨counts, n, htake, hother, hcounts⟩ := takeDevice_spec b d (s := (probe b d sys.hub).engine) h.inv.ref_nonneg
    h.inv.ref_lt
  simp only [step, hrun, hlive, if_false, Option.map_some]
  refine ⟨_, rfl, ?_⟩
  simp only [Registered, htake] at hreg
  rcases hreg with ⟨hrc, ht, heng⟩ | ⟨rfl, -, ht, heng⟩
  · rw [if_neg hrc]
    obtain ⟨s, r⟩ := hub
    rcases heng with rfl | rfl
    · exact ⟨h.failed hlive sys.hub.engine.calls (fun _ _ => rfl) ht, .inr ⟨rfl, rfl⟩⟩
    · exact ⟨h.failed hlive n hother ht, .inr ⟨rfl, rfl⟩⟩
  · rw [if_pos rfl]
    obtain ⟨s, r⟩ := hub
    cases heng
    refine ⟨h.add hlive n hother (fun c hc => ?_) ht, .inl rfl⟩
    exact (hcounts c hc).imp_right fun hp => ⟨by simpa [probe] using hp.1, hp.2⟩

/-- A device may go as long as it is in the list, which it left if a client found its module gone. -/
theorem Plugged.unregister (h : Plugged b sys) (hlive : d ∈ sys.live) (hunused : Unused b sys d) :
    (d ∉ sys.hub.engine.dma_device_list → step b sys (.unregister d) = none) ∧
      (d ∈ sys.hub.engine.dma_device_list → ∃ sys', step b sys (.unregister d) = some sys' ∧ Plugged b sys' ∧
        sys'.live = sys.live.erase d) := by
  have hheld : ∀ chan ∈ sys.held, b.device chan ≠ d := by
    rintro chan hc rfl
    obtain ⟨x, -, hcx⟩ := h.held_live chan hc
    have hzero := hunused chan (b.device_of_mem x chan hcx ▸ hcx)
    have hone := h.inv.held_count chan hc
    omega
  -- the channels of `d` are given back; those of the others are as before
  have hperm : (sys.live.flatMap b.channels).Perm (b.channels d ++ (sys.live.erase d).flatMap b.channels) :=
    (List.perm_cons_erase hlive).flatMap_right b.channels
  obtain ⟨r, hr, htidy⟩ := (h.tidy.perm hperm).unregisterChans
  simp only [step, dma_async_device_unregister, hlive, hunused, and_self, if_true, hr]
  refine ⟨fun hd => by rw [if_neg hd]; rfl, fun hd => ?_⟩
  rw [if_pos hd]
  refine ⟨_, rfl, ?_, rfl⟩
  have hlist : (list_del_rcu sys.hub.engine d).dma_device_list ⊆ sys.live.erase d := by
    intro x hx
    obtain ⟨hne, hx⟩ := h.inv.list_nodup.mem_erase_iff.1 hx
    exact (List.mem_erase_of_ne hne).2 (h.listed hx)
  obtain ⟨hnames, hlist'⟩ := rebalance_names (b := b) hlist
  have hinv := (h.inv.list_del_rcu d).toTies.rebalance h.inv.ref_nonneg h.inv.ref_lt h.inv.not_stuck
  refine ⟨h.live_nodup.erase d, ?_, ?_, ?_, hnames.congr rfl, htidy⟩
  · exact hlist' ▸ hlist
  · intro chan hc
    obtain ⟨x, hx, hcx⟩ := h.held_live chan hc
    refine ⟨x, (List.mem_erase_of_ne ?_).2 hx, hcx⟩
    rintro rfl
    exact hheld chan hc (b.device_of_mem x chan hcx)
  · refine hinv.remove h.live_nodup ?_ hheld
    show d ∉ (dma_channel_rebalance b (list_del_rcu sys.hub.engine d)).dma_device_list
    rw [hlist']
    exact h.inv.list_nodup.not_mem_erase

theorem Plugged.chan_dev_release (h : Plugged b sys) {cd : ChanDev} (hcd : cd ∈ sys.hub.registry.closing) :
    ∃ sys', step b sys (.chan_dev_release cd) = some sys' ∧ Plugged b sys' := by
  obtain ⟨r, hr, htidy, -⟩ := h.tidy.release hcd
  exact ⟨_, congrArg (Option.map _) hr, h.live_nodup, h.listed, h.held_live, h.inv, h.names, htidy⟩

theorem Plugged.step {e : Event} (h : Plugged b sys) (hfew : FewClients sys e) (hs : step b sys e = some sys') :
    Plugged b sys' := by
  cases e with
  | register d a =>
    by_cases hbad : d ∈ sys.live
    · simp [Dmaengine.step, hbad] at hs
    · obtain ⟨t, ht, hp, -⟩ := h.register hbad a
      cases ht.symm.trans hs
      exact hp
  | unregister d =>
    by_cases hok : d ∈ sys.live ∧ Unused b sys d
    · obtain ⟨hgone, hthere⟩ := h.unregister hok.1 hok.2
      -- a device that a client took off the list cannot be unregistered
      by_cases hd : d ∈ sys.hub.engine.dma_device_list
      · obtain ⟨t, ht, hp, -⟩ := hthere hd
        cases ht.symm.trans hs
        exact hp
      · cases (hgone hd).symm.trans hs
    · simp [Dmaengine.step, hok] at hs
  | chan_dev_release cd =>
    by_cases hcd : cd ∈ sys.hub.registry.closing
    · obtain ⟨t, ht, hp⟩ := h.chan_dev_release hcd
      cases ht.symm.trans hs
      exact hp
    · simp [Dmaengine.step, Dmaengine.chan_dev_release, put, hcd] at hs
  | dmaengine_get =>
    cases hs
    obtain ⟨hnames, hlist⟩ := dmaengine_get_names h.names h.listed
    have hinv := dmaengine_get_inv h.inv hfew
    rw [dmaengine_get_among] at hinv
    exact ⟨h.live_nodup, hlist, h.held_live, hinv, hnames, h.tidy⟩
  | dmaengine_put =>
    simp only [Dmaengine.step] at hs
    split at hs
    next hr =>
      cases hs
      have htables := dmaengine_put_tables b sys.hub.engine
      have hinv := dmaengine_put_inv h.inv hr
      rw [dmaengine_put_among] at hinv
      have hlist : (dmaengine_put b sys.hub.engine).dma_device_list = sys.hub.engine.dma_device_list :=
        congrArg Prod.snd htables
      exact ⟨h.live_nodup, hlist ▸ h.listed, h.held_live, hinv, h.names.congr (congrArg Prod.fst htables), h.tidy⟩
    next => cases hs
  | dma_request_channel mask fn =>
    cases hs
    have hinv := dma_request_channel_inv mask fn h.inv
    obtain ⟨htable, hlist, hdev⟩ := requestDevices_names mask fn sys.hub.engine.dma_device_list h.inv.toPrivate
    unfold dma_request_channel at hinv
    rw [requestDevices_among] at hinv htable hlist hdev
    refine ⟨h.live_nodup, List.Subset.trans hlist h.listed, ?_, hinv, h.names.congr htable, h.tidy⟩
    intro chan hc
    rcases List.mem_append.1 hc with hc | hc
    · obtain ⟨d, hd, hcd⟩ := hdev chan (Option.mem_toList.1 hc)
      exact ⟨d, h.listed hd, hcd⟩
    · exact h.held_live chan hc
  | dma_release_channel chan =>
    simp only [Dmaengine.step] at hs
    split at hs
    next hc =>
      cases hs
      have hinv : Inv (b.among sys.live) (sys.held.erase chan) (dma_release_channel b sys.hub.engine chan) :=
        (dma_release_channel_eq h.inv.toPrivate hc).symm ▸ h.inv.release hc
      -- a release changes one channel, and neither the table nor the list
      have htables : tables (dma_release_channel b sys.hub.engine chan) = tables sys.hub.engine := by
        unfold dma_release_channel dma_chan_put
        split <;> rfl
      have hlist : (dma_release_channel b sys.hub.engine chan).dma_device_list = sys.hub.engine.dma_device_list :=
        congrArg Prod.snd htables
      refine ⟨h.live_nodup, hlist ▸ h.listed, ?_, hinv, h.names.congr (congrArg Prod.fst htables), h.tidy⟩
      exact fun c hm => h.held_live c (List.mem_of_mem_erase hm)
    next => cases hs

/-- Before the first driver is loaded. -/
structure Bare (b : Board) (sys : System) : Prop where
  live : sys.live = []
  held : sys.held = []
  lost : sys.lost = []
  engine : NoClient (b.among []) sys.hub.engine
  list : sys.hub.engine.dma_device_list = []
  table : ∀ cap cpu, sys.hub.engine.channel_table cap cpu = none
  registered : sys.hub.registry.registered = []
  closing : sys.hub.registry.closing = []
  percpu : sys.hub.registry.percpu = []
  dma_idr : sys.hub.registry.dma_idr = []
  idr_ref : ∀ reg, sys.hub.registry.idr_ref reg = none

theorem Bare.plugged (h : Bare b sys) : Plugged b sys where
  live_nodup := h.live ▸ List.nodup_nil
  listed := h.list ▸ List.nil_subset _
  held_live := by simp [h.held]
  inv := by
    rw [h.live, h.held]
    exact h.engine.inv
  names cap _ cpu _ chan hc := by
    rw [h.table] at hc
    cases hc
  tidy := by
    rw [h.live]
    refine ⟨by simp [h.registered], by simp [h.percpu], by simp [h.registered], ?_⟩
    rw [h.registered, h.closing, h.lost]
    exact ⟨by simp [h.idr_ref], by simp [h.idr_ref, owners], by simp, by simp [owners], by simp [h.dma_idr],
      by simp [h.dma_idr, owners], by simp [owners]⟩

theorem Bare.run {sys₀ : System} {es : List Event} (h : Bare b sys₀) (hfew : along (step b) FewClients sys₀ es)
    (hs : exec (step b) sys₀ es = some sys) : Plugged b sys :=
  exec_inv_along (Plugged b) (fun _ _ _ hp hfew hs => hp.step hfew hs) h.plugged hfew hs

def sampleSystem : System where
  hub := {
    engine := { Policy.sampleState.engine with dma_device_list := [] }
    registry := {
      dma_idr := [], idr_ref := fun _ => none, registered := [], closing := [], percpu := [], hasLocal := fun _ => false
      dev := fun _ => none, dev_id := fun _ => 0, registrations := 0 } }
  live := []
  held := []
  lost := []

theorem sampleSystem_bare : Bare Policy.sampleBoard sampleSystem :=
  ⟨rfl, rfl, rfl, ⟨List.nodup_nil, fun _ => rfl, fun _ => rfl, fun _ => rfl, rfl, rfl⟩, rfl, fun _ _ => rfl, rfl, rfl, rfl, rfl,
    fun _ => rfl⟩

/-- The lowest id that is not in use. -/
def lowestFree (ids : List Nat) : Nat := ((List.range (ids.length + 1)).find? (· ∉ ids)).getD 0

theorem lowestFree_not_mem (ids : List Nat) : lowestFree ids ∉ ids := by
  obtain ⟨n, hn, hfree⟩ : ∃ n ∈ List.range (ids.length + 1), n ∉ ids := by
    by_contra h
    push Not at h
    have := (List.subperm_of_subset List.nodup_range h).length_le
    rw [List.length_range] at this
    omega
  unfold lowestFree
  cases h : (List.range (ids.length + 1)).find? (· ∉ ids) with
  | none => exact absurd hfree (by simpa using List.find?_eq_none.1 h n hn)
  | some m => simpa using List.find?_some h

/-- Sysfs refuses channel `bad`. -/
def sampleAnswers (bad : Chan) : Answers where
  kmalloc := true
  idr_alloc ids := lowestFree ids
  idr_alloc_unused ids _ := lowestFree_not_mem ids
  alloc_percpu _ := true
  kzalloc _ := true
  device_register chan := if chan = bad then -5 else 0

/-- Device 0 fails once at its third channel; device 1 comes with a client waiting, goes and comes again, for another
client; a device without channels comes last. -/
def sampleEvents : List Event :=
  [.register 0 (sampleAnswers 2), .register 0 (sampleAnswers 9), .dmaengine_get, .register 1 (sampleAnswers 9),
    .chan_dev_release ⟨0, 0, 0⟩, .dmaengine_put, .dma_request_channel [.DMA_MEMCPY] none, .unregister 1,
    .register 1 (sampleAnswers 9), .dmaengine_get, .register 2 (sampleAnswers 9)]

/-- Whatever devices come and go: the table names channels of devices that are there, while there is a public client
those it has a reference to and nobody was handed, and a channel that was handed out has one client. No call is stuck. -/
theorem hotplug_safe {sys₀ : System} (h : Bare b sys₀) {es : List Event} (hfew : along (step b) FewClients sys₀ es)
    (hs : exec (step b) sys₀ es = some sys) :
    (∀ cap ∈ dma_cap_mask_all, ∀ cpu ∈ b.possible, ∀ chan, sys.hub.engine.channel_table cap cpu = some chan →
      (∃ d ∈ sys.live, chan ∈ b.channels d) ∧
        (0 < sys.hub.engine.dmaengine_ref_count → Shareable sys.held sys.hub.engine chan)) ∧
      sys.held.Nodup ∧
      (∀ chan ∈ sys.held, sys.hub.engine.client_count chan = 1 ∧ ∃ d ∈ sys.live, chan ∈ b.channels d) ∧
      sys.hub.engine.stuck = false := by
  have hp := h.run hfew hs
  refine ⟨fun cap hcap cpu hcpu chan hc => ⟨hp.names cap hcap cpu hcpu chan hc, fun hr => ?_⟩, hp.inv.held_nodup,
    fun chan hc => ⟨hp.inv.held_count chan hc, hp.held_live chan hc⟩, hp.inv.not_stuck⟩
  exact hp.inv.table hr cap hcap cpu hcpu chan hc

theorem sampleEvents_few : along (step Policy.sampleBoard) FewClients sampleSystem sampleEvents := by decide

theorem hotplug_safe_sample : ∃ sys, exec (step Policy.sampleBoard) sampleSystem sampleEvents = some sys ∧
    sys.held = [0] ∧ sys.hub.engine.channel_table .DMA_MEMCPY 0 = some 5 ∧
    (∃ d ∈ sys.live, 5 ∈ Policy.sampleBoard.channels d) ∧ Shareable sys.held sys.hub.engine 5 ∧
    sys.hub.engine.client_count 0 = 1 ∧ ∃ d ∈ sys.live, 0 ∈ Policy.sampleBoard.channels d := by
  have hrun : (exec (step Policy.sampleBoard) sampleSystem sampleEvents).map (fun sys =>
      (sys.held, sys.hub.engine.channel_table .DMA_MEMCPY 0, sys.hub.engine.dmaengine_ref_count)) =
      some ([0], some 5, 1) := by decide
  obtain ⟨sys, hs, h⟩ := Option.map_eq_some_iff.1 hrun
  simp only [Prod.mk.injEq] at h
  obtain ⟨hheld, htable, href⟩ := h
  obtain ⟨hnames, -, hchans, -⟩ := hotplug_safe sampleSystem_bare sampleEvents_few hs
  obtain ⟨hthere, hshare⟩ := hnames .DMA_MEMCPY (by decide) 0 (by decide) 5 htable
  have h0 := hchans 0 (by rw [hheld]; exact List.mem_singleton_self 0)
  exact ⟨sys, hs, hheld, htable, hthere, hshare (by rw [href]; decide), h0.1, h0.2⟩

/-- Whatever failed on the way: counters and sysfs entries are those of the devices there are, ids and `idr_ref`s those of
the `dma_chan_dev`s and of the registrations of devices without channels, each registration with an id of its own; and no
step of a driver finds something gone, except the unregistration of a device that a client took out of the list. -/
theorem registry_exact {sys₀ : System} (h : Bare b sys₀) {es : List Event} (hfew : along (step b) FewClients sys₀ es)
    (hs : exec (step b) sys₀ es = some sys) :
    sys.hub.registry.percpu.Perm (sys.live.flatMap b.channels) ∧
      (sys.hub.registry.registered.map ChanDev.chan).Perm (sys.live.flatMap b.channels) ∧
      Ids (sys.hub.registry.registered ++ sys.hub.registry.closing) sys.lost sys.hub.registry ∧
      (∀ d a, d ∉ sys.live → (step b sys (.register d a)).isSome = true) ∧
      (∀ d ∈ sys.live, Unused b sys d →
        ((step b sys (.unregister d)).isSome = true ↔ d ∈ sys.hub.engine.dma_device_list)) ∧
      ∀ cd ∈ sys.hub.registry.closing, (step b sys (.chan_dev_release cd)).isSome = true := by
  have hp := h.run hfew hs
  refine ⟨hp.tidy.percpu, hp.tidy.registered, hp.tidy.ids, fun d a hd => ?_, fun d hd hunused => ?_, fun cd hcd => ?_⟩
  · obtain ⟨t, ht, -⟩ := hp.register hd a
    rw [ht]
    rfl
  · obtain ⟨hgone, hthere⟩ := hp.unregister hd hunused
    constructor
    · intro hsome
      by_contra hn
      rw [hgone hn] at hsome
      cases hsome
    · intro hin
      obtain ⟨t, ht, -⟩ := hthere hin
      rw [ht]
      rfl
  · obtain ⟨t, ht, -⟩ := hp.chan_dev_release hcd
    rw [ht]
    rfl

theorem registry_exact_sample : ∃ sys, exec (step Policy.sampleBoard) sampleSystem sampleEvents = some sys ∧
    sys.live = [2, 1, 0] ∧ sys.hub.registry.closing.length = 2 ∧ sys.lost = [(4, 4)] ∧
    sys.hub.registry.percpu.Perm [5, 0, 1, 2, 3, 4] ∧
    Ids (sys.hub.registry.registered ++ sys.hub.registry.closing) sys.lost sys.hub.registry := by
  have hrun : (exec (step Policy.sampleBoard) sampleSystem sampleEvents).map (fun sys =>
      (sys.live, sys.hub.registry.closing.length, sys.lost)) = some ([2, 1, 0], 2, [(4, 4)]) := by decide
  obtain ⟨sys, hs, h⟩ := Option.map_eq_some_iff.1 hrun
  simp only [Prod.mk.injEq] at h
  obtain ⟨hlive, hclosing, hlost⟩ := h
  obtain ⟨hpercpu, -, hids, -⟩ := registry_exact sampleSystem_bare sampleEvents_few hs
  rw [hlive] at hpercpu
  exact ⟨sys, hs, hlive, hclosing, hlost, hpercpu, hids⟩

end Dmacftu.Dmaengine
