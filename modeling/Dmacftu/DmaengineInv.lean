import Dmacftu.Dmaengine
/-!
# Who uses a channel

`Private held` ties `client_count`, `privatecnt` and the `DMA_PRIVATE` bits
together, `held` being the channels handed out by `dma_request_channel` and not
yet released. No number of public clients breaks it. `Inv held` adds the counts
of the public channels and the entries of `channel_table`, and holds as long as
an `int` counts the public clients. One lemma per operation says what it does to
either. Inside the loops of `dmaengine_get` and `dmaengine_put` the counts are
those of `Ties`: some channels have the new number of clients already, the
others still have the old one.
-/
open Lib.CInt

namespace Dmacftu.Dmaengine

open TxType

variable (b : Board)

/-! ## The invariants -/

/-- A channel the table may name: in use, and not handed out privately. -/
def Shareable (held : List Chan) (s : State) (chan : Chan) : Prop := 0 < s.client_count chan ∧ chan ∉ held

/-- What the private clients have, however many public ones there are. -/
structure Private (held : List Chan) (s : State) : Prop where
  list_nodup : s.dma_device_list.Nodup
  held_nodup : held.Nodup
  held_mem : ∀ chan ∈ held, chan ∈ b.channels (b.device chan)
  held_count : ∀ chan ∈ held, s.client_count chan = 1
  privatecnt : ∀ d, s.privatecnt d = (if b.always_private d then 1 else 0) + held.countP (b.device · = d)
  private_iff : ∀ d, s.dma_private d = true ↔ 0 < s.privatecnt d
  private_count : ∀ d ∈ s.dma_device_list, s.dma_private d = true → ∀ chan ∈ b.channels d, chan ∉ held →
    s.client_count chan = 0

/-- What holds in the middle of a loop over the public channels too: a public
channel has no client or the `want`ed number of them. -/
structure Ties (held : List Chan) (want : Chan → Int) (s : State) : Prop extends Private b held s where
  public_count : ∀ d ∈ s.dma_device_list, s.dma_private d = false → ∀ chan ∈ b.channels d,
    s.client_count chan = 0 ∨ s.client_count chan = want chan

/-- Between calls every public channel in use has a reference of each public
client, and so has every channel of the table while there is one. -/
structure Inv (held : List Chan) (s : State) : Prop extends Ties b held (fun _ => s.dmaengine_ref_count) s where
  ref_nonneg : 0 ≤ s.dmaengine_ref_count
  ref_lt : s.dmaengine_ref_count < 2 ^ 31
  not_stuck : s.stuck = false
  table : 0 < s.dmaengine_ref_count → ∀ cap ∈ dma_cap_mask_all, ∀ cpu ∈ b.possible, ∀ chan,
    s.channel_table cap cpu = some chan → Shareable held s chan

variable {b} {held : List Chan} {s s' : State}

@[simp] theorem dma_has_cap_private (s : State) (d : Dev) : dma_has_cap b s DMA_PRIVATE d = s.dma_private d := by
  simp [dma_has_cap]

theorem Private.private_of_held (hi : Private b held s) {chan : Chan} (h : chan ∈ held) :
    s.dma_private (b.device chan) = true := by
  rw [hi.private_iff, hi.privatecnt]
  have : 0 < held.countP (b.device · = b.device chan) := List.countP_pos_iff.2 ⟨chan, h, by simp⟩
  split <;> omega

/-- A device has no more clients than an `unsigned int` counts. -/
theorem Private.privatecnt_lt (hi : Private b held s) (d : Dev) : s.privatecnt d + 1 < 2 ^ 32 := by
  have hle : held.countP (b.device · = d) ≤ (b.channels d).length := by
    rw [List.countP_eq_length_filter]
    refine (List.subperm_of_subset (hi.held_nodup.filter _) fun chan hc => ?_).length_le
    obtain ⟨hc, hd⟩ := List.mem_filter.1 hc
    rw [← of_decide_eq_true hd]
    exact hi.held_mem chan hc
  have hlen := b.channels_length d
  rw [hi.privatecnt]
  split <;> omega

/-- A channel of a listed device that no one was handed has no client when no
public client is left. -/
theorem Inv.idle_count (hi : Inv b held s) (h0 : s.dmaengine_ref_count = 0) {chan : Chan}
    (hd : b.device chan ∈ s.dma_device_list) (hc : chan ∈ b.channels (b.device chan)) (hn : chan ∉ held) :
    s.client_count chan = 0 := by
  cases hp : s.dma_private (b.device chan) with
  | true => exact hi.private_count _ hd hp chan hc hn
  | false =>
    rcases hi.public_count _ hd hp chan hc with h | h
    · exact h
    · rw [h, h0]

/-! ## Taking a channel -/

@[simp] theorem setCount_count (s : State) (chan : Chan) (n : Int) :
    (setCount s chan n).client_count chan = n := by
  simp [setCount]

/-- The count of one channel changes. -/
def SetsCount (chan : Chan) (s s' : State) : Prop :=
  ∃ n calls stuck, s' = { setCount s chan n with calls := calls, stuck := stuck }

theorem SetsCount.set {chan : Chan} (h : SetsCount chan s s') (n : Int) : SetsCount chan s (setCount s' chan n) := by
  obtain ⟨m, calls, stuck, rfl⟩ := h
  exact ⟨n, calls, stuck, by simp [setCount]⟩

theorem SetsCount.balance {chan : Chan} (h : SetsCount chan s s') : SetsCount chan s (balance_ref_count s' chan) := by
  unfold balance_ref_count
  split
  · exact h.set _
  · obtain ⟨m, calls, stuck, rfl⟩ := h
    exact ⟨m, calls, true, rfl⟩

theorem dma_chan_get_sets (b : Board) (s : State) (chan : Chan) : SetsCount chan s (dma_chan_get b chan s).1 := by
  have hcalls : SetsCount chan s { s with calls := s.calls + 1 } :=
    ⟨s.client_count chan, s.calls + 1, s.stuck, by simp [setCount]⟩
  unfold dma_chan_get
  dsimp only
  generalize (if s.client_count chan ≠ 0 then (0 : Int) else if b.try_module_get s.calls chan = true then 0 else -ENODEV) = err
  by_cases herr : err = 0
  · simp only [herr, if_true, and_true]
    split
    · split
      · exact (hcalls.set _).set 0
      · split
        · exact (hcalls.set _).balance
        · exact hcalls.set _
    · exact hcalls.set _
  · simp only [herr, if_false, and_false]
    exact hcalls

theorem dma_chan_put_sets (s : State) (chan : Chan) : SetsCount chan s (dma_chan_put s chan) := by
  unfold dma_chan_put
  split
  · exact ⟨s.client_count chan, s.calls, s.stuck, by simp [setCount]⟩
  · exact ⟨_, s.calls, s.stuck, rfl⟩

/-- How a `dma_chan_get` ends: a reference more to a channel in use, no
reference when its module is gone or its allocation fails, or the first one,
which a public channel catches up with the other public clients. -/
inductive Got (b : Board) (s : State) (chan : Chan) : Int → Int → Prop where
  | more : s.client_count chan ≠ 0 → Got b s chan 0 (s32 (s.client_count chan + 1))
  | failed {err : Int} : s.client_count chan = 0 → err ≠ 0 → Got b s chan err 0
  | first : s.client_count chan = 0 → s.dma_private (b.device chan) = true → Got b s chan 0 1
  | caught_up : s.client_count chan = 0 → s.dma_private (b.device chan) = false →
    Got b s chan 0 (max 1 s.dmaengine_ref_count)

/-- While an `int` counts the public clients. -/
theorem dma_chan_get_cases (b : Board) (s : State) (chan : Chan)
    (hcount : 0 ≤ s.client_count chan ∧ s.client_count chan < 2 ^ 31)
    (href : s.dma_private (b.device chan) = false → s.dmaengine_ref_count < 2 ^ 31) :
    ∃ n, (dma_chan_get b chan s).1 = { setCount s chan n with calls := s.calls + 1 } ∧
      Got b s chan (dma_chan_get b chan s).2 n := by
  by_cases h0 : s.client_count chan = 0
  · have h1 : s32 1 = 1 := by decide
    cases hm : b.try_module_get s.calls chan with
    | false =>
      refine ⟨0, ?_, .failed h0 ?_⟩
      · have : setCount s chan 0 = s := by rw [← h0]; simp [setCount]
        simp [dma_chan_get, h0, hm, ENODEV, this]
      · simp [dma_chan_get, h0, hm, ENODEV]
    | true =>
      by_cases ha : b.device_alloc_chan_resources s.calls chan < 0
      · refine ⟨0, ?_, .failed h0 ?_⟩
        · simp [dma_chan_get, h0, h1, hm, ha, setCount]
        · simp [dma_chan_get, h0, h1, hm, ha]
          omega
      · cases hp : s.dma_private (b.device chan) with
        | true =>
          refine ⟨1, ?_, ?_⟩
          · simp [dma_chan_get, h0, h1, hm, ha, hp, setCount]
          · simpa [dma_chan_get, h0, h1, hm, ha, hp, setCount] using Got.first h0 hp
        | false =>
          have hlt := href hp
          -- of a public device: `balance_ref_count` catches up with the clients
          refine ⟨max 1 s.dmaengine_ref_count, ?_, ?_⟩
          · have hlt : ¬ 2147483648 ≤ s.dmaengine_ref_count := by omega
            simp [dma_chan_get, balance_ref_count, h0, h1, hm, ha, hp, setCount, hlt]
          · simpa [dma_chan_get, h0, h1, hm, ha, hp, setCount] using Got.caught_up h0 hp
  · have h1 : ¬ s32 (s.client_count chan + 1) = 1 := by
      unfold s32 u32
      split <;> omega
    refine ⟨s32 (s.client_count chan + 1), ?_, ?_⟩
    · simp [dma_chan_get, h0, h1, setCount]
    · simpa [dma_chan_get, h0, h1, setCount] using Got.more h0

/-! ## What public clients leave alone -/

/-- What taking and dropping references leaves alone. -/
structure Frame (s s' : State) : Prop where
  channel_table : s'.channel_table = s.channel_table
  dmaengine_ref_count : s'.dmaengine_ref_count = s.dmaengine_ref_count
  copy_dmaengine_ref_count : s'.copy_dmaengine_ref_count = s.copy_dmaengine_ref_count
  dma_private : s'.dma_private = s.dma_private
  privatecnt : s'.privatecnt = s.privatecnt

theorem Frame.refl (s : State) : Frame s s := ⟨rfl, rfl, rfl, rfl, rfl⟩

theorem Frame.trans {s s' s'' : State} (h : Frame s s') (h' : Frame s' s'') : Frame s s'' :=
  ⟨h'.1.trans h.1, h'.2.trans h.2, h'.3.trans h.3, h'.4.trans h.4, h'.5.trans h.5⟩

/-- The loops of the public clients pass by the channels of a private device; a
device whose module is gone leaves the list. -/
structure Passes (b : Board) (s s' : State) : Prop where
  frame : Frame s s'
  list : s'.dma_device_list.Sublist s.dma_device_list
  count : ∀ d, s.dma_private d = true → ∀ chan ∈ b.channels d, s'.client_count chan = s.client_count chan

theorem Passes.refl (b : Board) (s : State) : Passes b s s := ⟨.refl s, List.Sublist.refl _, fun _ _ _ _ => rfl⟩

theorem Passes.trans {s s' s'' : State} (h : Passes b s s') (h' : Passes b s' s'') : Passes b s s'' where
  frame := h.frame.trans h'.frame
  list := h'.list.trans h.list
  count d hp chan hc := (h'.count d (h.frame.dma_private ▸ hp) chan hc).trans (h.count d hp chan hc)

theorem SetsCount.passes {chan : Chan} (h : SetsCount chan s s') (hp : s.dma_private (b.device chan) = false) :
    Passes b s s' := by
  obtain ⟨n, calls, stuck, rfl⟩ := h
  refine ⟨⟨rfl, rfl, rfl, rfl, rfl⟩, List.Sublist.refl _, fun d hd x hx => ?_⟩
  have : x ≠ chan := by
    rintro rfl
    rw [b.device_of_mem d x hx, hd] at hp
    cases hp
  simp [setCount, this]

theorem getChans_passes {d : Dev} : ∀ {chans : List Chan} {s : State}, s.dma_private d = false →
    (∀ chan ∈ chans, b.device chan = d) → Passes b s (getChans b d chans s) := by
  intro chans
  induction chans with
  | nil => intro s _ _; exact .refl b s
  | cons chan chans ih =>
    intro s hp hdev
    have hget := (dma_chan_get_sets b s chan).passes ((hdev chan List.mem_cons_self).symm ▸ hp)
    unfold getChans
    dsimp only
    split
    · exact hget.trans ⟨⟨rfl, rfl, rfl, rfl, rfl⟩, List.erase_sublist, fun _ _ _ _ => rfl⟩
    · exact hget.trans (ih (hget.frame.dma_private ▸ hp) fun x hx => hdev x (List.mem_cons_of_mem _ hx))

theorem putChans_passes {d : Dev} : ∀ {chans : List Chan} {s : State}, s.dma_private d = false →
    (∀ chan ∈ chans, b.device chan = d) → Passes b s (chans.foldl dma_chan_put s) := by
  intro chans
  induction chans with
  | nil => intro s _ _; exact .refl b s
  | cons chan chans ih =>
    intro s hp hdev
    have hput := (dma_chan_put_sets s chan).passes ((hdev chan List.mem_cons_self).symm ▸ hp)
    rw [List.foldl_cons]
    exact hput.trans (ih (hput.frame.dma_private ▸ hp) fun x hx => hdev x (List.mem_cons_of_mem _ hx))

theorem getDevice_passes (s : State) (d : Dev) : Passes b s (getDevice b s d) := by
  unfold getDevice
  cases hp : s.dma_private d with
  | true => simpa [hp] using Passes.refl b s
  | false => simpa [hp] using getChans_passes hp (b.device_of_mem d)

theorem putDevice_passes (s : State) (d : Dev) : Passes b s (putDevice b s d) := by
  unfold putDevice
  cases hp : s.dma_private d with
  | true => simpa [hp] using Passes.refl b s
  | false => simpa [hp] using putChans_passes hp (b.device_of_mem d)

theorem devices_pass {f : State → Dev → State} (h : ∀ s d, Passes b s (f s d)) : ∀ {ds : List Dev} {s : State},
    Passes b s (ds.foldl f s) := by
  intro ds
  induction ds with
  | nil => intro s; exact .refl b s
  | cons d ds ih => intro s; exact (h s d).trans ih

theorem Private.passes (hi : Private b held s) (h : Passes b s s') : Private b held s' where
  list_nodup := hi.list_nodup.sublist h.list
  held_nodup := hi.held_nodup
  held_mem := hi.held_mem
  held_count chan hc := (h.count _ (hi.private_of_held hc) chan (hi.held_mem chan hc)).trans (hi.held_count chan hc)
  privatecnt d := by rw [h.frame.privatecnt, hi.privatecnt]
  private_iff d := by rw [h.frame.dma_private, h.frame.privatecnt, hi.private_iff]
  private_count d hd hp chan hc hn := by
    rw [h.frame.dma_private] at hp
    exact (h.count d hp chan hc).trans (hi.private_count d (h.list.subset hd) hp chan hc hn)

/-! ## Counting through the public channels -/

variable {want : Chan → Int}

/-- A channel of a public device may be given any count, which is then its
wanted one unless it is zero. -/
theorem Ties.setCount (hi : Ties b held want s) {chan : Chan} (hp : s.dma_private (b.device chan) = false)
    {n w : Int} (hn : n = 0 ∨ n = w) : Ties b held (Function.update want chan w) (setCount s chan n) where
  toPrivate := hi.toPrivate.passes (SetsCount.passes ⟨n, s.calls, s.stuck, rfl⟩ hp)
  public_count d hd hpd x hx := by
    by_cases hxc : x = chan
    · subst hxc
      simpa using hn
    · simpa [Dmaengine.setCount, hxc] using hi.public_count d hd hpd x hx

theorem Private.list_del_rcu (hi : Private b held s) (d : Dev) : Private b held (list_del_rcu s d) :=
  hi.passes ⟨⟨rfl, rfl, rfl, rfl, rfl⟩, List.erase_sublist, fun _ _ _ _ => rfl⟩

/-- A device that left the list wants nothing. -/
theorem Ties.list_del_rcu (hi : Ties b held want s) {d : Dev} {want' : Chan → Int}
    (hw : ∀ chan, b.device chan ≠ d → want' chan = want chan) : Ties b held want' (list_del_rcu s d) where
  toPrivate := hi.toPrivate.list_del_rcu d
  public_count x hx hp chan hc := by
    obtain ⟨hxd, hx⟩ := (hi.list_nodup.mem_erase_iff).1 hx
    rw [hw chan (by rw [b.device_of_mem x chan hc]; exact hxd)]
    exact hi.public_count x hx hp chan hc

theorem Private.calls (hi : Private b held s) (n : Nat) : Private b held { s with calls := n } :=
  { hi with }

theorem Ties.calls (hi : Ties b held want s) (n : Nat) : Ties b held want { s with calls := n } :=
  { hi with }

/-- Only the channels of listed public devices want anything. -/
theorem Ties.want_of {want' : Chan → Int} (hi : Ties b held want s)
    (h : ∀ d ∈ s.dma_device_list, s.dma_private d = false → ∀ chan ∈ b.channels d, want chan = want' chan) :
    Ties b held want' s where
  toPrivate := hi.toPrivate
  public_count d hd hp chan hc := by
    rw [← h d hd hp chan hc]
    exact hi.public_count d hd hp chan hc

/-- What a loop over public channels gives: the ties to the counts wanted after
it; every channel in use stays in use as long as there is a public client. -/
structure Counted (b : Board) (held : List Chan) (want : Chan → Int) (s s' : State) : Prop where
  ties : Ties b held want s'
  frame : Frame s s'
  stuck : s'.stuck = s.stuck
  in_use : 0 < s.dmaengine_ref_count → ∀ chan, 0 < s.client_count chan → 0 < s'.client_count chan

theorem Counted.trans {want' : Chan → Int} {s' s'' : State} (h : Counted b held want s s')
    (h' : Counted b held want' s' s'') : Counted b held want' s s'' :=
  ⟨h'.ties, h.frame.trans h'.frame, h'.stuck.trans h.stuck, fun hr chan hc =>
    h'.in_use (h.frame.dmaengine_ref_count ▸ hr) chan (h.in_use hr chan hc)⟩

theorem dma_chan_get_public (hi : Ties b held want s) (hr : 0 < s.dmaengine_ref_count)
    (hlt : s.dmaengine_ref_count < 2 ^ 31) {d : Dev} (hd : d ∈ s.dma_device_list) (hp : s.dma_private d = false)
    {chan : Chan} (hc : chan ∈ b.channels d)
    (hw : want chan = s.dmaengine_ref_count - 1) :
    Counted b held (Function.update want chan s.dmaengine_ref_count) s (dma_chan_get b chan s).1 ∧
      (dma_chan_get b chan s).1.dma_device_list = s.dma_device_list := by
  have hdev := b.device_of_mem d chan hc
  have hcount := hi.public_count d hd hp chan hc
  obtain ⟨n, hs, hg⟩ := dma_chan_get_cases b s chan (by omega) fun _ => hlt
  rw [hs]
  generalize (dma_chan_get b chan s).2 = err at hg
  have hn : (n = 0 ∧ s.client_count chan = 0) ∨ n = s.dmaengine_ref_count := by
    cases hg with
    | more h =>
      right
      rw [s32_of_range (by omega) (by omega)]
      omega
    | failed h => exact .inl ⟨rfl, h⟩
    | first h hp' => simp [hdev, hp] at hp'
    | caught_up h => right; omega
  refine ⟨⟨?_, ⟨rfl, rfl, rfl, rfl, rfl⟩, rfl, ?_⟩, rfl⟩
  · exact (hi.setCount (hdev ▸ hp) (hn.imp_left And.left)).calls _
  · intro _ x hx
    by_cases hxc : x = chan
    · subst hxc
      simp only [setCount_count]
      omega
    · simpa [setCount, hxc] using hx

theorem getChans_counted {d : Dev} {r : Int} (hr : 0 < r) (hlt : r < 2 ^ 31) :
    ∀ {chans : List Chan} {want : Chan → Int} {s : State},
    Ties b held want s → s.dmaengine_ref_count = r → d ∈ s.dma_device_list → s.dma_private d = false →
    (∀ chan ∈ chans, chan ∈ b.channels d ∧ want chan = r - 1) → chans.Nodup →
    Counted b held (fun chan => if chan ∈ chans then r else want chan) s (getChans b d chans s) ∧
      ∀ d' ≠ d, d' ∈ s.dma_device_list → d' ∈ (getChans b d chans s).dma_device_list := by
  intro chans
  induction chans with
  | nil =>
    intro want s hi _ _ _ _ _
    exact ⟨⟨by simpa [getChans] using hi, .refl s, rfl, fun _ _ h => h⟩, fun _ _ h => h⟩
  | cons chan chans ih =>
    intro want s hi hs hd hp hw hnd
    obtain ⟨hchan, hnd⟩ := List.nodup_cons.1 hnd
    obtain ⟨hc, hwc⟩ := hw chan (by simp)
    obtain ⟨hget, hlist⟩ := dma_chan_get_public hi (hs ▸ hr) (hs ▸ hlt) hd hp hc (hs ▸ hwc)
    have hwant : ∀ x ∈ chans, x ∈ b.channels d ∧ Function.update want chan r x = r - 1 := by
      intro x hx
      have : x ≠ chan := by rintro rfl; exact hchan hx
      simpa [this] using hw x (by simp [hx])
    rw [hs] at hget
    unfold getChans
    simp only
    split
    · -- the module is gone: the device leaves the list with its other channels as they are
      refine ⟨hget.trans ⟨hget.ties.list_del_rcu ?_, ⟨rfl, rfl, rfl, rfl, rfl⟩, rfl, fun _ _ h => h⟩, ?_⟩
      · intro x hx
        have : x ∉ chan :: chans := fun h => hx (b.device_of_mem d x (hw x h).1)
        rw [List.mem_cons, not_or] at this
        simp [this]
      · intro d' hd' h
        exact (List.mem_erase_of_ne hd').2 (hlist ▸ h)
    · obtain ⟨h, hl⟩ := ih hget.ties (hget.frame.dmaengine_ref_count.trans hs) (hlist ▸ hd)
        (by rw [hget.frame.dma_private]; exact hp) hwant hnd
      refine ⟨?_, fun d' hd' h' => hl d' hd' (hlist ▸ h')⟩
      refine ⟨(hget.trans h).ties.want_of fun _ _ _ x _ => ?_, (hget.trans h).frame, (hget.trans h).stuck,
        (hget.trans h).in_use⟩
      by_cases hx : x = chan <;> simp [hx]

theorem dma_chan_put_public (hi : Ties b held want s) (hr : 0 ≤ s.dmaengine_ref_count)
    (hlt : s.dmaengine_ref_count < 2 ^ 31) {d : Dev} (hd : d ∈ s.dma_device_list) (hp : s.dma_private d = false)
    {chan : Chan} (hc : chan ∈ b.channels d)
    (hw : want chan = s.dmaengine_ref_count + 1) :
    Counted b held (Function.update want chan s.dmaengine_ref_count) s (dma_chan_put s chan) ∧
      (dma_chan_put s chan).dma_device_list = s.dma_device_list := by
  have hpc : s.dma_private (b.device chan) = false := b.device_of_mem d chan hc ▸ hp
  unfold dma_chan_put
  split
  next h0 =>
    refine ⟨⟨?_, .refl s, rfl, fun _ _ h => h⟩, rfl⟩
    -- `chan` failed its allocation: its count is already the one a put leaves
    have : setCount s chan 0 = s := by rw [← h0]; simp [setCount]
    rw [← this]
    exact hi.setCount hpc (.inl rfl)
  next h0 =>
    have hn : s32 (s.client_count chan - 1) = s.dmaengine_ref_count := by
      rw [(hi.public_count d hd hp chan hc).resolve_left h0, hw, s32_of_range (by omega) (by omega)]
      omega
    refine ⟨⟨hi.setCount hpc (.inr hn), ⟨rfl, rfl, rfl, rfl, rfl⟩, rfl, ?_⟩, rfl⟩
    intro hr x hx
    by_cases hxc : x = chan
    · subst hxc
      simp only [setCount_count]
      omega
    · simpa [setCount, hxc] using hx

theorem putChans_counted {d : Dev} {r : Int} (hr : 0 ≤ r) (hlt : r < 2 ^ 31) :
    ∀ {chans : List Chan} {want : Chan → Int} {s : State},
    Ties b held want s → s.dmaengine_ref_count = r → d ∈ s.dma_device_list → s.dma_private d = false →
    (∀ chan ∈ chans, chan ∈ b.channels d ∧ want chan = r + 1) → chans.Nodup →
    Counted b held (fun chan => if chan ∈ chans then r else want chan) s (chans.foldl dma_chan_put s) ∧
      (chans.foldl dma_chan_put s).dma_device_list = s.dma_device_list := by
  intro chans
  induction chans with
  | nil =>
    intro want s hi _ _ _ _ _
    exact ⟨⟨by simpa using hi, .refl s, rfl, fun _ _ h => h⟩, rfl⟩
  | cons chan chans ih =>
    intro want s hi hs hd hp hw hnd
    obtain ⟨hchan, hnd⟩ := List.nodup_cons.1 hnd
    obtain ⟨hc, hwc⟩ := hw chan (by simp)
    obtain ⟨hput, hlist⟩ := dma_chan_put_public hi (hs ▸ hr) (hs ▸ hlt) hd hp hc (hs ▸ hwc)
    have hwant : ∀ x ∈ chans, x ∈ b.channels d ∧ Function.update want chan r x = r + 1 := by
      intro x hx
      have : x ≠ chan := by rintro rfl; exact hchan hx
      simpa [this] using hw x (by simp [hx])
    rw [hs] at hput
    obtain ⟨h, hl⟩ := ih hput.ties (hput.frame.dmaengine_ref_count.trans hs) (hlist ▸ hd)
      (by rw [hput.frame.dma_private]; exact hp) hwant hnd
    rw [List.foldl_cons]
    refine ⟨⟨(hput.trans h).ties.want_of fun _ _ _ x _ => ?_, (hput.trans h).frame, (hput.trans h).stuck,
      (hput.trans h).in_use⟩, hl.trans hlist⟩
    by_cases hx : x = chan <;> simp [hx]

/-- The loop over the devices, for either operation: its body `f` skips private
devices and takes the channels of a public one from `q` clients to the
`r` there are now. -/
theorem devices_counted {f : State → Dev → State} {q r : Int}
    (hprivate : ∀ s d, s.dma_private d = true → f s d = s)
    (hpublic : ∀ {want : Chan → Int} {s : State} {d : Dev}, Ties b held want s → s.dmaengine_ref_count = r →
      d ∈ s.dma_device_list → s.dma_private d = false → (∀ chan ∈ b.channels d, want chan = q) →
      Counted b held (fun chan => if chan ∈ b.channels d then r else want chan) s (f s d) ∧
        ∀ d' ≠ d, d' ∈ s.dma_device_list → d' ∈ (f s d).dma_device_list) :
    ∀ {ds : List Dev} {s : State},
    Ties b held (fun chan => if b.device chan ∈ ds then q else r) s → s.dmaengine_ref_count = r →
    (∀ d ∈ ds, d ∈ s.dma_device_list) → ds.Nodup → Counted b held (fun _ => r) s (ds.foldl f s) := by
  intro ds
  induction ds with
  | nil =>
    intro s hi _ _ _
    exact ⟨by simpa using hi, .refl s, rfl, fun _ _ h => h⟩
  | cons d ds ih =>
    intro s hi hs hl hnd
    obtain ⟨hd, hnd⟩ := List.nodup_cons.1 hnd
    rw [List.foldl_cons]
    cases hp : s.dma_private d with
    | true =>
      rw [hprivate s d hp]
      -- a private device is passed: nothing is wanted of its channels
      refine ih (hi.want_of ?_) hs (fun x hx => hl x (by simp [hx])) hnd
      intro x _ hpx chan hc
      have : x ≠ d := by rintro rfl; simp [hp] at hpx
      simp [b.device_of_mem x chan hc, this]
    | false =>
      obtain ⟨h, hlist⟩ := hpublic hi hs (hl d (by simp)) hp
        (fun chan hc => by simp [b.device_of_mem d chan hc])
      refine h.trans (ih (h.ties.want_of ?_) (h.frame.dmaengine_ref_count.trans hs) ?_ hnd)
      · intro x _ _ chan hc
        by_cases hx : x = d
        · subst hx
          simp [hc, b.device_of_mem x chan hc, hd]
        · have : chan ∉ b.channels d := fun h => hx ((b.device_of_mem x chan hc).symm.trans (b.device_of_mem d chan h))
          simp [this, b.device_of_mem x chan hc, hx]
      · intro x hx
        exact hlist x (by rintro rfl; exact hd hx) (hl x (by simp [hx]))

/-- The wanted counts when a loop over all devices begins. -/
theorem Ties.begin_loop {q r : Int} (hi : Ties b held (fun _ => q) s) :
    Ties b held (fun chan => if b.device chan ∈ s.dma_device_list then q else r) s :=
  hi.want_of fun d hd _ chan hc => by simp [b.device_of_mem d chan hc, hd]

theorem getDevices_counted (hi : Ties b held (fun _ => s.dmaengine_ref_count - 1) s)
    (hr : 0 < s.dmaengine_ref_count) (hlt : s.dmaengine_ref_count < 2 ^ 31) :
    Counted b held (fun _ => s.dmaengine_ref_count) s (s.dma_device_list.foldl (getDevice b) s) := by
  refine devices_counted ?_ ?_ hi.begin_loop rfl (fun _ h => h) hi.list_nodup
  · intro s d hp
    simp [getDevice, hp]
  · intro want s' d hi hs hd hp hw
    simp only [getDevice, dma_has_cap_private, hp]
    exact getChans_counted hr hlt hi hs hd hp (fun chan hc => ⟨hc, hw chan hc⟩) (b.channels_nodup d)

theorem putDevices_counted (hi : Ties b held (fun _ => s.dmaengine_ref_count + 1) s)
    (hr : 0 ≤ s.dmaengine_ref_count) (hlt : s.dmaengine_ref_count < 2 ^ 31) :
    Counted b held (fun _ => s.dmaengine_ref_count) s (s.dma_device_list.foldl (putDevice b) s) := by
  refine devices_counted ?_ ?_ hi.begin_loop rfl (fun _ h => h) hi.list_nodup
  · intro s d hp
    simp [putDevice, hp]
  · intro want s' d hi hs hd hp hw
    simp only [putDevice, dma_has_cap_private, hp]
    obtain ⟨h, hl⟩ := putChans_counted hr hlt hi hs hd hp (fun chan hc => ⟨hc, hw chan hc⟩) (b.channels_nodup d)
    exact ⟨h, fun d' _ h' => hl.symm ▸ h'⟩

/-- A loop leaves alone what its body leaves alone. -/
theorem foldl_same {α β : Type} {f : State → α → State} {p : State → β} (h : ∀ s a, p (f s a) = p s) :
    ∀ {l : List α} {s : State}, p (l.foldl f s) = p s := by
  intro l
  induction l with
  | nil => intro s; rfl
  | cons a l ih => intro s; rw [List.foldl_cons, ih, h]

/-- The table and the list of devices, which no put changes. -/
def tables (s : State) : (TxType → Cpu → Option Chan) × List Dev := (s.channel_table, s.dma_device_list)

theorem putDevice_tables (s : State) (d : Dev) : tables (putDevice b s d) = tables s := by
  unfold putDevice
  split
  · rfl
  · apply foldl_same
    intro s chan
    unfold dma_chan_put
    split <;> rfl

theorem dma_chan_put_other {c chan : Chan} (h : chan ≠ c) (s : State) :
    (dma_chan_put s c).client_count chan = s.client_count chan := by
  unfold dma_chan_put
  split
  · rfl
  · simp [setCount, h]

theorem putChans_other {chan : Chan} : ∀ {chans : List Chan} {s : State}, chan ∉ chans →
    (chans.foldl dma_chan_put s).client_count chan = s.client_count chan := by
  intro chans
  induction chans with
  | nil => intro s _; rfl
  | cons c chans ih =>
    intro s h
    rw [List.mem_cons, not_or] at h
    rw [List.foldl_cons, ih h.2, dma_chan_put_other h.1]

theorem putDevices_other {chan : Chan} : ∀ {ds : List Dev} {s : State}, (∀ d ∈ ds, chan ∉ b.channels d) →
    (ds.foldl (putDevice b) s).client_count chan = s.client_count chan := by
  intro ds
  induction ds with
  | nil => intro s _; rfl
  | cons d ds ih =>
    intro s h
    rw [List.foldl_cons, ih fun x hx => h x (by simp [hx])]
    unfold putDevice
    split
    · rfl
    · exact putChans_other (h d (by simp))

/-! ## The table -/

/-- What `nth_chan` may return. -/
def Candidate (b : Board) (s : State) (chan : Chan) : Prop :=
  s.client_count chan ≠ 0 ∧ ∃ d ∈ s.dma_device_list, s.dma_private d = false ∧ chan ∈ b.channels d

/-- The channels a scan has picked so far are candidates. -/
def Scan.Ok (b : Board) (s : State) (v : Scan) : Prop :=
  ∀ chan, v.min = some chan ∨ v.ret = some chan → Candidate b s chan

theorem scanChan_ok {v : Scan} {chan : Chan} (hv : v.Ok b s) {d : Dev} (hd : d ∈ s.dma_device_list)
    (hp : s.dma_private d = false) (hc : chan ∈ b.channels d) : (scanChan s v chan).Ok b s := by
  unfold scanChan
  split
  · exact hv
  split
  · exact hv
  next h0 =>
    have hcand : Candidate b s chan := ⟨h0, d, hd, hp, hc⟩
    intro x hx
    rcases hx with hx | hx
    · cases hm : v.min with
      | none =>
        simp [hm] at hx
        exact hx ▸ hcand
      | some m =>
        simp [hm] at hx
        split at hx
        · exact hx ▸ hcand
        · exact hv x (.inl (hx ▸ hm))
    · simp at hx
      exact hx.2 ▸ hcand

theorem foldl_scanChan_ok {d : Dev} (hd : d ∈ s.dma_device_list) (hp : s.dma_private d = false) :
    ∀ {chans : List Chan} {v : Scan}, v.Ok b s → (∀ chan ∈ chans, chan ∈ b.channels d) →
      (chans.foldl (scanChan s) v).Ok b s := by
  intro chans
  induction chans with
  | nil => intro v hv _; exact hv
  | cons chan chans ih =>
    intro v hv hc
    exact ih (scanChan_ok hv hd hp (hc chan (by simp))) fun x hx => hc x (by simp [hx])

theorem foldl_scanDevice_ok {cap : TxType} :
    ∀ {ds : List Dev} {v : Scan}, v.Ok b s → (∀ d ∈ ds, d ∈ s.dma_device_list) →
      (ds.foldl (scanDevice b s cap) v).Ok b s := by
  intro ds
  induction ds with
  | nil => intro v hv _; exact hv
  | cons d ds ih =>
    intro v hv hd
    refine ih ?_ fun x hx => hd x (by simp [hx])
    unfold scanDevice
    split
    · exact hv
    split
    · exact hv
    next h =>
      simp at h
      exact foldl_scanChan_ok (hd d (by simp)) h.2 hv fun _ h => h

theorem nth_chan_spec (b : Board) (s : State) (cap : TxType) (n : Int) :
    ∃ t, (nth_chan b cap n s).1 = { s with table_count := t } ∧
      ∀ chan, (nth_chan b cap n s).2 = some chan → Candidate b s chan := by
  have hok : (s.dma_device_list.foldl (scanDevice b s cap) ⟨n, none, none⟩).Ok b s :=
    foldl_scanDevice_ok (by intro chan h; simp at h) fun _ h => h
  unfold nth_chan
  simp only
  split
  next => exact ⟨s.table_count, rfl, by simp⟩
  next ret h =>
    refine ⟨_, rfl, ?_⟩
    rintro chan ⟨⟩
    rcases Option.or_eq_some_iff.1 h with h | ⟨_, h⟩
    · exact hok ret (.inr h)
    · exact hok ret (.inl h)

/-- `s` with another distribution, every entry of which is a candidate. -/
def Distributed (b : Board) (s s' : State) : Prop :=
  ∃ t tbl, s' = { s with table_count := t, channel_table := tbl } ∧
    ∀ cap ∈ dma_cap_mask_all, ∀ cpu ∈ b.possible, ∀ chan, tbl cap cpu = some chan → Candidate b s chan

theorem undistribute_distributed (b : Board) (s : State) : Distributed b s (undistribute b s) := by
  refine ⟨_, _, rfl, ?_⟩
  intro cap hcap cpu hcpu chan h
  simp [hcap, hcpu] at h

theorem setEntry_distributed {s' : State} (hs : Distributed b s s') (cap : TxType) (cpu : Cpu) (n : Int) :
    Distributed b s (setEntry (nth_chan b cap n s').1 cap cpu (nth_chan b cap n s').2) := by
  obtain ⟨t, tbl, rfl, htbl⟩ := hs
  obtain ⟨t', ht', hchan⟩ := nth_chan_spec b { s with table_count := t, channel_table := tbl } cap n
  rw [ht']
  refine ⟨t', _, rfl, ?_⟩
  intro cap' hcap cpu' hcpu chan h
  simp only at h
  split at h
  · exact hchan chan h
  · exact htbl cap' hcap cpu' hcpu chan h

theorem redistribute_distributed {sn : State × Int} (hs : Distributed b s sn.1) (e : TxType × Cpu) :
    Distributed b s (redistribute b sn e).1 := by
  unfold redistribute
  simp only
  split
  · exact setEntry_distributed hs e.1 e.2 sn.2
  · exact setEntry_distributed hs e.1 e.2 (-1)

theorem foldl_redistribute_distributed : ∀ {es : List (TxType × Cpu)} {sn : State × Int},
    Distributed b s sn.1 → Distributed b s (es.foldl (redistribute b) sn).1 := by
  intro es
  induction es with
  | nil => intro sn h; exact h
  | cons e es ih => intro sn h; exact ih (redistribute_distributed h e)

theorem rebalance_distributed (b : Board) (s : State) : Distributed b s (dma_channel_rebalance b s) := by
  unfold dma_channel_rebalance
  simp only
  split
  · exact undistribute_distributed b s
  · exact foldl_redistribute_distributed (undistribute_distributed b s)

theorem Ties.shareable (hi : Ties b held (fun _ => s.dmaengine_ref_count) s) (hr : 0 < s.dmaengine_ref_count)
    {chan : Chan} (h : Candidate b s chan) : Shareable held s chan := by
  obtain ⟨h0, d, hd, hp, hc⟩ := h
  constructor
  · rw [(hi.public_count d hd hp chan hc).resolve_left h0]
    exact hr
  · intro hh
    have := hi.toPrivate.private_of_held hh
    rw [b.device_of_mem d chan hc, hp] at this
    cases this

/-! ## What each operation does to the invariant -/

/-- The counters of the public clients. -/
def refs (s : State) : Int × Int := (s.dmaengine_ref_count, s.copy_dmaengine_ref_count)

/-- Moving `dmaengine_ref_count` leaves the counts one off. -/
theorem Ties.set_ref_count {r : Int} (hi : Ties b held want s) (hw : ∀ chan, want chan = r) (n : Int) :
    Ties b held (fun _ => r) { s with dmaengine_ref_count := n } :=
  { hi.want_of (fun _ _ _ chan _ => hw chan) with }

/-- The table keeps what it holds as long as channels in use stay in use. -/
theorem Counted.table {s' : State} (h : Counted b held want s s') (hr : 0 < s.dmaengine_ref_count)
    {cap : TxType} {cpu : Cpu}
    (ht : ∀ chan, s.channel_table cap cpu = some chan → Shareable held s chan) :
    ∀ chan, s'.channel_table cap cpu = some chan → Shareable held s' chan := by
  intro chan hchan
  rw [h.frame.channel_table] at hchan
  obtain ⟨hcount, hheld⟩ := ht chan hchan
  exact ⟨h.in_use hr chan hcount, hheld⟩

/-- A get passes over the devices and may distribute the channels anew. -/
theorem dmaengine_get_passes (b : Board) (s : State) : ∃ s₂ t tbl,
    Passes b { s with dmaengine_ref_count := s.dmaengine_ref_count + 1 } s₂ ∧
      dmaengine_get b s = { s₂ with table_count := t, channel_table := tbl } := by
  let s₁ := { s with dmaengine_ref_count := s.dmaengine_ref_count + 1 }
  have h : Passes b s₁ (s₁.dma_device_list.foldl (getDevice b) s₁) := devices_pass getDevice_passes
  unfold dmaengine_get
  dsimp only
  split
  · obtain ⟨t, tbl, heq, -⟩ := rebalance_distributed b (s₁.dma_device_list.foldl (getDevice b) s₁)
    exact ⟨_, t, tbl, h, heq⟩
  · exact ⟨_, _, _, h, rfl⟩

theorem dmaengine_put_passes (b : Board) (s : State) :
    Passes b { s with dmaengine_ref_count := s.dmaengine_ref_count - 1 } (dmaengine_put b s) :=
  devices_pass putDevice_passes

theorem dmaengine_get_refs (b : Board) (s : State) :
    refs (dmaengine_get b s) = (s.dmaengine_ref_count + 1, s.copy_dmaengine_ref_count) := by
  obtain ⟨s₂, t, tbl, h, heq⟩ := dmaengine_get_passes b s
  rw [heq]
  exact Prod.ext h.frame.dmaengine_ref_count h.frame.copy_dmaengine_ref_count

theorem dmaengine_put_refs (b : Board) (s : State) :
    refs (dmaengine_put b s) = (s.dmaengine_ref_count - 1, s.copy_dmaengine_ref_count) :=
  have h := (dmaengine_put_passes b s).frame
  Prod.ext h.dmaengine_ref_count h.copy_dmaengine_ref_count

theorem Private.get (hi : Private b held s) : Private b held (dmaengine_get b s) := by
  obtain ⟨s₂, t, tbl, h, heq⟩ := dmaengine_get_passes b s
  have h₁ : Private b held { s with dmaengine_ref_count := s.dmaengine_ref_count + 1 } := { hi with }
  rw [heq]
  exact { h₁.passes h with }

theorem Private.put (hi : Private b held s) : Private b held (dmaengine_put b s) :=
  have h₁ : Private b held { s with dmaengine_ref_count := s.dmaengine_ref_count - 1 } := { hi with }
  h₁.passes (dmaengine_put_passes b s)

theorem dmaengine_get_inv (hi : Inv b held s) (hlt : s.dmaengine_ref_count + 1 < 2 ^ 31) :
    Inv b held (dmaengine_get b s) := by
  have hr := hi.ref_nonneg
  let s₁ := { s with dmaengine_ref_count := s.dmaengine_ref_count + 1 }
  have hs₁ : 0 < s₁.dmaengine_ref_count := Int.lt_add_one_of_le hr
  have hties : Ties b held (fun _ => s₁.dmaengine_ref_count - 1) s₁ :=
    hi.toTies.set_ref_count (fun _ => (Int.add_sub_cancel _ 1).symm) _
  have h := getDevices_counted hties hs₁ hlt
  unfold dmaengine_get
  simp only
  generalize s₁.dma_device_list.foldl (getDevice b) s₁ = s₂ at h ⊢
  have href : s₂.dmaengine_ref_count = s.dmaengine_ref_count + 1 := h.frame.dmaengine_ref_count
  have hties₂ : Ties b held (fun _ => s₂.dmaengine_ref_count) s₂ := h.frame.dmaengine_ref_count ▸ h.ties
  split
  next h1 =>
    -- the first client: the table is rebuilt from the channels just taken
    obtain ⟨t, tbl, heq, htbl⟩ := rebalance_distributed b s₂
    rw [heq]
    refine { hties₂ with
      ref_nonneg := by simp only; omega
      ref_lt := by simp only; omega
      not_stuck := h.stuck.trans hi.not_stuck
      table := ?_ }
    intro hr cap hcap cpu hcpu chan hchan
    exact hties₂.shareable hr (htbl cap hcap cpu hcpu chan hchan)
  next h1 =>
    refine { hties₂ with
      ref_nonneg := by omega
      ref_lt := by omega
      not_stuck := h.stuck.trans hi.not_stuck
      table := ?_ }
    intro _ cap hcap cpu hcpu
    exact h.table hs₁ (hi.table (by omega) cap hcap cpu hcpu)

theorem dmaengine_put_inv (hi : Inv b held s) (hr : 0 < s.dmaengine_ref_count) : Inv b held (dmaengine_put b s) := by
  let s₁ := { s with dmaengine_ref_count := s.dmaengine_ref_count - 1 }
  have hties : Ties b held (fun _ => s₁.dmaengine_ref_count + 1) s₁ :=
    hi.toTies.set_ref_count (fun _ => (Int.sub_add_cancel _ 1).symm) _
  have hlt := hi.ref_lt
  have hs₁ : s₁.dmaengine_ref_count = s.dmaengine_ref_count - 1 := rfl
  have h := putDevices_counted hties (by omega) (by omega)
  unfold dmaengine_put
  simp only
  generalize s₁.dma_device_list.foldl (putDevice b) s₁ = s₂ at h ⊢
  have href : s₂.dmaengine_ref_count = s.dmaengine_ref_count - 1 := h.frame.dmaengine_ref_count
  have hties₂ : Ties b held (fun _ => s₂.dmaengine_ref_count) s₂ := h.frame.dmaengine_ref_count ▸ h.ties
  refine { hties₂ with
    ref_nonneg := by omega
    ref_lt := by omega
    not_stuck := h.stuck.trans hi.not_stuck
    table := ?_ }
  intro h0 cap hcap cpu hcpu
  exact h.table (h.frame.dmaengine_ref_count ▸ h0) (hi.table hr cap hcap cpu hcpu)

/-- The last put leaves the table as it was, naming channels whose resources it
freed, and channels of devices that left the list, which it does not touch. -/
theorem dmaengine_put_stale (b : Board) (s : State) :
    tables (dmaengine_put b s) = tables s ∧
      ∀ chan, (∀ d ∈ s.dma_device_list, chan ∉ b.channels d) →
        (dmaengine_put b s).client_count chan = s.client_count chan := by
  constructor
  · exact foldl_same putDevice_tables
  · intro chan h
    exact putDevices_other h

theorem Inv.list_del_rcu (hi : Inv b held s) (d : Dev) : Inv b held (list_del_rcu s d) :=
  { hi with toTies := hi.toTies.list_del_rcu fun _ _ => rfl }

theorem Inv.calls (hi : Inv b held s) (n : Nat) : Inv b held { s with calls := n } :=
  { hi with toTies := hi.toTies.calls n }

/-- A device that is not private yet becomes so only with all its other
channels free. -/
theorem private_candidate_spec {mask : List TxType} {d : Dev} {fn : Option (Chan → Bool)} {chan : Chan}
    (h : private_candidate b s mask d fn = some chan) :
    chan ∈ b.channels d ∧ s.client_count chan = 0 ∧
      (s.dma_private d = false → ∀ c ∈ b.channels d, c ≠ chan → s.client_count c = 0) := by
  unfold private_candidate at h
  split at h
  · cases h
  split at h
  · cases h
  next hfree =>
    have hmem := List.mem_of_find?_eq_some h
    have h0 := List.find?_some h
    simp only [Bool.and_eq_true, decide_eq_true_eq] at h0
    refine ⟨hmem, h0.1, ?_⟩
    intro hp c hc hne
    rw [dma_has_cap_private] at hfree
    by_contra hbusy
    have hlen : (b.channels d).length ≤ 1 := by
      by_contra hlen
      exact hfree ⟨by omega, hp, c, hc, hbusy⟩
    -- the candidate is the only channel of its device
    match hch : b.channels d, hlen with
    | [], _ => simp [hch] at hc
    | [x], _ =>
      rw [hch, List.mem_singleton] at hc hmem
      exact hne (hc.trans hmem.symm)

theorem Private.privatecnt_add (hi : Private b held s) (d : Dev) : u32 (s.privatecnt d + 1) = s.privatecnt d + 1 := by
  have := hi.privatecnt_lt d
  unfold u32
  omega

theorem Private.privatecnt_sub (hi : Private b held s) {d : Dev} (h : 0 < s.privatecnt d) :
    u32 (s.privatecnt d - 1) = s.privatecnt d - 1 := by
  have := hi.privatecnt_lt d
  unfold u32
  omega

theorem Private.dropPrivate_addPrivate (hi : Private b held s) (d : Dev) : dropPrivate (addPrivate s d) d = s := by
  have hback : u32 ((u32 (s.privatecnt d + 1) : Int) - 1) = s.privatecnt d := by
    rw [hi.privatecnt_add, Nat.cast_succ, Int.add_sub_cancel]
    exact u32_of_lt (Nat.lt_of_succ_lt (hi.privatecnt_lt d))
  have : (if s.privatecnt d = 0 then false else true) = s.dma_private d := by
    have hp := hi.private_iff d
    cases h : s.dma_private d with
    | true =>
      have := hp.1 h
      rw [if_neg (by omega)]
    | false =>
      have : ¬ 0 < s.privatecnt d := by rw [← hp, h]; simp
      rw [if_pos (by omega)]
  simp only [dropPrivate, addPrivate, Function.update_self, hback, Function.update_idem, this, Function.update_eq_self]

section
variable {d : Dev} {chan : Chan}

theorem Private.grant (hi : Private b held s) (hc : chan ∈ b.channels d) (h0 : s.client_count chan = 0)
    (hfree : s.dma_private d = false → ∀ c ∈ b.channels d, c ≠ chan → s.client_count c = 0) :
    Private b (chan :: held) (setCount (addPrivate s d) chan 1) where
  list_nodup := hi.list_nodup
  held_nodup := by
    refine List.nodup_cons.2 ⟨fun h => ?_, hi.held_nodup⟩
    have := hi.held_count chan h
    omega
  held_mem x hx := by
    rcases List.mem_cons.1 hx with rfl | hx
    · rw [b.device_of_mem d x hc]
      exact hc
    · exact hi.held_mem x hx
  held_count x hx := by
    by_cases hxc : x = chan
    · simp [hxc]
    · have := hi.held_count x ((List.mem_cons.1 hx).resolve_left hxc)
      simpa [setCount, hxc, addPrivate] using this
  privatecnt x := by
    have hx := hi.privatecnt x
    by_cases hxd : x = d
    · subst hxd
      simp only [setCount, addPrivate, Function.update_self, hi.privatecnt_add, List.countP_cons, b.device_of_mem x chan hc]
      rw [hx]
      simp
      omega
    · have : ¬ d = x := fun h => hxd h.symm
      simpa [setCount, addPrivate, hxd, List.countP_cons, b.device_of_mem d chan hc, this] using hx
  private_iff x := by
    by_cases hxd : x = d
    · subst hxd
      simp [setCount, addPrivate, hi.privatecnt_add]
    · simpa [setCount, addPrivate, hxd] using hi.private_iff x
  private_count x hx hp c hcx hn := by
    rw [List.mem_cons, not_or] at hn
    have hcount : s.client_count c = 0 := by
      -- the device was private before, or has become so with all its other channels free
      cases hpx : s.dma_private x with
      | true => exact hi.private_count x hx hpx c hcx hn.2
      | false =>
        have hxd : x = d := by
          by_contra hxd
          simp [setCount, addPrivate, hxd, hpx] at hp
        subst hxd
        exact hfree hpx c hcx hn.1
    simpa [setCount, addPrivate, hn.1] using hcount

theorem Inv.grant (hi : Inv b held s) (hc : chan ∈ b.channels d) (h0 : s.client_count chan = 0)
    (hfree : s.dma_private d = false → ∀ c ∈ b.channels d, c ≠ chan → s.client_count c = 0) :
    Inv b (chan :: held) (setCount (addPrivate s d) chan 1) where
  toPrivate := hi.toPrivate.grant hc h0 hfree
  public_count x hx hp c hcx := by
    have hxd : x ≠ d := by rintro rfl; simp [setCount, addPrivate] at hp
    have hne : c ≠ chan := by
      rintro rfl
      exact hxd ((b.device_of_mem x c hcx).symm.trans (b.device_of_mem d c hc))
    have := hi.public_count x hx (by simpa [setCount, addPrivate, hxd] using hp) c hcx
    simpa [setCount, addPrivate, hne] using this
  ref_nonneg := hi.ref_nonneg
  ref_lt := hi.ref_lt
  not_stuck := hi.not_stuck
  table hr cap hcap cpu hcpu c h := by
    obtain ⟨hcount, hheld⟩ := hi.table hr cap hcap cpu hcpu c h
    have hne : c ≠ chan := by rintro rfl; omega
    exact ⟨by simpa [setCount, addPrivate, hne] using hcount, by simp [hne, hheld]⟩

end

/-- A request grants a channel of the first device, or goes on to the devices
behind: the first has none to give, or its channel cannot be taken, or its module
is gone. -/
theorem requestDevices_cons (mask : List TxType) (fn : Option (Chan → Bool)) (hi : Private b held s) (d : Dev)
    (ds : List Dev) :
    (∃ chan, chan ∈ b.channels d ∧ s.client_count chan = 0 ∧
      (s.dma_private d = false → ∀ c ∈ b.channels d, c ≠ chan → s.client_count c = 0) ∧
      requestDevices b mask fn (d :: ds) s =
        ({ setCount (addPrivate s d) chan 1 with calls := s.calls + 1 }, some chan)) ∨
    ∃ s', (s' = s ∨ s' = { s with calls := s.calls + 1 } ∨ s' = list_del_rcu { s with calls := s.calls + 1 } d) ∧
      requestDevices b mask fn (d :: ds) s = requestDevices b mask fn ds s' := by
  rw [requestDevices]
  split
  · exact .inr ⟨s, .inl rfl, rfl⟩
  next chan hcand =>
    obtain ⟨hc, h0, hfree⟩ := private_candidate_spec hcand
    have hp : (addPrivate s d).dma_private (b.device chan) = true := by
      simp [addPrivate, b.device_of_mem d chan hc]
    have hzero : (addPrivate s d).client_count chan = 0 := h0
    obtain ⟨n, hs, hg⟩ := dma_chan_get_cases b (addPrivate s d) chan (by omega) (by simp [hp])
    simp only [hs]
    generalize (dma_chan_get b chan (addPrivate s d)).2 = err at hg ⊢
    cases hg with
    | more h => exact absurd h0 h
    | caught_up _ h => simp [hp] at h
    | first =>
      rw [if_pos rfl]
      exact .inl ⟨chan, hc, h0, hfree, rfl⟩
    | failed _ herr =>
      right
      rw [if_neg herr]
      -- the device is as before, unless its module is gone
      have hback : dropPrivate { setCount (addPrivate s d) chan 0 with calls := s.calls + 1 } d =
          { s with calls := s.calls + 1 } := by
        have hset : setCount s chan 0 = s := by rw [← h0]; simp [setCount]
        conv_rhs => rw [← hi.dropPrivate_addPrivate d, ← hset]
        rfl
      split
      · exact ⟨_, .inr (.inr (congrArg (list_del_rcu · d) hback)), rfl⟩
      · exact ⟨_, .inr (.inl hback), rfl⟩

/-- A request that fails leaves the channels handed out as they are, one that
succeeds adds a channel to them: what either keeps holds in the end. -/
theorem dma_request_channel_rule {P : List Chan → State → Prop} (hP : ∀ s, P held s → Private b held s)
    (hgrant : ∀ s d chan, P held s → chan ∈ b.channels d → s.client_count chan = 0 →
      (s.dma_private d = false → ∀ c ∈ b.channels d, c ≠ chan → s.client_count c = 0) →
      P (chan :: held) { setCount (addPrivate s d) chan 1 with calls := s.calls + 1 })
    (hcalls : ∀ s n, P held s → P held { s with calls := n }) (hdel : ∀ s d, P held s → P held (list_del_rcu s d))
    (mask : List TxType) (fn : Option (Chan → Bool)) {s : State} (h : P held s) :
    P ((dma_request_channel b mask fn s).2.toList ++ held) (dma_request_channel b mask fn s).1 := by
  unfold dma_request_channel
  generalize s.dma_device_list = ds
  induction ds generalizing s with
  | nil => exact h
  | cons d ds ih =>
    rcases requestDevices_cons mask fn (hP s h) d ds with ⟨chan, hc, h0, hfree, hr⟩ | ⟨s', rfl | rfl | rfl, hr⟩
    · rw [hr]
      exact hgrant s d chan h hc h0 hfree
    · rw [hr]
      exact ih h
    · rw [hr]
      exact ih (hcalls s _ h)
    · rw [hr]
      exact ih (hdel _ d (hcalls s _ h))

theorem dma_request_channel_private (mask : List TxType) (fn : Option (Chan → Bool)) (hi : Private b held s) :
    Private b ((dma_request_channel b mask fn s).2.toList ++ held) (dma_request_channel b mask fn s).1 ∧
      refs (dma_request_channel b mask fn s).1 = refs s := by
  refine dma_request_channel_rule (P := fun held t => Private b held t ∧ refs t = refs s) (fun _ h => h.1) ?_ ?_ ?_ mask fn
    ⟨hi, rfl⟩
  · intro t d chan h hc h0 hfree
    exact ⟨(h.1.grant hc h0 hfree).calls _, h.2⟩
  · intro t n h
    exact ⟨h.1.calls n, h.2⟩
  · intro t d h
    exact ⟨h.1.list_del_rcu d, h.2⟩

theorem dma_request_channel_inv (mask : List TxType) (fn : Option (Chan → Bool)) (hi : Inv b held s) :
    Inv b ((dma_request_channel b mask fn s).2.toList ++ held) (dma_request_channel b mask fn s).1 :=
  dma_request_channel_rule (P := Inv b) (fun _ h => h.toPrivate) (fun _ _ _ h hc h0 hfree => (h.grant hc h0 hfree).calls _)
    (fun _ n h => h.calls n) (fun _ d h => h.list_del_rcu d) mask fn hi

theorem countP_held (b : Board) {chan : Chan} (hc : chan ∈ held) (d : Dev) :
    held.countP (b.device · = d) =
      (held.erase chan).countP (b.device · = d) + if b.device chan = d then 1 else 0 := by
  have := (List.perm_cons_erase hc).countP_eq (b.device · = d)
  rw [this, List.countP_cons]
  split <;> simp_all

section
variable {chan : Chan}

theorem Private.release (hi : Private b held s) (hc : chan ∈ held) :
    Private b (held.erase chan) (dropPrivate (setCount s chan 0) (b.device chan)) := by
  have hpos : 0 < s.privatecnt (b.device chan) := (hi.private_iff _).1 (hi.private_of_held hc)
  have hsub := hi.privatecnt_sub hpos
  refine ⟨hi.list_nodup, hi.held_nodup.erase chan, fun x hx => hi.held_mem x (List.mem_of_mem_erase hx), ?_, ?_, ?_, ?_⟩
  · intro x hx
    obtain ⟨hne, hx⟩ := (hi.held_nodup.mem_erase_iff).1 hx
    simpa [dropPrivate, setCount, hne] using hi.held_count x hx
  · intro d
    have hd := hi.privatecnt d
    rw [countP_held b hc] at hd
    by_cases hdc : d = b.device chan
    · subst hdc
      simp only [dropPrivate, setCount, Function.update_self, hsub]
      rw [hd, if_pos rfl]
      omega
    · have : ¬ b.device chan = d := fun h => hdc h.symm
      simpa [dropPrivate, setCount, hdc, this] using hd
  · intro d
    by_cases hdc : d = b.device chan
    · subst hdc
      simp only [dropPrivate, setCount, Function.update_self, hsub, hi.private_of_held hc]
      split
      next h => simp [h]
      next h => simpa using Nat.pos_of_ne_zero h
    · simpa [dropPrivate, setCount, hdc] using hi.private_iff d
  · intro d hd hp c hcd hn
    by_cases hne : c = chan
    · subst hne
      simp [dropPrivate, setCount]
    · have hheld : c ∉ held := fun h => hn ((List.mem_erase_of_ne hne).2 h)
      have hpd : s.dma_private d = true := by
        by_cases hdc : d = b.device chan
        · exact hdc ▸ hi.private_of_held hc
        · simpa [dropPrivate, setCount, hdc] using hp
      simpa [dropPrivate, setCount, hne] using hi.private_count d hd hpd c hcd hheld

theorem Inv.release (hi : Inv b held s) (hc : chan ∈ held) :
    Inv b (held.erase chan) (dropPrivate (setCount s chan 0) (b.device chan)) where
  toPrivate := hi.toPrivate.release hc
  public_count d hd hp c hcd := by
    by_cases hne : c = chan
    · subst hne
      simp [dropPrivate, setCount]
    · by_cases hdc : d = b.device chan
      · -- `chan` was the last private channel of its device
        subst hdc
        have hcnt := (hi.toPrivate.release hc).privatecnt (b.device chan)
        have hzero : ¬ 0 < (dropPrivate (setCount s chan 0) (b.device chan)).privatecnt (b.device chan) := by
          rw [← (hi.toPrivate.release hc).private_iff, hp]
          exact Bool.false_ne_true
        have hnone : (held.erase chan).countP (b.device · = b.device chan) = 0 := by omega
        have hheld : c ∉ held := by
          intro h
          have := List.countP_eq_zero.1 hnone c ((List.mem_erase_of_ne hne).2 h)
          simp [b.device_of_mem _ c hcd] at this
        have := hi.private_count _ hd (hi.toPrivate.private_of_held hc) c hcd hheld
        simp [dropPrivate, setCount, hne, this]
      · have := hi.public_count d hd (by simpa [dropPrivate, setCount, hdc] using hp) c hcd
        simpa [dropPrivate, setCount, hne] using this
  ref_nonneg := hi.ref_nonneg
  ref_lt := hi.ref_lt
  not_stuck := hi.not_stuck
  table hr cap hcap cpu hcpu c h := by
    obtain ⟨hcount, hheld⟩ := hi.table hr cap hcap cpu hcpu c h
    have hne : c ≠ chan := by rintro rfl; exact hheld hc
    exact ⟨by simpa [dropPrivate, setCount, hne] using hcount, fun h => hheld (List.mem_of_mem_erase h)⟩

end

/-- No channel has a client; the table may still name channels of an earlier
distribution. -/
structure NoClient (b : Board) (s : State) : Prop where
  list_nodup : s.dma_device_list.Nodup
  client_count : ∀ chan, s.client_count chan = 0
  privatecnt : ∀ d, s.privatecnt d = if b.always_private d then 1 else 0
  dma_private : ∀ d, s.dma_private d = b.always_private d
  refs : refs s = (0, 0)
  not_stuck : s.stuck = false

theorem NoClient.inv (h : NoClient b s) : Inv b [] s := by
  have hrefs := Prod.mk.inj h.refs
  refine ⟨⟨⟨h.list_nodup, List.nodup_nil, by simp, by simp, fun d => by simp [h.privatecnt d], fun d => ?_,
    fun _ _ _ chan _ _ => h.client_count chan⟩, fun _ _ _ chan _ => .inl (h.client_count chan)⟩, ?_, ?_, h.not_stuck, ?_⟩
  · rw [h.dma_private d, h.privatecnt d]
    cases b.always_private d <;> simp
  · exact Int.le_of_eq hrefs.1.symm
  · rw [hrefs.1]
    decide
  · intro hr
    rw [hrefs.1] at hr
    cases hr

theorem dma_release_channel_eq (hi : Private b held s) {chan : Chan} (hc : chan ∈ held) :
    dma_release_channel b s chan = dropPrivate (setCount s chan 0) (b.device chan) := by
  have hzero : s32 (1 - 1) = 0 := by decide
  unfold dma_release_channel dma_chan_put
  rw [hi.held_count chan hc, if_neg Int.one_ne_zero, hzero]

end Dmacftu.Dmaengine
