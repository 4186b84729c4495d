import Dmacftu.IoatWatchdog
/-!
# Suspended channels

The priority policy suspends the channels of low priority and resumes them later
(`ioat_suspend_chan`, `ioat_resume_chan`). Neither function tells the driver,
whose watchdog sees a channel that makes no progress: `suspension_resets` says
that five events of the timer are enough for it to reset the channel, whatever
the clients do meanwhile, and that the restart begins at its last descriptor. That
it takes the channel out of its suspension is a matter of the device: `ioat_start`
is whether a device is suspended after it is started, by whether it was before.
-/
open Lib.CopyEngine Lib.Links Lib.Runs Lib.Script

namespace Dmacftu.Ioat

/-- A channel, and whether its device is suspended. -/
structure Suspendable where
  chan : State
  suspended : Bool

inductive Command where
  | ioat_suspend_chan
  | ioat_resume_chan
  | act (a : Act)
  deriving DecidableEq, Repr

/-- A step of the device. -/
def Act.device : Act → Bool
  | .finish _ | .lookForMore | .halt => true
  | _ => false

/-- A suspended device does nothing, until it is resumed or a start ends the suspension. -/
def suspendable (P : Params) (ioat_start : Bool → Bool) (m : Suspendable) : Command → Option Suspendable
  | .ioat_suspend_chan => some { m with suspended := true }
  | .ioat_resume_chan => some { m with suspended := false }
  | .act a =>
    if a.device ∧ m.suspended then none
    else (step P m.chan a).map fun chan =>
      ⟨chan, if a = .timer ∧ m.chan.reset_pending = true then ioat_start m.suspended else m.suspended⟩

variable {P : Params} {ioat_start : Bool → Bool} {s s' s₀ : State} {v v' : View} {a : Act}

/-- The device is not done with the last descriptor, which is a transaction's. -/
def Unfinished (s : State) : Prop := ∃ tail, s.used_desc.getLast? = some tail ∧ tail ≠ s.chansts ∧ (s.desc tail).cookie ≠ 0

/-- The last descriptor is one that is still to be cleaned up, past where the device is. -/
theorem Unfinished.place (hb : Unfinished s) (h : Lists s v) {c x : Nat} (hpl : PlacedAt s v c x) :
    ∃ tail, s.used_desc.getLast? = some tail ∧ tail ≠ s.chansts ∧ (s.desc tail).cookie ≠ 0 ∧
      x < v.rest.length ∧ v.rest[v.rest.length - 1]? = some tail := by
  obtain ⟨tail, htail, hne, hcookie⟩ := hb
  obtain ⟨hline, -⟩ := h.tail_line htail
  have hlen : (line s v).length = v.rest.length + 1 := List.length_cons
  rw [hlen, Nat.add_sub_cancel] at hline
  have hx : x < (line s v).length := (List.getElem?_eq_some_iff.1 hpl.chansts).1
  have hxne : x ≠ v.rest.length := by
    rintro rfl
    exact hne (Option.some.inj (hline.symm.trans hpl.chansts))
  refine ⟨tail, htail, hne, hcookie, by omega, ?_⟩
  obtain ⟨n, hn⟩ : ∃ n, v.rest.length = n + 1 := Nat.exists_eq_add_one.2 (by omega)
  rw [hn] at hline ⊢
  exact hline

theorem Unfinished.outstanding (hb : Unfinished s) (h : Inv s v) : Outstanding s v := by
  obtain ⟨c, x, hpl⟩ := h.placed
  obtain ⟨tail, -, -, hcookie, -, hrest⟩ := hb.place h.lists hpl
  exact ⟨tail, List.mem_of_getElem? hrest, hcookie⟩

/-- What is none of the device's doing leaves the device where it is. -/
theorem Moved.unfinished (hm : Moved P s v a s' v') (hi : Inv s v) (hb : Unfinished s) (ha : a.device = false) :
    Unfinished s' ∧ s'.chansts = s.chansts ∧ s'.copies = s.copies := by
  obtain ⟨tail, htail, hne, hcookie⟩ := hb
  cases hm with
  | @prep _ _ _ _ _ t hp _ hfresh =>
    have hused : t.used_desc = s.used_desc := hp.fields.2.1
    have hdevice : t.chansts = s.chansts ∧ t.copies = s.copies := by
      constructor <;> rw [hp.state_eq]
    refine ⟨⟨tail, hused ▸ htail, hdevice.1 ▸ hne, ?_⟩, hdevice⟩
    show (t.desc tail).cookie ≠ 0
    rw [hp.used_kept hi.lists hfresh (List.mem_of_getLast? htail)]
    exact hcookie
  | @submit tx callback tail' htail' htx =>
    -- the new last descriptor is not where the device stands, which is on the line already
    obtain ⟨c, x, hpl⟩ := hi.placed
    refine ⟨⟨tx.1, ?_, ?_, ?_⟩, rfl, rfl⟩
    · show (s.used_desc ++ (s.desc tx.1).tx_list).getLast? = some tx.1
      rw [List.getLast?_append, (hi.lists.ready tx htx).last]
      rfl
    · intro he
      have hchain := hi.lists.chain_off htx (hi.lists.tx_mem htx)
      have hne : s.chansts ≠ 0 := by
        intro h0
        refine hi.lists.nonzero ((he.trans h0) ▸ ?_)
        exact hi.lists.mem_held.2 (.inr (.inr (.inr (List.mem_flatMap.2 ⟨tx, htx, hi.lists.tx_mem htx⟩))))
      exact hchain.2 (he ▸ hi.lists.line_used (List.mem_of_getElem? hpl.chansts) hne)
    · rw [afterSubmit_tx]
      exact P.cookie_ne _
  | ack hd => exact ⟨⟨tail, htail, hne, fun h0 => hcookie ((hd tail).cookie.symm.trans h0)⟩, rfl, rfl⟩
  | @cleanup _ k c x pc completion_ack timer hpl hk hc hlock htimer =>
    have hdev := cleanupTo_device (P := P) hi.lists hk
    refine ⟨⟨tail, (cleanupTo_last hi.lists hk).trans htail, hdev.2.1 ▸ hne, ?_⟩, hdev.2.1, hdev.2.2.2.2⟩
    -- the clean-up goes as far as the completion, and the last descriptor is behind that
    obtain ⟨t, ht, -, -, hx, hrest⟩ := Unfinished.place ⟨tail, htail, hne, hcookie⟩ hi.lists hpl
    obtain rfl := Option.some.inj (htail.symm.trans ht)
    have hle := hpl.le
    have hmem : tail ∈ (v.advance s k pc).rest := by
      refine List.mem_of_getElem? (i := v.rest.length - 1 - (k + 1)) ?_
      rw [View.advance, List.getElem?_drop, Nat.add_sub_cancel' (by omega)]
      exact hrest
    show ((cleanupTo P s pc).desc tail).cookie ≠ 0
    rw [cleanupTo_outs hi.lists hk tail hmem]
    exact hcookie
  | idle => cases ha
  | next => cases ha
  | no_more => cases ha
  | more => cases ha
  | halt => cases ha
  | _ => exact ⟨⟨tail, htail, hne, hcookie⟩, rfl, rfl⟩

/-! ## How long the watchdog waits -/

/-- The events of the timer up to a reset: it cleans up, copies the status of the device to `*chan->completion` and cleans
that up, copies it again, and resets. -/
def patience (completion last_completion chansts : Phys) (ack : Bool) : Nat :=
  if completion = last_completion then if ack then 1 else if completion = chansts then 2 else 4
  else if completion = chansts then 3 else 5

/-- A status the timer has read is as good as written. -/
def State.patience (s : State) : Nat :=
  match s.cleanup_lock with
  | some (.timer status) => Ioat.patience status s.last_completion s.chansts true
  | _ => Ioat.patience s.completion s.last_completion s.chansts s.completion_ack

theorem patience_pos (c l x : Phys) (ack : Bool) : 0 < patience c l x ack := by
  unfold patience
  split <;> split <;> [skip; split; skip; skip] <;> decide

theorem patience_le (c l x : Phys) (ack : Bool) : patience c l x ack ≤ 5 := by
  unfold patience
  split <;> split <;> [skip; split; skip; skip] <;> decide

theorem State.patience_of_ne (h : ∀ status, s.cleanup_lock ≠ some (.timer status)) :
    s.patience = Ioat.patience s.completion s.last_completion s.chansts s.completion_ack := by
  unfold State.patience
  split
  next status hs => exact absurd hs (h status)
  · rfl

theorem State.patience_pos (s : State) : 0 < s.patience := by
  unfold State.patience
  split <;> exact Ioat.patience_pos _ _ _ _

theorem State.patience_le (s : State) : s.patience ≤ 5 := by
  unfold State.patience
  split <;> exact Ioat.patience_le _ _ _ _

/-- Steps that leave alone what the watchdog looks at. -/
theorem State.patience_same (hc : s'.completion = s.completion) (hl : s'.last_completion = s.last_completion)
    (hx : s'.chansts = s.chansts) (ha : s'.completion_ack = s.completion_ack) (hk : s'.cleanup_lock = s.cleanup_lock) :
    s'.patience = s.patience := by
  unfold State.patience
  rw [hc, hl, hx, ha, hk]

/-- Nobody but the timer brings the reset closer, and nobody puts it off. -/
theorem Moved.patience (hm : Moved P s v a s' v') (hi : Inv s v) (ha : a.device = false) (ht : a ≠ .timer) :
    s'.patience ≤ s.patience := by
  cases hm with
  | @prep _ _ _ _ _ t hp =>
    have hfields : t.completion = s.completion ∧ t.last_completion = s.last_completion ∧ t.chansts = s.chansts ∧
        t.completion_ack = s.completion_ack ∧ t.cleanup_lock = s.cleanup_lock := by
      refine ⟨?_, ?_, ?_, ?_, ?_⟩ <;> rw [hp.state_eq]
    obtain ⟨hc, hl, hx, hack, hk⟩ := hfields
    exact Nat.le_of_eq (State.patience_same hc hl hx hack hk)
  | progress hlock hne =>
    apply Nat.le_of_eq
    rw [State.patience_of_ne (fun status => by simp), State.patience_of_ne fun status => by rw [hlock]; simp]
    show Ioat.patience s.completion s.last_completion s.chansts false = _
    simp only [Ioat.patience, if_neg hne]
  | unlock hlock =>
    apply Nat.le_of_eq
    rw [State.patience_of_ne (fun status => by simp), State.patience_of_ne fun status => by rw [hlock]; simp]
  | @cleanup _ k c x pc completion_ack timer hpl hk hc hlock htimer =>
    have hdev := cleanupTo_device (P := P) hi.lists hk
    have hne : s.completion ≠ s.last_completion := by
      intro he
      have h0 : c = 0 := hi.lists.place_unique hpl.completion (congrArg some he.symm)
      omega
    rw [State.patience_of_ne hlock, State.patience_of_ne fun status => by simp]
    show Ioat.patience (cleanupTo P s pc).completion (cleanupTo P s pc).last_completion (cleanupTo P s pc).chansts completion_ack ≤ _
    rw [hdev.1, hdev.2.1]
    simp only [Ioat.patience, if_neg hne]
    split
    · split <;> split <;> omega
    · exact Nat.le_refl _
  | timer_write hlock =>
    apply Nat.le_of_eq
    rw [State.patience_of_ne fun status => by simp]
    unfold State.patience
    rw [hlock]
  | expired => exact absurd rfl ht
  | restart => exact absurd rfl ht
  | reset => exact absurd rfl ht
  | status => exact absurd rfl ht
  | wait => exact absurd rfl ht
  | idle => cases ha
  | next => cases ha
  | no_more => cases ha
  | more => cases ha
  | halt => cases ha
  | _ => exact Nat.le_of_eq (State.patience_same rfl rfl rfl rfl rfl)

/-- An event of the timer resets the channel, or brings the reset closer. -/
theorem Inv.timer_patience (h : Inv s v) (hp : s.completion_pending = true) (hr : s.reset_pending = false)
    (hs : step P s .timer = some s') : s'.reset_pending = true ∨ s'.patience + 1 ≤ s.patience := by
  simp only [step] at hs
  split at hs
  next hg =>
    obtain ⟨-, hlock⟩ := hg
    cases hs
    have hold : s.patience = Ioat.patience s.completion s.last_completion s.chansts s.completion_ack :=
      State.patience_of_ne fun status => by rw [hlock]; simp
    rw [hold]
    unfold ioat1_timer_event
    rw [if_neg (by simp [hr]), if_pos hp]
    -- nothing new was seen completed: a reset, or a step towards one
    by_cases hc : s.completion = s.last_completion
    · rw [if_neg (not_not.2 hc)]
      cases hack : s.completion_ack with
      | true => exact .inl rfl
      | false =>
        right
        rw [if_neg (by simp)]
        split
        · show Ioat.patience s.chansts s.last_completion s.chansts true + 1 ≤ _
          rw [hc]
          simp only [Ioat.patience]
          grind
        · rw [State.patience_of_ne fun status => by show s.cleanup_lock ≠ _; rw [hlock]; simp]
          show Ioat.patience s.completion s.last_completion s.chansts true + 1 ≤ _
          rw [hc]
          simp only [Ioat.patience]
          grind
    · rw [if_pos hc]
      right
      obtain ⟨c, x, hpl⟩ := h.placed
      obtain ⟨k, rfl⟩ := Nat.exists_eq_add_one.2 (hpl.progress hc)
      have hk : v.rest[k]? = some s.completion := hpl.completion
      have hlists : Lists (preamble { s with timer := false }) v := { h.lists with }
      show (cleanupTo P (preamble { s with timer := false }) s.completion).patience + 1 ≤ _
      rw [cleanupTo_state hlists hk]
      rw [State.patience_of_ne fun status => by show s.cleanup_lock ≠ _; rw [hlock]; simp]
      show Ioat.patience s.completion s.completion s.chansts false + 1 ≤ _
      unfold Ioat.patience
      rw [if_neg hc, if_pos rfl, if_neg Bool.false_ne_true]
      split <;> simp
  next => cases hs

/-! ## A suspension -/

/-- What a suspension keeps, as long as the channel is not reset: `copies` is what the device had carried out. -/
structure Stalled (copies : List Desc) (m : Suspendable) : Prop where
  inv : ∃ v, Inv m.chan v ∧ Watched m.chan v
  behind : Unfinished m.chan
  copies : m.chan.copies = copies
  suspended : m.suspended = true

theorem suspendable_watched {m m' : Suspendable} {c : Command} (h : ∃ v, Inv m.chan v ∧ Watched m.chan v)
    (hs : suspendable P ioat_start m c = some m') : ∃ v, Inv m'.chan v ∧ Watched m'.chan v := by
  obtain ⟨v, hi, hw⟩ := h
  cases c with
  | ioat_suspend_chan =>
    cases hs
    exact ⟨v, hi, hw⟩
  | ioat_resume_chan =>
    cases hs
    exact ⟨v, hi, hw⟩
  | act a =>
    simp only [suspendable] at hs
    split at hs
    · cases hs
    · obtain ⟨chan, hstep, rfl⟩ := Option.map_eq_some_iff.1 hs
      obtain ⟨v', hm⟩ := step_moved hi hstep
      exact ⟨v', hm.inv hi, hm.watched hi hw⟩

/-- A step of a suspended channel that does not resume it. -/
theorem Stalled.step {copies : List Desc} {m m' : Suspendable} {c : Command} (h : Stalled copies m)
    (hr : m.chan.reset_pending = false) (hc : c ≠ .ioat_resume_chan) (hs : suspendable P ioat_start m c = some m') :
    Stalled copies m' ∧ (m'.chan.reset_pending = true ∨
      m'.chan.patience + (if c == .act .timer then 1 else 0) ≤ m.chan.patience) := by
  have hinv := suspendable_watched h.inv hs
  cases c with
  | ioat_suspend_chan =>
    cases hs
    exact ⟨⟨hinv, h.behind, h.copies, rfl⟩, .inr (Nat.le_refl _)⟩
  | ioat_resume_chan => exact absurd rfl hc
  | act a =>
    obtain ⟨v, hi, hw⟩ := h.inv
    simp only [suspendable, h.suspended, and_true] at hs
    split at hs
    · cases hs
    next hdev =>
      obtain ⟨chan, hstep, rfl⟩ := Option.map_eq_some_iff.1 hs
      obtain ⟨v', hm⟩ := step_moved hi hstep
      have hdev : a.device = false := Bool.eq_false_iff.2 hdev
      obtain ⟨hbehind, -, hcopies⟩ := hm.unfinished hi h.behind hdev
      refine ⟨⟨hinv, hbehind, hcopies.trans h.copies, by simp [hr]⟩, ?_⟩
      by_cases ht : a = .timer
      · subst ht
        exact hi.timer_patience (hw.outstanding (h.behind.outstanding hi)) hr hstep
      · have hcount : (if Command.act a == .act .timer then 1 else 0) = 0 := if_neg (by simpa using ht)
        rw [hcount]
        exact .inr (hm.patience hi hdev ht)

/-- While a channel is suspended with work left, five events of the timer reset it, whatever else happens, and the event
after that starts it at its last descriptor, which ends the suspension if a start does. -/
theorem suspension_resets (hstart : ∀ suspended, ioat_start suspended = false) (h : Opened s₀) {cs₀ cs : List Command}
    {m m' : Suspendable} (hs : exec (suspendable P ioat_start) ⟨s₀, false⟩ cs₀ = some m) (hsuspended : m.suspended = true)
    (hbehind : Unfinished m.chan) (hcs : .ioat_resume_chan ∉ cs) (hrun : exec (suspendable P ioat_start) m cs = some m')
    (hevents : 5 ≤ cs.count (.act .timer)) :
    ∃ cs₁ cs₂ t, cs = cs₁ ++ cs₂ ∧ exec (suspendable P ioat_start) m cs₁ = some t ∧ t.suspended = true ∧
      t.chan.reset_pending = true ∧ t.chan.copies = m.chan.copies ∧ Unfinished t.chan ∧
      ∀ t', suspendable P ioat_start t (.act .timer) = some t' → t'.suspended = false ∧
        ∃ tail, t.chan.used_desc.getLast? = some tail ∧ t'.chan.engine = .busy tail (t.chan.next tail) := by
  have hopened : ∃ v, Inv s₀ v ∧ Watched s₀ v := by
    obtain ⟨p, hf⟩ := h.fresh
    exact ⟨_, hf.inv, hf.watched⟩
  have hinv : ∃ v, Inv m.chan v ∧ Watched m.chan v :=
    exec_inv (fun m : Suspendable => ∃ v, Inv m.chan v ∧ Watched m.chan v) (fun _ _ _ h hs => suspendable_watched h hs) hopened hs
  have hok : ∀ c ∈ cs, c ≠ .ioat_resume_chan := by
    rintro c hc rfl
    exact hcs hc
  obtain ⟨cs₁, cs₂, t, hsplit, hexec, hstalled, hreset⟩ := exec_reaches (Stalled m.chan.copies)
    (fun m => m.chan.reset_pending = true) (fun m => m.chan.patience) (fun m => m.chan.patience_pos)
    (fun m c m' hm hr hc hs => hm.step (Bool.eq_false_iff.2 hr) hc hs)
    ⟨hinv, hbehind, rfl, hsuspended⟩ hok hrun (m.chan.patience_le.trans hevents)
  refine ⟨cs₁, cs₂, t, hsplit, hexec, hstalled.suspended, hreset, hstalled.copies, hstalled.behind, fun t' ht => ?_⟩
  obtain ⟨tail, htail, -⟩ := hstalled.behind
  simp only [suspendable, Act.device, hreset, Bool.false_eq_true, false_and, if_false, and_self, if_true] at ht
  obtain ⟨chan, hstep, rfl⟩ := Option.map_eq_some_iff.1 ht
  refine ⟨hstart _, tail, htail, ?_⟩
  simp only [step] at hstep
  split at hstep
  · cases hstep
    simp [ioat1_timer_event, hreset, Ioat.restart, htail, State.fetch, State.next]
  · cases hstep

/-- Suspended when the device is done with its first descriptor, which copies nothing. -/
def sampleSuspended : List Command := sampleSubmit.map .act ++ [.act (.finish true), .ioat_suspend_chan]

/-- The timer's events, and a poll. -/
def sampleEvents : List Command :=
  [.act .timer, .act .cleanup_begin, .act .timer, .act .timer_write, .act .timer, .act .timer, .act .timer]

theorem suspension_resets_sample :
    ∃ m, exec (suspendable sampleParams fun _ => false) ⟨sampleChan, false⟩ sampleSuspended = some m ∧
    ∃ cs₁ cs₂ t, sampleEvents = cs₁ ++ cs₂ ∧ exec (suspendable sampleParams fun _ => false) m cs₁ = some t ∧
      t.suspended = true ∧ t.chan.reset_pending = true ∧ t.chan.copies = m.chan.copies ∧ Unfinished t.chan ∧
      ∀ t', suspendable sampleParams (fun _ => false) t (.act .timer) = some t' → t'.suspended = false ∧
        ∃ tail, t.chan.used_desc.getLast? = some tail ∧ t'.chan.engine = .busy tail (t.chan.next tail) := by
  obtain ⟨m, hm⟩ := Option.isSome_iff_exists.1
    (show (exec (suspendable sampleParams fun _ => false) ⟨sampleChan, false⟩ sampleSuspended).isSome = true from rfl)
  have value : ∀ {α : Type} (f : Suspendable → α) {y : α},
      (exec (suspendable sampleParams fun _ => false) ⟨sampleChan, false⟩ sampleSuspended).map f = some y → f m = y := by
    intro α f y hy
    rw [hm] at hy
    exact Option.some.inj hy
  have hlast : m.chan.used_desc.getLast? = some 256 := value (fun m => m.chan.used_desc.getLast?) rfl
  have hchansts : m.chan.chansts = 64 := value (fun m => m.chan.chansts) rfl
  have hcookie : (m.chan.desc 256).cookie = 2 := value (fun m => (m.chan.desc 256).cookie) rfl
  have hbehind : Unfinished m.chan := ⟨256, hlast, by rw [hchansts]; decide, by rw [hcookie]; decide⟩
  have hsome : (exec (suspendable sampleParams fun _ => false) m sampleEvents).isSome = true := by
    have hrun : ((exec (suspendable sampleParams fun _ => false) ⟨sampleChan, false⟩ sampleSuspended).bind
        fun m => exec (suspendable sampleParams fun _ => false) m sampleEvents).isSome = true := rfl
    rwa [hm] at hrun
  obtain ⟨m', hm'⟩ := Option.isSome_iff_exists.1 hsome
  exact ⟨m, hm, suspension_resets (fun _ => rfl) sampleChan_opened hm (value Suspendable.suspended rfl) hbehind (by decide) hm'
    (by decide)⟩

end Dmacftu.Ioat
