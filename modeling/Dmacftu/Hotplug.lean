import Dmacftu.DmaengineInv
import Dmacftu.Lib.Ledger
/-!
# Devices come and go

`dma_async_device_register` and `dma_async_device_unregister` of `dmaengine.c`.
A registration allocates, for each channel, its per-CPU counters and a
`dma_chan_dev` that sysfs may hold on to after the device is gone; the
`dma_chan_dev`s of one registration share the counter `idr_ref`, and the last of
them to be released returns the device's id. `Ids` says which ids and counters
there are, whichever part of the `dma_chan_dev`s is still in sysfs. A device
without channels has no `dma_chan_dev`, and nobody returns its id.
-/
open Lib.CInt Lib.Ledger

namespace Dmacftu.Dmaengine

def ENOMEM : Int := 12

/-- A call of `dma_async_device_register`; its `idr_ref` goes by the call's number. -/
abbrev Reg := Nat

/-- `struct dma_chan_dev`. -/
structure ChanDev where
  chan : Chan
  idr_ref : Reg
  dev_id : Nat
  deriving DecidableEq, Repr

structure Registry where
  dma_idr : List Nat
  /-- The counters that are allocated. -/
  idr_ref : Reg → Option Nat
  /-- In sysfs. -/
  registered : List ChanDev
  /-- Out of sysfs, with references to them left. -/
  closing : List ChanDev
  /-- The channels whose counters are allocated. -/
  percpu : List Chan
  /-- `chan->local != NULL`. -/
  hasLocal : Chan → Bool
  dev : Chan → Option ChanDev
  dev_id : Dev → Nat
  registrations : Reg

/-- How the kernel answers a registration. -/
structure Answers where
  kmalloc : Bool
  /-- An id, or an error. -/
  idr_alloc : List Nat → Int
  idr_alloc_unused : ∀ ids, 0 ≤ idr_alloc ids → (idr_alloc ids).toNat ∉ ids
  alloc_percpu : Chan → Bool
  kzalloc : Chan → Bool
  device_register : Chan → Int

def get_dma_id (a : Answers) (d : Dev) (r : Registry) : Registry × Int :=
  let rc := a.idr_alloc r.dma_idr
  if rc < 0 then (r, rc)
  else ({ r with dma_idr := rc.toNat :: r.dma_idr, dev_id := Function.update r.dev_id d rc.toNat }, 0)

def setLocal (r : Registry) (chan : Chan) (l : Bool) : Registry :=
  { r with hasLocal := Function.update r.hasLocal chan l }

/-- A channel is in sysfs, with its counters and counted itself. -/
def addChan (r : Registry) (cd : ChanDev) : Registry :=
  setLocal { r with
    dev := Function.update r.dev cd.chan (some cd), percpu := cd.chan :: r.percpu, registered := cd :: r.registered
    idr_ref := Function.update r.idr_ref cd.idr_ref ((r.idr_ref cd.idr_ref).map (· + 1)) } cd.chan true

/-- The loop over the channels; the second result is `rc`, 0 when it reached the end. -/
def registerChans (a : Answers) (reg : Reg) (dev_id : Nat) : List Chan → Registry → Registry × Int
  | [], r => (r, 0)
  | chan :: chans, r =>
    if !a.alloc_percpu chan then (setLocal r chan false, -ENOMEM)
    else if !a.kzalloc chan then (setLocal { r with dev := Function.update r.dev chan none } chan false, -ENOMEM)
    else
      let cd : ChanDev := ⟨chan, reg, dev_id⟩
      if a.device_register chan ≠ 0 then
        (setLocal { r with dev := Function.update r.dev chan (some cd) } chan false, a.device_register chan)
      else registerChans a reg dev_id chans (addChan r cd)

/-- `device_unregister` and `free_percpu`; `none` when either is gone already. -/
def unregisterChan (r : Registry) (chan : Chan) : Option Registry :=
  (r.dev chan).bind fun cd => (put cd r.registered).bind fun registered => (put chan r.percpu).map fun percpu =>
    { r with registered := registered, closing := cd :: r.closing, percpu := percpu }

/-- `if (atomic_dec_and_test(chan_dev->idr_ref))` with its body. -/
def dropRef (r : Registry) (cd : ChanDev) : Option Registry :=
  match r.idr_ref cd.idr_ref with
  | none | some 0 => none
  | some 1 => (put cd.dev_id r.dma_idr).map fun ids =>
    { r with dma_idr := ids, idr_ref := Function.update r.idr_ref cd.idr_ref none }
  | some n => some { r with idr_ref := Function.update r.idr_ref cd.idr_ref (some (n - 1)) }

/-- The last reference to a `dma_chan_dev` goes. -/
def chan_dev_release (r : Registry) (cd : ChanDev) : Option Registry :=
  (put cd r.closing).bind fun closing => dropRef { r with closing := closing } cd

/-- The error exit, of a registration that may have got as far as any of the `chans`. -/
def err_out (reg : Reg) (dev_id : Nat) (chans : List Chan) (r : Registry) : Option Registry :=
  if r.idr_ref reg = some 0 then (put dev_id r.dma_idr).map fun ids =>
    { r with dma_idr := ids, idr_ref := Function.update r.idr_ref reg none }
  else (chans.filter r.hasLocal).foldlM unregisterChan r

/-- References on behalf of the clients that wait for channels already. -/
def takeChans (b : Board) : List Chan → State → State × Int
  | [], s => (s, 0)
  | chan :: chans, s =>
    let (s, err) := dma_chan_get b chan s
    if err = -ENODEV then (s, -ENODEV) else takeChans b chans s

variable (b : Board)

/-- "take references on public channels" -/
def takeDevice (s : State) (d : Dev) : State × Int :=
  if s.dmaengine_ref_count ≠ 0 ∧ !dma_has_cap b s .DMA_PRIVATE d then takeChans b (b.channels d) s else (s, 0)

/-- The device joins the list; one that is always private counts as its own client. -/
def list_add_tail_rcu (s : State) (d : Dev) : State :=
  let s := { s with dma_device_list := s.dma_device_list ++ [d] }
  if dma_has_cap b s .DMA_PRIVATE d then { s with privatecnt := Function.update s.privatecnt d (u32 (s.privatecnt d + 1)) } else s

structure Hub where
  engine : State
  registry : Registry

/-- The registration once the device has its id and `idr_ref` is allocated. -/
def registerFrom (a : Answers) (d : Dev) (reg : Reg) (h : Hub) : Option (Hub × Int) :=
  let (r, rc) := registerChans a reg (h.registry.dev_id d) (b.channels d) h.registry
  if rc ≠ 0 then (err_out reg (r.dev_id d) (b.channels d) r).map (⟨h.engine, ·⟩, rc)
  else
    let (s, rc) := takeDevice b ((b.channels d).foldl (setCount · · 0) h.engine) d
    if rc ≠ 0 then (err_out reg (r.dev_id d) (b.channels d) r).map (⟨s, ·⟩, rc)
    else some (⟨dma_channel_rebalance b (list_add_tail_rcu b s d), r⟩, 0)

def dma_async_device_register (a : Answers) (d : Dev) (h : Hub) : Option (Hub × Int) :=
  let reg := h.registry.registrations
  let r := { h.registry with registrations := reg + 1 }
  if !a.kmalloc then some (⟨h.engine, r⟩, -ENOMEM)
  else
    let (r, rc) := get_dma_id a d r
    if rc ≠ 0 then some (⟨h.engine, r⟩, rc)
    else registerFrom b a d reg ⟨h.engine, { r with idr_ref := Function.update r.idr_ref reg (some 0) }⟩

/-- A device that left the list before cannot leave it again. -/
def dma_async_device_unregister (d : Dev) (h : Hub) : Option Hub :=
  if d ∈ h.engine.dma_device_list then
    ((b.channels d).foldlM unregisterChan h.registry).map
      (⟨dma_channel_rebalance b (list_del_rcu h.engine d), ·⟩)
  else none

/-! ## Ids and counters -/

/-- The registrations that have an id, with their ids: those of a `dma_chan_dev`, and
the `lost` ones, of devices without channels. -/
def owners (all : List ChanDev) (lost : List (Reg × Nat)) : List (Reg × Nat) :=
  all.map (fun cd => (cd.idr_ref, cd.dev_id)) ++ lost

/-- The `dma_chan_dev`s of a registration share a counter, which counts them, and an id, which no others have. -/
structure Ids (all : List ChanDev) (lost : List (Reg × Nat)) (r : Registry) : Prop where
  count : ∀ reg, (r.idr_ref reg).getD 0 = all.countP (·.idr_ref = reg)
  live_iff : ∀ reg, (r.idr_ref reg).isSome = true ↔ ∃ p ∈ owners all lost, p.1 = reg
  apart : ∀ cd ∈ all, ∀ p ∈ lost, cd.idr_ref ≠ p.1
  fresh : ∀ p ∈ owners all lost, p.1 < r.registrations
  nodup : r.dma_idr.Nodup
  mem_iff : ∀ id, id ∈ r.dma_idr ↔ ∃ p ∈ owners all lost, p.2 = id
  key : ∀ p ∈ owners all lost, ∀ p' ∈ owners all lost, p.2 = p'.2 ↔ p.1 = p'.1

/-- `chans` are the channels in sysfs, and those with counters. -/
structure Tidy (chans : List Chan) (lost : List (Reg × Nat)) (r : Registry) : Prop where
  registered : (r.registered.map ChanDev.chan).Perm chans
  percpu : r.percpu.Perm chans
  dev : ∀ cd ∈ r.registered, r.dev cd.chan = some cd
  ids : Ids (r.registered ++ r.closing) lost r

variable {all all' : List ChanDev} {lost lost' : List (Reg × Nat)} {chans chans₀ done rest : List Chan}
  {r r' : Registry} {cd : ChanDev} {chan : Chan} {reg : Reg} {id : Nat} {a : Answers}

@[simp] theorem owners_cons : owners (cd :: all) lost = (cd.idr_ref, cd.dev_id) :: owners all lost := rfl

theorem mem_owners (h : cd ∈ all) : (cd.idr_ref, cd.dev_id) ∈ owners all lost :=
  List.mem_append_left _ (List.mem_map_of_mem h)

theorem Ids.perm (h : Ids all lost r) (hp : all.Perm all') : Ids all' lost r := by
  have hmem : ∀ p, p ∈ owners all' lost ↔ p ∈ owners all lost := fun p => ((hp.map _).append_right lost).mem_iff.symm
  refine ⟨fun reg => by rw [h.count, hp.countP_eq], fun reg => ?_, fun cd hcd => h.apart cd (hp.mem_iff.2 hcd), ?_, h.nodup,
    fun id => ?_, ?_⟩
  · simp only [h.live_iff, hmem]
  · exact fun p hp => h.fresh p ((hmem p).1 hp)
  · simp only [h.mem_iff, hmem]
  · exact fun p hp p' hp' => h.key p ((hmem p).1 hp) p' ((hmem p').1 hp')

/-- The counter of a registration that is still to come is not allocated. -/
theorem Ids.idr_ref_fresh (h : Ids all lost r) : r.idr_ref r.registrations = none := by
  rw [← Option.not_isSome_iff_eq_none, h.live_iff]
  rintro ⟨p, hp, hreg⟩
  exact Nat.ne_of_lt (h.fresh p hp) hreg

theorem Tidy.perm (h : Tidy chans lost r) (hp : chans.Perm chans₀) : Tidy chans₀ lost r :=
  ⟨h.registered.trans hp, h.percpu.trans hp, h.dev, h.ids⟩

theorem Tidy.unregisterChan (h : Tidy (chan :: rest) lost r) :
    ∃ r', unregisterChan r chan = some r' ∧ Tidy rest lost r' := by
  obtain ⟨cd, hcd, rfl⟩ := List.mem_map.1 (h.registered.mem_iff.2 List.mem_cons_self)
  have hperm := List.perm_cons_erase hcd
  refine ⟨{ r with registered := r.registered.erase cd, closing := cd :: r.closing, percpu := r.percpu.erase cd.chan }, ?_, ?_⟩
  · have hpc : cd.chan ∈ r.percpu := h.percpu.mem_iff.2 List.mem_cons_self
    simp [Dmaengine.unregisterChan, h.dev cd hcd, put, hcd, hpc]
  · refine ⟨?_, ?_, fun c hc => h.dev c (List.mem_of_mem_erase hc), ?_⟩
    · exact List.Perm.cons_inv ((hperm.map ChanDev.chan).symm.trans h.registered)
    · simpa using h.percpu.erase cd.chan
    · have hall : (r.registered ++ r.closing).Perm (r.registered.erase cd ++ cd :: r.closing) :=
        (hperm.append_right _).trans List.perm_middle.symm
      have hids := h.ids.perm hall
      exact { hids with }

theorem Tidy.unregisterChans : ∀ {chans : List Chan} {r : Registry}, Tidy (chans ++ rest) lost r →
    ∃ r', chans.foldlM Dmaengine.unregisterChan r = some r' ∧ Tidy rest lost r' := by
  intro chans
  induction chans with
  | nil => intro r h; exact ⟨r, rfl, h⟩
  | cons chan chans ih =>
    intro r h
    obtain ⟨r₁, hr, h⟩ := Tidy.unregisterChan h
    obtain ⟨r', hr', h⟩ := ih h
    refine ⟨r', ?_, h⟩
    rw [List.foldlM_cons, hr]
    exact hr'

/-- An id goes with the last of its `dma_chan_dev`s. -/
theorem Ids.dropRef (h : Ids (cd :: all) lost r) :
    ∃ ids refs, dropRef r cd = some { r with dma_idr := ids, idr_ref := refs } ∧
      Ids all lost { r with dma_idr := ids, idr_ref := refs } := by
  have hcount := h.count cd.idr_ref
  rw [List.countP_cons_of_pos (by simp)] at hcount
  obtain ⟨n, hn⟩ : ∃ n, r.idr_ref cd.idr_ref = some (n + 1) := by
    cases hr : r.idr_ref cd.idr_ref with
    | none => rw [hr] at hcount; cases hcount
    | some m =>
      rw [hr] at hcount
      exact ⟨_, congrArg some hcount⟩
  have hall : all.countP (·.idr_ref = cd.idr_ref) = n := by
    rw [hn] at hcount
    exact (Nat.succ.inj hcount).symm
  have hother : ∀ reg ≠ cd.idr_ref, (r.idr_ref reg).getD 0 = all.countP (·.idr_ref = reg) := by
    intro reg hreg
    rw [h.count, List.countP_cons_of_neg (by simpa using Ne.symm hreg)]
  have hlive : ∀ reg ≠ cd.idr_ref, ((r.idr_ref reg).isSome = true ↔ ∃ p ∈ owners all lost, p.1 = reg) := by
    intro reg hreg
    rw [h.live_iff, owners_cons, List.exists_mem_cons_iff]
    exact or_iff_right fun he => hreg he.symm
  have hapart : ∀ c ∈ all, ∀ p ∈ lost, c.idr_ref ≠ p.1 := fun c hc => h.apart c (List.mem_cons_of_mem _ hc)
  have hfresh : ∀ p ∈ owners all lost, p.1 < r.registrations := fun p hp => h.fresh p (List.mem_cons_of_mem _ hp)
  have hkey : ∀ p ∈ owners all lost, ∀ p' ∈ owners all lost, p.2 = p'.2 ↔ p.1 = p'.1 := fun p hp p' hp' =>
    h.key p (List.mem_cons_of_mem _ hp) p' (List.mem_cons_of_mem _ hp')
  cases n with
  | zero =>
    -- no other registration has the counter, nor the id
    have hnone : ∀ p ∈ owners all lost, p.1 ≠ cd.idr_ref := by
      intro p hp
      rcases List.mem_append.1 hp with hp | hp
      · obtain ⟨c, hc, rfl⟩ := List.mem_map.1 hp
        simpa using List.countP_eq_zero.1 hall c hc
      · exact (h.apart cd List.mem_cons_self p hp).symm
    refine ⟨r.dma_idr.erase cd.dev_id, Function.update r.idr_ref cd.idr_ref none, ?_, ?_⟩
    · have hmem : cd.dev_id ∈ r.dma_idr := (h.mem_iff _).2 ⟨_, List.mem_cons_self, rfl⟩
      simp [Dmaengine.dropRef, hn, put, hmem]
    · refine ⟨fun reg => ?_, fun reg => ?_, hapart, hfresh, h.nodup.erase _, fun id => ?_, hkey⟩
      · by_cases hreg : reg = cd.idr_ref
        · subst hreg
          simp [hall]
        · simpa [hreg] using hother reg hreg
      · by_cases hreg : reg = cd.idr_ref
        · subst hreg
          simpa using fun i hp => hnone (cd.idr_ref, i) hp rfl
        · simpa [hreg] using hlive reg hreg
      · show id ∈ r.dma_idr.erase cd.dev_id ↔ _
        rw [h.nodup.mem_erase_iff, h.mem_iff, owners_cons, List.exists_mem_cons_iff]
        constructor
        · rintro ⟨hid, rfl | hp⟩
          · exact absurd rfl hid
          · exact hp
        · rintro ⟨p, hp, rfl⟩
          refine ⟨fun he => hnone p hp ?_, .inr ⟨p, hp, rfl⟩⟩
          exact (h.key p (List.mem_cons_of_mem _ hp) _ List.mem_cons_self).1 he
  | succ n =>
    obtain ⟨c₀, hc₀, hreg₀⟩ : ∃ c ∈ all, c.idr_ref = cd.idr_ref := by
      have : 0 < all.countP (·.idr_ref = cd.idr_ref) := by rw [hall]; exact Nat.succ_pos n
      simpa using List.countP_pos_iff.1 this
    have hid₀ : c₀.dev_id = cd.dev_id :=
      (h.key _ (List.mem_cons_of_mem _ (mem_owners hc₀)) _ List.mem_cons_self).2 hreg₀
    refine ⟨r.dma_idr, Function.update r.idr_ref cd.idr_ref (some (n + 1)), ?_, ?_⟩
    · simp [Dmaengine.dropRef, hn]
    · refine ⟨fun reg => ?_, fun reg => ?_, hapart, hfresh, h.nodup, fun id => ?_, hkey⟩
      · by_cases hreg : reg = cd.idr_ref
        · subst hreg
          simp [hall]
        · simpa [hreg] using hother reg hreg
      · by_cases hreg : reg = cd.idr_ref
        · subst hreg
          exact iff_of_true (by simp) ⟨_, mem_owners hc₀, hreg₀⟩
        · simpa [hreg] using hlive reg hreg
      · show id ∈ r.dma_idr ↔ _
        rw [h.mem_iff, owners_cons, List.exists_mem_cons_iff]
        refine ⟨?_, .inr⟩
        rintro (rfl | hp)
        · exact ⟨_, mem_owners hc₀, hid₀⟩
        · exact hp

theorem Tidy.release (h : Tidy chans lost r) (hcd : cd ∈ r.closing) :
    ∃ r', chan_dev_release r cd = some r' ∧ Tidy chans lost r' ∧ r'.registered = r.registered := by
  have hids : Ids (cd :: (r.registered ++ r.closing.erase cd)) lost { r with closing := r.closing.erase cd } := by
    have hperm : (r.registered ++ r.closing).Perm (cd :: (r.registered ++ r.closing.erase cd)) :=
      ((List.perm_cons_erase hcd).append_left _).trans List.perm_middle
    exact { h.ids.perm hperm with }
  obtain ⟨ids, refs, hdrop, hids⟩ := hids.dropRef
  refine ⟨{ r with closing := r.closing.erase cd, dma_idr := ids, idr_ref := refs }, ?_,
    ⟨h.registered, h.percpu, h.dev, hids⟩, rfl⟩
  rw [chan_dev_release, put, if_pos hcd]
  exact hdrop

/-! ## A registration -/

/-- How far the loop over `chans` gets: `done` have their `dma_chan_dev`, the counter counts them, `rest` have nothing. -/
structure Reached (reg : Reg) (id n : Nat) (chans : List Chan) (r : Registry) (res : Registry × Int) (done rest : List Chan) :
    Prop where
  chans_eq : chans = done ++ rest
  rc : res.2 = 0 ↔ rest = []
  percpu : res.1.percpu = done.reverse ++ r.percpu
  registered : res.1.registered = (done.map fun c => ⟨c, reg, id⟩).reverse ++ r.registered
  idr_ref : res.1.idr_ref = Function.update r.idr_ref reg (some (n + done.length))
  dma_idr : res.1.dma_idr = r.dma_idr
  closing : res.1.closing = r.closing
  dev_id : res.1.dev_id = r.dev_id
  registrations : res.1.registrations = r.registrations
  has_local : ∀ c ∈ done, res.1.hasLocal c = true
  no_local : ∀ c ∈ rest, r.hasLocal c = false → res.1.hasLocal c = false
  local_other : ∀ c ∉ chans, res.1.hasLocal c = r.hasLocal c
  dev : ∀ c ∈ done, res.1.dev c = some ⟨c, reg, id⟩
  dev_other : ∀ c ∉ chans, res.1.dev c = r.dev c

theorem registerChans_reached (a : Answers) (reg : Reg) (id : Nat) : ∀ {chans : List Chan} {r : Registry} {n : Nat},
    chans.Nodup → r.idr_ref reg = some n → ∃ done rest, Reached reg id n chans r (registerChans a reg id chans r) done rest := by
  intro chans
  induction chans with
  | nil =>
    intro r n _ hn
    refine ⟨[], [], rfl, by simp [registerChans], rfl, rfl, ?_, rfl, rfl, rfl, rfl, by simp, by simp,
      fun _ _ => rfl, by simp, fun _ _ => rfl⟩
    exact (Function.update_eq_self_iff.2 hn.symm).symm
  | cons chan chans ih =>
    intro r n hnd hn
    obtain ⟨hchan, hnd⟩ := List.nodup_cons.1 hnd
    have hstay : r.idr_ref = Function.update r.idr_ref reg (some (n + ([] : List Chan).length)) :=
      (Function.update_eq_self_iff.2 hn.symm).symm
    -- the loop ends at `chan`
    have hend : ∀ dev rc, rc ≠ 0 → (∀ c, c ≠ chan → dev c = r.dev c) →
        Reached reg id n (chan :: chans) r (setLocal { r with dev := dev } chan false, rc) [] (chan :: chans) := by
      intro dev rc hrc hdev
      refine ⟨rfl, by simpa using hrc, rfl, rfl, hstay, rfl, rfl, rfl, rfl, by simp, ?_, ?_, by simp, ?_⟩
      · intro c _ hl
        by_cases hc : c = chan <;> simp [setLocal, hc, hl]
      · intro c hc
        simp [setLocal, List.ne_of_not_mem_cons hc]
      · intro c hc
        exact hdev c (List.ne_of_not_mem_cons hc)
    unfold registerChans
    split
    · exact ⟨[], chan :: chans, hend r.dev (-ENOMEM) (by decide) fun _ _ => rfl⟩
    split
    · exact ⟨[], chan :: chans, hend _ (-ENOMEM) (by decide) fun c hc => Function.update_of_ne hc _ _⟩
    dsimp only
    split
    next hrc => exact ⟨[], chan :: chans, hend _ _ hrc fun c hc => Function.update_of_ne hc _ _⟩
    · obtain ⟨done, rest, h⟩ := ih (r := addChan r ⟨chan, reg, id⟩) (n := n + 1) hnd (by simp [addChan, setLocal, hn])
      have hmem : ∀ c ∈ done ++ rest, c ≠ chan := by
        rintro c hc rfl
        exact hchan (h.chans_eq ▸ hc)
      refine ⟨chan :: done, rest, by rw [h.chans_eq]; rfl, h.rc, ?_, ?_, ?_, h.dma_idr, h.closing, h.dev_id, h.registrations,
        ?_, ?_, ?_, ?_, ?_⟩
      · rw [h.percpu]
        simp [addChan, setLocal]
      · rw [h.registered]
        simp [addChan, setLocal]
      · rw [h.idr_ref, List.length_cons, Nat.add_comm done.length, ← Nat.add_assoc]
        exact Function.update_idem _ _ _
      · intro c hc
        rcases List.mem_cons.1 hc with rfl | hc
        · rw [h.local_other c hchan]
          simp [addChan, setLocal]
        · exact h.has_local c hc
      · intro c hc hl
        refine h.no_local c hc ?_
        simpa [addChan, setLocal, hmem c (List.mem_append_right _ hc)] using hl
      · intro c hc
        rw [h.local_other c fun hm => hc (List.mem_cons_of_mem _ hm)]
        simp [addChan, setLocal, List.ne_of_not_mem_cons hc]
      · intro c hc
        rcases List.mem_cons.1 hc with rfl | hc
        · rw [h.dev_other c hchan]
          simp [addChan, setLocal]
        · exact h.dev c hc
      · intro c hc
        rw [h.dev_other c fun hm => hc (List.mem_cons_of_mem _ hm)]
        simp [addChan, setLocal, List.ne_of_not_mem_cons hc]

/-- The registry once a registration has its id and its counter. -/
def opened (r : Registry) (d : Dev) (id : Nat) : Registry :=
  { r with
    dma_idr := id :: r.dma_idr, idr_ref := Function.update r.idr_ref r.registrations (some 0)
    dev_id := Function.update r.dev_id d id, registrations := r.registrations + 1 }

/-- The registrations without a `dma_chan_dev` after one that got an id for the channels `done`. -/
def addLost (reg : Reg) (id : Nat) (done : List Chan) (lost : List (Reg × Nat)) : List (Reg × Nat) :=
  if done = [] then (reg, id) :: lost else lost

theorem Ids.add (h : Ids all lost r) (hid : id ∉ r.dma_idr)
    (hids : r'.dma_idr = id :: r.dma_idr)
    (href : r'.idr_ref = Function.update r.idr_ref r.registrations (some done.length))
    (hreg : r'.registrations = r.registrations + 1) :
    Ids (done.map (fun c => ⟨c, r.registrations, id⟩) ++ all) (addLost r.registrations id done lost) r' := by
  have hmem : ∀ p, p ∈ owners (done.map (fun c => ⟨c, r.registrations, id⟩) ++ all) (addLost r.registrations id done lost) ↔
      p = (r.registrations, id) ∨ p ∈ owners all lost := by
    intro p
    by_cases hdone : done = []
    · simp [owners, addLost, hdone, or_left_comm]
    · obtain ⟨c, hc⟩ := List.exists_mem_of_ne_nil done hdone
      have hp : (∃ c ∈ done, (r.registrations, id) = p) ↔ p = (r.registrations, id) :=
        ⟨fun ⟨_, _, he⟩ => he.symm, fun he => ⟨c, hc, he.symm⟩⟩
      simp only [owners, addLost, if_neg hdone, List.map_append, List.map_map, List.append_assoc, List.mem_append,
        List.mem_map, Function.comp_apply, hp]
  -- both the registration and its id are new
  have hnew : ∀ p ∈ owners all lost, p.1 ≠ r.registrations ∧ p.2 ≠ id := fun p hp =>
    ⟨Nat.ne_of_lt (h.fresh p hp), fun he => hid ((h.mem_iff id).2 ⟨p, hp, he⟩)⟩
  have hlost : ∀ p ∈ lost, p.1 ≠ r.registrations := fun p hp => (hnew p (List.mem_append_right _ hp)).1
  refine ⟨fun reg => ?_, fun reg => ?_, ?_, ?_, ?_, fun i => ?_, ?_⟩
  · rw [href, List.countP_append, List.countP_map]
    by_cases hr : reg = r.registrations
    · subst hr
      have hold : all.countP (·.idr_ref = r.registrations) = 0 :=
        List.countP_eq_zero.2 fun cd hcd => by simpa using (hnew _ (mem_owners hcd)).1
      have hall : done.countP ((fun cd : ChanDev => decide (cd.idr_ref = r.registrations)) ∘
          fun c => ⟨c, r.registrations, id⟩) = done.length := List.countP_eq_length.2 fun c _ => by simp
      simp [hold, hall]
    · have hnone : done.countP ((fun cd : ChanDev => decide (cd.idr_ref = reg)) ∘ fun c => ⟨c, r.registrations, id⟩) = 0 :=
        List.countP_eq_zero.2 fun c _ => by simpa using Ne.symm hr
      simpa [hr, hnone] using h.count reg
  · simp only [href, hmem, exists_eq_or_imp]
    by_cases hr : reg = r.registrations
    · simp [hr]
    · rw [Function.update_of_ne hr, h.live_iff]
      exact (or_iff_right (Ne.symm hr)).symm
  · intro cd hcd p hp
    rcases List.mem_append.1 hcd with hcd | hcd
    · obtain ⟨c, hc, rfl⟩ := List.mem_map.1 hcd
      have hne : done ≠ [] := List.ne_nil_of_mem hc
      rw [addLost, if_neg hne] at hp
      exact (hlost p hp).symm
    · unfold addLost at hp
      split at hp
      · rcases List.mem_cons.1 hp with rfl | hp
        · exact (hnew _ (mem_owners hcd)).1
        · exact h.apart cd hcd p hp
      · exact h.apart cd hcd p hp
  · intro p hp
    rw [hreg]
    rcases (hmem p).1 hp with rfl | hp
    · exact Nat.lt_succ_self _
    · exact Nat.lt_succ_of_lt (h.fresh p hp)
  · rw [hids]
    exact List.nodup_cons.2 ⟨hid, h.nodup⟩
  · simp only [hids, List.mem_cons, h.mem_iff, hmem, exists_eq_or_imp]
    exact or_congr_left eq_comm
  · intro p hp p' hp'
    rcases (hmem p).1 hp with rfl | hp <;> rcases (hmem p').1 hp' with rfl | hp'
    · exact iff_of_true rfl rfl
    · exact iff_of_false (hnew p' hp').2.symm (hnew p' hp').1.symm
    · exact iff_of_false (hnew p hp).2 (hnew p hp).1
    · exact h.key p hp p' hp'

section
variable {d : Dev} {res : Registry × Int}

theorem Reached.tidy (h : Reached r.registrations id 0 chans (opened r d id) res done rest) (ht : Tidy chans₀ lost r)
    (hid : id ∉ r.dma_idr) (hfree : ∀ c ∈ chans, c ∉ chans₀) :
    Tidy (done ++ chans₀) (addLost r.registrations id done lost) res.1 := by
  have hreg : res.1.registered.Perm ((done.map fun c => ⟨c, r.registrations, id⟩) ++ r.registered) := by
    rw [h.registered]
    exact (List.reverse_perm _).append_right _
  refine ⟨?_, ?_, ?_, ?_⟩
  · refine (hreg.map ChanDev.chan).trans ?_
    rw [List.map_append, List.map_map, show ChanDev.chan ∘ (fun c => ⟨c, r.registrations, id⟩) = (fun c => c) from rfl,
      List.map_id']
    exact ht.registered.append_left _
  · rw [h.percpu]
    exact (List.reverse_perm _).append ht.percpu
  · intro cd hcd
    rcases List.mem_append.1 (hreg.mem_iff.1 hcd) with hcd | hcd
    · obtain ⟨c, hc, rfl⟩ := List.mem_map.1 hcd
      exact h.dev c hc
    · have hold : cd.chan ∈ chans₀ := ht.registered.mem_iff.1 (List.mem_map_of_mem hcd)
      rw [h.dev_other cd.chan fun hc => hfree _ hc hold]
      exact ht.dev cd hcd
  · have href : res.1.idr_ref = Function.update r.idr_ref r.registrations (some done.length) := by
      rw [h.idr_ref, Nat.zero_add]
      exact Function.update_idem _ _ _
    have hids := ht.ids.add hid h.dma_idr href h.registrations
    rw [h.closing]
    refine hids.perm ?_
    rw [← List.append_assoc]
    exact hreg.symm.append_right _

/-- The error exit undoes the registration, however far it got. -/
theorem Reached.err_out (h : Reached r.registrations id 0 chans (opened r d id) res done rest) (ht : Tidy chans₀ lost r)
    (hid : id ∉ r.dma_idr) (hfree : ∀ c ∈ chans, c ∉ chans₀) (hlocal : ∀ c ∈ chans, r.hasLocal c = false) :
    ∃ r', err_out r.registrations id chans res.1 = some r' ∧ Tidy chans₀ lost r' := by
  have href : res.1.idr_ref r.registrations = some done.length := by
    rw [h.idr_ref, Function.update_self, Nat.zero_add]
  unfold Dmaengine.err_out
  -- no channel got there: `idr_ref` is 0, and the exit returns the id itself
  by_cases hne : done = []
  · subst hne
    have hput : put id res.1.dma_idr = some r.dma_idr := by
      rw [show res.1.dma_idr = id :: r.dma_idr from h.dma_idr, put, if_pos List.mem_cons_self]
      exact congrArg some (List.erase_cons_head _ _)
    have hback : Function.update res.1.idr_ref r.registrations none = r.idr_ref := by
      rw [h.idr_ref, Function.update_idem]
      show Function.update (Function.update r.idr_ref r.registrations (some 0)) _ _ = _
      rw [Function.update_idem]
      exact Function.update_eq_self_iff.2 ht.ids.idr_ref_fresh.symm
    rw [if_pos (show _ = some 0 from href), hput]
    refine ⟨_, rfl, ?_⟩
    have hreg : res.1.registered = r.registered := h.registered
    have hclosing : res.1.closing = r.closing := h.closing
    refine ⟨hreg ▸ ht.registered, (show res.1.percpu = r.percpu from h.percpu) ▸ ht.percpu, ?_, ?_⟩
    · intro cd hcd
      have hold : cd ∈ r.registered := hreg ▸ hcd
      show res.1.dev cd.chan = _
      rw [h.dev_other cd.chan fun hc => hfree _ hc (ht.registered.mem_iff.1 (List.mem_map_of_mem hold))]
      exact ht.dev cd hold
    · show Ids (res.1.registered ++ res.1.closing) lost _
      rw [hreg, hclosing, hback]
      refine { ht.ids with fresh := fun p hp => ?_ }
      show p.1 < res.1.registrations
      rw [h.registrations]
      exact Nat.lt_succ_of_lt (ht.ids.fresh p hp)
  · rw [if_neg (by rw [href]; simpa using hne)]
    have hfilter : chans.filter res.1.hasLocal = done := by
      rw [h.chans_eq, List.filter_append, List.filter_eq_self.2 h.has_local, List.filter_eq_nil_iff.2, List.append_nil]
      intro c hc
      rw [h.no_local c hc (hlocal c (h.chans_eq ▸ List.mem_append_right _ hc))]
      exact Bool.false_ne_true
    have htidy := h.tidy ht hid hfree
    rw [addLost, if_neg hne] at htidy
    rw [hfilter]
    exact htidy.unregisterChans

end

/-- How a registration ends: one that fails leaves the registry as it was, but for a `dma_chan_dev` that is still referred
to; one that succeeds adds the device's channels, or an id for good. -/
def Registered (chans₀ : List Chan) (lost : List (Reg × Nat)) (reg : Reg) (d : Dev) (s₀ : State) (res : Hub × Int) : Prop :=
  let (s, rc) := takeDevice b ((b.channels d).foldl (setCount · · 0) s₀) d
  res.2 ≠ 0 ∧ Tidy chans₀ lost res.1.registry ∧ (res.1.engine = s₀ ∨ res.1.engine = s) ∨
    res.2 = 0 ∧ rc = 0 ∧
      Tidy (b.channels d ++ chans₀) (addLost reg (res.1.registry.dev_id d) (b.channels d) lost) res.1.registry ∧
      res.1.engine = dma_channel_rebalance b (list_add_tail_rcu b s d)

theorem registerFrom_registered (a : Answers) (d : Dev) (s : State) (ht : Tidy chans₀ lost r) (hid : id ∉ r.dma_idr)
    (hfree : ∀ c ∈ b.channels d, c ∉ chans₀) (hlocal : ∀ c ∈ b.channels d, r.hasLocal c = false) :
    ∃ res, registerFrom b a d r.registrations ⟨s, opened r d id⟩ = some res ∧
      Registered b chans₀ lost r.registrations d s res := by
  obtain ⟨done, rest, hr⟩ := registerChans_reached a r.registrations id (r := opened r d id) (n := 0) (b.channels_nodup d)
    (Function.update_self _ _ _)
  obtain ⟨r', herr, htidy⟩ := hr.err_out ht hid hfree hlocal
  have hdev : (opened r d id).dev_id d = id := Function.update_self _ _ _
  simp only [registerFrom, Registered, hdev]
  generalize registerChans a r.registrations id (b.channels d) (opened r d id) = res at hr herr
  rw [hr.dev_id, hdev, herr]
  split
  next hrc => exact ⟨_, rfl, .inl ⟨hrc, htidy, .inl rfl⟩⟩
  next hrc =>
    have hrest : rest = [] := hr.rc.1 (not_not.1 hrc)
    subst hrest
    have hdone : done = b.channels d := by rw [hr.chans_eq, List.append_nil]
    split
    next htake => exact ⟨_, rfl, .inl ⟨htake, htidy, .inr rfl⟩⟩
    next htake =>
      have htidy := hr.tidy ht hid hfree
      rw [hdone] at htidy
      refine ⟨_, rfl, .inr ⟨rfl, not_not.1 htake, ?_, rfl⟩⟩
      rw [hr.dev_id, hdev]
      exact htidy

theorem dma_async_device_register_registered (a : Answers) (d : Dev) {h : Hub} (ht : Tidy chans₀ lost h.registry)
    (hfree : ∀ c ∈ b.channels d, c ∉ chans₀) (hlocal : ∀ c ∈ b.channels d, h.registry.hasLocal c = false) :
    ∃ res, dma_async_device_register b a d h = some res ∧
      Registered b chans₀ lost h.registry.registrations d h.engine res := by
  have hskip : Tidy chans₀ lost { h.registry with registrations := h.registry.registrations + 1 } :=
    ⟨ht.registered, ht.percpu, ht.dev, { ht.ids with fresh := fun p hp => Nat.lt_succ_of_lt (ht.ids.fresh p hp) }⟩
  unfold dma_async_device_register
  dsimp only
  split
  · exact ⟨_, rfl, .inl ⟨show -ENOMEM ≠ 0 by decide, hskip, .inl rfl⟩⟩
  unfold get_dma_id
  dsimp only
  split
  next hidr =>
    rw [if_pos (Int.ne_of_lt hidr)]
    exact ⟨_, rfl, .inl ⟨Int.ne_of_lt hidr, hskip, .inl rfl⟩⟩
  next hidr => exact registerFrom_registered b a d h.engine ht (a.idr_alloc_unused _ (Int.not_lt.1 hidr)) hfree hlocal

end Dmacftu.Dmaengine
