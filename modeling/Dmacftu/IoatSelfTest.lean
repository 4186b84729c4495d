import Dmacftu.IoatMappings
import Dmacftu.IoatPool
import Dmacftu.IoatRestart
import Dmacftu.IoatSuspend
/-!
# The self-test

`ioat_dma_self_test` of `ioat/dma.c` opens a channel, has it copy a buffer and
closes it again, while the device, the watchdog and the clean-up go their own
ways. On the path that it takes when the copy differs it does not undo its
mappings; `self_test_verdict` says that it never takes it, so long as the buffer
is one piece or the channel is not restarted. Then every run that ends gives
everything back, and tells whether the completion was seen in time. Where it was
not, the last clean-up may set the timer that the test has just stopped; its handler
would then read a completion address that is freed (`Stage.stray`).
-/
open Lib.CopyEngine Lib.Ledger Lib.Links Lib.Runs Lib.Script

namespace Dmacftu.Ioat

def IOAT_TEST_SIZE : Nat := 2000

def ENODEV : Int := 19

/-- The callback of the test's transaction. -/
def ioat_dma_test_callback : Nat := 0

/-- What the self-test depends on: headers, bus addresses of its two buffers, and what else there is in memory. -/
structure SelfTest where
  P : Params
  dma_cookie_status : State → Int → DmaStatus
  ioat_initial_desc_count : Nat
  dma_src : Nat
  dma_dest : Nat
  mem : Nat → Nat

namespace SelfTest

def flags : DmaCtrlFlags :=
  { noFlags with DMA_COMPL_SKIP_SRC_UNMAP := true, DMA_COMPL_SKIP_DEST_UNMAP := true, DMA_PREP_INTERRUPT := true }

def request (T : SelfTest) : Request := ⟨T.dma_dest, T.dma_src, IOAT_TEST_SIZE, flags⟩

def mappings (T : SelfTest) : List Mapping :=
  [⟨.single, T.dma_src, IOAT_TEST_SIZE, .DMA_TO_DEVICE⟩, ⟨.single, T.dma_dest, IOAT_TEST_SIZE, .DMA_FROM_DEVICE⟩]

/-- The memory when `src` is filled in; `dest` is zeroed. -/
def filled (T : SelfTest) (p : Nat) : Nat :=
  if T.dma_src ≤ p ∧ p < T.dma_src + IOAT_TEST_SIZE then (p - T.dma_src) % 256
  else if T.dma_dest ≤ p ∧ p < T.dma_dest + IOAT_TEST_SIZE then 0
  else T.mem p

/-- `memcmp`: whether the buffers differ. -/
def memcmp (T : SelfTest) (copies : List Desc) : Bool :=
  decide (∃ k < IOAT_TEST_SIZE, runs copies T.filled (T.dma_src + k) ≠ runs copies T.filled (T.dma_dest + k))

end SelfTest

/-- What the self-test is about to do. -/
inductive Stage where
  | alloc
  | prep
  | submit (tx : Phys × Request)
  | issue (cookie : Int)
  | wait (cookie : Int)
  | status (cookie : Int)
  | compare
  | unmap (err : Int)
  | free (err : Int)
  | done (err : Int)
  /-- The timer's handler ran on the closed channel. -/
  | stray
  deriving DecidableEq, Repr

structure Testing extends Mapped where
  stage : Stage
  /-- The wait for the completion did not time out. -/
  tmo : Bool
  /-- The descriptors returned to the pool. -/
  returned : List Phys

inductive TestStep where
  | alloc (pool extra : List Phys)
  | prep (pool : List Phys)
  | submit
  | issue_pending
  | wait
  | status (cleanup_lock desc_lock : Bool)
  | compare
  | unmap
  | free
  | act (a : Act)
  deriving DecidableEq, Repr

/-- A client's step. -/
def Act.client : Act → Bool
  | .prep _ _ | .submit _ _ | .ack _ | .issue_pending => true
  | _ => false

/-- The channel has no resources. The tasklet is off then, and the device's steps and the timer's are what could still happen. -/
def Stage.closed : Stage → Bool
  | .alloc | .done _ | .stray => true
  | _ => false

/-- What the driver unmaps when it goes from one state to another. -/
def newUnmaps (s s' : State) : List Mapping := (s'.reports.drop s.reports.length).flatMap Report.unmaps

/-- One step of the self-test, or of whatever else is at work on its channel. -/
def selfTest (T : SelfTest) (m : Testing) : TestStep → Option Testing
  | .alloc pool extra => match m.stage with
    | .alloc =>
      let (chan, count) := ioat1_dma_alloc_chan_resources T.ioat_initial_desc_count m.chan pool extra
      some (if count < 1 then { m with chan := chan, stage := .done (-ENODEV) }
        else { m with chan := chan, maps := T.mappings ++ m.maps, stage := .prep })
    | _ => none
  | .prep pool => match m.stage with
    | .prep => (step T.P m.chan (.prep T.request pool)).map fun chan =>
      { m with chan := chan, stage := match chan.prepared with
        | [] => .unmap (-ENODEV)
        | tx :: _ => .submit tx }
    | _ => none
  | .submit => match m.stage with
    -- the cookie that `tx_submit` returns is the channel's last one
    | .submit tx => (step T.P m.chan (.ack tx.1)).bind fun chan =>
      (step T.P chan (.submit tx (some ioat_dma_test_callback))).map fun chan =>
        { m with chan := chan, stage := if chan.cookie < 0 then .unmap (-ENODEV) else .issue chan.cookie }
    | _ => none
  | .issue_pending => match m.stage with
    | .issue cookie => (step T.P m.chan .issue_pending).map fun chan => { m with chan := chan, stage := .wait cookie }
    | _ => none
  | .wait => match m.stage with
    | .wait cookie =>
      if m.chan.issuing = 0 then
        let tmo := m.chan.reports.any fun r => r.callback = some ioat_dma_test_callback
        some { m with tmo := tmo, stage := if tmo then .status cookie else .unmap (-ENODEV) }
      else none
    | _ => none
  | .status cleanup_lock desc_lock => match m.stage with
    | .status cookie =>
      if cleanup_lock = true → m.chan.cleanup_lock = none then
        let (ret, chan) := ioat_dma_tx_status T.P T.dma_cookie_status cleanup_lock desc_lock m.chan cookie
        (putAll (newUnmaps m.chan chan) m.maps).map fun maps =>
          { m with chan := chan, maps := maps, stage := if ret ≠ .DMA_SUCCESS then .unmap (-ENODEV) else .compare }
      else none
    | _ => none
  | .compare => match m.stage with
    | .compare => some { m with stage := if T.memcmp m.chan.copies then .free (-ENODEV) else .unmap 0 }
    | _ => none
  | .unmap => match m.stage with
    | .unmap err => (putAll T.mappings m.maps).map fun maps => { m with maps := maps, stage := .free err }
    | _ => none
  | .free => match m.stage with
    -- it waits for the tasklet and for the timer
    | .free err =>
      if m.chan.cleanup_lock = none then
        let (chan, returned) := ioat1_dma_free_chan_resources T.P m.chan
        (putAll (newUnmaps m.chan chan) m.maps).map fun maps =>
          { m with chan := chan, maps := maps, stage := .done err, returned := returned }
      else none
    | _ => none
  | .act a =>
    if a.client then none
    else if m.stage.closed ∧ !a.device then
      if a = .timer ∧ m.chan.timer then some { m with stage := .stray } else none
    else (unmapping T.P m.toMapped a).map fun n => { m with chan := n.chan, maps := n.maps }

/-- The device was just enumerated. -/
def probed (xfercap_scale : Nat) (cookie : Int) : Testing := ⟨⟨enumerated xfercap_scale cookie, []⟩, .alloc, false, []⟩

variable {T : SelfTest} {P : Params} {s s' s₀ : State} {v v' : View} {a : Act} {m m' : Testing}

/-! ## The channel under test -/

/-- What every step on the channel keeps; `s₀` is the channel as it was opened. -/
structure Sound (P : Params) (s₀ s : State) (v : View) : Prop where
  inv : Inv s v
  counted : Counted P s₀.cookie s
  pieces : Pieces s
  holding : Holding s₀ s
  grown : Grown s₀ s
  carried : IOAT_TEST_SIZE ≤ s₀.xfercap ∨ Carried s v

theorem Fresh.sound {p : Phys} (h : Fresh s p) (hold : Holding s s) : Sound P s s ⟨[], [p], []⟩ where
  inv := h.inv
  counted := h.counted
  pieces := h.pieces
  holding := hold
  grown := .refl s
  carried := .inr h.carried

/-- The buffer is one piece, or the step does not restart the channel. -/
def Steady (s₀ s : State) (a : Act) : Prop := IOAT_TEST_SIZE ≤ s₀.xfercap ∨ ¬ Restarts s a

theorem Moved.sound (hm : Moved P s v a s' v') (h : Sound P s₀ s v) (ha : Steady s₀ s a) : Sound P s₀ s' v' where
  inv := hm.inv h.inv
  counted := hm.counted h.inv h.counted
  pieces := hm.pieces h.inv h.pieces
  holding := hm.holding h.inv h.holding
  grown := hm.grown h.inv h.grown
  carried := by
    rcases ha with hone | hr
    · exact .inl hone
    · exact h.carried.imp id fun hc => hm.carried h.inv hc hr

theorem Sound.step (h : Sound P s₀ s v) (hs : step P s a = some s') (ha : Steady s₀ s a) : ∃ v', Sound P s₀ s' v' := by
  obtain ⟨v', hm⟩ := step_moved h.inv hs
  exact ⟨v', hm.sound h ha⟩

/-- What is nobody's call submits nothing. -/
theorem Moved.unattended (hm : Moved P s v a s' v') (hi : Inv s v) (ha : a.client = false) :
    s'.submitted = s.submitted ∧ s'.prepared = s.prepared ∧ s.reports <+: s'.reports := by
  cases hm with
  | prep => cases ha
  | submit => cases ha
  | cleanup hpl hk hc hlock htimer =>
    rw [cleanupTo_state hi.lists hk]
    exact ⟨rfl, rfl, List.prefix_append _ _⟩
  | _ => exact ⟨rfl, rfl, List.prefix_rfl⟩

theorem request_unmaps (T : SelfTest) : T.request.unmaps = [] := rfl

/-- The driver is told to leave the mappings of the test alone. -/
theorem Books.no_unmaps (h : Books s' v) (hsub : ∀ t ∈ s'.submitted, t.req = T.request) : newUnmaps s s' = [] := by
  obtain ⟨n, -, hr, -⟩ := h.reported
  rw [newUnmaps, hr, List.flatMap_eq_nil_iff]
  intro r hr
  obtain ⟨t, ht, rfl⟩ := List.mem_map.1 (List.mem_of_mem_drop hr)
  show t.req.unmaps = []
  rw [hsub t (List.mem_of_mem_take ht)]
  exact request_unmaps T

/-! ## What has been copied -/

theorem filled_src (T : SelfTest) {k : Nat} (hk : k < IOAT_TEST_SIZE) : T.filled (T.dma_src + k) = k % 256 := by
  rw [SelfTest.filled, if_pos (by omega), Nat.add_sub_cancel_left]

/-- One piece is the whole buffer. -/
theorem request_chunks {cap : Nat} (hcap : IOAT_TEST_SIZE ≤ cap) :
    T.request.chunks cap = [⟨T.dma_dest, T.dma_src, IOAT_TEST_SIZE⟩] ∧
      T.request.lastPiece cap = ⟨T.dma_dest, T.dma_src, IOAT_TEST_SIZE⟩ := by
  have hcount : T.request.count cap = 1 := by
    rw [Request.count, Nat.div_eq_of_lt]
    exact Nat.lt_of_lt_of_le (show IOAT_TEST_SIZE - 1 < IOAT_TEST_SIZE by decide) hcap
  have hpiece : T.request.chunk cap 0 = ⟨T.dma_dest, T.dma_src, IOAT_TEST_SIZE⟩ := by
    simp [Request.chunk, SelfTest.request, Nat.min_eq_left hcap]
  refine ⟨?_, ?_⟩
  · rw [Request.chunks, hcount, List.range_one, List.map_singleton, hpiece]
  · rw [Request.lastPiece, hcount, hpiece]

/-- Carrying out the same piece again changes nothing. -/
theorem runs_repeated {d : Desc} (hd : d.src + d.len ≤ d.dst ∨ d.dst + d.len ≤ d.src) {ds : List Desc} (hds : ∀ e ∈ ds, e = d)
    (hmem : d ∈ ds) (mem : Nat → Nat) {k : Nat} (hk : k < d.len) :
    runs ds mem (d.dst + k) = mem (d.src + k) ∧ runs ds mem (d.src + k) = mem (d.src + k) := by
  have hcovers : d.Covers (d.dst + k) := ⟨Nat.le_add_right _ _, by omega⟩
  have hsrc : ∀ j < d.len, ¬ d.Covers (d.src + j) := by
    rintro j hj ⟨h1, h2⟩
    omega
  have hkept : ∀ ds : List Desc, (∀ e ∈ ds, e = d) → ∀ mem : Nat → Nat, runs ds mem (d.src + k) = mem (d.src + k) :=
    fun ds hds mem => runs_of_not_covers (fun e he => by rw [hds e he]; exact hsrc k hk) mem
  refine ⟨?_, hkept ds hds mem⟩
  obtain ⟨front, rest, rfl⟩ := List.append_of_mem hmem
  obtain ⟨n, hrest⟩ : ∃ n, rest = List.replicate n d :=
    ⟨rest.length, List.eq_replicate_iff.2 ⟨rfl, fun e he => hds e (by simp [he])⟩⟩
  have hlast : ∀ (n : Nat) (mem : Nat → Nat), runs (d :: List.replicate n d) mem (d.dst + k) = mem (d.src + k) := by
    intro n
    induction n with
    | zero =>
      intro mem
      show d.run mem (d.dst + k) = _
      rw [Desc.run_of_covers hcovers, Nat.add_sub_cancel_left]
    | succ n ih =>
      intro mem
      show runs (d :: List.replicate n d) (d.run mem) (d.dst + k) = _
      rw [ih, Desc.run_of_not_covers (hsrc k hk)]
  rw [runs_append, hrest, hlast]
  exact hkept front (fun e he => hds e (by simp [he])) mem

/-- When the transaction is reported the bytes are there, and those that they come from are still the same. -/
theorem Sound.arrived (h : Sound P s₀ s v) {t : Tx} (hsub : s.submitted = [t]) (ht : t.req = T.request)
    (hrep : s.reports.length = 1) (hapart : T.request.Apart) {k : Nat} (hk : k < IOAT_TEST_SIZE) :
    runs s.copies T.filled (T.dma_dest + k) = k % 256 ∧ runs s.copies T.filled (T.dma_src + k) = k % 256 := by
  have hpieces : s.pieces = T.request.chunks s.xfercap := by
    rw [State.pieces, hsub, List.flatMap_singleton, ht]
  rcases h.carried with hone | hc
  · have hcap : IOAT_TEST_SIZE ≤ s.xfercap := h.grown.xfercap ▸ hone
    obtain ⟨hchunks, hlast⟩ := request_chunks (T := T) hcap
    have hall : ∀ d ∈ s.copies, d = ⟨T.dma_dest, T.dma_src, IOAT_TEST_SIZE⟩ := by
      intro d hd
      have := h.pieces.copies hd
      rw [hpieces, hchunks] at this
      exact List.mem_singleton.1 this
    have hmem := h.inv.last_carried h.pieces (hrep.trans (by rw [hsub]; rfl)) (t := t) (by rw [hsub]; rfl)
    rw [ht, hlast] at hmem
    rw [← filled_src T hk]
    exact runs_repeated (d := ⟨T.dma_dest, T.dma_src, IOAT_TEST_SIZE⟩) hapart hall hmem T.filled hk
  · obtain ⟨n, hn, hr, hdone, hall⟩ := hc.reported h.inv
    rw [hr, List.length_map, List.length_take_of_le hn] at hrep
    rw [hrep, hsub, List.take_one, List.head?_cons, Option.toList_some, List.flatMap_singleton, ht] at hdone
    rw [hsub, List.flatMap_singleton, ht] at hall
    obtain heq : s.copies = T.request.chunks s.xfercap := hall.eq_of_length_le hdone.length_le
    have hcap := h.inv.lists.cap_pos
    rw [heq, ← filled_src T hk]
    refine ⟨Request.runs_arrive hcap hapart T.filled hk, runs_of_not_covers (fun d hd hcov => ?_) T.filled⟩
    obtain ⟨h1, h2⟩ := Request.chunks_covers hcap hd hcov
    change T.dma_dest ≤ _ at h1
    change _ < T.dma_dest + IOAT_TEST_SIZE at h2
    change T.dma_src + IOAT_TEST_SIZE ≤ T.dma_dest ∨ T.dma_dest + IOAT_TEST_SIZE ≤ T.dma_src at hapart
    omega

/-! ## The stages -/

def SelfTest.tx (T : SelfTest) (cookie : Int) : Tx := ⟨cookie, T.request, some ioat_dma_test_callback⟩

/-- The test's transaction is reported. -/
def Reported (T : SelfTest) (s : State) (cookie : Int) : Prop := s.submitted = [T.tx cookie] ∧ s.reports.length = 1

/-- What has become of the transaction when the self-test is about to do this. -/
def Stage.Expects (T : SelfTest) (s : State) (tmo : Bool) : Stage → Prop
  | .prep => s.submitted = [] ∧ s.prepared = [] ∧ tmo = false
  | .submit tx => s.submitted = [] ∧ s.prepared = [tx] ∧ tmo = false ∧ tx.2 = T.request
  | .issue cookie | .wait cookie => s.submitted = [T.tx cookie] ∧ s.prepared = [] ∧ tmo = false
  | .status cookie => Reported T s cookie ∧ s.prepared = [] ∧ tmo = true
  | .compare => ∃ cookie, Reported T s cookie ∧ s.prepared = [] ∧ tmo = true
  | .unmap err | .free err =>
    (s.submitted = [] ∨ ∃ cookie, s.submitted = [T.tx cookie]) ∧ s.prepared = [] ∧ err = (if tmo then 0 else -ENODEV) ∧
      (tmo = true → ∃ cookie, Reported T s cookie)
  | .alloc | .done _ | .stray => False

/-- The live mappings. -/
def Stage.maps (T : SelfTest) : Stage → List Mapping
  | .alloc | .free _ | .done _ | .stray => []
  | _ => T.mappings

structure Underway (T : SelfTest) (s₀ : State) (m : Testing) (v : View) : Prop where
  sound : Sound T.P s₀ m.chan v
  expects : m.stage.Expects T m.chan m.tmo
  maps : m.maps = m.stage.maps T

structure Finished (T : SelfTest) (s₀ : State) (m : Testing) (err : Int) : Prop where
  stage : m.stage = .done err
  verdict : err = if m.tmo then 0 else -ENODEV
  maps : m.maps = []
  arrived : m.tmo = true → ∀ k < IOAT_TEST_SIZE, runs m.chan.copies T.filled (T.dma_dest + k) = k % 256
  held : m.chan.held = []
  returned : m.returned.Perm m.chan.granted
  nodup : m.chan.granted.Nodup
  stopped : m.chan.engine = .stopped
  timer : m.tmo = true → m.chan.timer = false

variable {stage : Stage} {tmo : Bool} {err cookie : Int}

theorem Stage.Expects.requests (h : stage.Expects T s tmo) : ∀ t ∈ s.submitted, t.req = T.request := by
  have hone : s.submitted = [] ∨ ∃ cookie, s.submitted = [T.tx cookie] := by
    cases stage with
    | alloc => exact h.elim
    | prep => exact .inl h.1
    | submit tx => exact .inl h.1
    | issue cookie => exact .inr ⟨cookie, h.1⟩
    | wait cookie => exact .inr ⟨cookie, h.1⟩
    | status cookie => exact .inr ⟨cookie, h.1.1⟩
    | compare => exact .inr (h.imp fun cookie h => h.1.1)
    | unmap err => exact h.1
    | free err => exact h.1
    | done err => exact h.elim
    | stray => exact h.elim
  intro t ht
  rcases hone with hnil | ⟨cookie, hone⟩
  · rw [hnil] at ht
    cases ht
  · rw [hone, List.mem_singleton] at ht
    rw [ht]
    rfl

/-- Reports may be added, as far as there is something to report. -/
theorem Stage.Expects.mono (h : stage.Expects T s tmo) (hsub : s'.submitted = s.submitted) (hprep : s'.prepared = s.prepared)
    (hrep : s.reports.length ≤ s'.reports.length) (hle : s'.reports.length ≤ s'.submitted.length) : stage.Expects T s' tmo := by
  have hreported : ∀ {cookie : Int}, Reported T s cookie → Reported T s' cookie := by
    rintro cookie ⟨hone, hlen⟩
    rw [hsub, hone, List.length_singleton] at hle
    exact ⟨hsub.trans hone, by omega⟩
  cases stage with
  | alloc => exact h
  | prep => exact ⟨hsub.trans h.1, hprep.trans h.2.1, h.2.2⟩
  | submit tx => exact ⟨hsub.trans h.1, hprep.trans h.2.1, h.2.2⟩
  | issue cookie => exact ⟨hsub.trans h.1, hprep.trans h.2.1, h.2.2⟩
  | wait cookie => exact ⟨hsub.trans h.1, hprep.trans h.2.1, h.2.2⟩
  | status cookie => exact ⟨hreported h.1, hprep.trans h.2.1, h.2.2⟩
  | compare =>
    obtain ⟨cookie, hr, hp, ht⟩ := h
    exact ⟨cookie, hreported hr, hprep.trans hp, ht⟩
  | unmap err => exact ⟨by rw [hsub]; exact h.1, hprep.trans h.2.1, h.2.2.1, fun ht => (h.2.2.2 ht).imp fun _ => hreported⟩
  | free err => exact ⟨by rw [hsub]; exact h.1, hprep.trans h.2.1, h.2.2.1, fun ht => (h.2.2.2 ht).imp fun _ => hreported⟩
  | done err => exact h
  | stray => exact h

/-! ## The steps -/

theorem Underway.at_stage (h : Underway T s₀ m v) (hstage : m.stage = stage) :
    stage.Expects T m.chan m.tmo ∧ m.maps = stage.maps T := by
  rw [← hstage]
  exact ⟨h.expects, h.maps⟩

theorem Underway.not_closed (h : Underway T s₀ m v) : m.stage.closed = false := by
  have hexpects := h.expects
  cases hstage : m.stage with
  | alloc => exact (hstage ▸ hexpects : Stage.Expects T m.chan m.tmo .alloc).elim
  | done err => exact (hstage ▸ hexpects : Stage.Expects T m.chan m.tmo (.done err)).elim
  | stray => exact (hstage ▸ hexpects : Stage.Expects T m.chan m.tmo .stray).elim
  | _ => rfl

theorem Underway.act (h : Underway T s₀ m v) (hs : selfTest T m (.act a) = some m') (ha : Steady s₀ m.chan a) :
    ∃ v', Underway T s₀ m' v' := by
  simp only [selfTest, h.not_closed, Bool.false_eq_true, false_and, if_false] at hs
  split at hs
  · cases hs
  next hg =>
    obtain ⟨n, hn, rfl⟩ := Option.map_eq_some_iff.1 hs
    obtain ⟨chan, hstep, hput⟩ := Option.bind_eq_some_iff.1 hn
    have hclient : a.client = false := Bool.eq_false_iff.2 hg
    obtain ⟨v', hm⟩ := step_moved h.sound.inv hstep
    have hsound := hm.sound h.sound ha
    obtain ⟨hsub, hprep, hrep⟩ := hm.unattended h.sound.inv hclient
    have hnone : newUnmaps m.chan chan = [] := hsound.inv.books.no_unmaps (by rw [hsub]; exact h.expects.requests)
    change (putAll (newUnmaps m.chan chan) m.maps).map _ = _ at hput
    rw [hnone] at hput
    cases hput
    exact ⟨v', hsound, h.expects.mono hsub hprep hrep.length_le hsound.inv.books.reports_length, h.maps⟩

theorem Underway.prep (h : Underway T s₀ m v) {pool : List Phys} (hs : selfTest T m (.prep pool) = some m') :
    ∃ v', Underway T s₀ m' v' := by
  simp only [selfTest] at hs
  split at hs
  next hstage =>
    obtain ⟨chan, hstep, rfl⟩ := Option.map_eq_some_iff.1 hs
    obtain ⟨v', hsound⟩ := h.sound.step hstep (.inr fun hr => by cases hr.1)
    obtain ⟨⟨hsub, hprep, htmo⟩, hmaps⟩ := h.at_stage hstage
    obtain ⟨hsub', -, hprep'⟩ := step_prep h.sound.inv hstep
    rw [hprep] at hprep'
    rw [hsub] at hsub'
    refine ⟨v', ?_⟩
    rcases hprep' with hnone | ⟨tx, hone⟩
    · simp only [hnone]
      exact ⟨hsound, ⟨.inl hsub', hnone, by rw [htmo]; rfl, fun ht => absurd (htmo.symm.trans ht) Bool.false_ne_true⟩, hmaps⟩
    · simp only [hone]
      exact ⟨hsound, ⟨hsub', hone, htmo, rfl⟩, hmaps⟩
  next => cases hs

/-- The next cookie is a cookie. -/
theorem CookieHeader.assign_pos {dma_cookie_status : State → Int → DmaStatus} (hdr : CookieHeader P dma_cookie_status)
    (hmin : DMA_MIN_COOKIE ≤ cookie) (hmax : cookie ≤ DMA_MAX_COOKIE) : 0 ≤ P.dma_cookie_assign cookie := by
  rw [hdr.assign cookie hmin hmax]
  unfold DMA_MIN_COOKIE at *
  split <;> omega

theorem Underway.submit (h : Underway T s₀ m v) (hdr : CookieHeader T.P T.dma_cookie_status)
    (hmin : DMA_MIN_COOKIE ≤ s₀.cookie) (hmax : s₀.cookie ≤ DMA_MAX_COOKIE) (hs : selfTest T m .submit = some m') :
    ∃ v', Underway T s₀ m' v' := by
  simp only [selfTest] at hs
  split at hs
  next tx hstage =>
    obtain ⟨acked, hack, hs⟩ := Option.bind_eq_some_iff.1 hs
    obtain ⟨chan, hstep, rfl⟩ := Option.map_eq_some_iff.1 hs
    obtain ⟨⟨hsub, hprep, htmo, hreq⟩, hmaps⟩ := h.at_stage hstage
    obtain ⟨v₁, hacked⟩ := h.sound.step hack (.inr fun hr => by cases hr.1)
    obtain ⟨v₂, hsound⟩ := hacked.step hstep (.inr fun hr => by cases hr.1)
    obtain rfl := step_ack hack
    obtain ⟨tail, -, -, rfl⟩ := hacked.inv.step_submit hstep
    have hcookie : (afterSubmit T.P (m.chan.async_tx_ack tx.1) tx (some ioat_dma_test_callback) tail).cookie
        = T.P.dma_cookie_assign s₀.cookie := by
      have hfirst : m.chan.cookie = s₀.cookie := by
        rw [h.sound.counted.cookie, hsub]
        rfl
      exact congrArg T.P.dma_cookie_assign hfirst
    have hpos := Int.not_lt.2 (hdr.assign_pos hmin hmax)
    rw [← hcookie] at hpos
    simp only [if_neg hpos]
    refine ⟨v₂, hsound, ⟨?_, ?_, htmo⟩, hmaps⟩
    · show m.chan.submitted ++ [_] = _
      rw [hsub, hreq]
      rfl
    · show m.chan.prepared.erase tx = []
      rw [hprep, List.erase_cons_head]
  next => cases hs

theorem Underway.issue_pending (h : Underway T s₀ m v) (hs : selfTest T m .issue_pending = some m') :
    ∃ v', Underway T s₀ m' v' := by
  simp only [selfTest] at hs
  split at hs
  next cookie hstage =>
    obtain ⟨chan, hstep, rfl⟩ := Option.map_eq_some_iff.1 hs
    obtain ⟨v', hsound⟩ := h.sound.step hstep (.inr fun hr => by cases hr.1)
    obtain ⟨⟨hsub, hprep, htmo⟩, hmaps⟩ := h.at_stage hstage
    have hsame : chan.submitted = m.chan.submitted ∧ chan.prepared = m.chan.prepared := by
      simp only [Ioat.step, ioat1_dma_memcpy_issue_pending] at hstep
      obtain rfl := Option.some.inj hstep
      split <;> exact ⟨rfl, rfl⟩
    exact ⟨v', hsound, ⟨hsame.1.trans hsub, hsame.2.trans hprep, htmo⟩, hmaps⟩
  next => cases hs

theorem Underway.wait (h : Underway T s₀ m v) (hs : selfTest T m .wait = some m') : Underway T s₀ m' v := by
  simp only [selfTest] at hs
  split at hs
  next cookie hstage =>
    split at hs
    · obtain rfl := Option.some.inj hs
      obtain ⟨⟨hsub, hprep, -⟩, hmaps⟩ := h.at_stage hstage
      cases hany : m.chan.reports.any fun r => r.callback = some ioat_dma_test_callback with
      | false =>
        exact ⟨h.sound, ⟨.inr ⟨cookie, hsub⟩, hprep, rfl, fun ht => absurd ht Bool.false_ne_true⟩, hmaps⟩
      | true =>
        have hle := h.sound.inv.books.reports_length
        rw [hsub, List.length_singleton] at hle
        obtain ⟨r, hr, -⟩ := List.any_eq_true.1 hany
        have hpos := List.length_pos_of_mem hr
        exact ⟨h.sound, ⟨⟨hsub, Nat.le_antisymm hle hpos⟩, hprep, rfl⟩, hmaps⟩
    · cases hs
  next => cases hs

/-- The transaction is reported, so the poll succeeds without a clean-up. -/
theorem Sound.tx_status (h : Sound P s₀ s v) {dma_cookie_status : State → Int → DmaStatus}
    (hdr : CookieHeader P dma_cookie_status) (hmin : DMA_MIN_COOKIE ≤ s₀.cookie) (hmax : s₀.cookie ≤ DMA_MAX_COOKIE)
    (hr : Reported T s cookie) (cleanup_lock desc_lock : Bool) :
    ioat_dma_tx_status P dma_cookie_status cleanup_lock desc_lock s cookie = (.DMA_SUCCESS, s) := by
  obtain ⟨hsub, hrep⟩ := hr
  have hstatus : dma_cookie_status s (T.tx cookie).cookie = .DMA_SUCCESS := by
    refine (h.counted.status_iff h.inv.books hdr hmin hmax (i := 0) (by rw [hsub]; rfl) ?_ ?_).2 (by omega)
    · rw [hsub]
      exact (show 1 ≤ 0 + COOKIES by decide)
    · rw [hsub, hrep]
      exact (show 1 < 1 + COOKIES by decide)
  change dma_cookie_status s cookie = .DMA_SUCCESS at hstatus
  rw [ioat_dma_tx_status, if_pos hstatus, hstatus]

theorem Underway.status (h : Underway T s₀ m v) (hdr : CookieHeader T.P T.dma_cookie_status)
    (hmin : DMA_MIN_COOKIE ≤ s₀.cookie) (hmax : s₀.cookie ≤ DMA_MAX_COOKIE) {cleanup_lock desc_lock : Bool}
    (hs : selfTest T m (.status cleanup_lock desc_lock) = some m') : Underway T s₀ m' v := by
  simp only [selfTest] at hs
  split at hs
  next cookie hstage =>
    obtain ⟨⟨hreported, hprep, htmo⟩, hmaps⟩ := h.at_stage hstage
    split at hs
    · rw [h.sound.tx_status hdr hmin hmax hreported] at hs
      have hnone : newUnmaps m.chan m.chan = [] := by
        rw [newUnmaps, List.drop_length]
        rfl
      simp only [hnone] at hs
      cases hs
      exact ⟨h.sound, ⟨cookie, hreported, hprep, htmo⟩, hmaps⟩
    · cases hs
  next => cases hs

/-- The buffers do not differ. -/
theorem Underway.compare (h : Underway T s₀ m v) (hapart : T.request.Apart) (hs : selfTest T m .compare = some m') :
    Underway T s₀ m' v := by
  simp only [selfTest] at hs
  split at hs
  next hstage =>
    obtain rfl := Option.some.inj hs
    obtain ⟨⟨cookie, hreported, hprep, htmo⟩, hmaps⟩ := h.at_stage hstage
    have hsame : T.memcmp m.chan.copies = false := by
      rw [SelfTest.memcmp, decide_eq_false_iff_not]
      rintro ⟨k, hk, hne⟩
      obtain ⟨hdest, hsrc⟩ := h.sound.arrived hreported.1 rfl hreported.2 hapart hk
      exact hne (hsrc.trans hdest.symm)
    simp only [hsame]
    exact ⟨h.sound, ⟨.inr ⟨cookie, hreported.1⟩, hprep, by rw [htmo]; rfl, fun _ => ⟨cookie, hreported⟩⟩, hmaps⟩
  next => cases hs

theorem Underway.unmap (h : Underway T s₀ m v) (hs : selfTest T m .unmap = some m') : Underway T s₀ m' v := by
  simp only [selfTest] at hs
  split at hs
  next err hstage =>
    obtain ⟨hexpects, hmaps⟩ := h.at_stage hstage
    have hall : m.maps.Perm (T.mappings ++ []) := .of_eq (hmaps.trans (List.append_nil _).symm)
    obtain ⟨maps, hput, hperm⟩ := putAll_perm hall
    rw [hput] at hs
    obtain rfl := Option.some.inj hs
    exact ⟨h.sound, hexpects, hperm.eq_nil⟩
  next => cases hs

theorem Sound.flags (h : Sound P s₀ s v) (completion_ack timer : Bool) :
    Sound P s₀ { s with completion_ack := completion_ack, timer := timer } v := by
  obtain ⟨c, x, hpl⟩ := h.inv.placed
  refine ⟨⟨{ h.inv.lists with }, { h.inv.books with }, c, x, { hpl with }⟩, { h.counted with }, { h.pieces with },
    { h.holding with }, { h.grown with }, h.carried.imp id fun hc => ?_⟩
  obtain ⟨y, hy⟩ := hc
  exact ⟨y, { hy with }⟩

/-- The clean-up by itself. -/
theorem Sound.cleanup (h : Sound P s₀ s v) (hl : s.cleanup_lock = none) :
    ∃ v', Sound P s₀ (ioat1_cleanup P s) v' ∧ (ioat1_cleanup P s).submitted = s.submitted ∧
      (ioat1_cleanup P s).copies = s.copies := by
  have htry : tryCleanup P true true s = ioat1_cleanup P s := by
    simp [tryCleanup, ioat1_cleanup]
  rw [← htry]
  obtain ⟨v', -, h⟩ := tryCleanup_rule (P := P)
    (I := fun s' v' => Sound P s₀ s' v' ∧ s'.submitted = s.submitted ∧ s'.copies = s.copies)
    (fun s' v' h => ⟨h.1.flags false true, h.2⟩)
    (fun s' v' t w hi h hm => by
      obtain ⟨hs, hsub, hcopies⟩ := h
      obtain ⟨hsame, hcop, -⟩ := hm.cleaned hi
      exact ⟨hm.sound hs (.inr fun hr => by cases hr.1), hsame.trans hsub, hcop.trans hcopies⟩)
    h.inv ⟨h, rfl, rfl⟩ (fun _ => hl) true
  exact ⟨v', h⟩

/-- With the transaction reported, closing the channel has nothing to clean up. -/
theorem Sound.cleanup_idle (h : Sound P s₀ s v) (hr : Reported T s cookie) :
    ioat1_cleanup P { s with timer := false } = { s with timer := false } := by
  obtain ⟨hsub, hrep⟩ := hr
  obtain ⟨c, x, hpl⟩ := h.inv.placed
  exact if_pos (h.inv.place_last h.pieces (by rw [hrep, hsub]; rfl) (by rw [hsub]; rfl) hpl.completion)

theorem Underway.free (h : Underway T s₀ m v) (hcount : s₀.desccount ≠ 0) (hapart : T.request.Apart)
    (hs : selfTest T m .free = some m') : ∃ err, Finished T s₀ m' err := by
  simp only [selfTest] at hs
  split at hs
  next err hstage =>
    obtain ⟨⟨-, hprep, hverdict, hreported⟩, hmaps⟩ := h.at_stage hstage
    split at hs
    next hlock =>
      have htimer : Sound T.P s₀ { m.chan with timer := false } v := h.sound.flags m.chan.completion_ack false
      obtain ⟨v', hsound, hsub, hcopies⟩ := htimer.cleanup hlock
      obtain ⟨-, -, hprep'⟩ := htimer.inv.cleanup_held T.P
      rw [ioat1_dma_free_chan_resources, if_neg (h.sound.holding.desccount ▸ hcount)] at hs
      dsimp only at hs
      have htimer_off : ∀ {cookie : Int}, Reported T m.chan cookie →
          (ioat1_cleanup T.P { m.chan with timer := false }).timer = false := fun hr => by rw [h.sound.cleanup_idle hr]
      generalize ioat1_cleanup T.P { m.chan with timer := false } = t at hs hsound hsub hcopies hprep' htimer_off
      -- the request of the self-test has no mapping that a clean-up would undo
      have hnone : newUnmaps m.chan t = [] := by
        refine hsound.inv.books.no_unmaps (T := T) fun tx htx => ?_
        rw [hsub] at htx
        exact h.expects.requests tx htx
      change (putAll (newUnmaps m.chan t) m.maps).map _ = _ at hs
      rw [hnone] at hs
      obtain rfl := Option.some.inj hs
      have hchains : (t.prepared.flatMap fun r => (t.desc r.1).tx_list) = [] := by
        rw [hprep']
        exact congrArg (List.flatMap _) hprep
      have hheld := hsound.holding.held
      -- no request is being prepared, so the two lists hold all that was granted
      have hall : (t.used_desc ++ t.free_desc).Perm t.granted := by
        refine List.Perm.trans ?_ hheld
        rw [State.held, hchains, List.append_nil]
        exact List.perm_append_comm
      have hnodup := hheld.nodup_iff.1 hsound.inv.lists.nodup
      refine ⟨err, rfl, hverdict, hmaps, fun htmo k hk => ?_, hchains, hall, hnodup, rfl, fun htmo => ?_⟩
      · obtain ⟨cookie, hr⟩ := hreported htmo
        show runs t.copies T.filled _ = _
        rw [hcopies]
        exact (h.sound.arrived hr.1 rfl hr.2 hapart hk).1
      · obtain ⟨cookie, hr⟩ := hreported htmo
        exact htimer_off hr
    · cases hs
  next => cases hs

theorem Finished.stopped_step (h : Finished T s₀ m err) (ha : a.device = true) : step P m.chan a = none := by
  cases a with
  | finish reread => simp [Ioat.step, Ioat.finish, h.stopped]
  | lookForMore => simp [Ioat.step, Ioat.lookForMore, h.stopped]
  | halt => simp [Ioat.step, Ioat.halt, h.stopped]
  | _ => cases ha

/-- The self-test is over, but for a timer that is still set. -/
theorem Finished.after (h : Finished T s₀ m err) {c : TestStep} (hs : selfTest T m c = some m') :
    m'.stage = .stray ∧ m.chan.timer = true := by
  cases c with
  | act a =>
    simp only [selfTest, h.stage, Stage.closed, true_and] at hs
    split at hs
    · cases hs
    split at hs
    · split at hs
      next htimer =>
        cases hs
        exact ⟨rfl, htimer.2⟩
      next => cases hs
    next hdev =>
      have ha : a.device = true := by simpa using hdev
      rw [unmapping, h.stopped_step ha] at hs
      cases hs
  | _ => simp [selfTest, h.stage] at hs

/-- Nothing is known any more. -/
theorem stray_step (h : m.stage = .stray) {c : TestStep} (hs : selfTest T m c = some m') : m'.stage = .stray := by
  cases c with
  | act a =>
    simp only [selfTest] at hs
    split at hs
    · cases hs
    split at hs
    · split at hs
      · cases hs
        rfl
      · cases hs
    · obtain ⟨n, -, rfl⟩ := Option.map_eq_some_iff.1 hs
      exact h
  | _ => simp [selfTest, h] at hs

/-- A step that does not restart the channel, unless the buffer is one piece. -/
def SteadyStep (xfercap : Nat) (m : Testing) (c : TestStep) : Prop :=
  IOAT_TEST_SIZE ≤ xfercap ∨ (c = .act .timer → m.chan.reset_pending = false)

theorem Underway.step (h : Underway T s₀ m v) (hdr : CookieHeader T.P T.dma_cookie_status)
    (hmin : DMA_MIN_COOKIE ≤ s₀.cookie) (hmax : s₀.cookie ≤ DMA_MAX_COOKIE) (hcount : s₀.desccount ≠ 0)
    (hapart : T.request.Apart) {c : TestStep} (hc : SteadyStep s₀.xfercap m c) (hs : selfTest T m c = some m') :
    (∃ v', Underway T s₀ m' v') ∨ ∃ err, Finished T s₀ m' err := by
  cases c with
  | alloc pool extra =>
    simp only [selfTest] at hs
    split at hs
    next hstage => exact (h.at_stage hstage).1.elim
    next => cases hs
  | prep pool => exact .inl (h.prep hs)
  | submit => exact .inl (h.submit hdr hmin hmax hs)
  | issue_pending => exact .inl (h.issue_pending hs)
  | wait => exact .inl ⟨v, h.wait hs⟩
  | status cleanup_lock desc_lock => exact .inl ⟨v, h.status hdr hmin hmax hs⟩
  | compare => exact .inl ⟨v, h.compare hapart hs⟩
  | unmap => exact .inl ⟨v, h.unmap hs⟩
  | free => exact .inr (h.free hcount hapart hs)
  | act a =>
    refine .inl (h.act hs (hc.imp id fun hsteady hr => ?_))
    obtain ⟨rfl, hpending⟩ := hr
    exact absurd ((hsteady rfl).symm.trans hpending) Bool.false_ne_true

/-- A channel that was given a descriptor is started. -/
theorem alloc_opened {xfercap_scale n : Nat} {pool extra : List Phys} (hnd : (pool ++ extra).Nodup) (h0 : 0 ∉ pool ++ extra)
    (hcount : 1 ≤ (ioat1_dma_alloc_chan_resources n (enumerated xfercap_scale cookie) pool extra).2) :
    let s := (ioat1_dma_alloc_chan_resources n (enumerated xfercap_scale cookie) pool extra).1
    Opened s ∧ s.desccount ≠ 0 ∧ s.cookie = cookie ∧ s.xfercap = expandXfercap xfercap_scale := by
  intro s
  have heq := alloc_eq xfercap_scale cookie n pool extra
  have hs : s = ioat1_dma_start_null_desc { enumerated xfercap_scale cookie with
      desccount := (pool.take n).length % 2 ^ 16, free_desc := pool.take n, granted := pool.take n } extra := congrArg Prod.fst heq
  rw [heq] at hcount
  rcases htake : pool.take n with _ | ⟨p, ps⟩
  · rw [htake] at hcount
    have hnone : 1 ≤ 0 := by
      cases extra <;> exact hcount
    exact absurd hnone (by decide)
  · rw [htake] at hs hcount
    refine ⟨⟨xfercap_scale, cookie, n, pool, extra, hnd, h0, rfl, ?_⟩, ?_, ?_, ?_⟩
    · show s.used_desc ≠ []
      rw [hs]
      exact List.cons_ne_nil _ _
    · rw [hs]
      exact Nat.ne_of_gt hcount
    · rw [hs]
      rfl
    · rw [hs]
      rfl

/-! ## The verdict -/

theorem probed_alloc {xfercap_scale : Nat} {pool extra : List Phys}
    (hcount : 1 ≤ (ioat1_dma_alloc_chan_resources T.ioat_initial_desc_count (enumerated xfercap_scale cookie) pool extra).2) :
    selfTest T (probed xfercap_scale cookie) (.alloc pool extra) = some ⟨⟨(ioat1_dma_alloc_chan_resources
      T.ioat_initial_desc_count (enumerated xfercap_scale cookie) pool extra).1, T.mappings ++ []⟩, .prep, false, []⟩ :=
  congrArg some (if_neg (Nat.not_lt.2 hcount))

/-- Every self-test that gets its descriptors and ends gives back all it took and leaves the device stopped. It passes exactly
when it saw the completion in time; the bytes have arrived then, and nothing happens on the channel any more. -/
theorem self_test_verdict (hdr : CookieHeader T.P T.dma_cookie_status) (hmin : DMA_MIN_COOKIE ≤ cookie)
    (hmax : cookie ≤ DMA_MAX_COOKIE) {xfercap_scale : Nat} {pool extra : List Phys} (hnd : (pool ++ extra).Nodup)
    (h0 : 0 ∉ pool ++ extra)
    (hcount : 1 ≤ (ioat1_dma_alloc_chan_resources T.ioat_initial_desc_count (enumerated xfercap_scale cookie) pool extra).2)
    (hapart : T.request.Apart) {cs : List TestStep}
    (hsteady : along (selfTest T) (SteadyStep (expandXfercap xfercap_scale)) (probed xfercap_scale cookie)
      (.alloc pool extra :: cs))
    (hs : exec (selfTest T) (probed xfercap_scale cookie) (.alloc pool extra :: cs) = some m) (hdone : m.stage = .done err) :
    err = (if m.tmo then 0 else -ENODEV) ∧ m.maps = [] ∧
    (m.tmo = true → ∀ k < IOAT_TEST_SIZE, runs m.chan.copies T.filled (T.dma_dest + k) = k % 256) ∧
    m.chan.held = [] ∧ m.returned.Perm m.chan.granted ∧ m.chan.granted.Nodup ∧
    (∀ a, a.device = true → step T.P m.chan a = none) ∧ (m.tmo = true → ∀ c, selfTest T m c = none) := by
  obtain ⟨hopen, hdesc, hcookie, hcap⟩ := alloc_opened hnd h0 hcount
  obtain ⟨m₁, hfirst, hrest⟩ := exec_cons.1 hs
  have hafter := hsteady.2 m₁ hfirst
  rw [probed_alloc hcount] at hfirst
  obtain rfl := Option.some.inj hfirst
  generalize (ioat1_dma_alloc_chan_resources T.ioat_initial_desc_count (enumerated xfercap_scale cookie) pool extra).1 = s₀ at *
  obtain ⟨p, hf⟩ := hopen.fresh
  rw [← hcookie] at hmin hmax
  rw [← hcap] at hafter
  have hstart : Underway T s₀ ⟨⟨s₀, T.mappings ++ []⟩, .prep, false, []⟩ ⟨[], [p], []⟩ :=
    ⟨hf.sound hopen.holding, ⟨hf.submitted, hf.prepared, rfl⟩, List.append_nil _⟩
  have hend := exec_inv_along (fun m => (∃ v, Underway T s₀ m v) ∨ (∃ err, Finished T s₀ m err) ∨ m.stage = .stray)
    (fun m c m' h hc hs => by
      rcases h with ⟨v, h⟩ | ⟨err, h⟩ | h
      · exact (h.step hdr hmin hmax hdesc hapart hc hs).imp_right .inl
      · exact .inr (.inr (h.after hs).1)
      · exact .inr (.inr (stray_step h hs)))
    (.inl ⟨_, hstart⟩) hafter hrest
  rcases hend with ⟨v, h⟩ | ⟨err', h⟩ | h
  · exact (h.at_stage hdone).1.elim
  · obtain rfl : err' = err := Stage.done.inj (h.stage.symm.trans hdone)
    refine ⟨h.verdict, h.maps, h.arrived, h.held, h.returned, h.nodup, fun a ha => h.stopped_step ha, fun htmo c => ?_⟩
    rcases hstep : selfTest T m c with _ | m'
    · rfl
    · exact absurd ((h.timer htmo).symm.trans (h.after hstep).2) Bool.false_ne_true
  · exact nomatch h.symm.trans hdone

def sampleTest : SelfTest := ⟨sampleParams, sampleStatus, 3, 10000, 20000, fun _ => 7⟩

/-- The device finishes the null descriptor and the copy. -/
def sampleTestRun : List TestStep :=
  [.prep [], .submit, .issue_pending, .act .issue, .act (.finish true), .act (.finish true), .act .cleanup_begin,
    .act (.cleanup_end true), .wait, .status true true, .compare, .unmap, .free]

theorem self_test_verdict_sample : ∃ m,
    exec (selfTest sampleTest) (probed 0 1) (.alloc [64, 128, 192] [] :: sampleTestRun) = some m ∧ m.stage = .done 0 ∧
    (0 : Int) = (if m.tmo then 0 else -ENODEV) ∧ m.maps = [] ∧
    (m.tmo = true → ∀ k < IOAT_TEST_SIZE, runs m.chan.copies sampleTest.filled (sampleTest.dma_dest + k) = k % 256) ∧
    m.chan.held = [] ∧ m.returned.Perm m.chan.granted ∧ m.chan.granted.Nodup ∧
    (∀ a, a.device = true → step sampleTest.P m.chan a = none) ∧ (m.tmo = true → ∀ c, selfTest sampleTest m c = none) := by
  have hends : (exec (selfTest sampleTest) (probed 0 1) (.alloc [64, 128, 192] [] :: sampleTestRun)).map (·.stage)
      = some (.done 0) := by decide +kernel
  obtain ⟨m, hm, hstage⟩ := Option.map_eq_some_iff.1 hends
  exact ⟨m, hm, hstage, self_test_verdict sampleHeader (by decide) (by decide) (by decide) (by decide) (by decide)
    (.inl (by decide)) (along_of_mem fun _ _ _ => .inl (by decide)) hm hstage⟩

/-- The wait times out, and the device is done with the copy only before the last clean-up: the timer is set when the channel is
closed, and its handler runs. -/
example : (exec (selfTest sampleTest) (probed 0 1) [.alloc [64, 128, 192] [], .prep [], .submit, .issue_pending, .act .issue, .wait,
    .act (.finish true), .act (.finish true), .unmap, .free, .act .timer]).map (·.stage) = some .stray := by decide +kernel

end Dmacftu.Ioat
