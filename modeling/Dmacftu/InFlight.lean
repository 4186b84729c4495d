import Dmacftu.Cache
/-!
# Pages released under descriptors in flight

The boot-time copies and the Cache benchmark release a request's pages as soon as
the wait for its last descriptor ends, and the wait ends at its timeout too.
`pages_held_iff` says when no page is released before the descriptors that name
it are completed: exactly if the poll that ends the wait finds the last one done.
-/
open Lib.CInt Lib.CopyEngine

namespace Dmacftu

/-- No page is released while a descriptor that reads or writes it is not yet
completed; `eng` is the channel at the release, which comes last. -/
def InTime (log : List Event) (eng : Engine UInt8) : Prop :=
  ∀ id ps dirty dir id' live e, .released id ps dirty ∈ log → .submitted dir id' live e ∈ log → e.page ∈ ps →
    e.cookie ≤ (eng.done : Int)

/-- The poll that ends the wait finds the last descriptor completed. -/
def Direction.Completes (dir : Direction) (env : DmaEnv) (fuel : Nat) (req_cpy_local : RequestCopy) (hw : Hw) : Prop :=
  ∀ cookie left hw₁ i, dir.chunks env fuel req_cpy_local hw = some (cookie, left, hw₁) →
    env.EndsAt cookie hw₁.eng i → cookie ≤ ((env.seen hw₁.eng i).done : Int)

/-- The request is pinned, with at least a page. -/
def PinEnv.Pins (env : PinEnv) (mm : Mm) (req_cp : RequestCopy) (write : Int) : Prop :=
  (dma_pin_user_pages env mm req_cp write 0).1 = .PIN_SUCCESSFUL ∧ 0 < nr_pages_of req_cp.user_base req_cp.len

/-! ## A pinned request -/

section

variable {env : DmaEnv} {dir : Direction} {fuel : Nat} {req_cpy_local : RequestCopy} {hw : Hw}

/-- Neither a descriptor nor a release. -/
def Event.Idle : Event → Prop
  | .submitted .. => False
  | .released .. => False
  | _ => True

open Session in
/-- The copy of a pinned request and its unpin. -/
theorem pinned_inTime {penv : PinEnv} (hpin : req_cpy_local.PinnedBy penv)
    (hb : req_cpy_local.user_base < 2 ^ 64) (hk : req_cpy_local.kernel_base < 2 ^ 64) (hl : req_cpy_local.len < 2 ^ 64)
    (hpos : 0 < req_cpy_local.len) {r : Int × RequestCopy × Hw} (h : dir.pinned env fuel req_cpy_local hw = some r)
    (mm : Mm) {log : List Event} (log' : List Event) (hlog : ∀ ev ∈ log, ev.Idle) (hlog' : ∀ ev ∈ log', ev.Idle) (dirty : Int) :
    InTime (log ++ submitEvents mm dir env fuel req_cpy_local hw ++ log' ++ unpinEvents r.2.1 dirty) r.2.2.eng ↔
      (0 < req_cpy_local.nr_pages → dir.Completes env fuel req_cpy_local hw) := by
  obtain ⟨cookie, hw₁, status, hw₂, hc, hwait, rfl⟩ := Direction.pinned_spec h
  obtain ⟨-, hle, last, hlast, hcookie⟩ := chunks_spec hc
  obtain ⟨i, hi, -, heng⟩ := sync_wait_spec hwait
  obtain ⟨a, ha, -⟩ := hpin.pages
  have hcomplete : dir.Completes env fuel req_cpy_local hw ↔ cookie ≤ (hw₂.eng.done : Int) := by
    constructor
    · intro h
      exact heng ▸ h cookie 0 hw₁ i hc hi
    · intro h c l hw' j hc' hj
      cases hc.symm.trans hc'
      exact hi.unique hj ▸ heng ▸ h
  rw [hcomplete]
  constructor
  · intro h h0
    have hpage := subs_released hpin (chunks_len hc) hb hk hl hpos h0 last hlast
    refine hcookie ▸ h a.id req_cpy_local.releases dirty dir a.id (decide (a.id ∉ mm.freed)) last ?_ ?_ hpage
    · exact List.mem_append_right _ (mem_unpinEvents.2 ⟨a, ha, rfl⟩)
    · apply List.mem_append_left
      apply List.mem_append_left
      exact List.mem_append_right _ (mem_submitEvents.2 ⟨a, ha, last, hlast, rfl⟩)
  · intro h i ps dirty' dir' i' live e hr hs he
    simp only [List.mem_append, mem_submitEvents, mem_unpinEvents] at hr hs
    obtain rfl : ps = req_cpy_local.releases := by
      rcases hr with ((hr | ⟨_, -, _, -, hr⟩) | hr) | ⟨_, -, hr⟩
      · exact absurd (hlog _ hr) id
      · cases hr
      · exact absurd (hlog' _ hr) id
      · cases hr
        rfl
    have hsub : e ∈ dir.subs env fuel req_cpy_local hw := by
      rcases hs with ((hs | ⟨_, -, _, hs, he⟩) | hs) | ⟨_, -, hs⟩
      · exact absurd (hlog _ hs) id
      · cases he
        exact hs
      · exact absurd (hlog' _ hs) id
      · cases hs
    -- the engine works in order: the last descriptor's completion is everyone's
    have h0 : 0 < req_cpy_local.nr_pages := by
      by_contra hn
      have hz : req_cpy_local.nr_pages.toNat = 0 := by omega
      simp [RequestCopy.releases, ha, hz] at he
    exact Int.le_trans (hle e hsub) (h h0)

end

/-- Without a descriptor there is nothing to wait for. -/
theorem inTime_of_not_submitted {log : List Event} {eng : Engine UInt8}
    (h : ∀ dir id live e, .submitted dir id live e ∉ log) : InTime log eng := by
  intro id ps dirty dir id' live e hr hs
  exact absurd hs (h dir id' live e)

/-! ## The boot-time copies -/

open Session in
theorem copyUser_inTime {write dirty : Int} {kernelCopy : CopyFn} {dir : Direction} {env : DmaEnv} {fuel : Nat}
    {req_cpy_local : RequestCopy} {hw : Hw} {mm : Mm} {r : Int × RequestCopy × Hw × Session}
    (hb : req_cpy_local.user_base < 2 ^ 64) (hk : req_cpy_local.kernel_base < 2 ^ 64) (hl : req_cpy_local.len < 2 ^ 64)
    (h : Session.copyUser write kernelCopy dir dirty env fuel req_cpy_local hw ⟨mm, []⟩ = some r) :
    InTime r.2.2.2.log r.2.2.1.eng ↔
      (0 < req_cpy_local.len → env.chan ≠ none → env.pin.Pins mm { req_cpy_local with chan := env.chan } write →
        dir.Completes env fuel (dma_pin_user_pages env.pin mm { req_cpy_local with chan := env.chan } write 0).2.1 hw) := by
  rcases copyUser_cases h rfl with ⟨hno, hlog⟩ | ⟨hfail, hlog⟩ | ⟨hpos, hchan, hres, r', hr', heng, hlog⟩
  · rw [hlog]
    exact iff_of_true (inTime_of_not_submitted (by simp)) fun hpos hchan => absurd ⟨hpos, hchan⟩ hno
  · rw [hlog]
    exact iff_of_true (inTime_of_not_submitted fun _ _ _ _ => submitted_not_mem_pinEvents) fun _ _ hp =>
      absurd hp.1 hfail
  · obtain ⟨entry, hpin, hby⟩ := pin_taken hres
    rw [hlog, heng]
    simp only [hpos, ne_eq, hchan, not_false_eq_true, true_implies, PinEnv.Pins, hres, true_and]
    rw [hpin] at hr' ⊢
    have hidle : ∀ ev ∈ pinEvents write .PIN_SUCCESSFUL (allocated mm { req_cpy_local with chan := env.chan } entry),
        ev.Idle := by
      intro ev hev
      obtain ⟨_, -, rfl⟩ := mem_pinEvents_successful.1 hev
      trivial
    have h := fun mm => pinned_inTime hby hb hk hl hpos hr' mm [] hidle (by simp) dirty
    simp only [List.append_nil] at h
    exact h _

/-! ## The Cache benchmark -/

namespace Cache

open Session

variable {c : Caller} {cpu : Cpu} {env : DmaEnv} {fuel : Nat} {b_data : BenchmarkData} {buf len : Nat} {hw : Hw}
  {mm : Mm}

/-- The request of a transfer, as its pin leaves it. -/
def pinned (env : DmaEnv) (mm : Mm) (write : Int) (buf tmp_buf len : Nat) : RequestCopy :=
  (dma_pin_user_pages env.pin mm (init_req_copy buf tmp_buf len) write 0).2.1

theorem transfer_inTime {type : Nat} {p : PolicyCopy} {write dirty : Int} {pure : Hw → Nat × Hw} {tmp_buf : Nat}
    (hb : buf < 2 ^ 64) (hk : tmp_buf < 2 ^ 64) (hl : len < 2 ^ 64) (hpos : 0 < len) {r : Int × Hw × Session}
    (h : transfer type p write dirty pure env fuel buf tmp_buf len hw ⟨mm, []⟩ = some r) :
    InTime r.2.2.log r.2.1.eng ↔
      (type = DMA_MEASURE → p.chan ≠ none → env.pin.Pins mm (init_req_copy buf tmp_buf len) write →
        p.dir.Completes env fuel { pinned env mm write buf tmp_buf len with chan := p.chan } hw) := by
  rcases transfer_cases h rfl with ⟨hno, hlog, -⟩ | ⟨hdma, hres, r', hrun, -, heng, hlog⟩
  · exact iff_of_true (inTime_of_not_submitted hlog) fun hdma _ hp => absurd ⟨hdma, hp.1⟩ hno
  · obtain ⟨entry, hpin, hby⟩ := pin_taken hres
    rw [hlog, heng]
    simp only [hdma, true_implies, pinned, PinEnv.Pins, hres, true_and]
    rw [hpin] at hrun ⊢
    rcases PolicyCopy.run_cases hrun with ⟨h0, -⟩ | ⟨-, hchan, rfl⟩ | ⟨-, hchan, -, hrun⟩
    · exact absurd (show len = 0 from h0) (by omega)
    · refine iff_of_true (inTime_of_not_submitted fun dir id live e he => ?_) fun hne => absurd hchan hne
      simp [copyEvents, hchan, mem_unpinEvents, mem_pinEvents_successful] at he
    · have hidle : ∀ ev ∈ pinEvents write .PIN_SUCCESSFUL (allocated mm (init_req_copy buf tmp_buf len) entry),
          ev.Idle := by
        intro ev hev
        obtain ⟨_, -, rfl⟩ := mem_pinEvents_successful.1 hev
        trivial
      have hby' : RequestCopy.PinnedBy
          { allocated mm (init_req_copy buf tmp_buf len) entry with chan := p.chan } env.pin :=
        ⟨hby.nr_pages, hby.pages⟩
      have h := fun m => pinned_inTime hby' hb hk hl hpos hrun m [.returned r'.1 r'.2.1.status] hidle
        (by simp [Event.Idle]) dirty
      have hcopies : (allocated mm (init_req_copy buf tmp_buf len) entry).len > 0 ∧ p.chan ≠ none := ⟨hpos, hchan⟩
      simp only [copyEvents, if_pos hcopies, ← List.append_assoc]
      exact (h _).trans ⟨fun hc _ => hc, fun hc => hc hchan⟩

/-- The check of the arguments and the slot, before a transfer. -/
theorem driverOp_inTime {counter : Nat} {op : Nat → Hw → Session → Option (Int × Hw × Session)}
    {Q : Nat → Prop} (hop : ∀ tmp_buf r, tmp_buf < 2 ^ 64 → 0 < len → op tmp_buf hw ⟨mm, []⟩ = some r →
      (InTime r.2.2.log r.2.1.eng ↔ Q tmp_buf)) {r : Int × Hw × Session}
    (h : driverOp b_data counter buf len op hw ⟨mm, []⟩ = some r) :
    InTime r.2.2.log r.2.1.eng ↔ (buf ≠ 0 → len ≤ b_data.kernel_size → ∀ i, mem_index counter b_data.kernel_size len =
      some i → Q (u64 (b_data.kernel_buf + i * len))) := by
  rcases driverOp_cases h with ⟨hargs, -, hs⟩ | ⟨hbuf, hpos, hlen, i, hi, h⟩
  · rw [hs]
    exact iff_of_true (inTime_of_not_submitted (by simp)) fun hbuf hlen => absurd ⟨hbuf, hlen⟩ hargs
  · have hlt : u64 (b_data.kernel_buf + i * len) < 2 ^ 64 := by
      unfold u64
      omega
    rw [hop _ r hlt hpos h]
    constructor
    · intro hq _ _ j hj
      cases hi.symm.trans hj
      exact hq
    · intro hq
      exact hq hbuf hlen i hi

/-- What must hold of a transfer: its request, if it is pinned and a channel is
found, completes before the wait ends. -/
def Completes (p : PolicyCopy) (write : Int) (counter : Nat) (env : DmaEnv) (fuel : Nat) (b_data : BenchmarkData)
    (buf len : Nat) (hw : Hw) (mm : Mm) : Prop :=
  buf ≠ 0 → len ≤ b_data.kernel_size → ∀ i, mem_index counter b_data.kernel_size len = some i →
    b_data.type = DMA_MEASURE → p.chan ≠ none →
    env.pin.Pins mm (init_req_copy buf (u64 (b_data.kernel_buf + i * len)) len) write →
    p.dir.Completes env fuel
      { pinned env mm write buf (u64 (b_data.kernel_buf + i * len)) len with chan := p.chan } hw

theorem write_inTime (hb : buf < 2 ^ 64) (hl : len < 2 ^ 64) {r : Int × BenchmarkData × Hw × Session}
    (h : benchmark_driver_write c cpu env fuel b_data buf len hw ⟨mm, []⟩ = some r) :
    InTime r.2.2.2.log r.2.2.1.eng ↔
      Completes c.dma_copy_from_user_sh 1 b_data.counter_op_write env fuel b_data buf len hw mm := by
  obtain ⟨r', hr', rfl⟩ := Option.map_eq_some_iff.1 h
  exact driverOp_inTime (fun tmp_buf r hk hpos hr => transfer_inTime hb hk hl hpos hr) hr'

theorem read_inTime (hb : buf < 2 ^ 64) (hl : len < 2 ^ 64) {r : Int × BenchmarkData × Hw × Session}
    (h : benchmark_driver_read c cpu env fuel b_data buf len hw ⟨mm, []⟩ = some r) :
    InTime r.2.2.2.log r.2.2.1.eng ↔
      Completes c.dma_copy_to_user_sh 0 b_data.counter_op_read env fuel b_data buf len hw mm := by
  obtain ⟨r', hr', rfl⟩ := Option.map_eq_some_iff.1 h
  exact driverOp_inTime (fun tmp_buf r hk hpos hr => transfer_inTime hb hk hl hpos hr) hr'

end Cache

/-! ## The four callers -/

/-- What must hold of a boot-time copy: its request, if there is a channel and it
is pinned, completes before the wait ends. -/
def BootCompletes (write : Int) (dir : Direction) (env : DmaEnv) (fuel : Nat) (req_cpy_local : RequestCopy) (hw : Hw)
    (mm : Mm) : Prop :=
  0 < req_cpy_local.len → env.chan ≠ none → env.pin.Pins mm { req_cpy_local with chan := env.chan } write →
    dir.Completes env fuel (dma_pin_user_pages env.pin mm { req_cpy_local with chan := env.chan } write 0).2.1 hw

/-- No page is released under a descriptor in flight exactly if the poll that ends
the wait finds the request's last descriptor completed. -/
theorem pages_held_iff (env : DmaEnv) (fuel : Nat) (req_cpy_local : RequestCopy) (hw : Hw) (mm : Mm) (c : Caller)
    (cpu : Cpu) (b_data : Cache.BenchmarkData) (buf len : Nat)
    (hreq : req_cpy_local.user_base < 2 ^ 64 ∧ req_cpy_local.kernel_base < 2 ^ 64 ∧ req_cpy_local.len < 2 ^ 64)
    (hbuf : buf < 2 ^ 64) (hlen : len < 2 ^ 64) :
    (∀ r, Session.dma_copy_to_user env fuel req_cpy_local hw ⟨mm, []⟩ = some r →
      (InTime r.2.2.2.log r.2.2.1.eng ↔ BootCompletes PIN_WRITE .to_user env fuel req_cpy_local hw mm)) ∧
    (∀ r, Session.dma_copy_from_user env fuel req_cpy_local hw ⟨mm, []⟩ = some r →
      (InTime r.2.2.2.log r.2.2.1.eng ↔ BootCompletes PIN_READ .from_user env fuel req_cpy_local hw mm)) ∧
    (∀ r, Cache.benchmark_driver_write c cpu env fuel b_data buf len hw ⟨mm, []⟩ = some r →
      (InTime r.2.2.2.log r.2.2.1.eng ↔
        Cache.Completes c.dma_copy_from_user_sh 1 b_data.counter_op_write env fuel b_data buf len hw mm)) ∧
    (∀ r, Cache.benchmark_driver_read c cpu env fuel b_data buf len hw ⟨mm, []⟩ = some r →
      (InTime r.2.2.2.log r.2.2.1.eng ↔
        Cache.Completes c.dma_copy_to_user_sh 0 b_data.counter_op_read env fuel b_data buf len hw mm)) := by
  obtain ⟨hb, hk, hl⟩ := hreq
  exact ⟨fun _ h => copyUser_inTime hb hk hl h, fun _ h => copyUser_inTime hb hk hl h,
    fun _ h => Cache.write_inTime hbuf hlen h, fun _ h => Cache.read_inTime hbuf hlen h⟩

def sampleCache : Cache.BenchmarkData := ⟨4096, sampleBuf, 0, 0, Cache.DMA_MEASURE⟩

theorem pages_held_iff_prompt : ∃ r, Session.dma_copy_to_user promptEnv 2 (init_req_copy 4096 sampleBuf 8)
    bootSt.hw ⟨bootMm, []⟩ = some r ∧ (InTime r.2.2.2.log r.2.2.1.eng ↔
      BootCompletes PIN_WRITE .to_user promptEnv 2 (init_req_copy 4096 sampleBuf 8) bootSt.hw bootMm) := by
  have hsome : (Session.dma_copy_to_user promptEnv 2 (init_req_copy 4096 sampleBuf 8) bootSt.hw
      ⟨bootMm, []⟩).isSome = true := by
    decide
  obtain ⟨r, hr⟩ := Option.isSome_iff_exists.1 hsome
  exact ⟨r, hr, (pages_held_iff promptEnv 2 (init_req_copy 4096 sampleBuf 8) bootSt.hw bootMm sampleCaller idleCpu
    sampleCache 4096 8 (by decide) (by decide) (by decide)).1 r hr⟩

/-- The first poll comes at the timeout: page 2 is released while descriptor 1,
which reads it, is still queued. -/
theorem page_released_in_flight :
    ∃ r, Session.dma_copy_from_user shortEnv 2 (init_req_copy 4096 sampleBuf 8) bootSt.hw ⟨bootMm, []⟩ = some r ∧
      r.2.1.status = .DMA_ERROR ∧ ¬ InTime r.2.2.2.log r.2.2.1.eng := by
  have hlog : (Session.dma_copy_from_user shortEnv 2 (init_req_copy 4096 sampleBuf 8) bootSt.hw ⟨bootMm, []⟩).map
      (fun r => (r.2.1.status, r.2.2.2.log, r.2.2.1.eng.done)) =
      some (.DMA_ERROR, [.pinned 0 [2] 0, .submitted .from_user 0 true ⟨1, 0, 2, 0, sampleBuf, 8⟩, .released 0 [2] 0], 0) := by
    decide
  obtain ⟨r, hr, he⟩ := Option.map_eq_some_iff.1 hlog
  simp only [Prod.mk.injEq] at he
  obtain ⟨hs, hl, hd⟩ := he
  refine ⟨r, hr, hs, fun h => ?_⟩
  have := h 0 [2] 0 .from_user 0 true ⟨1, 0, 2, 0, sampleBuf, 8⟩ (by simp [hl]) (by simp [hl]) (by simp)
  simp [hd] at this

end Dmacftu
