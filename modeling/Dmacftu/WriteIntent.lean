import Dmacftu.BandRuns
import Dmacftu.InFlight
import Dmacftu.Msg
/-!
# Copies to pages pinned for reading

A page that a descriptor writes must have been pinned for writing, and be marked
dirty when it is released (`WriteIntent`). The direction of a copy and the arguments
of its pin and unpin are chosen apart from each other. The boot-time copies and the
Msg and Cache benchmarks' writes choose them together; the Cache benchmark's read
has them the wrong way round, and in the Band benchmark the caller chooses
(`write_intent_iff`).
-/
open Lib.CInt Lib.CopyEngine Lib.Runs

namespace Dmacftu

/-- Every page a descriptor writes was pinned for writing, its array is not freed,
and no release of the page leaves it clean. -/
def WriteIntent (log : List Event) : Prop :=
  ∀ id live e, .submitted .to_user id live e ∈ log →
    live = true ∧ (∃ ps write, .pinned id ps write ∈ log ∧ e.page ∈ ps ∧ write ≠ 0) ∧
      ∀ ps dirty, .released id ps dirty ∈ log → e.page ∈ ps → dirty ≠ 0

/-- The unpin loop marks what it releases, and what is marked stays so. -/
theorem unpinLoop_marks (entry : Nat → Page) {dirty : Int} (hdirty : dirty ≠ 0) (k i : Nat) (mm : Mm) (p : Page)
    (h : mm.dirty p = true ∨ p ∈ ((List.range' i k).map entry).takeWhile (· ≠ 0)) :
    (unpinLoop entry dirty k i mm).dirty p = true := by
  induction k generalizing i mm with
  | zero => simpa [unpinLoop] using h
  | succ k ih =>
    rw [List.range'_succ, List.map_cons] at h
    by_cases h0 : entry i = 0
    · simpa [unpinLoop, h0] using h
    · rw [List.takeWhile_cons_of_pos (by simpa using h0), List.mem_cons] at h
      simp only [unpinLoop, ne_eq, h0, not_false_eq_true, if_true, hdirty]
      apply ih
      by_cases hp : p = entry i
      · left
        simp [page_cache_release, set_page_dirty_lock, hp]
      · simpa [page_cache_release, set_page_dirty_lock, hp] using h

/-- What an account calls a release with a `dirty` argument is marked. -/
theorem unpin_marks {mm : Mm} {req_cp : RequestCopy} {dirty : Int} (hdirty : dirty ≠ 0) :
    ∀ p ∈ req_cp.releases, (dma_unpin_user_pages mm req_cp dirty).dirty p = true := by
  intro p hp
  cases ha : req_cp.pages with
  | none => simp [RequestCopy.releases, ha] at hp
  | some a =>
    simp only [RequestCopy.releases, ha, List.range_eq_range'] at hp
    simp only [dma_unpin_user_pages, ha, kfree]
    exact unpinLoop_marks a.entry hdirty _ _ mm p (.inr hp)

theorem intent_of_not_submitted {log : List Event} (h : ∀ id live e, .submitted .to_user id live e ∉ log) :
    WriteIntent log := by
  intro id live e he
  exact absurd he (h id live e)

/-- An account of one pin, with copies for its array only. -/
theorem intent_iff {log : List Event} (id : Nat) (ps : List Page) {write dirty : Int} (hwrite : write ≠ 0)
    (hdirty : dirty ≠ 0) (hpin : .pinned id ps write ∈ log)
    (hpins : ∀ id' ps' write', .pinned id' ps' write' ∈ log → ps' = ps)
    (hreleased : ∀ id' ps' dirty', .released id' ps' dirty' ∈ log → dirty' = dirty)
    (hsub : ∀ id' live e, .submitted .to_user id' live e ∈ log → id' = id ∧ live = true) :
    WriteIntent log ↔ ∀ id' live e, .submitted .to_user id' live e ∈ log → e.page ∈ ps := by
  constructor
  · intro h id' live e he
    obtain ⟨-, ⟨ps', write', hp, hmem, -⟩, -⟩ := h id' live e he
    exact hpins _ _ _ hp ▸ hmem
  · intro h id' live e he
    obtain ⟨rfl, hlive⟩ := hsub id' live e he
    refine ⟨hlive, ⟨ps, write, hpin, h _ _ e he, hwrite⟩, ?_⟩
    intro ps' dirty' hr _
    exact hreleased _ _ _ hr ▸ hdirty

/-! ## The boot-time copies -/

section

open Session

variable {env : DmaEnv} {fuel : Nat} {req_cpy_local : RequestCopy} {hw : Hw} {mm : Mm}

/-- The copies of a pinned request and its unpin: the pages it writes are the
pages it pinned, if it pinned any. -/
theorem pinned_intent {penv : PinEnv} (hpin : req_cpy_local.PinnedBy penv)
    (hb : req_cpy_local.user_base < 2 ^ 64) (hk : req_cpy_local.kernel_base < 2 ^ 64) (hl : req_cpy_local.len < 2 ^ 64)
    (hpos : 0 < req_cpy_local.len) {write dirty : Int} (hwrite : write ≠ 0) (hdirty : dirty ≠ 0)
    (hlive : ∀ a, req_cpy_local.pages = some a → a.id ∉ mm.freed) {r : Int × Nat × Hw}
    (h : Direction.to_user.chunks env fuel req_cpy_local hw = some r) (req : RequestCopy) :
    WriteIntent (pinEvents write .PIN_SUCCESSFUL req_cpy_local ++ submitEvents mm .to_user env fuel req_cpy_local hw ++
      unpinEvents req dirty) ↔ 0 < req_cpy_local.nr_pages := by
  obtain ⟨cookie, left, hw₁⟩ := r
  obtain ⟨-, -, last, hlast, -⟩ := chunks_spec h
  obtain ⟨a, ha, -⟩ := hpin.pages
  have hmem : ∀ id live e, .submitted .to_user id live e ∈ pinEvents write .PIN_SUCCESSFUL req_cpy_local ++
      submitEvents mm .to_user env fuel req_cpy_local hw ++ unpinEvents req dirty ↔
      id = a.id ∧ live = true ∧ e ∈ Direction.to_user.subs env fuel req_cpy_local hw := by
    intro id live e
    have hfreed := hlive a ha
    simp [mem_pinEvents_successful, mem_submitEvents, mem_unpinEvents, ha, hfreed]
    grind
  rw [intent_iff a.id req_cpy_local.releases hwrite hdirty]
  · constructor
    · -- a request of no pages writes frames that the unpin never releases
      intro h
      have hlast := h a.id true last ((hmem _ _ _).2 ⟨rfl, rfl, hlast⟩)
      by_contra hn
      have hz : req_cpy_local.nr_pages.toNat = 0 := by omega
      simp [RequestCopy.releases, ha, hz] at hlast
    · intro h0 id live e he
      exact subs_released hpin (chunks_len h) hb hk hl hpos h0 e ((hmem _ _ _).1 he).2.2
  · simp [mem_pinEvents_successful, ha]
  · intro id' ps' write' hp
    simp [mem_pinEvents_successful, mem_submitEvents, mem_unpinEvents, ha] at hp
    exact hp.2.1
  · intro id' ps' dirty' hr
    simp [mem_pinEvents_successful, mem_submitEvents, mem_unpinEvents] at hr
    obtain ⟨_, -, -, -, hd⟩ := hr
    exact hd
  · intro id' live e he
    obtain ⟨hid, hlive, -⟩ := (hmem _ _ _).1 he
    exact ⟨hid, hlive⟩

theorem to_user_intent (hb : req_cpy_local.user_base < 2 ^ 64) (hk : req_cpy_local.kernel_base < 2 ^ 64)
    (hl : req_cpy_local.len < 2 ^ 64) (hmm : ∀ id ∈ mm.freed, id < mm.allocs)
    {r : Int × RequestCopy × Hw × Session}
    (h : Session.dma_copy_to_user env fuel req_cpy_local hw ⟨mm, []⟩ = some r) :
    WriteIntent r.2.2.2.log ↔ (0 < req_cpy_local.len → env.chan ≠ none →
      (dma_pin_user_pages env.pin mm { req_cpy_local with chan := env.chan } PIN_WRITE 0).1 = .PIN_SUCCESSFUL →
      0 < nr_pages_of req_cpy_local.user_base req_cpy_local.len) := by
  rcases copyUser_cases h rfl with ⟨hno, hlog⟩ | ⟨hfail, hlog⟩ | ⟨hpos, hchan, hres, r', hr', -, hlog⟩
  · rw [hlog]
    exact iff_of_true (intent_of_not_submitted (by simp)) fun hpos hchan => absurd ⟨hpos, hchan⟩ hno
  · rw [hlog]
    exact iff_of_true (intent_of_not_submitted fun _ _ _ => submitted_not_mem_pinEvents) fun _ _ hp => absurd hp hfail
  · obtain ⟨entry, hpin, hby⟩ := pin_taken hres
    rw [hlog]
    simp only [hpos, ne_eq, hchan, not_false_eq_true, true_implies, hres]
    rw [hpin] at hr' ⊢
    obtain ⟨cookie, hw₁, -, -, hchunks, -⟩ := Direction.pinned_spec hr'
    refine pinned_intent hby hb hk hl hpos (by decide) (by decide) ?_ hchunks r'.2.1
    intro a ha hfreed
    cases ha
    rw [(foldl_get_arrays _ _).2] at hfreed
    exact absurd (hmm _ hfreed) (Nat.lt_irrefl _)

/-- A copy from user space writes no user page. -/
theorem from_user_intent {r : Int × RequestCopy × Hw × Session}
    (h : Session.dma_copy_from_user env fuel req_cpy_local hw ⟨mm, []⟩ = some r) : WriteIntent r.2.2.2.log := by
  apply intent_of_not_submitted
  intro id live e
  rcases copyUser_cases h rfl with ⟨-, hlog⟩ | ⟨-, hlog⟩ | ⟨-, -, -, r', -, -, hlog⟩
  · simp [hlog]
  · rw [hlog]
    exact submitted_not_mem_pinEvents
  · simp [hlog, mem_pinEvents_successful, mem_submitEvents, mem_unpinEvents]

end

/-! ## The Cache benchmark -/

namespace Cache

open Session

variable {c : Caller} {cpu : Cpu} {env : DmaEnv} {fuel : Nat} {b_data : BenchmarkData} {buf len : Nat} {hw : Hw}
  {mm : Mm}

/-- A copy from user space writes no user page. -/
theorem write_intent {r : Int × BenchmarkData × Hw × Session}
    (h : benchmark_driver_write c cpu env fuel b_data buf len hw ⟨mm, []⟩ = some r) : WriteIntent r.2.2.2.log := by
  apply intent_of_not_submitted
  intro id live e
  obtain ⟨r', hr', rfl⟩ := Option.map_eq_some_iff.1 h
  rcases driverOp_cases hr' with ⟨-, -, hs⟩ | ⟨-, -, -, i, -, htransfer⟩
  · simp [hs]
  · rcases transfer_cases htransfer rfl with ⟨-, hlog, -⟩ | ⟨-, -, r₁, -, -, -, hlog⟩
    · exact hlog _ _ _ _
    · have hdir : c.dma_copy_from_user_sh.dir = .from_user := rfl
      simp only [hlog, copyEvents]
      split <;> simp [mem_pinEvents_successful, mem_submitEvents, mem_unpinEvents, hdir]

/-- Whether a read gets as far as its descriptors. -/
def ReadSubmits (c : Caller) (env : DmaEnv) (b_data : BenchmarkData) (buf len : Nat) (mm : Mm) : Prop :=
  buf ≠ 0 ∧ len ≤ b_data.kernel_size ∧ b_data.type = DMA_MEASURE ∧ c.dma_copy_to_user_sh.chan ≠ none ∧
    ∀ i, mem_index b_data.counter_op_read b_data.kernel_size len = some i →
      (dma_pin_user_pages env.pin mm (init_req_copy buf (u64 (b_data.kernel_buf + i * len)) len) 0 0).1 = .PIN_SUCCESSFUL

/-- A read that submits anything writes pages it pinned for reading. -/
theorem read_intent {r : Int × BenchmarkData × Hw × Session}
    (h : benchmark_driver_read c cpu env fuel b_data buf len hw ⟨mm, []⟩ = some r) :
    WriteIntent r.2.2.2.log ↔ ¬ ReadSubmits c env b_data buf len mm := by
  obtain ⟨r', hr', rfl⟩ := Option.map_eq_some_iff.1 h
  rcases driverOp_cases hr' with ⟨hargs, -, hs⟩ | ⟨hbuf, hpos, hlen, i, hi, htransfer⟩
  · refine iff_of_true (intent_of_not_submitted (by simp [hs])) fun hsub => hargs ⟨hsub.1, hsub.2.1⟩
  · rcases transfer_cases htransfer rfl with ⟨hno, hlog, -⟩ | ⟨hdma, hres, r₁, hrun, -, -, hlog⟩
    · exact iff_of_true (intent_of_not_submitted fun _ _ _ => hlog _ _ _ _) fun hsub =>
        hno ⟨hsub.2.2.1, hsub.2.2.2.2 i hi⟩
    · by_cases hchan : c.dma_copy_to_user_sh.chan = none
      · refine iff_of_true (intent_of_not_submitted ?_) fun hsub => hsub.2.2.2.1 hchan
        simp [hlog, copyEvents, hchan, mem_pinEvents_successful, mem_unpinEvents]
      · refine iff_of_false (fun hintent => ?_) (not_not.2 ⟨hbuf, hlen, hdma, hchan, fun j hj => ?_⟩)
        · obtain ⟨entry, hpin, -⟩ := pin_taken hres
          have hpos' : 0 < (dma_pin_user_pages env.pin mm
              (init_req_copy buf (u64 (b_data.kernel_buf + i * len)) len) 0 0).2.1.len := by
            rw [hpin]
            exact hpos
          obtain ⟨id, live, e, he⟩ := exists_submitted hrun hpos' hchan _
          obtain ⟨-, ⟨ps, write, hp, -, hwrite⟩, -⟩ := hintent id live e (by
            rw [hlog]
            exact List.mem_append_left _ (List.mem_append_right _ (List.mem_append_left _ he)))
          simp only [hlog, copyEvents] at hp
          split at hp <;> simp [mem_pinEvents_successful, mem_submitEvents, mem_unpinEvents] at hp <;> grind
        · cases hi.symm.trans hj
          exact hres

end Cache

/-! ## The Msg benchmark -/

/-- What the copies of a request add to the account. -/
def Event.OfRequest (dir : Direction) (req : RequestCopy) (mm : Mm) : Event → Prop
  | .submitted d id live e => d = dir ∧ 0 < req.len ∧
    (∃ a, req.pages = some a ∧ id = a.id ∧ live = decide (a.id ∉ mm.freed)) ∧ ∃ env fuel hw, e ∈ dir.subs env fuel req hw
  | .returned .. => True
  | .copied .. => True
  | _ => False

namespace Msg

open Session

/-- What holds between the copies of a request. -/
structure Copied (dir : Direction) (req : RequestCopy) (s₀ : Session) (req' : RequestCopy) (s : Session) : Prop where
  mm : s.mm = s₀.mm
  same : ∃ chan cookie status, req' = { req with chan := chan, dma_cookie := cookie, status := status }
  log : ∃ evs, s.log = s₀.log ++ evs ∧ ∀ ev ∈ evs, ev.OfRequest dir req s₀.mm

variable {dir : Direction} {req req' : RequestCopy} {s₀ s : Session} {copy : MeasureFn}

/-- A copy keeps what holds. -/
def MeasureFn.Keeps (copy : MeasureFn) (dir : Direction) : Prop :=
  ∀ req s₀ req' s m fuel ret req'' s', Copied dir req s₀ req' s → copy m fuel req' s = some (ret, req'', s') →
    Copied dir req s₀ req'' s'

theorem Copied.append (h : Copied dir req s₀ req' s) {req'' : RequestCopy} {evs : List Event}
    (hreq : ∃ chan cookie status, req'' = { req with chan := chan, dma_cookie := cookie, status := status })
    (hevs : ∀ ev ∈ evs, ev.OfRequest dir req s₀.mm) : Copied dir req s₀ req'' { s with log := s.log ++ evs } := by
  obtain ⟨old, hold, hall⟩ := h.log
  refine ⟨h.mm, hreq, old ++ evs, ?_, ?_⟩
  · simp [hold]
  · intro ev hev
    exact (List.mem_append.1 hev).elim (hall ev) (hevs ev)

theorem cpuMeasure_keeps (pure : RequestCopy → Hw → Nat × Hw) : (cpuMeasure dir pure).Keeps dir := by
  intro req s₀ req' s m fuel ret req'' s' h hcopy
  cases hcopy
  apply h.append h.same
  intro ev hev
  obtain rfl := List.mem_singleton.1 hev
  trivial

theorem dmaMeasure_keeps {p : Caller → PolicyCopy} (hdir : ∀ c, (p c).dir = dir) : (dmaMeasure p).Keeps dir := by
  intro req s₀ req' s m fuel ret req'' s' h hcopy
  obtain ⟨_, hcopy, he⟩ := Option.map_eq_some_iff.1 hcopy
  obtain ⟨r, hrun, rfl⟩ := Option.map_eq_some_iff.1 hcopy
  cases he
  obtain ⟨chan, cookie, status, hreq⟩ := PolicyCopy.run_req hrun
  obtain ⟨chan', cookie', status', rfl⟩ := h.same
  refine h.append ⟨chan, cookie, status, hreq⟩ ?_
  intro ev hev
  rcases List.mem_append.1 hev with hev | hev
  · unfold copyEvents at hev
    split at hev
    next hcopies =>
      obtain ⟨a, ha, e, he, rfl⟩ := mem_submitEvents.1 hev
      refine ⟨hdir _, hcopies.1, ⟨a, ha, rfl, by rw [h.mm]⟩, m.env, fuel, m.hw, ?_⟩
      rw [hdir] at he
      exact he
    · cases hev
  · obtain rfl := List.mem_singleton.1 hev
    trivial

/-- `ptr_copy` copies in the direction it is chosen for. -/
theorem ptr_copy_keeps {cpu : Cpu} {type_measure : Int} (h : ptr_copy cpu type_measure dir = some copy) :
    copy.Keeps dir := by
  cases dir with
  | from_user =>
    unfold ptr_copy at h
    simp only at h
    split at h
    · cases h
      exact cpuMeasure_keeps _
    split at h
    · cases h
      exact dmaMeasure_keeps (p := Caller.dma_copy_from_user_excl) fun _ => rfl
    split at h
    · cases h
      exact dmaMeasure_keeps (p := Caller.dma_copy_from_user_sh) fun _ => rfl
    · cases h
  | to_user =>
    unfold ptr_copy at h
    simp only at h
    split at h
    · cases h
      exact cpuMeasure_keeps _
    split at h
    · cases h
      exact dmaMeasure_keeps (p := Caller.dma_copy_to_user_excl) fun _ => rfl
    split at h
    · cases h
      exact dmaMeasure_keeps (p := Caller.dma_copy_to_user_sh) fun _ => rfl
    · cases h

theorem measureAll_copied (hcopy : copy.Keeps dir) {ms : Nat → Measure} {fuel : Nat} {l l' : Loop}
    (h : Copied dir req s₀ l.req_cpy_local l.s) (hl : measureAll copy ms fuel l = some l') :
    Copied dir req s₀ l'.req_cpy_local l'.s := by
  have hunit : ∀ {m i l ret l'}, Copied dir req s₀ l.req_cpy_local l.s →
      measureUnit copy m fuel i l = some (ret, l') → Copied dir req s₀ l'.req_cpy_local l'.s := by
    intro m i l ret l' h hm
    obtain ⟨⟨ret', req', s'⟩, hr, he⟩ := Option.map_eq_some_iff.1 hm
    cases he
    exact hcopy _ _ _ _ _ _ _ _ _ h hr
  obtain ⟨⟨ret, l₁⟩, hwarm, hl⟩ := Option.bind_eq_some_iff.1 hl
  refine Lib.Loop.foldlM_inv (fun l : Loop => Copied dir req s₀ l.req_cpy_local l.s) ?_ (hunit h hwarm) hl
  intro l i l' h hbody
  obtain ⟨⟨ret', l₂⟩, hr, rfl⟩ := Option.map_eq_some_iff.1 hbody
  have h₂ : Copied dir req s₀ l₂.req_cpy_local l₂.s := hunit h hr
  exact h₂

/-- The kind of the device decides the direction and the arguments of pin and unpin alike. -/
theorem isFrom_eq {type : Nat} (h : direction type = some dir) : isFrom type = decide (dir = .from_user) := by
  unfold direction at h
  split at h
  next hfrom =>
    cases h
    simpa [isFrom] using hfrom
  next hfrom =>
    split at h
    · cases h
      simpa [isFrom] using hfrom
    · cases h

theorem nr_pages_of_pos {user_base len : Nat} (hb : user_base < 2 ^ 64) (hlen : len < 2 ^ 31) (hpos : 0 < len) :
    0 < nr_pages_of user_base len := by
  rw [nr_pages_of_eq hb (by omega) hpos, card_pagesTouched hpos, s32_of_range] <;> unfold PAGE_SIZE <;> omega

/-- An account of a request's copies, before and after which nothing is submitted. -/
theorem Copied.not_submitted (h : Copied dir req s₀ req' s) (hdir : dir = .from_user ∨ req.pages = none)
    (h₀ : ∀ id live e, .submitted .to_user id live e ∉ s₀.log) : ∀ id live e, .submitted .to_user id live e ∉ s.log := by
  intro id live e he
  obtain ⟨evs, hlog, hevs⟩ := h.log
  rw [hlog] at he
  rcases List.mem_append.1 he with he | he
  · exact h₀ _ _ _ he
  · obtain ⟨hto, -, ⟨a, ha, -⟩, -⟩ := hevs _ he
    rcases hdir with hfrom | hnone
    · cases hto.trans hfrom
    · cases ha.symm.trans hnone

/-- The copies of a pinned request and its unpin. -/
theorem Copied.intent {penv : PinEnv} {addr : Nat} {n write dirty : Int} {mm : Mm}
    (h : Copied dir req ⟨mm, .filled addr n :: pinEvents write .PIN_SUCCESSFUL req⟩ req' s) (hpin : req.PinnedBy penv)
    (hb : req.user_base < 2 ^ 64) (hk : req.kernel_base < 2 ^ 64) (hlen : req.len < 2 ^ 31)
    (hlive : ∀ a, req.pages = some a → a.id ∉ mm.freed) (hwrite : dir = .to_user → write ≠ 0 ∧ dirty ≠ 0) :
    WriteIntent (s.log ++ unpinEvents req' dirty) := by
  have hstart : ∀ id live e, .submitted .to_user id live e ∉ .filled addr n :: pinEvents write .PIN_SUCCESSFUL req := by
    simp [submitted_not_mem_pinEvents]
  cases dir with
  | from_user =>
    apply intent_of_not_submitted
    intro id live e he
    rcases List.mem_append.1 he with he | he
    · exact h.not_submitted (.inl rfl) hstart id live e he
    · simp [mem_unpinEvents] at he
  | to_user =>
    obtain ⟨hwrite, hdirty⟩ := hwrite rfl
    obtain ⟨a, ha, -⟩ := hpin.pages
    obtain ⟨evs, hlog, hevs⟩ := h.log
    -- only the copies in between submit anything
    have hsub : ∀ id live e, .submitted .to_user id live e ∈ s.log ++ unpinEvents req' dirty →
        .submitted .to_user id live e ∈ evs := by
      intro id live e he
      simpa [hlog, mem_unpinEvents, submitted_not_mem_pinEvents] using he
    rw [intent_iff a.id req.releases hwrite hdirty]
    · intro id live e he
      obtain ⟨-, hpos, -, env, fuel, hw, hmem⟩ := hevs _ (hsub id live e he)
      have h0 : 0 < req.nr_pages := hpin.nr_pages ▸ nr_pages_of_pos hb hlen hpos
      exact subs_released hpin (.inl hlen) hb hk (by omega) hpos h0 e hmem
    · simp [hlog, mem_pinEvents_successful, ha]
    · intro id ps write' hp
      rw [hlog] at hp
      simp [mem_pinEvents_successful, mem_unpinEvents, ha] at hp
      rcases hp with hp | hp
      · exact hp.2.1
      · exact (hevs _ hp).elim
    · intro id ps dirty' hr
      rw [hlog] at hr
      simp [mem_pinEvents_successful, mem_unpinEvents] at hr
      rcases hr with hr | hr
      · exact (hevs _ hr).elim
      · obtain ⟨_, -, -, -, hd⟩ := hr
        exact hd
    · intro id live e he
      obtain ⟨-, -, ⟨a', ha', hid, hl⟩, -⟩ := hevs _ (hsub id live e he)
      cases ha.symm.trans ha'
      exact ⟨hid, hl.trans (decide_eq_true (hlive a ha))⟩

theorem start_measure_intent (hcopy : copy.Keeps dir) {type_measure : Int} {ms : Nat → Measure} {fuel : Nat}
    {b_data : BenchmarkData} {mm : Mm} {filled : Event} (hfilled : ∃ addr n, filled = .filled addr n)
    (hdir : direction b_data.type = some dir) (hb : b_data.user_buf < 2 ^ 64) (hk : b_data.kernel_buf < 2 ^ 64)
    (hsize : b_data.user_size < 2 ^ 31) (hmm : ∀ id ∈ mm.freed, id < mm.allocs)
    {r : Int × BenchmarkData × Session} (h : start_measure type_measure copy ms fuel b_data ⟨mm, [filled]⟩ = some r) :
    WriteIntent r.2.2.log := by
  obtain ⟨addr, n, rfl⟩ := hfilled
  have hrefl : ∀ req s, Copied dir req s req s := by
    intro req s
    exact ⟨rfl, ⟨_, _, _, rfl⟩, [], by simp, by simp⟩
  unfold start_measure at h
  simp only at h
  split at h
  · simp only [Session.pin] at h
    cases hres : (dma_pin_user_pages (ms 0).env.pin mm (init_req_copy b_data.user_buf b_data.kernel_buf
        b_data.user_size) (if isFrom b_data.type then PIN_READ else PIN_WRITE) 0).1 with
    | PIN_FAILED =>
      rw [hres] at h
      cases h
      exact intent_of_not_submitted fun _ _ _ => by simp [submitted_not_mem_pinEvents]
    | PIN_NO_USER =>
      rw [hres] at h
      cases h
      exact intent_of_not_submitted fun _ _ _ => by simp [submitted_not_mem_pinEvents]
    | PIN_SUCCESSFUL =>
      rw [hres] at h
      obtain ⟨entry, hpin, hby⟩ := pin_taken hres
      rw [hpin] at h
      obtain ⟨l, hl, rfl⟩ := Option.map_eq_some_iff.1 h
      have hcopied := measureAll_copied hcopy (hrefl _ _) hl
      -- the array is the newest one, which nothing has freed
      refine hcopied.intent hby hb hk hsize ?_ ?_
      · intro a ha hfreed
        cases ha
        rw [(foldl_get_arrays _ _).2] at hfreed
        exact absurd (hmm _ hfreed) (Nat.lt_irrefl _)
      · rintro rfl
        rw [isFrom_eq hdir]
        decide
  · obtain ⟨l, hl, rfl⟩ := Option.map_eq_some_iff.1 h
    have hcopied := measureAll_copied hcopy (hrefl _ _) hl
    exact intent_of_not_submitted (hcopied.not_submitted (.inr rfl) (by simp))

/-- `size` is the boot memory's, so the `int` arithmetic is exact. -/
theorem write_intent {cpu : Cpu} {type_measure : Int} {ms : Nat → Measure} {fuel : Nat} {b_data : BenchmarkData}
    {buf len : Nat} {mm : Mm} (hbuf : buf < 2 ^ 64) (hk : b_data.kernel_buf < 2 ^ 64)
    (hsize : b_data.kernel_size ∈ bootSizes) (hmm : ∀ id ∈ mm.freed, id < mm.allocs)
    {r : Int × BenchmarkData × Session}
    (h : benchmark_driver_write cpu type_measure ms fuel b_data buf len ⟨mm, []⟩ = some r) : WriteIntent r.2.2.log := by
  have hfilled : ∀ addr n, WriteIntent [.filled addr n] := fun _ _ => intent_of_not_submitted (by simp)
  unfold benchmark_driver_write at h
  split at h
  · cases h
    exact intent_of_not_submitted (by simp)
  split at h
  · cases h
    exact intent_of_not_submitted (by simp)
  next hlen =>
    have hmax : ∀ n ∈ bootSizes, n < 2 ^ 31 := by decide
    have hlen : len < 2 ^ 31 := Nat.lt_of_le_of_lt (Nat.not_lt.1 hlen) (hmax _ hsize)
    obtain ⟨r', hr', rfl⟩ := Option.map_eq_some_iff.1 h
    unfold init_measure at hr'
    split at hr'
    · cases hr'
      exact hfilled _ _
    split at hr'
    · cases hr'
      exact hfilled _ _
    next hdir =>
      obtain ⟨copy, hcopy, hstart⟩ := Option.bind_eq_some_iff.1 hr'
      have hintent := start_measure_intent (ptr_copy_keeps hcopy) ⟨_, _, rfl⟩ hdir hbuf hk hlen hmm hstart
      exact hintent

end Msg

end Dmacftu
