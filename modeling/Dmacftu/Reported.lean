import Dmacftu.BandRuns
import Dmacftu.InFlight
import Dmacftu.Msg
/-!
# What the policy copies and the benchmarks report

A copy under a policy returns 0 whether its wait succeeded or not, and the
benchmarks look at nothing else. `reported_iff` says when a zero return, and the
sizes the benchmarks report or record, mean a completed transfer.
-/
open Lib.CInt

namespace Dmacftu

/-! ## The six copies -/

/-- The copies of `dma_policy_ex_sh.c` and `dma_policy_prio.c`. -/
def Caller.copies (c : Caller) (priority : Nat) : List PolicyCopy :=
  [c.dma_copy_from_user_sh, c.dma_copy_to_user_sh, c.dma_copy_from_user_excl, c.dma_copy_to_user_excl,
    c.dma_copy_from_user_prio priority, c.dma_copy_to_user_prio priority]

/-- When a zero return means that the request's status is `DMA_SUCCESS`: there is no
channel and so no zero return, or the wait succeeds. Without a byte to copy the
status is what it was. -/
def PolicyCopy.Honest (p : PolicyCopy) (env : DmaEnv) (fuel : Nat) (req_cpy_local : RequestCopy) (hw : Hw) : Prop :=
  if 0 < req_cpy_local.len then p.chan = none ∨ p.WaitSucceeds env fuel req_cpy_local hw
  else req_cpy_local.status = .DMA_SUCCESS

theorem PolicyCopy.honest_iff {p : PolicyCopy} {env : DmaEnv} {fuel : Nat} {req_cpy_local : RequestCopy} {hw : Hw}
    {r : Int × RequestCopy × Hw} (h : p.run env fuel req_cpy_local hw = some r) :
    (r.1 = 0 → r.2.1.status = .DMA_SUCCESS) ↔ p.Honest env fuel req_cpy_local hw := by
  unfold Honest
  split
  next hpos => exact PolicyCopy.zero_iff hpos h
  next hpos =>
    rcases PolicyCopy.run_cases h with ⟨-, rfl⟩ | ⟨hlen, -⟩ | ⟨hlen, -⟩
    · simp
    · exact absurd hlen hpos
    · exact absurd hlen hpos

/-- A copy returns 0 or `-EBUSY`. -/
theorem PolicyCopy.ret_cases {p : PolicyCopy} {env : DmaEnv} {fuel : Nat} {req_cpy_local : RequestCopy} {hw : Hw}
    {r : Int × RequestCopy × Hw} (h : p.run env fuel req_cpy_local hw = some r) :
    r.1 = 0 ∧ ¬ (0 < req_cpy_local.len ∧ p.chan = none) ∨ r.1 = -EBUSY ∧ 0 < req_cpy_local.len ∧ p.chan = none := by
  rcases PolicyCopy.run_cases h with ⟨hlen, rfl⟩ | ⟨hlen, hchan, rfl⟩ | ⟨-, hchan, -, h⟩
  · exact .inl ⟨rfl, fun h => absurd h.1 (by omega)⟩
  · exact .inr ⟨rfl, hlen, hchan⟩
  · obtain ⟨cookie, hw₁, status, hw₂, -, -, rfl⟩ := Direction.pinned_spec h
    exact .inl ⟨rfl, fun h => hchan h.2⟩

/-! ## The reports of the Band and Cache benchmarks -/

/-- What both drivers compute from the length and the copy's `int`. -/
theorem report_spec {len : Nat} {ret : Int} (hlen : len ≤ 2 ^ 30) (hret : -2 ^ 31 ≤ ret ∧ ret < 2 ^ 31) :
    Band.report len ret ≤ len ∧ (Band.report len ret = len ↔ ret = 0) := by
  unfold Band.report
  split
  · omega
  · rw [s64_of_range] <;> omega

/-- The report is not more than `len`, and it is `len` only if the copy's request is
completed. -/
def Reported (len : Nat) (report : Int) (log : List Event) : Prop :=
  report ≤ len ∧ (report = len → ∀ ret status, .returned ret status ∈ log → status = .DMA_SUCCESS)

/-- A call that makes no copy under a policy. -/
theorem reported_of_not_returned {len : Nat} {report : Int} {log : List Event} (hle : report ≤ len)
    (h : ∀ ret status, .returned ret status ∉ log) : Reported len report log :=
  ⟨hle, fun _ ret status hr => absurd hr (h ret status)⟩

/-- A call that makes one. -/
theorem reported_iff_honest {p : PolicyCopy} {env : DmaEnv} {fuel : Nat} {req_cpy_local : RequestCopy} {hw : Hw}
    {r : Int × RequestCopy × Hw} (h : p.run env fuel req_cpy_local hw = some r) {len : Nat} (hlen : len ≤ 2 ^ 30)
    {log : List Event} (hlog : ∀ ret status, .returned ret status ∈ log ↔ ret = r.1 ∧ status = r.2.1.status) :
    Reported len (Band.report len r.1) log ↔ p.Honest env fuel req_cpy_local hw := by
  have hret : -2 ^ 31 ≤ r.1 ∧ r.1 < 2 ^ 31 := by
    rcases PolicyCopy.ret_cases h with ⟨h0, -⟩ | ⟨h0, -⟩ <;> rw [h0] <;> decide
  obtain ⟨hle, heq⟩ := report_spec hlen hret
  rw [← PolicyCopy.honest_iff h, Reported, heq]
  constructor
  · rintro ⟨-, h⟩ h0
    exact h h0 _ _ ((hlog _ _).2 ⟨rfl, rfl⟩)
  · intro h
    refine ⟨hle, fun h0 ret status hr => ?_⟩
    rw [((hlog _ _).1 hr).2]
    exact h h0

/-- The account of a chunk loop has descriptors only. -/
theorem returned_not_mem_copyEvents {mm : Mm} {p : PolicyCopy} {env : DmaEnv} {fuel : Nat} {req : RequestCopy} {hw : Hw}
    {ret : Int} {status : DmaStatus} : .returned ret status ∉ Session.copyEvents mm p env fuel req hw := by
  unfold Session.copyEvents
  split <;> simp [Session.mem_submitEvents]

namespace Band

variable {e : Env} {b_data b_data' : BenchmarkData} {mm : Mm} {len : Nat} {ret : Int} {s : Session}

/-- A copy of one of the device's requests. -/
theorem copy_reported (hlen : len ≤ 2 ^ 30) {p : PolicyCopy} {req : RequestCopy} (store : RequestCopy → BenchmarkData)
    (h : (Session.copy p e.env e.fuel req e.hw ⟨mm, []⟩).map (fun (ret, req, _, s) => (ret, store req, s)) =
      some (ret, b_data', s)) : Reported len (report len ret) s.log ↔ p.Honest e.env e.fuel req e.hw := by
  obtain ⟨_, hcopy, he⟩ := Option.map_eq_some_iff.1 h
  obtain ⟨r, hrun, rfl⟩ := Option.map_eq_some_iff.1 hcopy
  cases he
  apply reported_iff_honest hrun hlen
  intro ret status
  simp [returned_not_mem_copyEvents]

theorem transfer_reported (hlen : len ≤ 2 ^ 30) {dir : Direction} {pure : Hw → Nat × Hw} {excl sh : PolicyCopy}
    {prio : Nat → PolicyCopy} (h : transfer e dir pure excl sh prio b_data ⟨mm, []⟩ = some (ret, b_data', s)) :
    Reported len (report len ret) s.log ↔
      ∀ w p, pick b_data.type excl sh (prio b_data.req_cpy_local_prio.priority) = some (w, p) →
        p.Honest e.env e.fuel (refresh mm e.stale (b_data.req w)) e.hw := by
  unfold transfer at h
  split at h
  next htype =>
    cases h
    refine iff_of_true (reported_of_not_returned (report_spec hlen (s32_range _)).1 (by simp)) ?_
    rw [htype]
    nofun
  split at h
  next htype =>
    rw [copy_reported hlen (fun req => { b_data with req_cpy_local := req }) h, htype]
    simp [pick, BenchmarkData.req]
  split at h
  next htype =>
    rw [copy_reported hlen (fun req => { b_data with req_cpy_local := req }) h, htype]
    simp [pick, BenchmarkData.req, SHARED_MEASURE, EXCLUSIVE_MEASURE]
  split at h
  next htype =>
    rw [copy_reported hlen (fun req =>
      { b_data with req_cpy_local_prio := { refreshPrio mm e.stale b_data.req_cpy_local_prio with toRequestCopy := req } })
      h, htype]
    simp [pick, BenchmarkData.req, refreshPrio, SHARED_MEASURE, EXCLUSIVE_MEASURE, PRIORITY_MEASURE]
  next h2 h3 h4 =>
    cases h
    refine iff_of_true (reported_of_not_returned (report_spec hlen (by decide)).1 (by simp)) ?_
    simp [pick, h2, h3, h4]

/-- The check of the arguments, before a transfer. -/
theorem driverOp_reported (hsize : b_data.kernel_size ≤ 2 ^ 30) {buf : Nat}
    {f : BenchmarkData → Session → Option (Int × BenchmarkData × Session)} {P : Prop}
    (hf : ∀ ret b_data' s, len ≤ 2 ^ 30 → f b_data ⟨mm, []⟩ = some (ret, b_data', s) →
      (Reported len (report len ret) s.log ↔ P)) {r : Int × BenchmarkData × Session}
    (h : driverOp b_data buf len f ⟨mm, []⟩ = some r) :
    Reported len r.1 r.2.2.log ↔ (¬ (buf = 0 ∨ len > b_data.kernel_size) → P) := by
  unfold driverOp at h
  split at h
  next hbuf =>
    cases h
    refine iff_of_true (reported_of_not_returned ?_ (by simp)) fun hargs => absurd (.inl hbuf) hargs
    have : -EINVAL < 0 := by decide
    omega
  split at h
  next hlen =>
    cases h
    refine iff_of_true (reported_of_not_returned ?_ (by simp)) fun hargs => absurd (.inr hlen) hargs
    have : -EFAULT < 0 := by decide
    omega
  next hbuf hlen =>
    obtain ⟨r', hr', rfl⟩ := Option.map_eq_some_iff.1 h
    rw [hf _ _ _ (by omega) hr']
    exact ⟨fun hp _ => hp, fun hp => hp (not_or.2 ⟨hbuf, hlen⟩)⟩

theorem op_reported (hsize : b_data.kernel_size ≤ 2 ^ 30) {op : Op} (hop : op.len = some len) {type_measure : Nat}
    {r : Int × BenchmarkData × Session} (h : op.run type_measure e b_data ⟨mm, []⟩ = some r) :
    Reported len r.1 r.2.2.log ↔
      ∀ w p, op.policy e b_data = some (w, p) → p.Honest e.env e.fuel (refresh mm e.stale (b_data.req w)) e.hw := by
  cases op with
  | ioctl cmd => cases hop
  | read buf _ | write buf _ =>
    cases hop
    rw [driverOp_reported hsize (fun _ _ _ hlen ht => transfer_reported hlen ht) h]
    by_cases hargs : buf = 0 ∨ len > b_data.kernel_size
    · rw [Op.policy, if_pos hargs]
      exact iff_of_true (absurd hargs) nofun
    · rw [Op.policy, if_neg hargs]
      exact ⟨fun h => h hargs, fun h _ => h⟩

end Band

namespace Cache

variable {c : Caller} {cpu : Cpu} {env : DmaEnv} {fuel : Nat} {b_data : BenchmarkData} {buf len : Nat} {hw : Hw}
  {mm : Mm}

theorem transfer_reported (hlen : len ≤ 2 ^ 30) {type : Nat} {p : PolicyCopy} {write dirty : Int}
    {pure : Hw → Nat × Hw} {tmp_buf : Nat} {r : Int × Hw × Session}
    (h : transfer type p write dirty pure env fuel buf tmp_buf len hw ⟨mm, []⟩ = some r) :
    Reported len (report len r.1) r.2.2.log ↔ (type = DMA_MEASURE →
      (dma_pin_user_pages env.pin mm (init_req_copy buf tmp_buf len) write 0).1 = .PIN_SUCCESSFUL →
      p.Honest env fuel (pinned env mm write buf tmp_buf len) hw) := by
  rcases transfer_cases h rfl with ⟨hno, -, hlog, x, hx⟩ | ⟨hdma, hres, r', hrun, hret, -, hlog⟩
  · rw [hx]
    refine iff_of_true (reported_of_not_returned (report_spec hlen (s32_range x)).1 hlog) fun hdma hres => ?_
    exact absurd ⟨hdma, hres⟩ hno
  · rw [hret]
    refine (reported_iff_honest hrun hlen ?_).trans ⟨fun hp _ _ => hp, fun hp => hp hdma hres⟩
    intro ret status
    rw [hlog]
    simp [returned_not_mem_copyEvents, Session.mem_pinEvents_successful, Session.mem_unpinEvents]

/-- What must hold of a call: the copy under the shared policy, if the call gets that
far, has a channel and a wait that succeeds, or no channel. -/
def Honest (p : PolicyCopy) (write : Int) (counter : Nat) (env : DmaEnv) (fuel : Nat) (b_data : BenchmarkData)
    (buf len : Nat) (hw : Hw) (mm : Mm) : Prop :=
  buf ≠ 0 → len ≤ b_data.kernel_size → ∀ i, mem_index counter b_data.kernel_size len = some i →
    b_data.type = DMA_MEASURE →
    (dma_pin_user_pages env.pin mm (init_req_copy buf (u64 (b_data.kernel_buf + i * len)) len) write 0).1 =
      .PIN_SUCCESSFUL →
    p.Honest env fuel (pinned env mm write buf (u64 (b_data.kernel_buf + i * len)) len) hw

theorem driverOp_reported (hsize : b_data.kernel_size ≤ 2 ^ 30) {counter : Nat} {p : PolicyCopy} {write dirty : Int}
    {pure : Nat → Hw → Nat × Hw} {r : Int × Hw × Session}
    (h : driverOp b_data counter buf len (fun tmp_buf => transfer b_data.type p write dirty (pure tmp_buf) env fuel buf
      tmp_buf len) hw ⟨mm, []⟩ = some r) :
    Reported len (report len r.1) r.2.2.log ↔ Honest p write counter env fuel b_data buf len hw mm := by
  rcases driverOp_cases h with ⟨hargs, hneg, hs⟩ | ⟨hbuf, -, hlen, i, hi, h⟩
  · have hreport : report len r.1 ≤ len := by
      rw [report, if_pos hneg]
      omega
    refine iff_of_true (reported_of_not_returned hreport (by simp [hs])) fun hbuf hlen => ?_
    exact absurd ⟨hbuf, hlen⟩ hargs
  · rw [transfer_reported (Nat.le_trans hlen hsize) h]
    constructor
    · intro hp _ _ j hj hdma hres
      cases hi.symm.trans hj
      exact hp hdma hres
    · intro hp
      exact hp hbuf hlen i hi

end Cache

/-! ## The sizes the Msg benchmark records -/

namespace Msg

open Session

/-- The copies that came back, in order. -/
def returns (log : List Event) : List (Int × DmaStatus) :=
  log.filterMap fun
    | .returned ret status => some (ret, status)
    | _ => none

@[simp] theorem returns_append (log log' : List Event) : returns (log ++ log') = returns log ++ returns log' :=
  List.filterMap_append

theorem returns_eq_nil {log : List Event} (h : ∀ ret status, .returned ret status ∉ log) : returns log = [] := by
  rw [returns, List.filterMap_eq_nil_iff]
  intro ev hev
  cases ev with
  | returned ret status => exact absurd hev (h ret status)
  | _ => rfl

/-- The sizes of a call that succeeded: none is more than `len`, and one is `len` only
if the request was completed. The copy that warms up comes back first. -/
def Recorded (len : Nat) (r : Int × BenchmarkData × Session) : Prop :=
  0 ≤ r.1 → ∀ i < BUFF_MEASURE, (r.2.1.results.buffer i).size ≤ len ∧
    ((r.2.1.results.buffer i).size = len → ∀ ret status, (returns r.2.2.log)[i + 1]? = some (ret, status) →
      status = .DMA_SUCCESS)

/-- The policy's copy that a measure makes. -/
def policy (type_measure : Int) : Direction → Option (Caller → PolicyCopy)
  | .from_user =>
    if type_measure = EXCLUSIVE_MEASURE then some Caller.dma_copy_from_user_excl
    else if type_measure = SHARED_MEASURE then some Caller.dma_copy_from_user_sh
    else none
  | .to_user =>
    if type_measure = EXCLUSIVE_MEASURE then some Caller.dma_copy_to_user_excl
    else if type_measure = SHARED_MEASURE then some Caller.dma_copy_to_user_sh
    else none

variable {copy : MeasureFn} {ms : Nat → Measure} {fuel : Nat} {l l' : Loop} {len : Nat} {req : RequestCopy}

/-- A pass: one copy, and the size of one unit. -/
theorem measureBody_spec {i : Nat} (h : measureBody copy ms fuel l i = some l') :
    ∃ ret, copy (ms (i + 1)) fuel l.req_cpy_local l.s = some (ret, l'.req_cpy_local, l'.s) ∧
      (l'.results.buffer i).size = u64 (l'.req_cpy_local.len - ret) ∧
      ∀ j ≠ i, l'.results.buffer j = l.results.buffer j := by
  obtain ⟨⟨ret, l₁⟩, hunit, rfl⟩ := Option.map_eq_some_iff.1 h
  obtain ⟨⟨ret', req', s'⟩, hcopy, he⟩ := Option.map_eq_some_iff.1 hunit
  cases he
  refine ⟨ret, hcopy, ?_, ?_⟩
  · simp [BenchmarkOutput.setUnit]
  · intro j hj
    simp [BenchmarkOutput.setUnit, hj]

/-- A copy of the request came back with this. -/
def CameBack (p : PolicyCopy) (m : Measure) (fuel : Nat) (req : RequestCopy) (ret : Int) (status : DmaStatus) : Prop :=
  ∃ chan cookie st r, p.run m.env fuel { req with chan := chan, dma_cookie := cookie, status := st } m.hw = some r ∧
    r.1 = ret ∧ r.2.1.status = status

/-- After `n` passes: each has come back, and its unit has the size. -/
structure Measured (p : Caller → PolicyCopy) (ms : Nat → Measure) (fuel : Nat) (req : RequestCopy)
    (first : Int × DmaStatus) (n : Nat) (l : Loop) : Prop where
  same : ∃ chan cookie st, l.req_cpy_local = { req with chan := chan, dma_cookie := cookie, status := st }
  passes : ∃ rs : List (Int × DmaStatus), returns l.s.log = first :: rs ∧ rs.length = n ∧
    ∀ i ret status, rs[i]? = some (ret, status) → (l.results.buffer i).size = u64 (req.len - ret) ∧
      CameBack (p (ms (i + 1)).caller) (ms (i + 1)) fuel req ret status

/-- One copy under a policy. -/
theorem dmaMeasure_spec {p : Caller → PolicyCopy} {m : Measure} {req' req'' : RequestCopy} {s s' : Session} {ret : Int}
    (h : dmaMeasure p m fuel req' s = some (ret, req'', s'))
    (hreq : ∃ chan cookie st, req' = { req with chan := chan, dma_cookie := cookie, status := st }) :
    (∃ chan cookie st, req'' = { req with chan := chan, dma_cookie := cookie, status := st }) ∧
      ∃ status, returns s'.log = returns s.log ++ [(ret, status)] ∧ CameBack (p m.caller) m fuel req ret status := by
  obtain ⟨chan, cookie, st, rfl⟩ := hreq
  obtain ⟨_, hcopy, he⟩ := Option.map_eq_some_iff.1 h
  obtain ⟨r, hrun, rfl⟩ := Option.map_eq_some_iff.1 hcopy
  cases he
  obtain ⟨chan', cookie', st', hreq⟩ := PolicyCopy.run_req hrun
  refine ⟨⟨chan', cookie', st', hreq⟩, r.2.1.status, ?_, chan, cookie, st, r, hrun, rfl, rfl⟩
  rw [returns_append, returns_append, returns_eq_nil fun _ _ => returned_not_mem_copyEvents]
  rfl

theorem measureBody_measured {p : Caller → PolicyCopy} {first : Int × DmaStatus} {i : Nat}
    (h : Measured p ms fuel req first i l) (hbody : measureBody (dmaMeasure p) ms fuel l i = some l') :
    Measured p ms fuel req first (i + 1) l' := by
  obtain ⟨ret, hcopy, hsize, hothers⟩ := measureBody_spec hbody
  obtain ⟨hsame, status, hreturns, hback⟩ := dmaMeasure_spec hcopy h.same
  obtain ⟨rs, hrs, hlen, hpasses⟩ := h.passes
  refine ⟨hsame, rs ++ [(ret, status)], by rw [hreturns, hrs]; rfl, by simp [hlen], ?_⟩
  intro j ret' status' hj
  by_cases hlast : j = i
  · subst hlast
    rw [← hlen, List.getElem?_concat_length] at hj
    cases hj
    obtain ⟨chan, cookie, st, hreq⟩ := hsame
    rw [hsize, hreq]
    exact ⟨rfl, hback⟩
  · rw [hothers j hlast]
    have hjlt : j < rs.length := by
      have := (List.getElem?_eq_some_iff.1 hj).1
      simp at this
      omega
    rw [List.getElem?_append_left hjlt] at hj
    exact hpasses j ret' status' hj

/-- What one unit says, against the channel and the wait. -/
theorem unit_iff {p : PolicyCopy} {m : Measure} (hpos : 0 < req.len) (hlen : req.len ≤ 2 ^ 30) {ret : Int}
    {status : DmaStatus} (h : CameBack p m fuel req ret status) :
    (u64 (req.len - ret) ≤ req.len ∧ (u64 (req.len - ret) = req.len → status = .DMA_SUCCESS)) ↔
      p.chan ≠ none ∧ p.WaitSucceeds m.env fuel req m.hw := by
  obtain ⟨chan, cookie, st, r, hrun, rfl, rfl⟩ := h
  have hwait : p.WaitSucceeds m.env fuel { req with chan := chan, dma_cookie := cookie, status := st } m.hw ↔
      p.WaitSucceeds m.env fuel req m.hw := Iff.rfl
  have hzero := PolicyCopy.zero_iff (by exact hpos) hrun
  rw [hwait] at hzero
  rcases PolicyCopy.ret_cases hrun with ⟨h0, hchan⟩ | ⟨h0, -, hchan⟩
  · have hsize : u64 (req.len - r.1) = req.len := by
      rw [h0]
      unfold u64
      omega
    have hchan : p.chan ≠ none := fun hc => hchan ⟨hpos, hc⟩
    rw [hsize]
    simp only [h0, true_implies, hchan, false_or] at hzero
    simp only [Nat.le_refl, true_and, true_implies, ne_eq, hchan, not_false_eq_true]
    exact hzero
  · refine iff_of_false (fun hle => ?_) fun hc => hc.1 hchan
    have hsize : u64 (req.len - r.1) = req.len + 16 := by
      rw [h0]
      unfold u64 EBUSY
      omega
    omega

/-- All passes of a measure under a policy. -/
theorem measureAll_measured {p : Caller → PolicyCopy} (hlog : returns l.s.log = [])
    (hsame : ∃ chan cookie st, l.req_cpy_local = { req with chan := chan, dma_cookie := cookie, status := st })
    (h : measureAll (dmaMeasure p) ms fuel l = some l') :
    ∃ first, Measured p ms fuel req first BUFF_MEASURE l' := by
  obtain ⟨⟨ret, l₁⟩, hwarm, hfold⟩ := Option.bind_eq_some_iff.1 h
  obtain ⟨⟨ret', req', s'⟩, hcopy, he⟩ := Option.map_eq_some_iff.1 hwarm
  cases he
  obtain ⟨hsame', status, hreturns, -⟩ := dmaMeasure_spec hcopy hsame
  refine ⟨(ret, status), Lib.Loop.foldlM_range_inv (Measured p ms fuel req (ret, status)) ?_ ?_ hfold⟩
  · intro i l l' h hbody
    exact measureBody_measured h hbody
  · exact ⟨hsame', [], by rw [hreturns, hlog]; rfl, rfl, by simp⟩

/-- All passes of a measure by the CPU, whose copies leave no more than they got. -/
theorem measureAll_cpu {dir : Direction} {pure : RequestCopy → Hw → Nat × Hw} (hpure : ∀ req hw, (pure req hw).1 ≤ req.len)
    (hlen : l.req_cpy_local.len ≤ 2 ^ 30) (hlog : returns l.s.log = [])
    (h : measureAll (cpuMeasure dir pure) ms fuel l = some l') :
    returns l'.s.log = [] ∧ ∀ i < BUFF_MEASURE, (l'.results.buffer i).size ≤ l.req_cpy_local.len := by
  obtain ⟨⟨ret, l₁⟩, hwarm, hfold⟩ := Option.bind_eq_some_iff.1 h
  obtain ⟨⟨ret', req', s'⟩, hcopy, he⟩ := Option.map_eq_some_iff.1 hwarm
  cases he
  cases hcopy
  let I : Nat → Loop → Prop := fun n l₂ => l₂.req_cpy_local = l.req_cpy_local ∧ returns l₂.s.log = [] ∧
    ∀ i < n, (l₂.results.buffer i).size ≤ l.req_cpy_local.len
  have hend := Lib.Loop.foldlM_range_inv I ?_ ?_ hfold
  · exact hend.2
  · rintro i l₂ l₃ ⟨hreq, hreturns, hsizes⟩ hbody
    obtain ⟨ret, hcopy, hsize, hothers⟩ := measureBody_spec hbody
    simp only [cpuMeasure, Option.some.injEq, Prod.mk.injEq] at hcopy
    obtain ⟨hret, hsame, hs⟩ := hcopy
    refine ⟨hsame.symm.trans hreq, ?_, ?_⟩
    · rw [← hs, returns_append, hreturns]
      rfl
    · intro j hj
      by_cases hlast : j = i
      · have hle := hpure l₂.req_cpy_local (ms (i + 1)).hw
        rw [hreq] at hle hret
        rw [s32_of_range (by omega) (by omega)] at hret
        rw [hlast, hsize, ← hsame, hreq, ← hret]
        unfold u64
        omega
      · rw [hothers j hlast]
        exact hsizes j (by omega)
  · refine ⟨rfl, ?_, by simp⟩
    rw [returns_append, hlog]
    rfl

/-- The pin of a call. -/
def pinned (ms : Nat → Measure) (b_data : BenchmarkData) (buf len : Nat) (mm : Mm) : PinResult × RequestCopy × Mm :=
  dma_pin_user_pages (ms 0).env.pin mm (init_req_copy buf b_data.kernel_buf len)
    (if isFrom b_data.type then PIN_READ else PIN_WRITE) 0

/-- What must hold of a call: each of the recorded copies, if it comes to them, finds a
channel, and its wait succeeds. -/
def Honest (type_measure : Int) (ms : Nat → Measure) (fuel : Nat) (b_data : BenchmarkData) (buf len : Nat) (mm : Mm) :
    Prop :=
  buf ≠ 0 → len ≤ b_data.kernel_size → b_data.kernel_buf ≠ 0 →
    ∀ dir p, direction b_data.type = some dir → policy type_measure dir = some p →
      (pinned ms b_data buf len mm).1 = .PIN_SUCCESSFUL → ∀ i < BUFF_MEASURE,
        (p (ms (i + 1)).caller).chan ≠ none ∧
          (p (ms (i + 1)).caller).WaitSucceeds (ms (i + 1)).env fuel (pinned ms b_data buf len mm).2.1 (ms (i + 1)).hw

/-- The recorded sizes of a measure under a policy. -/
theorem Measured.sizes_iff {p : Caller → PolicyCopy} {first : Int × DmaStatus} (hpos : 0 < req.len)
    (hlen : req.len ≤ 2 ^ 30) (h : Measured p ms fuel req first BUFF_MEASURE l) :
    (∀ i < BUFF_MEASURE, (l.results.buffer i).size ≤ req.len ∧ ((l.results.buffer i).size = req.len →
      ∀ ret status, (returns l.s.log)[i + 1]? = some (ret, status) → status = .DMA_SUCCESS)) ↔
    ∀ i < BUFF_MEASURE, (p (ms (i + 1)).caller).chan ≠ none ∧
      (p (ms (i + 1)).caller).WaitSucceeds (ms (i + 1)).env fuel req (ms (i + 1)).hw := by
  obtain ⟨rs, hreturns, hrs, hpasses⟩ := h.passes
  apply forall_congr'
  intro i
  apply imp_congr_right
  intro hi
  have hget : rs[i]? = some rs[i] := List.getElem?_eq_getElem (hrs.symm ▸ hi)
  obtain ⟨hsize, hback⟩ := hpasses i rs[i].1 rs[i].2 hget
  rw [← unit_iff hpos hlen hback, hsize, hreturns, List.getElem?_cons_succ, hget]
  simp only [Option.some.injEq]
  constructor
  · rintro ⟨hle, hstatus⟩
    exact ⟨hle, fun heq => hstatus heq _ _ rfl⟩
  · rintro ⟨hle, hstatus⟩
    refine ⟨hle, fun heq ret status he => ?_⟩
    have hst := hstatus heq
    rwa [he] at hst

/-- `ptr_copy` is the CPU's copy or a policy's. -/
theorem ptr_copy_cases {cpu : Cpu} {type_measure : Int} {dir : Direction} (h : ptr_copy cpu type_measure dir = some copy) :
    (¬ (type_measure = EXCLUSIVE_MEASURE ∨ type_measure = SHARED_MEASURE) ∧ policy type_measure dir = none ∧
      (copy = cpu_copy_from_measure cpu ∨ copy = cpu_copy_to_measure cpu)) ∨
    ((type_measure = EXCLUSIVE_MEASURE ∨ type_measure = SHARED_MEASURE) ∧
      ∃ p, policy type_measure dir = some p ∧ copy = dmaMeasure p) := by
  have hne : CPU_MEASURE ≠ EXCLUSIVE_MEASURE ∧ CPU_MEASURE ≠ SHARED_MEASURE ∧ SHARED_MEASURE ≠ EXCLUSIVE_MEASURE := by
    decide
  by_cases hcpu : type_measure = CPU_MEASURE
  · subst hcpu
    left
    cases dir <;> simp_all [ptr_copy, policy]
  by_cases hexcl : type_measure = EXCLUSIVE_MEASURE
  · subst hexcl
    right
    cases dir <;> simp_all [ptr_copy, policy] <;> exact h.symm
  by_cases hsh : type_measure = SHARED_MEASURE
  · subst hsh
    right
    cases dir <;> simp_all [ptr_copy, policy] <;> exact h.symm
  · cases dir <;> simp_all [ptr_copy]

theorem start_recorded {cpu : Cpu} {type_measure : Int} {dir : Direction} {b_data : BenchmarkData} {mm : Mm} {log : List Event}
    (hcpu : ∀ dst src n hw, (cpu.copy_from_user_pure dst src n hw).1 ≤ n ∧ (cpu.copy_to_user_pure dst src n hw).1 ≤ n)
    (hcopy : ptr_copy cpu type_measure dir = some copy) (hlog : returns log = []) (hpos : 0 < b_data.user_size)
    (hlen : b_data.user_size ≤ 2 ^ 30) {r : Int × BenchmarkData × Session}
    (h : start_measure type_measure copy ms fuel b_data ⟨mm, log⟩ = some r) :
    Recorded b_data.user_size r ↔ ∀ p, policy type_measure dir = some p →
      (pinned ms b_data b_data.user_buf b_data.user_size mm).1 = .PIN_SUCCESSFUL → ∀ i < BUFF_MEASURE,
        (p (ms (i + 1)).caller).chan ≠ none ∧
          (p (ms (i + 1)).caller).WaitSucceeds (ms (i + 1)).env fuel
            (pinned ms b_data b_data.user_buf b_data.user_size mm).2.1 (ms (i + 1)).hw := by
  have hrefused : ∀ b_data' s, Recorded b_data.user_size (-EACCES, b_data', s) := by
    intro _ _ h0
    exact absurd h0 (by decide : ¬ (0 : Int) ≤ -EACCES)
  unfold start_measure at h
  simp only at h
  rcases ptr_copy_cases hcopy with ⟨htype, hpolicy, hcpus⟩ | ⟨htype, p, hpolicy, rfl⟩
  · rw [if_neg htype] at h
    obtain ⟨l, hl, rfl⟩ := Option.map_eq_some_iff.1 h
    -- the CPU measures no DMA copy, and its primitives bound the sizes
    have hsizes : returns l.s.log = [] ∧ ∀ i < BUFF_MEASURE, (l.results.buffer i).size ≤ b_data.user_size := by
      rcases hcpus with rfl | rfl
      · exact measureAll_cpu (fun _ _ => (hcpu _ _ _ _).1) hlen hlog hl
      · exact measureAll_cpu (fun _ _ => (hcpu _ _ _ _).2) hlen hlog hl
    refine iff_of_true (fun _ i hi => ⟨hsizes.2 i hi, fun _ ret status he => ?_⟩) (by simp [hpolicy])
    simp [hsizes.1] at he
  · rw [if_pos htype] at h
    simp only [Session.pin] at h
    cases hres : (pinned ms b_data b_data.user_buf b_data.user_size mm).1 with
    | PIN_FAILED =>
      unfold pinned at hres
      rw [hres] at h
      cases h
      exact iff_of_true (hrefused _ _) fun _ _ hp => by cases hp
    | PIN_NO_USER =>
      unfold pinned at hres
      rw [hres] at h
      cases h
      exact iff_of_true (hrefused _ _) fun _ _ hp => by cases hp
    | PIN_SUCCESSFUL =>
      have hp := hres
      unfold pinned at hp
      rw [hp] at h
      obtain ⟨l, hl, rfl⟩ := Option.map_eq_some_iff.1 h
      obtain ⟨first, hmeasured⟩ : ∃ first, Measured p ms fuel (pinned ms b_data b_data.user_buf b_data.user_size mm).2.1
          first BUFF_MEASURE l := by
        refine measureAll_measured ?_ ⟨_, _, _, rfl⟩ hl
        rw [returns_append, hlog, returns_eq_nil fun _ _ => returned_not_mem_pinEvents]
        rfl
      have huser : (pinned ms b_data b_data.user_buf b_data.user_size mm).2.1.len = b_data.user_size := by
        obtain ⟨nr, pages, hreq⟩ := pin_req (ms 0).env.pin mm
          (init_req_copy b_data.user_buf b_data.kernel_buf b_data.user_size)
          (if isFrom b_data.type then PIN_READ else PIN_WRITE) 0
        rw [pinned, hreq]
        rfl
      have hunits := hmeasured.sizes_iff (by rw [huser]; exact hpos) (by rw [huser]; exact hlen)
      -- the unpin at the end returns no copy
      have hreturns : ∀ dirty, returns (l.s.unpin l.req_cpy_local dirty).log = returns l.s.log := by
        intro dirty
        have hnil : returns (unpinEvents l.req_cpy_local dirty) = [] := returns_eq_nil (by simp [mem_unpinEvents])
        rw [Session.unpin, returns_append, hnil, List.append_nil]
      rw [huser] at hunits
      rw [Recorded, hreturns]
      simp only [hpolicy, Option.some.injEq, forall_eq', Int.le_refl, true_implies]
      exact hunits

theorem write_recorded {cpu : Cpu} {type_measure : Int} {b_data : BenchmarkData} {buf : Nat} {mm : Mm}
    (hcpu : ∀ dst src n hw, (cpu.copy_from_user_pure dst src n hw).1 ≤ n ∧ (cpu.copy_to_user_pure dst src n hw).1 ≤ n)
    (hpos : 0 < len) (hsize : b_data.kernel_size ≤ 2 ^ 30) {r : Int × BenchmarkData × Session}
    (h : benchmark_driver_write cpu type_measure ms fuel b_data buf len ⟨mm, []⟩ = some r) :
    Recorded len r ↔ Honest type_measure ms fuel b_data buf len mm := by
  have hneg : ∀ {ret : Int} b_data' s, ret < 0 → Recorded len (ret, b_data', s) := by
    intro ret _ _ hret h0
    exact absurd h0 (Int.not_le.2 hret)
  unfold benchmark_driver_write at h
  split at h
  next hbuf =>
    cases h
    exact iff_of_true (hneg _ _ (by decide)) fun hne => absurd hbuf hne
  split at h
  next hlen =>
    cases h
    exact iff_of_true (hneg _ _ (by decide)) fun _ hle => absurd hle (Nat.not_le.2 hlen)
  next hbuf hlen =>
    obtain ⟨⟨ret, b_data', s⟩, hr', rfl⟩ := Option.map_eq_some_iff.1 h
    -- the value that comes back is negative exactly if the measure's is
    have hret : Recorded len (if ret < 0 then -EFAULT else s64 len, b_data', s) ↔ Recorded len (ret, b_data', s) := by
      apply imp_congr_left
      dsimp only
      split
      next hlt =>
        have : -EFAULT < 0 := by decide
        omega
      next hge =>
        rw [s64_of_range] <;> omega
    rw [hret]
    unfold init_measure at hr'
    split at hr'
    next hkernel =>
      cases hr'
      exact iff_of_true (hneg _ _ (by decide)) fun _ _ hne => absurd hkernel hne
    next hkernel =>
      split at hr'
      next hdir =>
        cases hr'
        refine iff_of_true (hneg _ _ (by decide)) fun _ _ _ dir p hdir' => ?_
        cases hdir.symm.trans hdir'
      next dir hdir =>
        obtain ⟨copy, hcopy, hstart⟩ := Option.bind_eq_some_iff.1 hr'
        have hiff := start_recorded hcpu hcopy rfl hpos (by exact Nat.le_trans (Nat.not_lt.1 hlen) hsize) hstart
        refine hiff.trans ⟨fun hp _ _ _ dir' p hdir' => ?_, fun hp p => ?_⟩
        · cases hdir.symm.trans hdir'
          exact hp p
        · exact hp hbuf (Nat.not_lt.1 hlen) hkernel dir p hdir

end Msg

/-! ## All of them -/

/-- A zero return, a reported and a recorded size mean a completed transfer exactly if
the wait succeeds: the Msg benchmark, which subtracts the return value whatever it is,
needs a channel as well. -/
theorem reported_iff (c : Caller) (priority : Nat) (env : DmaEnv) (fuel : Nat) (req_cpy_local : RequestCopy) (hw : Hw)
    (mm : Mm) (cpu : Cpu) (band : Band.BenchmarkData) (e : Band.Env) (op : Band.Op) (type_measure : Nat)
    (cache : Cache.BenchmarkData) (msg : Msg.BenchmarkData) (ms : Nat → Msg.Measure) (type_msg : Int) (buf len : Nat)
    (hreq : 1 ≤ req_cpy_local.len) (hlen : 1 ≤ len) (hop : op.len = some len)
    (hsize : band.kernel_size ≤ 2 ^ 30 ∧ cache.kernel_size ≤ 2 ^ 30 ∧ msg.kernel_size ≤ 2 ^ 30)
    (hcpu : ∀ dst src n hw, (cpu.copy_from_user_pure dst src n hw).1 ≤ n ∧ (cpu.copy_to_user_pure dst src n hw).1 ≤ n) :
    (∀ p ∈ c.copies priority, ∀ r, p.run env fuel req_cpy_local hw = some r →
      ((r.1 = 0 → r.2.1.status = .DMA_SUCCESS) ↔ p.chan = none ∨ p.WaitSucceeds env fuel req_cpy_local hw)) ∧
    (∀ r, op.run type_measure e band ⟨mm, []⟩ = some r →
      (Reported len r.1 r.2.2.log ↔ ∀ w p, op.policy e band = some (w, p) →
        p.Honest e.env e.fuel (Band.refresh mm e.stale (band.req w)) e.hw)) ∧
    (∀ r, Cache.benchmark_driver_write c cpu env fuel cache buf len hw ⟨mm, []⟩ = some r →
      (Reported len r.1 r.2.2.2.log ↔
        Cache.Honest c.dma_copy_from_user_sh 1 cache.counter_op_write env fuel cache buf len hw mm)) ∧
    (∀ r, Cache.benchmark_driver_read c cpu env fuel cache buf len hw ⟨mm, []⟩ = some r →
      (Reported len r.1 r.2.2.2.log ↔
        Cache.Honest c.dma_copy_to_user_sh 0 cache.counter_op_read env fuel cache buf len hw mm)) ∧
    ∀ r, Msg.benchmark_driver_write cpu type_msg ms fuel msg buf len ⟨mm, []⟩ = some r →
      (Msg.Recorded len r ↔ Msg.Honest type_msg ms fuel msg buf len mm) := by
  refine ⟨?_, ?_, ?_, ?_, ?_⟩
  · intro p _ r h
    exact PolicyCopy.zero_iff hreq h
  · exact fun r h => Band.op_reported hsize.1 hop h
  · intro r h
    obtain ⟨r', hr', rfl⟩ := Option.map_eq_some_iff.1 h
    exact Cache.driverOp_reported hsize.2.1 hr'
  · intro r h
    obtain ⟨r', hr', rfl⟩ := Option.map_eq_some_iff.1 h
    exact Cache.driverOp_reported hsize.2.1 hr'
  · exact fun r h => Msg.write_recorded hcpu hlen hsize.2.2 h

def sampleBand : Band.BenchmarkData := Band.init_micro_bench sampleBuf 4096 Band.SHARED_MEASURE 0

theorem reported_iff_prompt : ∃ r, Cache.benchmark_driver_write sampleCaller idleCpu promptEnv 2 sampleCache 4096 8
    bootSt.hw ⟨bootMm, []⟩ = some r ∧ (Reported 8 r.1 r.2.2.2.log ↔
      Cache.Honest sampleCaller.dma_copy_from_user_sh 1 0 promptEnv 2 sampleCache 4096 8 bootSt.hw bootMm) := by
  have hsome : (Cache.benchmark_driver_write sampleCaller idleCpu promptEnv 2 sampleCache 4096 8 bootSt.hw
      ⟨bootMm, []⟩).isSome = true := by
    decide
  obtain ⟨r, hr⟩ := Option.isSome_iff_exists.1 hsome
  exact ⟨r, hr, (reported_iff sampleCaller 0 promptEnv 2 (init_req_copy 4096 sampleBuf 8) bootSt.hw bootMm idleCpu
    sampleBand Band.sampleBandEnv (.read 4096 8) Band.SHARED_MEASURE sampleCache Msg.sampleMsg
    (fun _ => ⟨sampleCaller, promptEnv, bootSt.hw, 0, 0⟩) Msg.SHARED_MEASURE 4096 8 (by decide) (by decide) rfl
    (by decide) fun _ _ n _ => ⟨Nat.le_refl n, Nat.le_refl n⟩).2.2.1 r hr⟩

/-- A pinned request. -/
def sampleReq : RequestCopy := { init_req_copy 4096 sampleBuf 8 with pages := some ⟨0, fun _ => 2⟩, nr_pages := 1 }

/-- The first poll comes at the timeout: the copy returns 0 all the same, and the Cache
benchmark reports 8 bytes. -/
theorem zero_at_timeout :
    (∃ r, sampleCaller.dma_copy_from_user_sh.run shortEnv 2 sampleReq bootSt.hw = some r ∧
      ¬ (r.1 = 0 → r.2.1.status = .DMA_SUCCESS)) ∧
    ∃ r, Cache.benchmark_driver_write sampleCaller idleCpu shortEnv 2 sampleCache 4096 8 bootSt.hw ⟨bootMm, []⟩ = some r ∧
      ¬ Reported 8 r.1 r.2.2.2.log := by
  have hrun : (sampleCaller.dma_copy_from_user_sh.run shortEnv 2 sampleReq bootSt.hw).map
      (fun r => (r.1, r.2.1.status)) = some (0, .DMA_ERROR) := by
    decide
  have hwrite : (Cache.benchmark_driver_write sampleCaller idleCpu shortEnv 2 sampleCache 4096 8 bootSt.hw
      ⟨bootMm, []⟩).map (fun r => (r.1, decide (.returned 0 .DMA_ERROR ∈ r.2.2.2.log))) = some (8, true) := by
    decide
  obtain ⟨r, hr, he⟩ := Option.map_eq_some_iff.1 hrun
  obtain ⟨r', hr', he'⟩ := Option.map_eq_some_iff.1 hwrite
  simp only [Prod.mk.injEq, decide_eq_true_eq] at he he'
  refine ⟨⟨r, hr, fun h => ?_⟩, r', hr', fun h => ?_⟩
  · cases (h he.1).symm.trans he.2
  · cases h.2 he'.1 0 .DMA_ERROR he'.2

end Dmacftu
