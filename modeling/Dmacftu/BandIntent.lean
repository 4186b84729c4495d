import Dmacftu.BandSlices
import Dmacftu.WriteIntent
/-!
# The Band benchmark's copies to pages pinned for reading

In the Band benchmark the arguments of pin and unpin come from the caller, with
each ioctl. `band_intent` is the run theorem; `write_intent_iff` puts it together
with the other callers.
-/
open Lib.CInt Lib.Runs

namespace Dmacftu

namespace Band

open Session

/-- The events of a run, on whichever device. -/
def State.events (st : State) : List Event := st.log.map Prod.snd

/-- A request whose pages a copy may write: its array is not freed, and was pinned
for writing, with at least a page. -/
def Writable (log : List Event) (mm : Mm) (req : RequestCopy) : Prop :=
  req.Countable ∧ 0 < req.nr_pages ∧
    ∀ a, req.pages = some a → a.id ∉ mm.freed ∧ ∃ write, .pinned a.id req.releases write ∈ log ∧ write ≠ 0

/-- The step condition: a copy to user space has a writable request, an unload finds
an array that is not freed, and one that leaves the pages clean releases none that
was written. -/
def Intends (type_measure : Nat) (st : State) (c : Call) : Prop :=
  (∀ w p, c.op.Submits c.env (st.vector_mb c.dev) w p → p.dir = .to_user →
    Writable st.events st.mm ((st.vector_mb c.dev).req w)) ∧
  UnloadsLive type_measure st c ∧ ∀ q, c.op = .ioctl (.MB_UNLOAD (some q)) → q.write = 0 → ∀ w, which type_measure = some w →
    ∀ a, ((st.vector_mb c.dev).req w).pages = some a → ∀ live e, .submitted .to_user a.id live e ∈ st.events →
      e.page ∉ (refresh st.mm c.env.stale ((st.vector_mb c.dev).req w)).releases

/-- What holds of the account between calls. -/
structure Account (log : List Event) (mm : Mm) : Prop where
  intent : WriteIntent log
  submitted_lt : ∀ dir id live e, .submitted dir id live e ∈ log → id < mm.allocs
  released_freed : ∀ id ps dirty, .released id ps dirty ∈ log → id ∈ mm.freed

/-- What holds of a request between calls. -/
structure Request (mm : Mm) (req : RequestCopy) : Prop where
  user_base_lt : req.user_base < 2 ^ 64
  kernel_base_lt : req.kernel_base < 2 ^ 64
  len_lt : req.len < 2 ^ 64
  array_lt : ∀ a, req.pages = some a → a.id < mm.allocs
  pinned : ∀ a, req.pages = some a → a.id ∉ mm.freed → ∃ penv, req.PinnedBy penv

variable {log evs : List Event} {mm mm' : Mm} {req : RequestCopy}

theorem Request.mono (h : Request mm req) (hallocs : mm.allocs ≤ mm'.allocs) (hfreed : ∀ id ∈ mm.freed, id ∈ mm'.freed) :
    Request mm' req := by
  refine ⟨h.user_base_lt, h.kernel_base_lt, h.len_lt, ?_, ?_⟩
  · intro a ha
    exact Nat.lt_of_lt_of_le (h.array_lt a ha) hallocs
  · intro a ha hlive
    exact h.pinned a ha fun hf => hlive (hfreed _ hf)

/-- Events that neither submit nor release anything. -/
theorem Account.idle (h : Account log mm) (evs : List Event) (hevs : ∀ ev ∈ evs, ev.Idle) : Account (log ++ evs) mm := by
  have hsub : ∀ dir id live e, .submitted dir id live e ∈ log ++ evs → .submitted dir id live e ∈ log := by
    intro dir id live e he
    exact (List.mem_append.1 he).resolve_right fun he => hevs _ he
  have hrel : ∀ id ps dirty, .released id ps dirty ∈ log ++ evs → .released id ps dirty ∈ log := by
    intro id ps dirty hr
    exact (List.mem_append.1 hr).resolve_right fun hr => hevs _ hr
  refine ⟨?_, ?_, ?_⟩
  · intro id live e he
    obtain ⟨hlive, ⟨ps, write, hp, hmem, hwrite⟩, hr⟩ := h.intent id live e (hsub _ _ _ _ he)
    exact ⟨hlive, ⟨ps, write, List.mem_append_left _ hp, hmem, hwrite⟩, fun ps dirty hd => hr ps dirty (hrel _ _ _ hd)⟩
  · intro dir id live e he
    exact h.submitted_lt _ _ _ _ (hsub _ _ _ _ he)
  · intro id ps dirty hr
    exact h.released_freed _ _ _ (hrel _ _ _ hr)

theorem Account.mono (h : Account log mm) (hallocs : mm.allocs ≤ mm'.allocs) (hfreed : ∀ id ∈ mm.freed, id ∈ mm'.freed) :
    Account log mm' := by
  refine ⟨h.intent, ?_, ?_⟩
  · intro dir id live e he
    exact Nat.lt_of_lt_of_le (h.submitted_lt _ _ _ _ he) hallocs
  · intro id ps dirty hr
    exact hfreed _ (h.released_freed _ _ _ hr)

/-- A release of an array, which no clean release of a written page may be. -/
theorem Account.released (h : Account log mm) (id : Nat) (ps : List Page) (dirty : Int)
    (hclean : dirty = 0 → ∀ live e, .submitted .to_user id live e ∈ log → e.page ∉ ps) (hid : id ∈ mm.freed) :
    Account (log ++ [.released id ps dirty]) mm := by
  have hsub : ∀ dir id' live e, .submitted dir id' live e ∈ log ++ [.released id ps dirty] →
      .submitted dir id' live e ∈ log := by
    simp
  refine ⟨?_, ?_, ?_⟩
  · intro id' live e he
    have he := hsub _ _ _ _ he
    obtain ⟨hlive, ⟨ps', write, hp, hmem, hwrite⟩, hr⟩ := h.intent id' live e he
    refine ⟨hlive, ⟨ps', write, List.mem_append_left _ hp, hmem, hwrite⟩, ?_⟩
    intro ps'' dirty' hd hpage
    rcases List.mem_append.1 hd with hd | hd
    · exact hr ps'' dirty' hd hpage
    · cases List.mem_singleton.1 hd
      intro h0
      exact hclean h0 live e he hpage
  · intro dir id' live e he
    exact h.submitted_lt _ _ _ _ (hsub _ _ _ _ he)
  · intro id' ps' dirty' hr
    rcases List.mem_append.1 hr with hr | hr
    · exact h.released_freed _ _ _ hr
    · cases List.mem_singleton.1 hr
      exact hid

/-- The copies of a request whose pages they may write. -/
theorem Account.copied (h : Account log mm) {p : PolicyCopy} {env : DmaEnv} {fuel : Nat} {hw : Hw} (hreq : Request mm req)
    (hwritable : 0 < req.len → p.chan ≠ none → p.dir = .to_user → Writable log mm req) :
    Account (log ++ copyEvents mm p env fuel req hw) mm := by
  unfold copyEvents
  split
  next hcopies =>
    obtain ⟨hpos, hchan⟩ := hcopies
    have hrel : ∀ id ps dirty, .released id ps dirty ∈
        log ++ submitEvents mm p.dir env fuel { req with chan := p.chan } hw → .released id ps dirty ∈ log := by
      simp [mem_submitEvents]
    refine ⟨?_, ?_, fun id ps dirty hr => h.released_freed _ _ _ (hrel _ _ _ hr)⟩
    · intro id live e he
      rcases List.mem_append.1 he with he | he
      · obtain ⟨hlive, ⟨ps, write, hp, hmem, hwrite⟩, hr⟩ := h.intent id live e he
        exact ⟨hlive, ⟨ps, write, List.mem_append_left _ hp, hmem, hwrite⟩, fun ps dirty hd => hr ps dirty (hrel _ _ _ hd)⟩
      · obtain ⟨a, ha, e', he, heq⟩ := mem_submitEvents.1 he
        simp only [Event.submitted.injEq] at heq
        obtain ⟨hdir, rfl, rfl, rfl⟩ := heq
        obtain ⟨hcount, h0, hpages⟩ := hwritable hpos hchan hdir.symm
        obtain ⟨hlive, write, hp, hwrite⟩ := hpages a ha
        obtain ⟨penv, hpin⟩ := hreq.pinned a ha hlive
        have hpage := subs_released hpin hcount hreq.user_base_lt hreq.kernel_base_lt hreq.len_lt hpos h0 e he
        refine ⟨decide_eq_true hlive, ⟨_, write, List.mem_append_left _ hp, hpage, hwrite⟩, ?_⟩
        -- an array that is not freed was not released before
        intro ps dirty hr
        exact absurd (h.released_freed _ _ _ (hrel _ _ _ hr)) hlive
    · intro dir id live e he
      rcases List.mem_append.1 he with he | he
      · exact h.submitted_lt _ _ _ _ he
      · obtain ⟨a, ha, _, -, heq⟩ := mem_submitEvents.1 he
        cases heq
        exact hreq.array_lt a ha
  · simpa using h

/-- A pin and what it leaves. -/
theorem Account.pinned (h : Account log mm) {r : PinResult × RequestCopy × Mm} (hends : PinEnds mm r) (write : Int) :
    Account (log ++ pinEvents write r.1 r.2.1) r.2.2 ∧ mm.allocs ≤ r.2.2.allocs ∧ (∀ id ∈ mm.freed, id ∈ r.2.2.freed) ∧
      ∀ a, r.2.1.pages = some a → a.id < r.2.2.allocs ∧ (a.id ∉ r.2.2.freed → ∃ penv, r.2.1.PinnedBy penv) := by
  obtain ⟨res, req, mm'⟩ := r
  rcases hends with ⟨hfail, hnone, hmm⟩ | ⟨hfail, hup⟩ | ⟨hok, ht⟩
  · dsimp only at hfail hnone hmm
    subst hmm
    have hevs : pinEvents write res req = [] := by
      cases res <;> simp_all [pinEvents, unpinEvents]
    simp [hevs, hnone, h]
  · obtain ⟨a, ha, hid⟩ := hup.id
    dsimp only at hfail ha hid
    subst hfail
    have hfreed : ∀ id ∈ mm.freed, id ∈ mm'.freed := by
      intro id hid
      rw [hup.freed]
      exact List.mem_append_left _ hid
    have hself : a.id ∈ mm'.freed := by
      rw [hup.freed, hid]
      exact List.mem_append_right _ (List.mem_singleton_self _)
    have hallocs : mm.allocs ≤ mm'.allocs := by
      rw [hup.allocs]
      exact Nat.le_succ _
    refine ⟨?_, hallocs, hfreed, ?_⟩
    · simp only [pinEvents, unpinEvents, ha]
      have hpin := h.idle [.pinned a.id req.releases write] (by simp [Event.Idle])
      have hrel := (hpin.mono hallocs hfreed).released a.id req.releases SET_DIRTY_OFF ?_ hself
      · simpa using hrel
      · -- nothing was submitted for an array that was not allocated
        intro _ live e he
        have := hpin.submitted_lt _ _ _ _ he
        omega
    · intro b hb
      cases ha.symm.trans hb
      refine ⟨?_, fun hlive => absurd hself hlive⟩
      rw [hid, hup.allocs]
      exact Nat.lt_succ_self _
  · obtain ⟨a, ha, hid⟩ := ht.id
    dsimp only at hok ha hid
    subst hok
    have hallocs : mm.allocs ≤ mm'.allocs := by
      rw [ht.allocs]
      exact Nat.le_succ _
    have hfreed : ∀ id ∈ mm.freed, id ∈ mm'.freed := by
      intro id hid
      rw [ht.freed]
      exact hid
    refine ⟨(h.idle _ ?_).mono hallocs hfreed, hallocs, hfreed, ?_⟩
    · intro ev hev
      obtain ⟨_, -, rfl⟩ := mem_pinEvents_successful.1 hev
      trivial
    · intro b hb
      cases ha.symm.trans hb
      refine ⟨?_, fun _ => ht.pinned⟩
      rw [hid, ht.allocs]
      exact Nat.lt_succ_self _

/-- What holds between calls. -/
structure Intended (st : State) : Prop where
  account : Account st.events st.mm
  kernel_buf_lt : ∀ k, (st.vector_mb k).kernel_buf < 2 ^ 64
  req : ∀ k w, Request st.mm ((st.vector_mb k).req w)

theorem refresh_of_live {stale : Nat → Page} (hlive : ∀ a, req.pages = some a → a.id ∉ mm.freed) :
    refresh mm stale req = req := by
  obtain ⟨chan, user_base, kernel_base, len, pages, nr_pages, dma_cookie, status⟩ := req
  cases pages with
  | none => rfl
  | some a =>
    have ha := hlive a rfl
    simp [refresh, ha]

theorem Request.refresh (h : Request mm req) (stale : Nat → Page) : Request mm (refresh mm stale req) := by
  refine ⟨h.user_base_lt, h.kernel_base_lt, h.len_lt, ?_, ?_⟩
  · intro a ha
    obtain ⟨a', ha', rfl⟩ := Option.map_eq_some_iff.1 ha
    have := h.array_lt a' ha'
    split <;> exact this
  · intro a ha hlive
    obtain ⟨a', ha', rfl⟩ := Option.map_eq_some_iff.1 ha
    have hid : a'.id ∉ mm.freed := by
      split at hlive <;> exact hlive
    have hall : ∀ b, req.pages = some b → b.id ∉ mm.freed := by
      intro b hb
      cases ha'.symm.trans hb
      exact hid
    rw [refresh_of_live hall]
    exact h.pinned a' ha' hid

/-- A copy that a call makes, also one that does not come back. -/
theorem Intended.copied {type_measure : Nat} {st : State} {c : Call} (h : Intended st) (hi : Intends type_measure st c)
    {w : Which} {p : PolicyCopy} (hpolicy : c.op.policy c.env (st.vector_mb c.dev) = some (w, p)) :
    Account (st.events ++ copyEvents st.mm p c.env.env c.env.fuel
      (refresh st.mm c.env.stale ((st.vector_mb c.dev).req w)) c.env.hw) st.mm := by
  apply h.account.copied ((h.req c.dev w).refresh _)
  intro hpos hchan hdir
  have hw := hi.1 w p ⟨hpolicy, hpos, hchan⟩ hdir
  rw [refresh_of_live fun a ha => (hw.2.2 a ha).1]
  exact hw

/-- A call, by its effect. -/
theorem Effect.intended {type_measure : Nat} {st : State} {c : Call} (h : Intended st) (hi : Intends type_measure st c)
    {b_data' : BenchmarkData} {s : Session}
    (heff : Effect type_measure c.env (st.vector_mb c.dev) st.mm c.op b_data' s) :
    Account (st.events ++ s.log) s.mm ∧ Frame (st.vector_mb c.dev) b_data' ∧
      ∀ k w, Request s.mm ((Function.update st.vector_mb c.dev b_data' k).req w) := by
  have hframe : Frame (st.vector_mb c.dev) (st.vector_mb c.dev) := ⟨rfl, rfl, rfl⟩
  have hsame := h.req
  rw [← Function.update_eq_self c.dev st.vector_mb] at hsame
  obtain ⟨dev, e, op⟩ := c
  dsimp only at heff hsame hframe ⊢
  cases heff with
  | refused => exact ⟨by simpa using h.account, hframe, hsame⟩
  | cpu => exact ⟨h.account.idle _ (by simp [Event.Idle]), hframe, hsame⟩
  | @copied _ w p ret req hw _ hpolicy hrun hstored _ =>
    refine ⟨?_, hstored.frame, update_reqs h.req hstored ?_ fun _ => id⟩
    · have hcopied := h.copied hi hpolicy
      have hret := hcopied.idle [.returned ret req.status] (by simp [Event.Idle])
      simpa using hret
    · -- the copy leaves the pages of its request alone
      obtain ⟨chan, cookie, status, hreq⟩ := PolicyCopy.run_req hrun
      dsimp only at hreq
      have hold := (h.req dev w).refresh e.stale
      rw [hreq]
      refine ⟨hold.user_base_lt, hold.kernel_base_lt, hold.len_lt, hold.array_lt, ?_⟩
      intro a ha hlive
      obtain ⟨penv, hpin⟩ := hold.pinned a ha hlive
      exact ⟨penv, hpin.nr_pages, hpin.pages⟩
  | @filled q =>
    have hstored := stored_loading (st.vector_mb dev) q.len q.buf_user
    exact ⟨h.account.idle _ (by simp [Event.Idle]), hstored.frame, update_reqs h.req hstored (h.req dev _) fun _ => id⟩
  | @loaded q w r _ _ hends _ hreq hstored _ =>
    have hfilled : Account (st.events ++ [.filled (st.vector_mb dev).kernel_buf (s32 q.len)]) st.mm :=
      h.account.idle _ (by simp [Event.Idle])
    obtain ⟨haccount, hallocs, hfreed, hpages⟩ := hfilled.pinned hends q.write
    obtain ⟨hub, hkb, hlen⟩ := hreq
    refine ⟨by simpa using haccount, hstored.frame, update_reqs h.req hstored ?_ fun _ hr => hr.mono hallocs hfreed⟩
    · refine ⟨hub ▸ q.buf_user_lt, hkb ▸ h.kernel_buf_lt dev, hlen ▸ q.len_lt, ?_, ?_⟩
      · exact fun a ha => (hpages a ha).1
      · exact fun a ha => (hpages a ha).2
  | @unloaded q w hwhich =>
    cases ha : (refresh st.mm e.stale ((st.vector_mb dev).req w)).pages with
    | none =>
      simp only [Session.unpin, unpin_none ha, unpinEvents, ha, List.append_nil]
      exact ⟨h.account, hframe, hsame⟩
    | some a =>
      obtain ⟨hallocs, hfreed, -⟩ := unpin_some st.mm _ ha (if q.write = 0 then SET_DIRTY_OFF else SET_DIRTY_ON)
      have hmore : ∀ id ∈ st.mm.freed, id ∈ (dma_unpin_user_pages st.mm (refresh st.mm e.stale ((st.vector_mb dev).req w))
          (if q.write = 0 then SET_DIRTY_OFF else SET_DIRTY_ON)).freed := by
        intro id hid
        rw [hfreed]
        exact List.mem_append_left _ hid
      simp only [Session.unpin, unpinEvents, ha, List.nil_append]
      refine ⟨(h.account.mono (Nat.le_of_eq hallocs.symm) hmore).released _ _ _ ?_ ?_, hframe, ?_⟩
      · -- released clean: `Intends` says that nothing was written for the array
        intro hclean live e' he
        have hwrite : q.write = 0 := by
          by_contra hne
          rw [if_neg hne] at hclean
          cases hclean
        obtain ⟨a', ha', hid⟩ := Option.map_eq_some_iff.1 ha
        have hsame : a.id = a'.id := by
          rw [← hid]
          split <;> rfl
        exact hi.2.2 q rfl hwrite w hwhich a' ha' live e' (hsame ▸ he)
      · rw [hfreed]
        exact List.mem_append_right _ (List.mem_singleton_self _)
      · exact fun k w => (hsame k w).mono (Nat.le_of_eq hallocs.symm) hmore

theorem call_intended {type_measure : Nat} {st st' : State} {c : Call} (h : Intended st)
    (hi : Intends type_measure st c) (hc : call type_measure st c = some st') : Intended st' := by
  obtain ⟨⟨ret, b_data', s⟩, hrun, rfl⟩ := Option.map_eq_some_iff.1 hc
  obtain ⟨haccount, hframe, hreq⟩ := (Op.run_effect hrun).intended h hi
  refine ⟨?_, ?_, hreq⟩
  · simpa [State.events, Function.comp_def] using haccount
  · intro k
    by_cases hk : k = c.dev
    · subst hk
      simpa [hframe.kernel_buf] using h.kernel_buf_lt _
    · simpa [hk] using h.kernel_buf_lt k

theorem zero_request (mm : Mm) : Request mm zeroReq := ⟨by decide, by decide, by decide, nofun, nofun⟩

theorem init_intended (m : BootMem) (type_id : Nat) (mm : Mm) : Intended (init_all_micro_bench m type_id mm) := by
  refine ⟨⟨?_, ?_, ?_⟩, ?_, ?_⟩
  · exact intent_of_not_submitted (by simp [State.events, init_all_micro_bench])
  · simp [State.events, init_all_micro_bench]
  · simp [State.events, init_all_micro_bench]
  · intro k
    have hfits := m.slice_fits k
    have hpos : 0 < m.temp_size := m.temp_size_pos
    show m.base k < 2 ^ 64
    omega
  · intro k w
    cases w <;> exact zero_request mm

/-- The run theorem: also for what a call has submitted that is still under way. -/
theorem band_intent (m : BootMem) (type_id type_measure : Nat) {mm : Mm} {calls : List Call} {st : State}
    (hcalls : along (call type_measure) (Intends type_measure) (init_all_micro_bench m type_id mm) calls)
    (h : exec (call type_measure) (init_all_micro_bench m type_id mm) calls = some st) :
    WriteIntent st.events ∧ ∀ c, Intends type_measure st c → WriteIntent (st.events ++ c.underway st) := by
  have hst := exec_inv_along Intended (fun _ _ _ => call_intended) (init_intended m type_id mm) hcalls h
  refine ⟨hst.account.intent, ?_⟩
  intro c hc
  unfold Call.underway
  split
  · simpa using hst.account.intent
  next hpolicy => exact (hst.copied hc hpolicy).intent

end Band

/-! ## All callers -/

/-- Where a copy writes pages that were pinned for writing and are released dirty:
the boot-time copies exactly if a pin that succeeds counts a page, the Msg benchmark
and the Cache benchmark's write always, the Cache benchmark's read exactly if it
submits nothing, the Band benchmark in every run in which the callers see to it. The
first clause is about chunk loops that do not come back as well. -/
theorem write_intent_iff (env : DmaEnv) (fuel : Nat) (req_cpy_local : RequestCopy) (hw : Hw) (mm : Mm) (c : Caller)
    (cpu : Cpu) (cache : Cache.BenchmarkData) (msg : Msg.BenchmarkData) (ms : Nat → Msg.Measure) (type_msg : Int)
    (buf len : Nat) (m : Band.BootMem) (type_id type_measure : Nat)
    (hreq : req_cpy_local.user_base < 2 ^ 64 ∧ req_cpy_local.kernel_base < 2 ^ 64 ∧ req_cpy_local.len < 2 ^ 64)
    (hbuf : buf < 2 ^ 64) (hmsg : msg.kernel_buf < 2 ^ 64 ∧ msg.kernel_size ∈ bootSizes)
    (hmm : ∀ id ∈ mm.freed, id < mm.allocs) :
    (∀ penv (dir : Direction), req_cpy_local.PinnedBy penv → req_cpy_local.Countable → 0 < req_cpy_local.len →
      0 < req_cpy_local.nr_pages → ∀ e ∈ dir.subs env fuel req_cpy_local hw, e.page ∈ req_cpy_local.releases) ∧
    (∀ r, Session.dma_copy_to_user env fuel req_cpy_local hw ⟨mm, []⟩ = some r →
      (WriteIntent r.2.2.2.log ↔ (0 < req_cpy_local.len → env.chan ≠ none →
        (dma_pin_user_pages env.pin mm { req_cpy_local with chan := env.chan } PIN_WRITE 0).1 = .PIN_SUCCESSFUL →
        0 < nr_pages_of req_cpy_local.user_base req_cpy_local.len))) ∧
    (∀ r, Session.dma_copy_from_user env fuel req_cpy_local hw ⟨mm, []⟩ = some r → WriteIntent r.2.2.2.log) ∧
    (∀ r, Msg.benchmark_driver_write cpu type_msg ms fuel msg buf len ⟨mm, []⟩ = some r → WriteIntent r.2.2.log) ∧
    (∀ r, Cache.benchmark_driver_write c cpu env fuel cache buf len hw ⟨mm, []⟩ = some r → WriteIntent r.2.2.2.log) ∧
    (∀ r, Cache.benchmark_driver_read c cpu env fuel cache buf len hw ⟨mm, []⟩ = some r →
      (WriteIntent r.2.2.2.log ↔ ¬ Cache.ReadSubmits c env cache buf len mm)) ∧
    ∀ calls st, along (Band.call type_measure) (Band.Intends type_measure) (Band.init_all_micro_bench m type_id mm) calls →
      exec (Band.call type_measure) (Band.init_all_micro_bench m type_id mm) calls = some st →
      WriteIntent st.events ∧ ∀ c, Band.Intends type_measure st c → WriteIntent (st.events ++ c.underway st) := by
  obtain ⟨hb, hk, hl⟩ := hreq
  refine ⟨?_, ?_, ?_, ?_, ?_, ?_, ?_⟩
  · intro penv dir hpin hcount hpos h0
    exact subs_released hpin hcount hb hk hl hpos h0
  · exact fun r h => to_user_intent hb hk hl hmm h
  · exact fun r h => from_user_intent h
  · exact fun r h => Msg.write_intent hbuf hmsg.1 hmsg.2 hmm h
  · exact fun r h => Cache.write_intent h
  · exact fun r h => Cache.read_intent h
  · exact fun calls st hcalls h => Band.band_intent m type_id type_measure hcalls h

theorem write_intent_iff_prompt : ∃ r, Session.dma_copy_to_user promptEnv 2 (init_req_copy 4096 sampleBuf 8) bootSt.hw
    ⟨bootMm, []⟩ = some r ∧ (WriteIntent r.2.2.2.log ↔ (0 < 8 → promptEnv.chan ≠ none →
      (dma_pin_user_pages promptEnv.pin bootMm { init_req_copy 4096 sampleBuf 8 with chan := promptEnv.chan } PIN_WRITE
        0).1 = .PIN_SUCCESSFUL → 0 < nr_pages_of 4096 8)) := by
  have hsome : (Session.dma_copy_to_user promptEnv 2 (init_req_copy 4096 sampleBuf 8) bootSt.hw
      ⟨bootMm, []⟩).isSome = true := by
    decide
  obtain ⟨r, hr⟩ := Option.isSome_iff_exists.1 hsome
  exact ⟨r, hr, (write_intent_iff promptEnv 2 (init_req_copy 4096 sampleBuf 8) bootSt.hw bootMm sampleCaller idleCpu
    sampleCache Msg.sampleMsg (fun _ => ⟨sampleCaller, promptEnv, bootSt.hw, 0, 0⟩) 2 4096 8 Band.sampleBoot 2 2
    (by decide) (by decide) (by decide) nofun).2.1 r hr⟩

/-- The Cache benchmark's read pins its buffer for reading, writes it, and releases
it clean. -/
theorem read_pins_for_reading :
    ∃ r, Cache.benchmark_driver_read sampleCaller idleCpu promptEnv 2 sampleCache 4096 8 bootSt.hw ⟨bootMm, []⟩ = some r ∧
      ¬ WriteIntent r.2.2.2.log := by
  have hlog : (Cache.benchmark_driver_read sampleCaller idleCpu promptEnv 2 sampleCache 4096 8 bootSt.hw
      ⟨bootMm, []⟩).map (fun r => r.2.2.2.log) = some [.pinned 0 [2] 0, .submitted .to_user 0 true ⟨1, 0, 2, 0, sampleBuf, 8⟩,
        .returned 0 .DMA_SUCCESS, .released 0 [2] 0] := by
    decide
  obtain ⟨r, hr, he⟩ := Option.map_eq_some_iff.1 hlog
  refine ⟨r, hr, fun h => ?_⟩
  rw [he] at h
  obtain ⟨-, -, hreleased⟩ := h 0 true ⟨1, 0, 2, 0, sampleBuf, 8⟩ (by simp)
  exact hreleased [2] 0 (by simp) (by simp) rfl

end Dmacftu
