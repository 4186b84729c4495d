import Dmacftu.Policy
import Dmacftu.UserCopy
/-!
# Copies of a request the caller has pinned

`_dma_copy_from_user_*` and `_dma_copy_to_user_*` of the three policies: each
looks up its policy's channel and leaves the rest to the chunk loop and the
wait. They return 0 whatever the wait's outcome; `PolicyCopy.zero_iff` says when
that means that the transfer is complete.

A `Session` is what the drivers go through from a pin to the unpin: the
memory management's state, and an account of what was pinned, submitted and
released on the way. The account is for the proofs; no step looks at it.
-/
open Lib.CInt Lib.CopyEngine

namespace Dmacftu

/-! ## The copies -/

/-- Which side is the destination. -/
inductive Direction where
  | from_user
  | to_user
  deriving DecidableEq, Repr

/-- How the chunk loop submits a descriptor. -/
def Direction.submit : Direction → SubmitFn
  | .from_user => dma_async_memcpy_pg_to_buf
  | .to_user => dma_async_memcpy_buf_to_pg

/-- The chunk loop and the wait. -/
def Direction.pinned : Direction → CopyFn
  | .from_user => Pinned.dma_copy_from_user
  | .to_user => Pinned.dma_copy_to_user

theorem Direction.pinned_eq (dir : Direction) : dir.pinned = copyPinned dir.submit := by
  cases dir <;> rfl

/-- A copy under a policy: its direction, and what the policy's lookup returns. -/
structure PolicyCopy where
  dir : Direction
  chan : Option Nat

def PolicyCopy.run (p : PolicyCopy) (env : DmaEnv) (fuel : Nat) (req_cpy_local : RequestCopy) (hw : Hw) :
    Option (Int × RequestCopy × Hw) :=
  if req_cpy_local.len > 0 then
    let req_cpy_local := { req_cpy_local with chan := p.chan }
    if req_cpy_local.chan = none then some (-EBUSY, req_cpy_local, hw)
    -- the loop reads `pages[page_index]`
    else if req_cpy_local.pages = none then none
    else p.dir.pinned env fuel req_cpy_local hw
  else some (0, req_cpy_local, hw)

/-- What the lookups see: the policies' state, and the CPU the caller is on. -/
structure Caller where
  board : Dmaengine.Board
  policy : Policy.State
  cpu : Nat

namespace Caller

variable (c : Caller)

def chan_sh : Option Nat := Dmaengine.copy_dma_get_channel_sh c.board c.policy.engine c.cpu

def chan_excl : Option Nat := Policy.copy_dma_get_channel_excl c.board c.policy c.cpu

def chan_prio (priority : Nat) : Option Nat := Policy.copy_dma_get_channel_prio c.board c.policy priority

/-- `_dma_copy_from_user_sh`. -/
def dma_copy_from_user_sh : PolicyCopy := ⟨.from_user, c.chan_sh⟩

/-- `_dma_copy_from_user_excl`. -/
def dma_copy_from_user_excl : PolicyCopy := ⟨.from_user, c.chan_excl⟩

/-- `_dma_copy_to_user_sh`. -/
def dma_copy_to_user_sh : PolicyCopy := ⟨.to_user, c.chan_sh⟩

/-- `_dma_copy_to_user_excl`. -/
def dma_copy_to_user_excl : PolicyCopy := ⟨.to_user, c.chan_excl⟩

/-- `_dma_copy_from_user_prio`; its chunk loop `__dma_copy_from_user_prio` has the
body of `__dma_copy_from_user`. -/
def dma_copy_from_user_prio (priority : Nat) : PolicyCopy := ⟨.from_user, c.chan_prio priority⟩

/-- `_dma_copy_to_user_prio`, likewise. -/
def dma_copy_to_user_prio (priority : Nat) : PolicyCopy := ⟨.to_user, c.chan_prio priority⟩

end Caller

/-! ## The outcome of a wait -/

section

variable (env : DmaEnv) (cookie : Int)

/-- The engine as poll `i` of a wait finds it. -/
def DmaEnv.seen (eng : Engine UInt8) : Nat → Engine UInt8
  | 0 => eng.play (env.polls 0).evs
  | i + 1 => (DmaEnv.seen eng i).play (env.polls (i + 1)).evs

/-- What poll `i` makes of the cookie. -/
def DmaEnv.verdict (eng : Engine UInt8) (i : Nat) : DmaStatus :=
  if (env.polls i).late then .DMA_ERROR else (env.polls i).tx_status cookie (env.seen eng i)

/-- Poll `i` ends the wait. -/
structure DmaEnv.EndsAt (eng : Engine UInt8) (i : Nat) : Prop where
  ends : env.verdict cookie eng i ≠ .DMA_IN_PROGRESS
  before : ∀ j < i, env.verdict cookie eng j = .DMA_IN_PROGRESS

/-- The poll that ends the wait comes in time and reports success. -/
def DmaEnv.Succeeds (eng : Engine UInt8) : Prop :=
  ∃ i, env.EndsAt cookie eng i ∧ env.verdict cookie eng i = .DMA_SUCCESS

variable {env cookie}

theorem DmaEnv.EndsAt.unique {eng : Engine UInt8} {i j : Nat} (hi : env.EndsAt cookie eng i)
    (hj : env.EndsAt cookie eng j) : i = j := by
  rcases Nat.lt_trichotomy i j with h | h | h
  · exact absurd (hj.before i h) hi.ends
  · exact h
  · exact absurd (hi.before j h) hj.ends

/-- The engine before poll `i`. -/
def DmaEnv.before (env : DmaEnv) (eng : Engine UInt8) : Nat → Engine UInt8
  | 0 => eng
  | i + 1 => env.seen eng i

theorem DmaEnv.before_play (env : DmaEnv) (eng : Engine UInt8) (i : Nat) :
    (env.before eng i).play (env.polls i).evs = env.seen eng i := by
  cases i <;> rfl

/-- A wait that returns does so at the poll that ends it. -/
theorem sync_wait_spec {fuel : Nat} {hw hw' : Hw} {status : DmaStatus}
    (h : dma_sync_wait env fuel cookie hw = some (status, hw')) :
    ∃ i, env.EndsAt cookie hw.eng i ∧ status = env.verdict cookie hw.eng i ∧ hw'.eng = env.seen hw.eng i := by
  let I : Nat × Hw → Prop := fun s =>
    s.2.eng = env.before hw.eng s.1 ∧ ∀ j < s.1, env.verdict cookie hw.eng j = .DMA_IN_PROGRESS
  refine Lib.Loop.run_inv (I := I)
    (P := fun r => ∃ i, env.EndsAt cookie hw.eng i ∧ r.1 = env.verdict cookie hw.eng i ∧ r.2.eng = env.seen hw.eng i)
    ?_ ?_ (s := (0, hw)) ⟨rfl, fun j hj => absurd hj (Nat.not_lt_zero j)⟩ h
  · rintro ⟨i, s⟩ ⟨i', s'⟩ ⟨heng, hbefore⟩ hbody
    have hseen : (s.play (env.polls i).evs).eng = env.seen hw.eng i := by
      rw [← env.before_play, ← heng]
      rfl
    simp only [syncWaitBody] at hbody
    split at hbody
    · cases hbody
    next hlate =>
      split at hbody
      · cases hbody
      next hst =>
        cases hbody
        refine ⟨hseen, ?_⟩
        intro j hj
        rcases Nat.lt_succ_iff_lt_or_eq.1 hj with hj | rfl
        · exact hbefore j hj
        · rw [Decidable.not_not, hseen] at hst
          rw [DmaEnv.verdict, if_neg hlate, hst]
  · rintro ⟨i, s⟩ ⟨status, s'⟩ ⟨heng, hbefore⟩ hbody
    have hseen : (s.play (env.polls i).evs).eng = env.seen hw.eng i := by
      rw [← env.before_play, ← heng]
      rfl
    simp only [syncWaitBody] at hbody
    split at hbody
    next hlate =>
      cases hbody
      have hv : env.verdict cookie hw.eng i = .DMA_ERROR := by rw [DmaEnv.verdict, if_pos hlate]
      exact ⟨i, ⟨by simp [hv], hbefore⟩, hv.symm, hseen⟩
    next hlate =>
      split at hbody
      next hst =>
        cases hbody
        have hv : env.verdict cookie hw.eng i = (env.polls i).tx_status cookie (s.play (env.polls i).evs).eng := by
          rw [DmaEnv.verdict, if_neg hlate, hseen]
        exact ⟨i, ⟨hv ▸ hst, hbefore⟩, hv.symm, hseen⟩
      next => cases hbody

theorem sync_wait_success_iff {fuel : Nat} {hw hw' : Hw} {status : DmaStatus}
    (h : dma_sync_wait env fuel cookie hw = some (status, hw')) :
    status = .DMA_SUCCESS ↔ env.Succeeds cookie hw.eng := by
  obtain ⟨i, hi, rfl, -⟩ := sync_wait_spec h
  constructor
  · intro hs
    exact ⟨i, hi, hs⟩
  · rintro ⟨j, hj, hs⟩
    exact hi.unique hj ▸ hs

end

/-! ## What a copy submits -/

/-- A descriptor a chunk loop submitted. -/
structure Sub where
  cookie : Int
  page_index : Nat
  page : Page
  offset : Nat
  kdata : Nat
  len : Nat
  deriving DecidableEq, Repr

/-- What a pass through the chunk loop submits. -/
def chunkSub (submit : SubmitFn) (env : DmaEnv) (pages : Nat → Page) (s : ChunkLoop) : List Sub :=
  let cookie := (submit env (env.attempts s.attempt) s.hw (pages s.page_index) (u32 s.byte_offset) s.tmp_addr_kernel
    (u64 s.copy)).1
  if cookie < 0 then []
  else [⟨cookie, s.page_index, pages s.page_index, u32 s.byte_offset, s.tmp_addr_kernel, u64 s.copy⟩]

theorem chunkSub_eq (submit : SubmitFn) (env : DmaEnv) (pages : Nat → Page) (s : ChunkLoop) :
    chunkSub submit env pages s = if (s.tried submit env pages).1 < 0 then []
      else [⟨(s.tried submit env pages).1, s.page_index, pages s.page_index, u32 s.byte_offset, s.tmp_addr_kernel,
        u64 s.copy⟩] := rfl

/-- The chunk loop's result: the cookie, the bytes left and the channel. -/
def Direction.chunks (dir : Direction) (env : DmaEnv) (fuel : Nat) (req_cpy_local : RequestCopy) (hw : Hw) :
    Option (Int × Nat × Hw) :=
  Lib.Loop.run (chunkBody dir.submit env req_cpy_local.entry) fuel (chunkStart req_cpy_local hw)

/-- The descriptors submitted on the way. -/
def Direction.subs (dir : Direction) (env : DmaEnv) (fuel : Nat) (req_cpy_local : RequestCopy) (hw : Hw) : List Sub :=
  Lib.Loop.outputs (chunkBody dir.submit env req_cpy_local.entry) (chunkSub dir.submit env req_cpy_local.entry) fuel
    (chunkStart req_cpy_local hw)

section

variable {env : DmaEnv} {dir : Direction} {fuel : Nat} {req_cpy_local : RequestCopy} {hw : Hw}

/-- Whatever an attempt comes to, the log only grows, and a cookie is its length. -/
theorem submit_log (dir : Direction) (env : DmaEnv) (att : Attempt) (hw : Hw) (page : Page) (offset kdata len : Nat)
    {r : Int × Hw} (hr : dir.submit env att hw page offset kdata len = r) :
    hw.eng.log <+: r.2.eng.log ∧ (0 ≤ r.1 → r.1 = r.2.eng.log.length) := by
  subst hr
  have hplay : hw.eng.log <+: (hw.eng.play att.evs).log := Task.log_play hw.eng att.evs
  cases dir with
  | from_user =>
    have h := pg_to_buf_outcome env att hw page offset kdata len
    refine ⟨?_, h.cookie⟩
    obtain ⟨-, -, heng⟩ | ⟨-, -, heng⟩ := h
    · exact heng ▸ hplay
    · exact heng ▸ hplay.trans (List.prefix_append _ _)
  | to_user =>
    refine ⟨?_, (memcpyMapped_counts _ _ _ _ _).2⟩
    show _ <+: (memcpyMapped _ _ _ _ _).2.eng.log
    unfold memcpyMapped
    split
    · exact hplay.trans (List.prefix_append _ _)
    · exact hplay.trans (by rw [foldl_unmap_eng]; exact List.prefix_rfl)

/-- The loop is left when no byte is left, with the last of the cookies. -/
theorem chunks_spec {cookie : Int} {left : Nat} {hw₁ : Hw}
    (h : dir.chunks env fuel req_cpy_local hw = some (cookie, left, hw₁)) :
    left = 0 ∧ (∀ e ∈ dir.subs env fuel req_cpy_local hw, e.cookie ≤ cookie) ∧
      ∃ e ∈ dir.subs env fuel req_cpy_local hw, e.cookie = cookie := by
  let I : ChunkLoop → List Sub → Prop := fun s es => ∀ e ∈ es, e.cookie ≤ s.hw.eng.log.length
  let P : Int × Nat × Hw → List Sub → Prop := fun r es =>
    r.2.1 = 0 ∧ (∀ e ∈ es, e.cookie ≤ r.1) ∧ ∃ e ∈ es, e.cookie = r.1
  -- a pass keeps the cookies within the log
  have hpass : ∀ s es, I s es → ∀ e ∈ es ++ chunkSub dir.submit env req_cpy_local.entry s,
      e.cookie ≤ (s.tried dir.submit env req_cpy_local.entry).2.eng.log.length := by
    intro s es hs e he
    obtain ⟨hlog, hcookie⟩ := submit_log dir env (env.attempts s.attempt) s.hw _ _ _ _ rfl
    have hle := hlog.length_le
    rcases List.mem_append.1 he with he | he
    · have := hs e he
      exact Int.le_trans this (Int.ofNat_le.2 hle)
    · rw [chunkSub_eq] at he
      split at he
      · cases he
      next hneg =>
        obtain rfl := List.mem_singleton.1 he
        exact Int.le_of_eq (hcookie (Int.not_lt.1 hneg))
  refine Lib.Loop.run_outputs (I := I) (P := P) ?_ ?_ [] (by simp [I]) h
  · intro s s' es hs hbody
    have hle := hpass s es hs
    rw [← chunkBody_inl hbody] at hle
    exact hle
  · intro s r es hs hbody
    obtain ⟨h0, rfl⟩ := chunkBody_inr hbody
    have hc := (submit_log dir env (env.attempts s.attempt) s.hw _ _ _ _ rfl).2 h0
    have hlast : (s.tried dir.submit env req_cpy_local.entry).1 ∈
        (chunkSub dir.submit env req_cpy_local.entry s).map Sub.cookie := by
      rw [chunkSub_eq, if_neg (Int.not_lt.2 h0), List.map_singleton]
      exact List.mem_singleton_self _
    obtain ⟨e, he, hcookie⟩ := List.mem_map.1 hlast
    refine ⟨rfl, fun e he => ?_, e, List.mem_append_right _ he, hcookie⟩
    exact Int.le_trans (hpass s es hs e he) (Int.le_of_eq hc.symm)

/-- The descriptor of the chunk that starts at byte `m` of the request. -/
def Sub.IsChunk (e : Sub) (req_cpy_local : RequestCopy) (m : Nat) : Prop :=
  e.page_index = req_cpy_local.pageIndex m ∧ e.page = req_cpy_local.entry (req_cpy_local.pageIndex m) ∧
    e.offset = req_cpy_local.offset m ∧ e.kdata = u64 (req_cpy_local.kernel_base + m : Nat) ∧
    e.len = req_cpy_local.chunkLen m

/-- Below `2 ^ 31` bytes every descriptor is a chunk of the request. -/
theorem subs_chunks (hlen : req_cpy_local.len < 2 ^ 31) (hpos : 0 < req_cpy_local.len)
    (hk : req_cpy_local.kernel_base < 2 ^ 64) :
    ∀ e ∈ dir.subs env fuel req_cpy_local hw, ∃ m < req_cpy_local.len, e.IsChunk req_cpy_local m := by
  let I : ChunkLoop → Prop := fun s => ∃ m k hw, m < req_cpy_local.len ∧ s = req_cpy_local.chunkAt m k hw
  refine Lib.Loop.outputs_inv (I := I) ?_ ?_ ⟨0, 0, hw, hpos, RequestCopy.chunkStart_eq hlen hk hw⟩
  · rintro s s' ⟨m, k, hw, hm, rfl⟩ hbody
    rcases chunkAt_inl hlen hm hbody with ⟨-, rfl⟩ | ⟨-, hlt, rfl⟩
    · exact ⟨m, _, _, hm, rfl⟩
    · exact ⟨_, _, _, hlt, rfl⟩
  · rintro s ⟨m, k, hw, hm, rfl⟩ e he
    obtain ⟨h1, h2, h3⟩ := RequestCopy.chunkLen_pos hm
    unfold PAGE_SIZE at h3
    rw [chunkSub_eq] at he
    split at he
    · cases he
    · obtain rfl := List.mem_singleton.1 he
      exact ⟨m, hm, rfl, rfl, u32_of_lt (by omega), rfl, u64_of_lt (by omega)⟩

/-! ## What a copy returns -/

/-- The wait for the last cookie of the request succeeds. -/
def PolicyCopy.WaitSucceeds (p : PolicyCopy) (env : DmaEnv) (fuel : Nat) (req_cpy_local : RequestCopy) (hw : Hw) :
    Prop :=
  ∀ cookie left hw₁, p.dir.chunks env fuel { req_cpy_local with chan := p.chan } hw = some (cookie, left, hw₁) →
    env.Succeeds cookie hw₁.eng

/-- A copy of a pinned request that returns has gone through the chunk loop and the wait. -/
theorem Direction.pinned_spec {r : Int × RequestCopy × Hw} (h : dir.pinned env fuel req_cpy_local hw = some r) :
    ∃ cookie hw₁ status hw₂, dir.chunks env fuel req_cpy_local hw = some (cookie, 0, hw₁) ∧
      dma_sync_wait env fuel cookie hw₁ = some (status, hw₂) ∧
      r = (0, { req_cpy_local with dma_cookie := cookie, status := status }, hw₂) := by
  rw [dir.pinned_eq, copyPinned] at h
  obtain ⟨⟨cookie, left, hw₁⟩, hchunks, h⟩ := Option.bind_eq_some_iff.1 h
  obtain ⟨⟨status, hw₂⟩, hwait, h⟩ := Option.bind_eq_some_iff.1 h
  cases h
  obtain ⟨rfl, -, -⟩ := chunks_spec hchunks
  exact ⟨cookie, hw₁, status, hw₂, hchunks, hwait, rfl⟩

/-- The outcomes of a policy's copy. -/
theorem PolicyCopy.run_cases {p : PolicyCopy} {r : Int × RequestCopy × Hw}
    (h : p.run env fuel req_cpy_local hw = some r) :
    (req_cpy_local.len = 0 ∧ r = (0, req_cpy_local, hw)) ∨
    (0 < req_cpy_local.len ∧ p.chan = none ∧ r = (-EBUSY, { req_cpy_local with chan := p.chan }, hw)) ∨
    (0 < req_cpy_local.len ∧ p.chan ≠ none ∧ req_cpy_local.pages ≠ none ∧
      p.dir.pinned env fuel { req_cpy_local with chan := p.chan } hw = some r) := by
  unfold run at h
  split at h
  next hlen =>
    right
    by_cases hchan : p.chan = none
    · left
      simp only [hchan, if_true] at h
      cases h
      exact ⟨hlen, hchan, by rw [hchan]⟩
    · right
      simp only [hchan, if_false] at h
      split at h
      · cases h
      next hpages => exact ⟨hlen, hchan, hpages, h⟩
  next hlen =>
    cases h
    exact .inl ⟨by omega, rfl⟩

/-- A copy sets the channel, the cookie and the status of the request. -/
theorem PolicyCopy.run_req {p : PolicyCopy} {r : Int × RequestCopy × Hw}
    (h : p.run env fuel req_cpy_local hw = some r) :
    ∃ chan cookie status, r.2.1 = { req_cpy_local with chan := chan, dma_cookie := cookie, status := status } := by
  rcases PolicyCopy.run_cases h with ⟨-, rfl⟩ | ⟨-, -, rfl⟩ | ⟨-, -, -, h⟩
  · exact ⟨_, _, _, rfl⟩
  · exact ⟨_, _, _, rfl⟩
  · obtain ⟨cookie, hw₁, status, hw₂, -, -, rfl⟩ := Direction.pinned_spec h
    exact ⟨_, _, _, rfl⟩

/-- A zero return means a completed transfer exactly if there is no channel (and
so no zero return) or the wait succeeds. -/
theorem PolicyCopy.zero_iff {p : PolicyCopy} (hlen : 1 ≤ req_cpy_local.len) {r : Int × RequestCopy × Hw}
    (h : p.run env fuel req_cpy_local hw = some r) :
    (r.1 = 0 → r.2.1.status = .DMA_SUCCESS) ↔ p.chan = none ∨ p.WaitSucceeds env fuel req_cpy_local hw := by
  rcases PolicyCopy.run_cases h with ⟨h0, -⟩ | ⟨-, hchan, rfl⟩ | ⟨-, hchan, -, h⟩
  · omega
  · exact iff_of_true (fun h => absurd (show -EBUSY = 0 from h) (by decide)) (.inl hchan)
  · obtain ⟨cookie, hw₁, status, hw₂, hc, hsync, rfl⟩ := Direction.pinned_spec h
    have hwait : p.WaitSucceeds env fuel req_cpy_local hw ↔ env.Succeeds cookie hw₁.eng := by
      constructor
      · intro h
        exact h cookie 0 hw₁ hc
      · intro h c left hw' hc'
        cases hc.symm.trans hc'
        exact h
    simp only [hchan, false_or, true_implies]
    rw [sync_wait_success_iff hsync, hwait]

end

def sampleCaller : Caller := ⟨Policy.sampleBoard, Policy.start_policy_sh Policy.sampleBoard Policy.sampleState, 0⟩

/-- `shortEnv` with an engine that is done when the first poll comes. -/
def promptEnv : DmaEnv := { shortEnv with polls := fun _ => ⟨[.run], fun _ _ => .DMA_SUCCESS, false⟩ }

end Dmacftu
