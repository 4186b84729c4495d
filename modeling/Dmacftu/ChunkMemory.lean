import Dmacftu.AddressSpace
import Dmacftu.Chunks
/-!
# The memory the chunk loop leaves

`chunk_copy_memory`: a copy of a pinned request that reports success has moved the
bytes of the request, each to its place, and the descriptors it submitted write
nothing else. Others may use the channel at the same time.

This is about the copies below the pins, so the frames are given by the task's page
table rather than by `get_user_pages`.
-/
open Lib.CInt Lib.CopyEngine

namespace Dmacftu

/-- Where byte `i` of a user range is: `frame` says which page frame is behind a page. -/
def userByte (frame : Nat → Nat) (user_base i : Nat) : Nat :=
  frame ((user_base + i) / PAGE_SIZE) * PAGE_SIZE + (user_base + i) % PAGE_SIZE

/-- The page array names the frames of the user range. They are distinct and apart from
the kernel buffer, which is linearly mapped. -/
structure RequestCopy.Placed (req : RequestCopy) (env : DmaEnv) (frame : Nat → Nat) : Prop where
  pages : ∀ i ≤ req.pageIndex (req.len - 1), env.page_to_pfn (req.entry i) = frame (req.user_base / PAGE_SIZE + i)
  frames : ∀ v ∈ pagesTouched req.user_base req.len, ∀ w ∈ pagesTouched req.user_base req.len, frame v = frame w → v = w
  kernel_linear : Linear req.kernel_base req.len
  disjoint : ∀ i < req.len, ∀ j < req.len, userByte frame req.user_base i ≠ virt_to_phys (req.kernel_base + j)

/-- The channel during a copy: the others' descriptors write only `others`, and a success
is reported only of a completed cookie. `dma_async_memcpy_buf_to_pg` does not look at what
its mappings return: it asks its callers for buffers that can be mapped. -/
structure DmaEnv.Orderly (env : DmaEnv) (dir : Direction) (others : Nat → Prop) : Prop where
  attempts : ∀ k d, Ev.submit d ∈ (env.attempts k).evs → d.Within others
  polls : ∀ i d, Ev.submit d ∈ (env.polls i).evs → d.Within others
  honest : ∀ i cookie e, (env.polls i).tx_status cookie e = .DMA_SUCCESS → cookie ≤ e.done
  mappable : dir = .to_user → ∀ k, (env.attempts k).Mapped

namespace Direction

/-- Where byte `i` of a request comes from and goes to. -/
def byteFrom (dir : Direction) (frame : Nat → Nat) (req : RequestCopy) (i : Nat) : Nat :=
  match dir with
  | .from_user => userByte frame req.user_base i
  | .to_user => virt_to_phys (req.kernel_base + i)

def byteTo (dir : Direction) (frame : Nat → Nat) (req : RequestCopy) (i : Nat) : Nat :=
  match dir with
  | .from_user => virt_to_phys (req.kernel_base + i)
  | .to_user => userByte frame req.user_base i

/-- The descriptor as the engine gets it. -/
def subDesc (dir : Direction) (env : DmaEnv) (e : Sub) : Desc :=
  dir.desc (virt_to_phys e.kdata) (env.page_to_phys e.page + e.offset) e.len

end Direction

namespace RequestCopy.Placed

variable {req : RequestCopy} {env : DmaEnv} {frame : Nat → Nat}

theorem kernel_inj (h : req.Placed env frame) : ∀ i < req.len, ∀ j < req.len,
    virt_to_phys (req.kernel_base + i) = virt_to_phys (req.kernel_base + j) → i = j := by
  intro i hi j hj heq
  rw [h.kernel_linear.virt_to_phys_add (Nat.le_of_lt hi), h.kernel_linear.virt_to_phys_add (Nat.le_of_lt hj)] at heq
  omega

theorem user_inj (h : req.Placed env frame) : ∀ i < req.len, ∀ j < req.len,
    userByte frame req.user_base i = userByte frame req.user_base j → i = j := by
  intro i hi j hj heq
  have hmem : ∀ k < req.len, (req.user_base + k) / PAGE_SIZE ∈ pagesTouched req.user_base req.len := by
    intro k hk
    exact Finset.mem_image.2 ⟨req.user_base + k, Finset.mem_Ico.2 ⟨by omega, by omega⟩, rfl⟩
  have hpage := h.frames _ (hmem i hi) _ (hmem j hj)
  unfold userByte PAGE_SIZE at *
  omega

theorem to_inj (h : req.Placed env frame) (dir : Direction) :
    ∀ i < req.len, ∀ j < req.len, dir.byteTo frame req i = dir.byteTo frame req j → i = j := by
  cases dir with
  | from_user => exact h.kernel_inj
  | to_user => exact h.user_inj

theorem apart (h : req.Placed env frame) (dir : Direction) :
    ∀ i < req.len, ∀ j < req.len, dir.byteTo frame req i ≠ dir.byteFrom frame req j := by
  cases dir with
  | from_user => exact fun i hi j hj heq => h.disjoint j hj i hi heq.symm
  | to_user => exact h.disjoint

/-- The bytes of a chunk are consecutive, at both ends. -/
theorem chunk_bytes (h : req.Placed env frame) {m j : Nat} (hm : m < req.len) (hj : j < req.chunkLen m) :
    env.page_to_phys (req.entry (req.pageIndex m)) + req.offset m + j = userByte frame req.user_base (m + j) ∧
      virt_to_phys (u64 (req.kernel_base + m : Nat)) + j = virt_to_phys (req.kernel_base + (m + j)) := by
  obtain ⟨-, hle, hoff⟩ := RequestCopy.chunkLen_pos hm
  constructor
  · have hidx : req.pageIndex m ≤ req.pageIndex (req.len - 1) := by
      unfold RequestCopy.pageIndex PAGE_SIZE
      omega
    have hframe := h.pages _ hidx
    have hpage : req.user_base / PAGE_SIZE + req.pageIndex m = (req.user_base + (m + j)) / PAGE_SIZE := by
      unfold RequestCopy.pageIndex RequestCopy.offset PAGE_SIZE at *
      omega
    rw [hpage] at hframe
    rw [DmaEnv.page_to_phys, hframe, userByte]
    unfold RequestCopy.offset PAGE_SIZE at *
    omega
  · rw [virt_to_phys_u64]
    exact h.kernel_linear.unbroken m j (by omega)

/-- The next chunk is the next block of the copy. -/
theorem moves (h : req.Placed env frame) (dir : Direction) {m : Nat} (hm : m < req.len) {ds : List Desc}
    (hds : Moves (dir.byteFrom frame req) (dir.byteTo frame req) m ds) (cookie : Int) :
    Moves (dir.byteFrom frame req) (dir.byteTo frame req) (m + req.chunkLen m)
      (ds ++ [dir.subDesc env (req.subAt m cookie)]) := by
  have hlen : (dir.subDesc env (req.subAt m cookie)).len = req.chunkLen m := dir.desc_len _ _ _
  rw [← hlen]
  refine hds.snoc ?_ ?_ ?_
  · rw [hlen]
    exact (RequestCopy.chunkLen_pos hm).1
  · intro j hj
    rw [hlen] at hj
    cases dir with
    | from_user => exact (h.chunk_bytes hm hj).2
    | to_user => exact (h.chunk_bytes hm hj).1
  · intro j hj
    rw [hlen] at hj
    cases dir with
    | from_user => exact (h.chunk_bytes hm hj).1
    | to_user => exact (h.chunk_bytes hm hj).2

end RequestCopy.Placed

/-! ## The loop and the wait -/

section

variable {env : DmaEnv} {dir : Direction} {frame : Nat → Nat} {others : Nat → Prop} {req : RequestCopy} {fuel : Nat}
  {hw : Hw}

/-- The request has submitted these descriptors so far, the last with this cookie, and
they are the first `m` bytes of the copy. -/
structure Chunked (dir : Direction) (env : DmaEnv) (frame : Nat → Nat) (others : Nat → Prop) (req : RequestCopy)
    (e₀ : Engine UInt8) (m : Nat) (cookie : Int) (e : Engine UInt8) (es : List Sub) : Prop where
  moves : Moves (dir.byteFrom frame req) (dir.byteTo frame req) m (es.map (dir.subDesc env))
  carries : ∃ c : Nat, (c : Int) = cookie ∧ Carries others e₀ (es.map (dir.subDesc env)) c e

theorem Chunked.play {e₀ e : Engine UInt8} {m : Nat} {cookie : Int} {es : List Sub}
    (h : Chunked dir env frame others req e₀ m cookie e es) {evs : List Ev}
    (hevs : ∀ d, Ev.submit d ∈ evs → d.Within others) :
    Chunked dir env frame others req e₀ m cookie (e.play evs) es := by
  obtain ⟨c, hc, hcarries⟩ := h.carries
  exact ⟨h.moves, c, hc, hcarries.play hevs⟩

/-- A failed attempt submits nothing, and the next one submits the next block. -/
theorem Chunked.pass (hplaced : req.Placed env frame) (horderly : env.Orderly dir others) {e₀ : Engine UInt8}
    {m k : Nat} {c : Int} {hw : Hw} {es : List Sub} (hm : m < req.len)
    (h : Chunked dir env frame others req e₀ m c hw.eng es) :
    let r := req.submitChunk dir.submit env m k hw
    let es' := es ++ chunkSub dir.submit env req.entry (req.chunkAt m k hw)
    (r.1 < 0 → Chunked dir env frame others req e₀ m c r.2.eng es') ∧
      (0 ≤ r.1 → Chunked dir env frame others req e₀ (m + req.chunkLen m) r.1 r.2.eng es') := by
  intro r es'
  have hplay := h.play (horderly.attempts k)
  have hout : Outcome (env.attempts k) hw (dir.subDesc env (req.subAt m r.1)) r :=
    dir.submit_outcome env (fun hdir => horderly.mappable hdir k) hw _ _ _ _
  have hes : es' = es ++ if r.1 < 0 then [] else [req.subAt m r.1] := by rw [← chunkSub_at hm k hw rfl]
  rw [hes]
  obtain ⟨-, hneg, heng⟩ | ⟨-, hcookie, heng⟩ := hout
  · refine ⟨fun _ => ?_, fun h0 => absurd hneg (Int.not_lt.2 h0)⟩
    rw [if_pos hneg, List.append_nil]
    exact heng ▸ hplay
  · have h0 : 0 ≤ r.1 := hcookie ▸ Int.natCast_nonneg _
    refine ⟨fun hneg => absurd h0 (Int.not_le.2 hneg), fun _ => ?_⟩
    rw [if_neg (Int.not_lt.2 h0)]
    obtain ⟨_, -, hcarries⟩ := hplay.carries
    refine ⟨?_, _, hcookie.symm, ?_⟩
    · rw [List.map_append, List.map_singleton]
      exact hplaced.moves dir hm h.moves r.1
    · rw [List.map_append, List.map_singleton, heng]
      exact hcarries.submit _

/-- What a request leaves in memory. The first two hold however it ends. -/
structure Transferred (dir : Direction) (env : DmaEnv) (frame : Nat → Nat) (others : Nat → Prop) (req : RequestCopy)
    (fuel : Nat) (hw hw' : Hw) (status : DmaStatus) : Prop where
  /-- The channel got the descriptors of the request, and those of others in between. -/
  submitted : ∃ l, hw'.eng.log = hw.eng.log ++ l ∧ Mix others l ((dir.subs env fuel req hw).map (dir.subDesc env))
  inside : ∀ e ∈ dir.subs env fuel req hw, ∀ p, (dir.subDesc env e).Covers p → ∃ k < req.len, dir.byteTo frame req k = p
  arrived : status = .DMA_SUCCESS →
    ∀ k < req.len, hw'.eng.mem (dir.byteTo frame req k) = hw.eng.mem (dir.byteFrom frame req k)
  elsewhere : status = .DMA_SUCCESS →
    ∀ p, ¬ others p → (∀ k < req.len, dir.byteTo frame req k ≠ p) → hw'.eng.mem p = hw.eng.mem p

/-- The chunk loop, when it is left, has submitted the whole request. -/
theorem chunks_chunked (hplaced : req.Placed env frame) (horderly : env.Orderly dir others) (hpos : 1 ≤ req.len)
    (hlen : req.len < 2 ^ 31) (hk : req.kernel_base < 2 ^ 64) (hdone : hw.eng.done ≤ hw.eng.log.length)
    {r : Int × Nat × Hw} (h : dir.chunks env fuel req hw = some r) :
    Chunked dir env frame others req hw.eng req.len r.1 r.2.2.eng (dir.subs env fuel req hw) :=
  (@chunks_acc env dir fuel req hw Sub (chunkSub dir.submit env req.entry)
    (fun m c hw' es => Chunked dir env frame others req hw.eng m c hw'.eng es) hlen hpos hk
    (fun _ _ _ _ _ hm h hneg => (h.pass hplaced horderly hm).1 hneg)
    (fun _ _ _ _ _ hm h h0 => (h.pass hplaced horderly hm).2 h0) hw.eng.log.length
    ⟨.nil, _, rfl, .start hdone⟩).2 r h

theorem pinned_transferred (hplaced : req.Placed env frame) (horderly : env.Orderly dir others) (hpos : 1 ≤ req.len)
    (hlen : req.len < 2 ^ 31) (hidle : Idle others hw.eng)
    (hapart : ∀ k < req.len, ¬ others (dir.byteFrom frame req k) ∧ ¬ others (dir.byteTo frame req k))
    {r : Int × RequestCopy × Hw} (h : dir.pinned env fuel req hw = some r) :
    Transferred dir env frame others req fuel hw r.2.2 r.2.1.status := by
  have hk := hplaced.kernel_linear.lt
  obtain ⟨cookie, hw₁, status, hw₂, hchunks, hwait, rfl⟩ := Direction.pinned_spec h
  obtain ⟨i, -, hstatus, heng⟩ := sync_wait_spec hwait
  have hchunked := chunks_chunked hplaced horderly hpos hlen hk hidle.done_le hchunks
  have hseen : Chunked dir env frame others req hw.eng req.len cookie hw₂.eng (dir.subs env fuel req hw) :=
    heng ▸ @DmaEnv.seen_inv env (fun e => Chunked dir env frame others req hw.eng req.len cookie e _)
      (fun j e hj => hj.play (horderly.polls j)) _ hchunked i
  obtain ⟨hmoves, c, hc, hcarries⟩ := hseen
  obtain ⟨l, tail, hlog, -, hmix, htail⟩ := hcarries.log
  -- a success is one of the last cookie
  have hmem : status = .DMA_SUCCESS → ∀ p, ¬ others p → hw₂.eng.mem p =
      runs ((dir.subs env fuel req hw).map (dir.subDesc env)) hw.eng.mem p := by
    intro hs
    rw [hs, DmaEnv.verdict] at hstatus
    split at hstatus
    next => cases hstatus
    next =>
      have hdone := horderly.honest i cookie _ hstatus.symm
      rw [← heng, ← hc] at hdone
      refine hcarries.memory hidle.pending hidle.done_le (Int.ofNat_le.1 hdone) ?_
      intro d hd p hcov
      obtain ⟨k, hk, -, hsrc⟩ := hmoves.covers hd hcov
      exact hsrc ▸ (hapart k hk).1
  refine ⟨⟨l ++ tail, ?_, ?_⟩, ?_, ?_, ?_⟩
  · rw [hlog, List.append_assoc]
  · have := hmix.append (Mix.of_others htail)
    rwa [List.append_nil] at this
  · intro e he p hcov
    obtain ⟨k, hk, hto, -⟩ := hmoves.covers (List.mem_map_of_mem he) hcov
    exact ⟨k, hk, hto⟩
  · intro hs k hk
    rw [hmem hs _ (hapart k hk).2, hmoves.runs_eq fun i j hij hj => hplaced.apart dir i (Nat.lt_trans hij hj) j hj]
    exact bytes_get (hplaced.to_inj dir) (hplaced.apart dir) hk _
  · intro hs p hp hto
    rw [hmem hs p hp]
    exact hmoves.frame hto _

end

/-- The memory effect of the copies below the pins, in both directions and for both
kinds of requests, and that they return. -/
theorem chunk_copy_memory (dir : Direction) (env : DmaEnv) (frame : Nat → Nat) (others : Nat → Prop)
    (req : RequestCopyPrio) (hw : Hw) (hplaced : req.Placed env frame) (horderly : env.Orderly dir others)
    (hpos : 1 ≤ req.len) (hlen : req.len < 2 ^ 31) (hidle : Idle others hw.eng)
    (hapart : ∀ k < req.len, ¬ others (dir.byteFrom frame req.toRequestCopy k) ∧
      ¬ others (dir.byteTo frame req.toRequestCopy k)) :
    (∀ fuel r, dir.pinned env fuel req.toRequestCopy hw = some r →
      Transferred dir env frame others req.toRequestCopy fuel hw r.2.2 r.2.1.status) ∧
    (∀ fuel r, dir.pinned_prio env fuel req hw = some r →
      Transferred dir env frame others req.toRequestCopy fuel hw r.2.2 r.2.1.status) ∧
    (env.Live → dir.Mappable req.kernel_base req.len → ∃ N, ∀ fuel, N ≤ fuel →
      (dir.pinned env fuel req.toRequestCopy hw).isSome ∧ (dir.pinned_prio env fuel req hw).isSome) := by
  refine ⟨fun fuel r h => pinned_transferred hplaced horderly hpos hlen hidle hapart h, fun fuel r h => ?_, fun hlive hbus => ?_⟩
  · rw [dir.pinned_prio_eq] at h
    obtain ⟨r', hr', rfl⟩ := Option.map_eq_some_iff.1 h
    exact pinned_transferred hplaced horderly hpos hlen hidle hapart hr'
  · have hcount : ∀ m k hw', m < req.len → Counts (env.attempts k) (req.submitChunk dir.submit env m k hw') :=
      fun m k hw' hm => hbus.counts hm env k hw'
    obtain ⟨_, _, _, -, N, hN⟩ := copyPinned_total hlive req.toRequestCopy hlen hpos hplaced.kernel_linear.lt hcount hw
    refine ⟨N, fun fuel hf => ?_⟩
    rw [dir.pinned_prio_eq, dir.pinned_eq, hN fuel hf]
    exact ⟨rfl, rfl⟩

/-- Four bytes over a page boundary, from the frames 5 and 3. -/
def splitReq : RequestCopyPrio :=
  { init_req_copy_prio 8190 sampleBuf 4 0 with pages := some ⟨0, fun i => if i = 0 then 5 else 3⟩ }

def doneEnv : DmaEnv := { shortEnv with
  polls := fun i => ⟨[.run], fun cookie eng => if cookie ≤ eng.done then .DMA_SUCCESS else .DMA_IN_PROGRESS, i == 9⟩ }

theorem splitReq_placed : splitReq.Placed doneEnv fun v => if v = 1 then 5 else 3 where
  pages i hi := by
    have : i ≤ 1 := hi
    rcases Nat.le_one_iff_eq_zero_or_eq_one.1 this with rfl | rfl <;> rfl
  frames := by decide
  kernel_linear := ⟨by decide, by decide⟩
  disjoint := by decide

theorem doneEnv_orderly (dir : Direction) : doneEnv.Orderly dir fun _ => False where
  attempts _ _ h := by cases h
  polls _ _ h := by simp [doneEnv] at h
  honest i cookie e h := by
    simp only [doneEnv] at h
    split at h
    · assumption
    · cases h
  mappable _ _ _ := ⟨rfl, rfl⟩

/-- The first byte of the user range. -/
def splitHw : Hw := { bootSt.hw with eng := ⟨fun p => if p = 24574 then 7 else 0, [], 0⟩ }

theorem chunk_copy_memory_sample : ∃ r, Direction.from_user.pinned_prio doneEnv 3 splitReq splitHw = some r ∧
    r.2.1.status = .DMA_SUCCESS ∧ r.2.2.eng.mem 0x7000 = 7 := by
  obtain ⟨r, hr, hs⟩ : ∃ r, Direction.from_user.pinned_prio doneEnv 3 splitReq splitHw = some r ∧
      r.2.1.status = .DMA_SUCCESS := ⟨_, rfl, rfl⟩
  have h := (chunk_copy_memory .from_user doneEnv (fun v => if v = 1 then 5 else 3) (fun _ => False) splitReq splitHw
    splitReq_placed (doneEnv_orderly .from_user) (by decide) (by decide) ⟨by decide, by simp [splitHw]⟩ (by simp)).2.1 3 r hr
  have h0 := h.arrived hs 0 (by decide)
  have hto : Direction.from_user.byteTo (fun v => if v = 1 then 5 else 3) splitReq.toRequestCopy 0 = 0x7000 := by decide
  have hfrom : Direction.from_user.byteFrom (fun v => if v = 1 then 5 else 3) splitReq.toRequestCopy 0 = 24574 := by
    decide
  rw [hto, hfrom] at h0
  exact ⟨r, hr, hs, h0⟩

end Dmacftu
