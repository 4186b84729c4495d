import Dmacftu.Chunks
import Mathlib.Algebra.BigOperators.Group.Finset.Piecewise
/-!
# Attempts that fail

The chunk loop makes an attempt that failed again, whatever the error. That the
failed attempts leave nothing behind is due to `dma_async_memcpy_pg_to_buf`, which
undoes its mappings on the way out (`retries_leak_nothing`). An error that does not
go away never reaches the caller (`never_reported`).

`MapCall` is an account of the calls a submission makes. It is for the proofs;
`pg_to_buf_calls_cases` says that the calls come to what the submission does.
-/
open Lib.CInt Lib.CopyEngine

namespace Dmacftu

/-! ## Mappings of failed attempts -/

/-- What a submission asks of the mapping layer and of the statistics of the CPU it
runs on. -/
inductive MapCall where
  | map (m : Mapping)
  | unmap (m : Mapping)
  | this_cpu_add (cpu len : Nat)
  deriving DecidableEq, Repr

/-- The calls `dma_async_memcpy_pg_to_buf` makes, with their arguments. -/
def pg_to_buf_calls (env : DmaEnv) (att : Attempt) (cpu : Nat) (page : Page) (offset kdata len : Nat) : List MapCall :=
  match dma_map_single att.dest_mapped kdata len .DMA_FROM_DEVICE with
  | none => []
  | some dest => .map dest :: match dma_map_page env att.src_mapped page offset len .DMA_TO_DEVICE with
    | none => [.unmap ⟨.single, dest.addr, len, .DMA_FROM_DEVICE⟩]
    | some src => .map src ::
      if att.tx then [.this_cpu_add cpu len]
      else [.unmap ⟨.page, src.addr, len, .DMA_TO_DEVICE⟩, .unmap ⟨.single, dest.addr, len, .DMA_FROM_DEVICE⟩]

/-- A call's effect on the mappings and the statistics. -/
def Hw.obey (hw : Hw) : MapCall → Hw
  | .map m => hw.map m
  | .unmap m => hw.unmap m
  | .this_cpu_add _ len =>
    { hw with bytes_transferred := hw.bytes_transferred + BitVec.ofNat 64 len, memcpy_count := hw.memcpy_count + 1 }

/-- The mappings of a descriptor. -/
def Sub.mappings (e : Sub) (env : DmaEnv) : List Mapping :=
  [⟨.page, env.page_to_phys e.page + e.offset, e.len, .DMA_TO_DEVICE⟩,
    ⟨.single, virt_to_phys e.kdata, e.len, .DMA_FROM_DEVICE⟩]

/-- What the calls of CPU `cpu` add to its counters. -/
def added (cpu : Nat) (calls : List MapCall) : List Nat :=
  calls.filterMap fun c => match c with
    | .this_cpu_add i len => if i = cpu then some len else none
    | _ => none

/-- Each mapping is undone once, in the order that the error labels are in. -/
def Undone (calls : List MapCall) : Prop := ∃ ms : List Mapping, calls = ms.map .map ++ ms.reverse.map .unmap

/-- A failed attempt undoes its mappings, a successful one keeps both and counts. -/
theorem pg_to_buf_calls_cases (env : DmaEnv) (att : Attempt) (cpu : Nat) (hw : Hw) (page : Page)
    (offset kdata len : Nat) {r : Int × Hw} (hr : dma_async_memcpy_pg_to_buf env att hw page offset kdata len = r)
    {calls : List MapCall} (hc : pg_to_buf_calls env att cpu page offset kdata len = calls) :
    (∃ eng, r.2 = calls.foldl Hw.obey { hw with eng := eng }) ∧
    ((r.1 < 0 ∧ Undone calls ∧ r.2.maps = hw.maps ∧ r.2.bytes_transferred = hw.bytes_transferred ∧
        r.2.memcpy_count = hw.memcpy_count) ∨
      (0 ≤ r.1 ∧
        calls = ((Sub.mk r.1 0 page offset kdata len).mappings env).reverse.map .map ++ [.this_cpu_add cpu len] ∧
        r.2.maps = (Sub.mk r.1 0 page offset kdata len).mappings env ++ hw.maps ∧
        r.2.bytes_transferred = hw.bytes_transferred + BitVec.ofNat 64 len ∧ r.2.memcpy_count = hw.memcpy_count + 1)) := by
  subst hr hc
  unfold dma_async_memcpy_pg_to_buf pg_to_buf_calls
  cases hdest : dma_map_single att.dest_mapped kdata len .DMA_FROM_DEVICE with
  | none => exact ⟨⟨_, rfl⟩, .inl ⟨neg_EFAULT, ⟨[], rfl⟩, rfl, rfl, rfl⟩⟩
  | some dest =>
    obtain ⟨-, -, rfl⟩ := mapped_some hdest
    cases hsrc : dma_map_page env att.src_mapped page offset len .DMA_TO_DEVICE with
    | none =>
      refine ⟨⟨_, rfl⟩, .inl ⟨neg_EFAULT, ⟨[_], rfl⟩, ?_, rfl, rfl⟩⟩
      exact List.erase_cons_head ..
    | some src =>
      obtain ⟨-, -, rfl⟩ := mapped_some hsrc
      cases att.tx
      · refine ⟨⟨_, rfl⟩, .inl ⟨neg_ENOMEM, ⟨[_, _], rfl⟩, ?_, rfl, rfl⟩⟩
        simp only [Hw.unmap, Hw.map, List.erase_cons_head]
        rfl
      · exact ⟨⟨_, rfl⟩, .inr ⟨Int.natCast_nonneg _, rfl, rfl, rfl, rfl⟩⟩

/-- The calls of a pass of `__dma_copy_from_user`; `cpu k` is the CPU of attempt `k`. -/
def ChunkLoop.calls (s : ChunkLoop) (env : DmaEnv) (cpu : Nat → Nat) (pages : Nat → Page) : List MapCall :=
  pg_to_buf_calls env (env.attempts s.attempt) (cpu s.attempt) (pages s.page_index) (u32 s.byte_offset) s.tmp_addr_kernel
    (u64 s.copy)

/-- What the passes `ps` have made of the channel: `calls` asked for it, and the
descriptors are what is left of it. -/
structure Accounted (env : DmaEnv) (cpu : Nat → Nat) (n : Nat) (hw : Hw) (subs : List Sub) (calls : List MapCall)
    (hw' : Hw) : Prop where
  maps : hw'.maps = subs.reverse.flatMap (·.mappings env) ++ hw.maps
  undone : ∀ m, calls.count (.map m) = calls.count (.unmap m) + (subs.flatMap (·.mappings env)).count m
  bytes_transferred : hw'.bytes_transferred = hw.bytes_transferred + BitVec.ofNat 64 (subs.map Sub.len).sum
  memcpy_count : hw'.memcpy_count = hw.memcpy_count + BitVec.ofNat 64 subs.length
  bytes_per_cpu : ∑ i ∈ Finset.range n, (added i calls).sum = (subs.map Sub.len).sum
  count_per_cpu : ∑ i ∈ Finset.range n, (added i calls).length = subs.length

section

variable {env : DmaEnv} {cpu : Nat → Nat} {n : Nat} {hw hw' : Hw} {subs : List Sub} {calls : List MapCall}

theorem added_append (i : Nat) (cs cs' : List MapCall) : added i (cs ++ cs') = added i cs ++ added i cs' :=
  List.filterMap_append

theorem added_maps (i : Nat) (ms : List Mapping) : added i (ms.map .map) = [] ∧ added i (ms.map .unmap) = [] := by
  induction ms with
  | nil => exact ⟨rfl, rfl⟩
  | cons m ms ih => exact ⟨ih.1, ih.2⟩

theorem count_maps (m : Mapping) (ms : List Mapping) :
    (ms.map MapCall.map).count (.map m) = ms.count m ∧ (ms.map MapCall.unmap).count (.map m) = 0 ∧
      (ms.map MapCall.map).count (.unmap m) = 0 ∧ (ms.map MapCall.unmap).count (.unmap m) = ms.count m := by
  induction ms with
  | nil => exact ⟨rfl, rfl, rfl, rfl⟩
  | cons m' ms ih =>
    obtain ⟨h1, h2, h3, h4⟩ := ih
    simp [List.count_cons, h1, h2, h3, h4]

theorem Undone.added {cs : List MapCall} (h : Undone cs) (i : Nat) : added i cs = [] := by
  obtain ⟨ms, rfl⟩ := h
  rw [added_append, (added_maps i ms).1, (added_maps i ms.reverse).2]
  rfl

theorem Undone.count {cs : List MapCall} (h : Undone cs) (m : Mapping) : cs.count (.map m) = cs.count (.unmap m) := by
  obtain ⟨ms, rfl⟩ := h
  obtain ⟨h1, -, h3, -⟩ := count_maps m ms
  obtain ⟨-, h2, -, h4⟩ := count_maps m ms.reverse
  rw [List.count_append, List.count_append, h1, h2, h3, h4, List.count_reverse, Nat.zero_add, Nat.add_zero]

theorem Accounted.start (env : DmaEnv) (cpu : Nat → Nat) (n : Nat) (hw : Hw) : Accounted env cpu n hw [] [] hw where
  maps := rfl
  undone _ := rfl
  bytes_transferred := (BitVec.add_zero _).symm
  memcpy_count := (BitVec.add_zero _).symm
  bytes_per_cpu := Finset.sum_const_zero
  count_per_cpu := Finset.sum_const_zero

theorem ChunkLoop.calls_cases (s : ChunkLoop) (env : DmaEnv) (cpu : Nat → Nat) (pages : Nat → Page) {r : Int × Hw}
    (hr : s.tried dma_async_memcpy_pg_to_buf env pages = r) {es : List Sub}
    (he : chunkSub dma_async_memcpy_pg_to_buf env pages s = es) {cs : List MapCall} (hc : s.calls env cpu pages = cs) :
    (r.1 < 0 ∧ es = [] ∧ Undone cs ∧ r.2.maps = s.hw.maps ∧ r.2.bytes_transferred = s.hw.bytes_transferred ∧
        r.2.memcpy_count = s.hw.memcpy_count) ∨
      (0 ≤ r.1 ∧ ∃ e : Sub, es = [e] ∧
        cs = (e.mappings env).reverse.map .map ++ [.this_cpu_add (cpu s.attempt) e.len] ∧
        r.2.maps = e.mappings env ++ s.hw.maps ∧
        r.2.bytes_transferred = s.hw.bytes_transferred + BitVec.ofNat 64 e.len ∧ r.2.memcpy_count = s.hw.memcpy_count + 1) := by
  rw [chunkSub_eq, hr] at he
  obtain ⟨-, ⟨hneg, hrest⟩ | ⟨h0, hrest⟩⟩ := pg_to_buf_calls_cases env (env.attempts s.attempt) (cpu s.attempt) s.hw
    (pages s.page_index) (u32 s.byte_offset) s.tmp_addr_kernel (u64 s.copy) hr hc
  · rw [if_pos hneg] at he
    exact .inl ⟨hneg, he.symm, hrest⟩
  · rw [if_neg (Int.not_lt.2 h0)] at he
    exact .inr ⟨h0, _, he.symm, hrest⟩

theorem sum_single {i n : Nat} (h : i < n) (x : Nat) : ∑ j ∈ Finset.range n, (if i = j then x else 0) = x := by
  rw [Finset.sum_ite_eq, if_pos (Finset.mem_range.2 h)]

/-- What one pass adds. -/
theorem Accounted.pass (h : Accounted env cpu n hw subs calls hw') (hcpu : ∀ k, cpu k < n) (pages : Nat → Page)
    {s : ChunkLoop} (hs : s.hw = hw') :
    Accounted env cpu n hw (subs ++ chunkSub dma_async_memcpy_pg_to_buf env pages s) (calls ++ s.calls env cpu pages)
        (s.tried dma_async_memcpy_pg_to_buf env pages).2 ∧
      ((s.tried dma_async_memcpy_pg_to_buf env pages).1 < 0 → Undone (s.calls env cpu pages)) := by
  subst hs
  generalize hr : s.tried dma_async_memcpy_pg_to_buf env pages = r
  generalize he : chunkSub dma_async_memcpy_pg_to_buf env pages s = es
  generalize hc : s.calls env cpu pages = cs
  rcases s.calls_cases env cpu pages hr he hc with
    ⟨hneg, rfl, hundone, hmaps, hbytes, hcount⟩ | ⟨h0, e, rfl, rfl, hmaps, hbytes, hcount⟩
  · -- a failed attempt: its calls cancel out, and no CPU counts it
    refine ⟨?_, fun _ => hundone⟩
    have hadded : ∀ i, added i (calls ++ cs) = added i calls := by
      intro i
      rw [added_append, hundone.added, List.append_nil]
    rw [List.append_nil]
    refine ⟨hmaps.trans h.maps, ?_, hbytes.trans h.bytes_transferred, hcount.trans h.memcpy_count, ?_, ?_⟩
    · intro m
      rw [List.count_append, List.count_append, h.undone, hundone.count]
      omega
    · simp only [hadded]
      exact h.bytes_per_cpu
    · simp only [hadded]
      exact h.count_per_cpu
  · -- a submission: two mappings stay, and the CPU it ran on counts it
    refine ⟨?_, fun hneg => absurd hneg (Int.not_lt.2 h0)⟩
    have hadded : ∀ i, added i (calls ++ ((e.mappings env).reverse.map .map ++ [.this_cpu_add (cpu s.attempt) e.len])) =
        added i calls ++ if cpu s.attempt = i then [e.len] else [] := by
      intro i
      rw [added_append, added_append, (added_maps i _).1, List.nil_append]
      by_cases hi : cpu s.attempt = i <;> simp [added, hi]
    refine ⟨?_, ?_, ?_, ?_, ?_, ?_⟩
    · rw [hmaps, h.maps, List.reverse_append, List.flatMap_append, List.append_assoc]
      rfl
    · intro m
      obtain ⟨h1, -, h3, -⟩ := count_maps m (e.mappings env).reverse
      simp only [List.count_append, h.undone, h1, h3, List.flatMap_append, List.flatMap_singleton, List.count_reverse]
      simp
      omega
    · rw [hbytes, h.bytes_transferred, List.map_append, List.sum_append, BitVec.ofNat_add, BitVec.add_assoc]
      rfl
    · rw [hcount, h.memcpy_count, List.length_append, BitVec.ofNat_add, BitVec.add_assoc]
      rfl
    · have hsum : ∀ i, (added i calls ++ if cpu s.attempt = i then [e.len] else []).sum =
          (added i calls).sum + if cpu s.attempt = i then e.len else 0 := by
        intro i
        split <;> simp
      simp only [hadded, hsum, Finset.sum_add_distrib, sum_single (hcpu _), h.bytes_per_cpu, List.map_append,
        List.sum_append]
      rfl
    · have hsum : ∀ i, (added i calls ++ if cpu s.attempt = i then [e.len] else []).length =
          (added i calls).length + if cpu s.attempt = i then 1 else 0 := by
        intro i
        split <;> simp
      simp only [hadded, hsum, Finset.sum_add_distrib, sum_single (hcpu _), h.count_per_cpu, List.length_append]
      rfl

/-- Retried submissions leak nothing: when the wait is reached, the descriptors are the
chunks of the request, each has its two mappings, and nothing else is left of the
calls that were made. -/
theorem retries_leak_nothing (env : DmaEnv) (hcpu : ∀ k, cpu k < n) {req : RequestCopy} (hpos : 1 ≤ req.len)
    (hlen : req.len < 2 ^ 31) (hk : req.kernel_base < 2 ^ 64) {fuel : Nat} {r : Int × Nat × Hw}
    (h : Direction.from_user.chunks env fuel req hw = some r) :
    let passes := Direction.from_user.passes env fuel req hw
    let subs := Direction.from_user.subs env fuel req hw
    req.Tiles req.len subs ∧
      (∀ s ∈ passes, (s.tried dma_async_memcpy_pg_to_buf env req.entry).1 < 0 → Undone (s.calls env cpu req.entry)) ∧
      Accounted env cpu n hw subs (passes.flatMap (·.calls env cpu req.entry)) r.2.2 ∧
      (subs.map Sub.len).sum = req.len := by
  intro passes subs
  have htiles : req.Tiles req.len subs := (@subs_tile env .from_user fuel req hw hlen hpos hk).2 r h
  refine ⟨htiles, ?_, ?_, htiles.sum_len⟩
  · intro s hs hneg
    rcases s.calls_cases env cpu req.entry rfl rfl rfl with ⟨-, -, hundone, -⟩ | ⟨h0, -⟩
    · exact hundone
    · exact absurd hneg (Int.not_lt.2 h0)
  · let I : Nat → Int → Hw → List ChunkLoop → Prop := fun _ _ hw' ps =>
      Accounted env cpu n hw (ps.flatMap (chunkSub dma_async_memcpy_pg_to_buf env req.entry))
        (ps.flatMap (·.calls env cpu req.entry)) hw'
    have hpass : ∀ m k hw' ps, m < req.len → I m 0 hw' ps →
        I m 0 (req.submitChunk dma_async_memcpy_pg_to_buf env m k hw').2 (ps ++ [req.chunkAt m k hw']) := by
      intro m k hw' ps hm hacc
      have hsame : (req.chunkAt m k hw').tried dma_async_memcpy_pg_to_buf env req.entry = _ :=
        @tried_eq env .from_user req m hm k hw'
      have := (Accounted.pass hacc hcpu req.entry (s := req.chunkAt m k hw') rfl).1
      rw [hsame] at this
      simp only [I, List.flatMap_append, List.flatMap_singleton]
      exact this
    have hall := (@chunks_acc env .from_user fuel req hw ChunkLoop (fun s => [s]) I hlen hpos hk
      (fun m k _ hw' ps hm hacc _ => hpass m k hw' ps hm hacc) (fun m k _ hw' ps hm hacc _ => hpass m k hw' ps hm hacc)
      0 (.start env cpu n hw)).2 r h
    have hsubs : subs = passes.flatMap (chunkSub dma_async_memcpy_pg_to_buf env req.entry) :=
      Lib.Loop.outputs_flatMap _ fuel _
    rw [hsubs]
    exact hall

end

/-- The first attempts fail one way after the other, and those behind them are granted. -/
def flakyEnv : DmaEnv := { shortEnv with
  attempts := fun k => ⟨[], decide (k ≠ 0), decide (k ≠ 1), decide (k ≠ 2)⟩ }

theorem retries_leak_nothing_sample : ∃ r,
    Direction.from_user.chunks flakyEnv 5 (init_req_copy 8190 sampleBuf 4) bootSt.hw = some r ∧
    r.2.2.memcpy_count = 2 ∧ r.2.2.bytes_transferred = 4 := by
  obtain ⟨r, hr⟩ : ∃ r, Direction.from_user.chunks flakyEnv 5 (init_req_copy 8190 sampleBuf 4) bootSt.hw = some r :=
    ⟨_, rfl⟩
  obtain ⟨-, -, h, hsum⟩ := retries_leak_nothing (n := 1) flakyEnv (fun _ => (Nat.one_pos : 0 < 1)) (by decide) (by decide)
    (by decide) hr
  refine ⟨r, hr, ?_, ?_⟩
  · rw [h.memcpy_count]
    rfl
  · rw [h.bytes_transferred, hsum]
    rfl

/-! ## Errors that do not go away -/

/-- From attempt `K` on, a mapping is refused. -/
def DmaEnv.RefusesFrom (env : DmaEnv) (K : Nat) : Prop :=
  ∀ k, K ≤ k → (env.attempts k).dest_mapped = false ∨ (env.attempts k).src_mapped = false

/-- A refused mapping is reported as `-EFAULT`. -/
theorem pg_to_buf_refused (env : DmaEnv) {att : Attempt} (h : att.dest_mapped = false ∨ att.src_mapped = false) (hw : Hw)
    (page : Page) (offset kdata len : Nat) :
    (dma_async_memcpy_pg_to_buf env att hw page offset kdata len).1 = -EFAULT := by
  unfold dma_async_memcpy_pg_to_buf
  cases hdest : dma_map_single att.dest_mapped kdata len .DMA_FROM_DEVICE with
  | none => rfl
  | some dest =>
    have hd := (mapped_some hdest).1
    have hs : att.src_mapped = false := h.resolve_left (by simp [hd])
    have hsrc : dma_map_page env att.src_mapped page offset len .DMA_TO_DEVICE = none :=
      if_neg fun hgranted => by simp [hs] at hgranted
    simp only [hsrc]

/-- The call comes back, with an error or with a number of bytes still to copy. -/
def Reports {α : Type} (copy : Nat → Option (Int × α)) : Prop :=
  ∃ fuel r, copy fuel = some r ∧ (r.1 < 0 ∨ 0 < r.1)

theorem not_reports {α : Type} {copy : Nat → Option (Int × α)} (h : ∀ fuel, copy fuel = none) : ¬ Reports copy := by
  rintro ⟨fuel, r, hr, -⟩
  rw [h fuel] at hr
  cases hr

section

variable {env : DmaEnv} {hw : Hw}

theorem chunkBody_attempt {submit : SubmitFn} {pages : Nat → Page} {s s' : ChunkLoop}
    (h : chunkBody submit env pages s = .inl s') : s'.attempt = s.attempt + 1 := by
  simp only [chunkBody] at h
  split at h
  · cases h
    rfl
  · split at h
    · cases h
    · cases h
      rfl

/-- A loop still on its way when the mappings begin to be refused never ends. The
induction is on the passes until then, and after that on the fuel. -/
theorem chunks_stuck {pages : Nat → Page} : ∀ {K : Nat} {s : ChunkLoop},
    Lib.Loop.run (chunkBody dma_async_memcpy_pg_to_buf env pages) K s = none → env.RefusesFrom (s.attempt + K) →
      ∀ fuel, Lib.Loop.run (chunkBody dma_async_memcpy_pg_to_buf env pages) fuel s = none := by
  intro K
  induction K with
  | zero =>
    intro s _ hrefuses fuel
    induction fuel generalizing s with
    | zero => rfl
    | succ fuel ih =>
      have hrefused := hrefuses s.attempt (Nat.le_refl _)
      have hneg : (s.tried dma_async_memcpy_pg_to_buf env pages).1 < 0 := by
        rw [ChunkLoop.tried, pg_to_buf_refused env hrefused]
        exact neg_EFAULT
      have hbody : chunkBody dma_async_memcpy_pg_to_buf env pages s =
          .inl { s with attempt := s.attempt + 1, hw := (s.tried dma_async_memcpy_pg_to_buf env pages).2 } := if_pos hneg
      rw [Lib.Loop.run, hbody]
      exact ih rfl fun k hk => hrefuses k (Nat.le_of_succ_le hk)
  | succ K ih =>
    intro s hrun hrefuses fuel
    rw [Lib.Loop.run] at hrun
    cases fuel with
    | zero => rfl
    | succ fuel =>
      rw [Lib.Loop.run]
      split at hrun
      next s' hbody =>
        have hattempt := chunkBody_attempt hbody
        exact ih hrun (fun k hk => hrefuses k (by omega)) fuel
      next => cases hrun

theorem copyPinned_none {submit : SubmitFn} {fuel : Nat} {req : RequestCopy}
    (h : Lib.Loop.run (chunkBody submit env req.entry) fuel (chunkStart req hw) = none) :
    copyPinned submit env fuel req hw = none := by
  rw [copyPinned, h]
  rfl

/-- A permanent mapping error is never reported: a copy whose mappings are refused from
some chunk on does not come back. -/
theorem never_reported (env : DmaEnv) (hw : Hw) {req : RequestCopyPrio} (hpos : 1 ≤ req.len) {K : Nat}
    (hrun : Direction.from_user.chunks env K req.toRequestCopy hw = none) (hrefuses : env.RefusesFrom K) :
    ¬ Reports (fun fuel => Pinned.dma_copy_from_user env fuel req.toRequestCopy hw) ∧
    ¬ Reports (fun fuel => Pinned.dma_copy_from_user_prio env fuel req hw) ∧
    ∀ c : Caller,
      (c.chan_sh ≠ none → ¬ Reports fun fuel => c.dma_copy_from_user_sh.run env fuel req.toRequestCopy hw) ∧
      (c.chan_excl ≠ none → ¬ Reports fun fuel => c.dma_copy_from_user_excl.run env fuel req.toRequestCopy hw) ∧
      (c.chan_prio req.priority ≠ none →
        ¬ Reports fun fuel => (c.dma_copy_from_user_prio req.priority).run env fuel req.toRequestCopy hw) := by
  have hstuck : ∀ fuel, Direction.from_user.chunks env fuel req.toRequestCopy hw = none :=
    chunks_stuck hrun fun k hk => hrefuses k (Nat.le_of_add_left_le hk)
  have hpinned : ∀ chan fuel, Pinned.dma_copy_from_user env fuel { req.toRequestCopy with chan := chan } hw = none :=
    fun chan fuel => copyPinned_none (hstuck fuel)
  have hcopy : ∀ fuel, copyPinned dma_async_memcpy_pg_to_buf env fuel req.toRequestCopy hw = none :=
    fun fuel => hpinned req.chan fuel
  have hpolicy : ∀ chan, chan ≠ none →
      ¬ Reports fun fuel => PolicyCopy.run ⟨.from_user, chan⟩ env fuel req.toRequestCopy hw := by
    intro chan hchan
    refine not_reports fun fuel => ?_
    unfold PolicyCopy.run
    have hp : req.len > 0 := hpos
    simp only [hp, if_true, hchan, if_false]
    split
    · rfl
    · exact hpinned chan fuel
  refine ⟨not_reports hcopy, not_reports fun fuel => ?_, fun c => ⟨hpolicy _, hpolicy _, hpolicy _⟩⟩
  rw [Pinned.dma_copy_from_user_prio, hcopy]
  rfl

/-- The mapping of the second chunk's page is refused. -/
def lostEnv : DmaEnv := { shortEnv with attempts := fun k => ⟨[], true, decide (k < 1), true⟩ }

theorem lostEnv_refuses : lostEnv.RefusesFrom 1 := fun _ hk => .inr (decide_eq_false (Nat.not_lt.2 hk))

theorem never_reported_sample :
    ¬ Reports fun fuel => Pinned.dma_copy_from_user_prio lostEnv fuel (init_req_copy_prio 8190 sampleBuf 4 0) bootSt.hw :=
  (@never_reported lostEnv bootSt.hw (init_req_copy_prio 8190 sampleBuf 4 0) (by decide) 1 rfl lostEnv_refuses).2.1

/-- Every further attempt at the second chunk returns `-EFAULT`, and the copy goes on. -/
theorem refused_for_ever : Direction.from_user.chunks lostEnv 1 (init_req_copy 8190 sampleBuf 4) bootSt.hw = none ∧
    lostEnv.RefusesFrom 1 ∧
    ¬ Reports fun fuel => Pinned.dma_copy_from_user lostEnv fuel (init_req_copy 8190 sampleBuf 4) bootSt.hw := by
  refine ⟨rfl, lostEnv_refuses, not_reports fun fuel => copyPinned_none ?_⟩
  exact chunks_stuck (K := 1) rfl lostEnv_refuses fuel

end

end Dmacftu
