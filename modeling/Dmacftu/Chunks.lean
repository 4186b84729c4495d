import Dmacftu.PolicyCopy
/-!
# The chunk loop, pass by pass

`__dma_copy_from_user` and `__dma_copy_to_user`, and their twins of the priority
policy, find the pages of a request by repeated subtraction, in `int` arithmetic;
the pins count them with a formula over page-aligned addresses. `chunks_agree`
says that the two come to the same, `copy_in_page_iff` for which lengths the
arithmetic does what it should.
-/
open Lib.CInt Lib.CopyEngine

namespace Dmacftu

/-! ## The priority policy's copies -/

/-- `__dma_copy_from_user_prio`: the body is that of `__dma_copy_from_user`. -/
def Pinned.dma_copy_from_user_prio (env : DmaEnv) (fuel : Nat) (req_cpy_local : RequestCopyPrio) (hw : Hw) :
    Option (Int × RequestCopyPrio × Hw) :=
  (copyPinned dma_async_memcpy_pg_to_buf env fuel req_cpy_local.toRequestCopy hw).map fun (ret, req, hw) =>
    (ret, { req_cpy_local with toRequestCopy := req }, hw)

/-- `__dma_copy_to_user_prio`, likewise. -/
def Pinned.dma_copy_to_user_prio (env : DmaEnv) (fuel : Nat) (req_cpy_local : RequestCopyPrio) (hw : Hw) :
    Option (Int × RequestCopyPrio × Hw) :=
  (copyPinned dma_async_memcpy_buf_to_pg env fuel req_cpy_local.toRequestCopy hw).map fun (ret, req, hw) =>
    (ret, { req_cpy_local with toRequestCopy := req }, hw)

def Direction.pinned_prio : Direction → DmaEnv → Nat → RequestCopyPrio → Hw → Option (Int × RequestCopyPrio × Hw)
  | .from_user => Pinned.dma_copy_from_user_prio
  | .to_user => Pinned.dma_copy_to_user_prio

theorem Direction.pinned_prio_eq (dir : Direction) (env : DmaEnv) (fuel : Nat) (req : RequestCopyPrio) (hw : Hw) :
    dir.pinned_prio env fuel req hw =
      (dir.pinned env fuel req.toRequestCopy hw).map fun r => (r.1, { req with toRequestCopy := r.2.1 }, r.2.2) := by
  cases dir <;> rfl

/-! ## Passes -/

/-- The states the passes of the chunk loop begin in. -/
def Direction.passes (dir : Direction) (env : DmaEnv) (fuel : Nat) (req_cpy_local : RequestCopy) (hw : Hw) :
    List ChunkLoop :=
  Lib.Loop.outputs (chunkBody dir.submit env req_cpy_local.entry) (fun s => [s]) fuel (chunkStart req_cpy_local hw)

section

variable {env : DmaEnv} {dir : Direction} {fuel : Nat} {req : RequestCopy} {hw : Hw}

theorem Direction.counts (dir : Direction) (env : DmaEnv) (att : Attempt) (hw : Hw) (page : Page) (offset len : Nat)
    {kdata : Nat} (h : dir = .from_user → virt_to_phys kdata ≠ 0) :
    Counts att (dir.submit env att hw page offset kdata len) := by
  cases dir with
  | from_user => exact pg_to_buf_counts env att hw page offset len (h rfl)
  | to_user => exact memcpyMapped_counts _ _ _ _ _

/-- A copy from user space is not one to the bus address 0. -/
def Direction.Mappable (dir : Direction) (v n : Nat) : Prop := dir = .from_user → Dmacftu.Mappable v n

theorem Direction.Mappable.counts {n m : Nat} (h : dir.Mappable req.kernel_base n) (hm : m < n) (env : DmaEnv) (k : Nat)
    (hw : Hw) : Counts (env.attempts k) (req.submitChunk dir.submit env m k hw) := by
  apply dir.counts
  intro hdir
  rw [virt_to_phys_u64]
  exact h hdir m hm

/-- The arguments of a submission are a chunk's offset and length. -/
theorem RequestCopy.chunk_args {m : Nat} (hm : m < req.len) :
    u32 (req.offset m) = req.offset m ∧ u64 (req.chunkLen m) = req.chunkLen m := by
  obtain ⟨-, -, hoff⟩ := RequestCopy.chunkLen_pos hm
  unfold PAGE_SIZE at hoff
  exact ⟨u32_of_lt (by omega), u64_of_lt (by omega)⟩

theorem tried_eq {m : Nat} (hm : m < req.len) (k : Nat) (hw : Hw) :
    (req.chunkAt m k hw).tried dir.submit env req.entry = req.submitChunk dir.submit env m k hw := by
  obtain ⟨hoff, hlen⟩ := RequestCopy.chunk_args hm
  simp only [ChunkLoop.tried, RequestCopy.chunkAt, RequestCopy.submitChunk, hoff, hlen]

/-- Below `2 ^ 31` bytes, every pass is at the start of a chunk. -/
theorem passes_at (hlen : req.len < 2 ^ 31) (hpos : 0 < req.len) (hk : req.kernel_base < 2 ^ 64) :
    ∀ s ∈ dir.passes env fuel req hw, ∃ m k hw', m < req.len ∧ s = req.chunkAt m k hw' := by
  let I : ChunkLoop → Prop := fun s => ∃ m k hw', m < req.len ∧ s = req.chunkAt m k hw'
  refine Lib.Loop.outputs_inv (I := I) ?_ ?_ ⟨0, 0, hw, hpos, RequestCopy.chunkStart_eq hlen hk hw⟩
  · rintro s s' ⟨m, k, hw', hm, rfl⟩ hbody
    rcases chunkAt_inl hlen hm hbody with ⟨-, rfl⟩ | ⟨-, hlt, rfl⟩
    · exact ⟨m, _, _, hm, rfl⟩
    · exact ⟨_, _, _, hlt, rfl⟩
  · intro s hs e he
    obtain rfl := List.mem_singleton.1 he
    exact hs

/-- What `I` says of the bytes submitted, the last cookie, the channel and what was
put out so far holds at every moment of the loop, and of the whole request when it
is left. -/
theorem chunks_acc {E : Type} {out : ChunkLoop → List E} {I : Nat → Int → Hw → List E → Prop} (hlen : req.len < 2 ^ 31)
    (hpos : 0 < req.len) (hk : req.kernel_base < 2 ^ 64)
    (hretry : ∀ m k c hw es, m < req.len → I m c hw es → (req.submitChunk dir.submit env m k hw).1 < 0 →
      I m c (req.submitChunk dir.submit env m k hw).2 (es ++ out (req.chunkAt m k hw)))
    (hnext : ∀ m k c hw es, m < req.len → I m c hw es → 0 ≤ (req.submitChunk dir.submit env m k hw).1 →
      I (m + req.chunkLen m) (req.submitChunk dir.submit env m k hw).1 (req.submitChunk dir.submit env m k hw).2
        (es ++ out (req.chunkAt m k hw))) {c₀ : Int} (h₀ : I 0 c₀ hw []) :
    (∃ m c hw', I m c hw' (Lib.Loop.outputs (chunkBody dir.submit env req.entry) out fuel (chunkStart req hw))) ∧
      ∀ r, dir.chunks env fuel req hw = some r →
        I req.len r.1 r.2.2 (Lib.Loop.outputs (chunkBody dir.submit env req.entry) out fuel (chunkStart req hw)) := by
  let J : ChunkLoop → List E → Prop := fun s es =>
    ∃ m k c hw', m < req.len ∧ s = req.chunkAt m k hw' ∧ I m c hw' es
  have hstart : J (chunkStart req hw) [] := ⟨0, 0, c₀, hw, hpos, RequestCopy.chunkStart_eq hlen hk hw, h₀⟩
  have hstep : ∀ s s' es, J s es → chunkBody dir.submit env req.entry s = .inl s' → J s' (es ++ out s) := by
    rintro s s' es ⟨m, k, c, hw', hm, rfl, h⟩ hbody
    rcases chunkAt_inl hlen hm hbody with ⟨hneg, rfl⟩ | ⟨h0, hlt, rfl⟩
    · exact ⟨m, _, c, _, hm, rfl, hretry m k c hw' es hm h hneg⟩
    · exact ⟨_, _, _, _, hlt, rfl, hnext m k c hw' es hm h h0⟩
  have hdone : ∀ s r es, J s es → chunkBody dir.submit env req.entry s = .inr r →
      I req.len r.1 r.2.2 (es ++ out s) := by
    rintro s r es ⟨m, k, c, hw', hm, rfl, h⟩ hbody
    obtain ⟨h0, hend, rfl⟩ := chunkAt_inr hlen hm hbody
    exact hend ▸ hnext m k c hw' es hm h h0
  constructor
  · refine Lib.Loop.outputs_acc (I := J) (P := fun es => ∃ m c hw', I m c hw' es) ?_ hstep ?_ [] hstart
    · rintro s es ⟨m, -, c, hw', -, -, h⟩
      exact ⟨m, c, hw', h⟩
    · intro s r es hs hbody
      exact ⟨_, _, _, hdone s r es hs hbody⟩
  · intro r h
    exact Lib.Loop.run_outputs (I := J) (P := fun r es => I req.len r.1 r.2.2 es) hstep hdone [] hstart h

/-- The loop is left, if descriptors keep being granted. -/
theorem chunks_total (hlive : env.Live) (hbus : dir.Mappable req.kernel_base req.len) (hlen : req.len < 2 ^ 31)
    (hpos : 0 < req.len) (hk : req.kernel_base < 2 ^ 64) :
    ∃ r N, ∀ fuel, N ≤ fuel → dir.chunks env fuel req hw = some r := by
  have hcount : ∀ m k hw, m < req.len → Counts (env.attempts k) (req.submitChunk dir.submit env m k hw) :=
    fun m k hw hm => hbus.counts hm env k hw
  obtain ⟨r, -, N, hN⟩ := chunks_rule hlive hlen hcount (I := fun _ _ => True) (by simp) (by simp) 0 0 hw hpos trivial
  refine ⟨r, N, fun fuel hf => ?_⟩
  rw [Direction.chunks, RequestCopy.chunkStart_eq hlen hk]
  exact hN fuel hf

end

/-! ## Descriptors that tile a request -/

/-- The descriptor of the chunk that starts at byte `m`. -/
def RequestCopy.subAt (req : RequestCopy) (m : Nat) (cookie : Int) : Sub where
  cookie := cookie
  page_index := req.pageIndex m
  page := req.entry (req.pageIndex m)
  offset := req.offset m
  kdata := u64 (req.kernel_base + m : Nat)
  len := req.chunkLen m

/-- The descriptors are the chunks of the first `m` bytes, in order. -/
inductive RequestCopy.Tiles (req : RequestCopy) : Nat → List Sub → Prop
  | nil : Tiles req 0 []
  | snoc {m : Nat} {es : List Sub} {e : Sub} : Tiles req m es → m < req.len → e.IsChunk req m →
      Tiles req (m + req.chunkLen m) (es ++ [e])

namespace RequestCopy.Tiles

variable {req : RequestCopy} {m : Nat} {es : List Sub}

theorem sum_len (h : req.Tiles m es) : (es.map Sub.len).sum = m := by
  induction h with
  | nil => rfl
  | @snoc m es e _ _ he ih =>
    obtain ⟨-, -, -, -, hlen⟩ := he
    rw [List.map_append, List.sum_append, ih, List.map_singleton, List.sum_singleton, hlen]

theorem le (h : req.Tiles m es) : m ≤ req.len := by
  cases h with
  | nil => exact Nat.zero_le _
  | snoc _ hm _ => exact (RequestCopy.chunkLen_pos hm).2.1

/-- There are as many as pages of the bytes they cover. -/
theorem length_eq (h : req.Tiles m es) (hlen : 0 < req.len) :
    es.length = if m < req.len then req.pageIndex m else req.pageIndex (req.len - 1) + 1 := by
  induction h with
  | nil => simp [hlen, RequestCopy.pageIndex]
  | @snoc m es e _ hm _ ih =>
    rw [if_pos hm] at ih
    rw [List.length_append, List.length_singleton, ih]
    split
    next hnext => exact (RequestCopy.next_chunk hnext).2.symm
    next hend =>
      -- the last byte is in the page of the last chunk
      obtain ⟨hpos, hle, hoff⟩ := RequestCopy.chunkLen_pos hm
      unfold RequestCopy.pageIndex RequestCopy.offset PAGE_SIZE at *
      omega

/-- On the kernel's side they are the first `m` bytes, no more and no less. -/
theorem covers (h : req.Tiles m es) (hfits : req.kernel_base + req.len ≤ 2 ^ 64) (a : Nat) :
    (∃ e ∈ es, e.kdata ≤ a ∧ a < e.kdata + e.len) ↔ req.kernel_base ≤ a ∧ a < req.kernel_base + m := by
  induction h with
  | nil => simp
  | @snoc m es e _ hm he ih =>
    obtain ⟨-, -, -, hkdata, hlen⟩ := he
    rw [u64_of_lt (by omega)] at hkdata
    simp only [List.mem_append, List.mem_singleton, or_and_right, exists_or, exists_eq_left, ih, hkdata, hlen]
    omega

end RequestCopy.Tiles

/-- The `i`th descriptor of a request, after `before` bytes. -/
structure Sub.IsNth (e : Sub) (req : RequestCopy) (i before : Nat) : Prop where
  page_index : e.page_index = i
  page : e.page = req.entry i
  in_page : e.offset + e.len ≤ PAGE_SIZE
  pos : 1 ≤ e.len
  kdata : e.kdata = u64 (req.kernel_base + before : Nat)

theorem RequestCopy.Tiles.nth {req : RequestCopy} {m : Nat} {es : List Sub} (h : req.Tiles m es) {i : Nat} {e : Sub}
    (he : es[i]? = some e) : e.IsNth req i ((es.take i).map Sub.len).sum := by
  induction h with
  | nil => cases he
  | @snoc m es e' htiles hm hchunk ih =>
    rcases Nat.lt_trichotomy i es.length with hlt | rfl | hgt
    · rw [List.getElem?_append_left hlt] at he
      rw [List.take_append_of_le_length (Nat.le_of_lt hlt)]
      exact ih he
    · rw [List.getElem?_concat_length] at he
      cases he
      obtain ⟨hpos, -, hoff⟩ := RequestCopy.chunkLen_pos hm
      obtain ⟨hindex, hpage, hoffset, hkdata, hlen⟩ := hchunk
      have hnum := htiles.length_eq (Nat.zero_lt_of_lt hm)
      rw [if_pos hm] at hnum
      rw [List.take_left, htiles.sum_len]
      refine ⟨hindex.trans hnum.symm, hnum ▸ hpage, ?_, ?_, hkdata⟩
      · rw [hoffset, hlen]
        exact hoff
      · rw [hlen]
        exact hpos
    · rw [List.getElem?_eq_none (by rw [List.length_append, List.length_singleton]; exact hgt)] at he
      cases he

section

variable {env : DmaEnv} {dir : Direction} {fuel : Nat} {req : RequestCopy} {hw : Hw}

theorem chunkSub_at {m : Nat} (hm : m < req.len) (k : Nat) (hw : Hw) {r : Int × Hw}
    (hr : req.submitChunk dir.submit env m k hw = r) :
    chunkSub dir.submit env req.entry (req.chunkAt m k hw) = if r.1 < 0 then [] else [req.subAt m r.1] := by
  obtain ⟨hoff, hlen⟩ := RequestCopy.chunk_args hm
  rw [chunkSub_eq, tried_eq hm, hr]
  simp only [RequestCopy.chunkAt, RequestCopy.subAt, hoff, hlen]

/-- What one pass adds to the descriptors. -/
theorem tiles_pass {m : Nat} (hm : m < req.len) {es : List Sub} (h : req.Tiles m es) (k : Nat)
    (hw : Hw) : let r := req.submitChunk dir.submit env m k hw
    (r.1 < 0 → req.Tiles m (es ++ chunkSub dir.submit env req.entry (req.chunkAt m k hw))) ∧
      (0 ≤ r.1 → req.Tiles (m + req.chunkLen m) (es ++ chunkSub dir.submit env req.entry (req.chunkAt m k hw))) := by
  rw [chunkSub_at hm k hw rfl]
  refine ⟨fun hneg => ?_, fun h0 => ?_⟩
  · rw [if_pos hneg, List.append_nil]
    exact h
  · rw [if_neg (Int.not_lt.2 h0)]
    exact .snoc h hm ⟨rfl, rfl, rfl, rfl, rfl⟩

/-- The descriptors tile the front of the request, and all of it when the loop is left. -/
theorem subs_tile (hlen : req.len < 2 ^ 31) (hpos : 0 < req.len) (hk : req.kernel_base < 2 ^ 64) :
    (∃ m, req.Tiles m (dir.subs env fuel req hw)) ∧
      ∀ r, dir.chunks env fuel req hw = some r → req.Tiles req.len (dir.subs env fuel req hw) := by
  obtain ⟨⟨m, -, -, hm⟩, hall⟩ := @chunks_acc env dir fuel req hw Sub (chunkSub dir.submit env req.entry)
    (fun m _ _ es => req.Tiles m es) hlen hpos hk (fun m k c hw es hm h hneg => (tiles_pass hm h k hw).1 hneg)
    (fun m k c hw es hm h h0 => (tiles_pass hm h k hw).2 h0) 0 .nil
  exact ⟨⟨m, hm⟩, hall⟩

end

/-! ## Pages -/

/-- One of the two pins has counted the pages of `req`. -/
inductive RequestCopy.CountedFrom (req' req : RequestCopy) : Prop
  | pin {env : PinEnv} {mm : Mm} {write force : Int} :
      (dma_pin_user_pages env mm req write force).1 ≠ .PIN_NO_USER →
      req' = (dma_pin_user_pages env mm req write force).2.1 → CountedFrom req' req
  | prio {env : PinEnv} {mm : Mm} {write force : Int} {priority : Nat} :
      req' = (dma_pin_user_pages_prio env mm ⟨req, priority⟩ write force).2.1.toRequestCopy → CountedFrom req' req

theorem RequestCopy.CountedFrom.req {req' req : RequestCopy} (h : req'.CountedFrom req) :
    ∃ pages, req' = { req with nr_pages := nr_pages_of req.user_base req.len, pages := pages } := by
  have hdown : ∀ (env : PinEnv) (mm mm' : Mm) (entry : Nat → Page) (a : PageArray) (write force : Int),
      ∃ pages, (pinDown env mm' (allocated mm req entry) a write force).2.1 =
        { req with nr_pages := nr_pages_of req.user_base req.len, pages := pages } := by
    intro env mm mm' entry a write force
    obtain ⟨pages, hp⟩ := pinDown_req env mm' (allocated mm req entry) a write force
    exact ⟨pages, hp⟩
  cases h with
  | @pin env mm write force hres hreq =>
    subst hreq
    rcases pin_cases env mm req write force with ⟨-, he⟩ | ⟨-, -, he⟩ | ⟨entry, -, -, ⟨-, he⟩ | ⟨-, he⟩⟩
    · rw [he] at hres
      exact absurd rfl hres
    · rw [he]
      exact ⟨_, rfl⟩
    · rw [he]
      exact ⟨_, rfl⟩
    · rw [he]
      exact hdown _ mm _ _ _ _ _
  | @prio env mm write force priority hreq =>
    subst hreq
    rcases pin_prio_cases env mm ⟨req, priority⟩ write force with ⟨hk, -, -⟩ | ⟨entry, -, r, rfl, -, hreq, -⟩
    · rw [dma_pin_user_pages_prio, hk]
      exact ⟨_, rfl⟩
    · rw [hreq]
      exact hdown _ mm _ _ _ _ _

theorem RequestCopy.CountedFrom.same {req' req : RequestCopy} (h : req'.CountedFrom req) :
    req'.user_base = req.user_base ∧ req'.kernel_base = req.kernel_base ∧ req'.len = req.len := by
  obtain ⟨pages, rfl⟩ := h.req
  exact ⟨rfl, rfl, rfl⟩

theorem RequestCopy.CountedFrom.nr {req' req : RequestCopy} (h : req'.CountedFrom req) (hpos : 1 ≤ req.len)
    (hlen : req.len < 2 ^ 31) (hend : req.user_base + req.len + PAGE_SIZE < 2 ^ 64) :
    req'.nr_pages = req'.pageIndex (req'.len - 1) + 1 := by
  obtain ⟨pages, rfl⟩ := h.req
  have hpages : (req.user_base + req.len - 1) / PAGE_SIZE + 1 - req.user_base / PAGE_SIZE =
      req.pageIndex (req.len - 1) + 1 := by
    unfold RequestCopy.pageIndex PAGE_SIZE
    omega
  have hfew : req.pageIndex (req.len - 1) < 2 ^ 31 - 1 := by
    unfold RequestCopy.pageIndex PAGE_SIZE
    omega
  show nr_pages_of req.user_base req.len = req.pageIndex (req.len - 1) + 1
  rw [nr_pages_of_eq (by omega) (by omega) hpos, card_pagesTouched hpos, hpages, s32_of_range] <;> omega

/-- Pinning and chunking agree on the pages: whatever fails and is tried again, the
`i`th descriptor is that of page `i`, and there are `nr_pages` of them. -/
theorem chunks_agree (dir : Direction) (env : DmaEnv) (hw : Hw) {req req' : RequestCopy} (hcounted : req'.CountedFrom req)
    (hpos : 1 ≤ req.len) (hlen : req.len < 2 ^ 31) (hend : req.user_base + req.len + PAGE_SIZE < 2 ^ 64)
    (hk : req.kernel_base < 2 ^ 64) :
    (∀ fuel,
      (∀ i (e : Sub), (dir.subs env fuel req' hw)[i]? = some e →
        e.IsNth req' i (((dir.subs env fuel req' hw).take i).map Sub.len).sum) ∧
      (∀ s ∈ dir.passes env fuel req' hw, (s.page_index : Int) < req'.nr_pages) ∧
      ∀ r, dir.chunks env fuel req' hw = some r →
        ((dir.subs env fuel req' hw).length : Int) = req'.nr_pages ∧
        ((dir.subs env fuel req' hw).map Sub.len).sum = req.len) ∧
    (env.Live → dir.Mappable req.kernel_base req.len → ∃ r N, ∀ fuel, N ≤ fuel → dir.chunks env fuel req' hw = some r) := by
  have hnr := hcounted.nr hpos hlen hend
  obtain ⟨-, hkernel, hsame⟩ := hcounted.same
  rw [← hsame] at hpos hlen ⊢
  rw [← hkernel] at hk ⊢
  refine ⟨fun fuel => ⟨?_, ?_, ?_⟩, fun hlive hbus => chunks_total hlive hbus hlen hpos hk⟩
  · intro i e he
    obtain ⟨⟨m, htiles⟩, -⟩ := @subs_tile env dir fuel req' hw hlen hpos hk
    exact htiles.nth he
  · intro s hs
    obtain ⟨m, k, hw', hm, rfl⟩ := passes_at hlen hpos hk s hs
    rw [hnr]
    simp only [RequestCopy.chunkAt]
    unfold RequestCopy.pageIndex PAGE_SIZE
    omega
  · intro r hr
    have htiles := (@subs_tile env dir fuel req' hw hlen hpos hk).2 r hr
    have hnum := htiles.length_eq hpos
    rw [if_neg (Nat.lt_irrefl _)] at hnum
    rw [hnr, hnum]
    exact ⟨rfl, htiles.sum_len⟩

theorem chunks_agree_sample :
    let req := init_req_copy 8190 sampleBuf 4
    let req' := (dma_pin_user_pages shortPin bootMm req PIN_READ 0).2.1
    ∀ s ∈ Direction.from_user.passes shortEnv 2 req' bootSt.hw, (s.page_index : Int) < req'.nr_pages := by
  intro req req'
  have hcounted : req'.CountedFrom req := .pin (by decide) rfl
  exact ((chunks_agree .from_user shortEnv bootSt.hw hcounted (by decide) (by decide) (by decide) (by decide)).1 2).2.1

/-! ## The `int` arithmetic -/

/-- What a pass is to find in `copy`. -/
structure ChunkLoop.InPage (s : ChunkLoop) : Prop where
  pos : 1 ≤ s.copy
  le_page : s.copy ≤ PAGE_SIZE - s.byte_offset
  le_left : s.copy ≤ s.tmp_len

/-- No chunk leaves its page, each brings the loop closer to its end by its size, and
so the loop ends if descriptors keep being granted. -/
structure StaysInPage (dir : Direction) (env : DmaEnv) (req_cpy_local : RequestCopy) (hw : Hw) : Prop where
  in_page : ∀ fuel, ∀ s ∈ dir.passes env fuel req_cpy_local hw, s.InPage
  decreases : ∀ fuel, ∀ s ∈ dir.passes env fuel req_cpy_local hw, 0 ≤ (s.tried dir.submit env req_cpy_local.entry).1 →
    match chunkBody dir.submit env req_cpy_local.entry s with
    | .inl s' => s'.tmp_len < s.tmp_len ∧ (s'.tmp_len : Int) = s.tmp_len - s.copy
    | .inr _ => (s.tmp_len : Int) = s.copy
  finite : ∃ N, ∀ fuel, (dir.subs env fuel req_cpy_local hw).length ≤ N
  ends : env.Live → ∃ r N, ∀ fuel, N ≤ fuel → dir.chunks env fuel req_cpy_local hw = some r

section

variable {env : DmaEnv} {dir : Direction} {req : RequestCopy} {hw : Hw}

theorem RequestCopy.chunkAt_inPage {m : Nat} (hm : m < req.len) (k : Nat) (hw : Hw) : (req.chunkAt m k hw).InPage := by
  obtain ⟨hpos, hle, hoff⟩ := RequestCopy.chunkLen_pos hm
  refine ⟨?_, ?_, ?_⟩ <;> simp only [RequestCopy.chunkAt] <;> omega

theorem RequestCopy.Tiles.length_le {m : Nat} {es : List Sub} (h : req.Tiles m es) : es.length ≤ m := by
  induction h with
  | nil => exact Nat.le_refl 0
  | @snoc m es e _ hm _ ih =>
    have hpos := (RequestCopy.chunkLen_pos hm).1
    rw [List.length_append, List.length_singleton]
    omega

/-- The first pass of a loop is one of its passes. -/
theorem mem_passes_first {body : ChunkLoop → ChunkLoop ⊕ (Int × Nat × Hw)} (s : ChunkLoop) :
    s ∈ Lib.Loop.outputs body (fun s => [s]) 1 s := List.mem_append_left _ (List.mem_singleton_self s)

theorem mem_passes_next {body : ChunkLoop → ChunkLoop ⊕ (Int × Nat × Hw)} {s s' t : ChunkLoop} {fuel : Nat}
    (h : body s = .inl s') (ht : t ∈ Lib.Loop.outputs body (fun s => [s]) fuel s') :
    t ∈ Lib.Loop.outputs body (fun s => [s]) (fuel + 1) s := by
  rw [Lib.Loop.outputs, h]
  exact List.mem_append_right _ ht

/-- `2 ^ 31` bytes or more are left, and `low` of the kernel's bytes modulo `2 ^ 32` are
this pass's or to come. -/
structure ChunkLoop.Long (s : ChunkLoop) (base low : Nat) : Prop where
  copy_eq : ∃ off < PAGE_SIZE, s.copy = min ((PAGE_SIZE : Int) - (off : Nat)) (s32 s.tmp_len)
  le : 2 ^ 31 ≤ s.tmp_len
  lt : s.tmp_len < 2 ^ 64
  addr : ∃ m, s.tmp_addr_kernel = u64 (base + m : Nat) ∧ m + s.tmp_len % 2 ^ 32 = low

theorem chunkStart_long (hlo : 2 ^ 31 ≤ req.len) (hhi : req.len < 2 ^ 64) (hk : req.kernel_base < 2 ^ 64) (hw : Hw) :
    (chunkStart req hw).Long req.kernel_base (req.len % 2 ^ 32) := by
  have hoff : req.user_base % PAGE_SIZE < 4096 := Nat.mod_lt _ (by decide)
  refine ⟨⟨req.user_base % PAGE_SIZE, hoff, ?_⟩, hlo, hhi, 0, ?_, Nat.zero_add _⟩
  · have hs : s32 (req.user_base % PAGE_SIZE : Nat) = (req.user_base % PAGE_SIZE : Nat) := by
      apply s32_of_range <;> omega
    simp only [chunkStart, hs]
    rw [s32_of_range] <;> unfold PAGE_SIZE at * <;> omega
  · exact (u64_of_lt hk).symm

/-- Where `copy` is as it should be, it takes away from the length modulo `2 ^ 32`. -/
theorem ChunkLoop.Long.copy_range {s : ChunkLoop} {base low : Nat} (h : s.Long base low) (hpos : 1 ≤ s.copy) :
    s.copy ≤ (s.tmp_len % 2 ^ 32 : Nat) ∧ s.tmp_len % 2 ^ 32 < 2 ^ 31 ∧ 2 ^ 32 ≤ s.tmp_len := by
  obtain ⟨off, -, hcopy⟩ := h.copy_eq
  have hlo := h.le
  have hu32 : u32 s.tmp_len = s.tmp_len % 2 ^ 32 := by
    unfold u32
    omega
  have hs32 : s.copy ≤ s32 s.tmp_len := hcopy ▸ Int.min_le_right ..
  rw [s32, hu32] at hs32
  split at hs32 <;> omega

/-- Such a pass finds a bad `copy`, tries its chunk again, or goes on with a shorter rest. -/
theorem ChunkLoop.Long.pass {s : ChunkLoop} {base low : Nat} (h : s.Long base low) (hpos : 1 ≤ s.copy) :
    ∃ s', chunkBody dir.submit env req.entry s = .inl s' ∧ s'.Long base low ∧ s'.attempt = s.attempt + 1 ∧
      ((s.tried dir.submit env req.entry).1 < 0 ∧ s'.tmp_len = s.tmp_len ∨
        s'.tmp_len % 2 ^ 32 < s.tmp_len % 2 ^ 32) := by
  obtain ⟨hle, hlt, hge⟩ := h.copy_range hpos
  by_cases hneg : (s.tried dir.submit env req.entry).1 < 0
  · exact ⟨_, if_pos hneg, ⟨h.copy_eq, h.le, h.lt, h.addr⟩, rfl, .inl ⟨hneg, rfl⟩⟩
  · obtain ⟨m, haddr, hm⟩ := h.addr
    have hhi := h.lt
    have hleft : u64 (s.tmp_len - s.copy) = s.tmp_len - s.copy.toNat := by rw [u64_of_range] <;> omega
    have hne : u64 (s.tmp_len - s.copy) ≠ 0 := by omega
    refine ⟨_, (if_neg hneg).trans (if_neg hne), ⟨⟨0, by decide, ?_⟩, ?_, ?_, m + s.copy.toNat, ?_, ?_⟩, rfl, .inr ?_⟩
    · rw [Int.natCast_zero, Int.sub_zero, s32_of_range (x := PAGE_SIZE) (by decide) (by decide)]
    · dsimp only
      omega
    · dsimp only
      omega
    · dsimp only
      rw [haddr]
      unfold u64
      omega
    · dsimp only
      omega
    · dsimp only
      omega

/-- From `2 ^ 31` bytes on, a chunk of no bytes comes, or one of less than none. The
induction is on the length modulo `2 ^ 32`, the inner one on the attempts until one
is granted. -/
theorem passes_leave (hgranted : ∀ k, ∃ j, k ≤ j ∧ (env.attempts j).granted) {base low : Nat}
    (hbus : dir.Mappable base low) {s : ChunkLoop} (h : s.Long base low) :
    ∃ fuel, ∃ t ∈ Lib.Loop.outputs (chunkBody dir.submit env req.entry) (fun s => [s]) fuel s, ¬ t.InPage := by
  induction hr : s.tmp_len % 2 ^ 32 using Nat.strong_induction_on generalizing s with
  | _ r ih =>
  obtain ⟨j, hkj, hj⟩ := hgranted s.attempt
  induction htries : j - s.attempt using Nat.strong_induction_on generalizing s with
  | _ tries ihTries =>
  by_cases hpos : 1 ≤ s.copy
  · obtain ⟨s', hbody, hlong, hattempt, hnext⟩ := h.pass hpos
    have hbad : ∃ fuel, ∃ t ∈ Lib.Loop.outputs (chunkBody dir.submit env req.entry) (fun s => [s]) fuel s', ¬ t.InPage := by
      rcases hnext with ⟨hneg, hsame⟩ | hless
      · -- the granted attempt is still to come
        have hne : s.attempt ≠ j := by
          intro heq
          obtain ⟨m, haddr, hm⟩ := h.addr
          have hrange := h.copy_range hpos
          have hcounts := @Direction.counts dir env (env.attempts s.attempt) s.hw (req.entry s.page_index)
            (u32 s.byte_offset) (u64 s.copy) s.tmp_addr_kernel fun hdir => by
              rw [haddr, virt_to_phys_u64]
              exact hbus hdir m (by omega)
          exact absurd (hcounts.1 (heq ▸ hj)) (Int.not_le.2 hneg)
        exact ihTries (j - s'.attempt) (by omega) hlong (hsame ▸ hr) (by omega) rfl
      · exact ih _ (hr ▸ hless) hlong rfl
    obtain ⟨fuel, t, ht, hbad⟩ := hbad
    exact ⟨fuel + 1, t, mem_passes_next hbody ht, hbad⟩
  · exact ⟨1, s, mem_passes_first s, fun h => hpos h.pos⟩

end

/-- The chunk size stays within the page exactly for the lengths below `2 ^ 31`: then
whatever happens, and else as soon as descriptors keep being granted. -/
theorem copy_in_page_iff (dir : Direction) {req : RequestCopy} (hpos : 1 ≤ req.len) (hl : req.len < 2 ^ 64)
    (hk : req.kernel_base < 2 ^ 64) (hbus : dir.Mappable req.kernel_base (min req.len (2 ^ 31))) :
    (∀ env hw, StaysInPage dir env req hw) ↔ req.len < 2 ^ 31 := by
  constructor
  · intro h
    by_contra hlen
    have hlong := chunkStart_long (Nat.not_lt.1 hlen) hl hk bootSt.hw
    have hfirst := ((h shortEnv bootSt.hw).in_page 1 _ (mem_passes_first _)).pos
    -- the first chunk is none, or there are less than `2 ^ 31` bytes to a bad one
    have hlow := (hlong.copy_range hfirst).2.1
    obtain ⟨fuel, t, ht, hbad⟩ := @passes_leave shortEnv dir req (fun k => ⟨k, Nat.le_refl k, rfl, rfl, rfl⟩) _ _
      (fun hdir m hm => hbus hdir m (by simp only [chunkStart] at hlow; omega)) _ hlong
    exact hbad ((h shortEnv bootSt.hw).in_page fuel t ht)
  · intro hlen env hw
    rw [Nat.min_eq_left (Nat.le_of_lt hlen)] at hbus
    refine ⟨?_, ?_, ?_, fun hlive => chunks_total hlive hbus hlen hpos hk⟩
    · intro fuel s hs
      obtain ⟨m, k, hw', hm, rfl⟩ := passes_at hlen hpos hk s hs
      exact RequestCopy.chunkAt_inPage hm k hw'
    · intro fuel s hs h0
      obtain ⟨m, k, hw', hm, rfl⟩ := passes_at hlen hpos hk s hs
      rw [tried_eq hm] at h0
      obtain ⟨hone, hle, -⟩ := RequestCopy.chunkLen_pos hm
      rw [chunkBody_eq dir.submit env hlen hm k hw' rfl, if_neg (Int.not_lt.2 h0)]
      split
      next hinl =>
        split at hinl
        next => cases hinl
        next hend =>
          cases hinl
          dsimp only [RequestCopy.chunkAt]
          omega
      next hinr =>
        split at hinr
        next hend =>
          dsimp only [RequestCopy.chunkAt]
          omega
        next => cases hinr
    · refine ⟨req.len, fun fuel => ?_⟩
      obtain ⟨⟨m, htiles⟩, -⟩ := @subs_tile env dir fuel req hw hlen hpos hk
      exact Nat.le_trans htiles.length_le htiles.le

theorem copy_in_page_iff_sample : StaysInPage .to_user shortEnv (init_req_copy 8190 sampleBuf 4) bootSt.hw :=
  (copy_in_page_iff .to_user (by decide) (by decide) (by decide) nofun).2 (by decide) shortEnv bootSt.hw

/-- Two gigabytes are a chunk of less than none. -/
theorem copy_negative : (chunkStart (init_req_copy 8192 sampleBuf (2 ^ 31)) bootSt.hw).copy = -2 ^ 31 ∧
    ∀ dir, ¬ StaysInPage dir shortEnv (init_req_copy 8192 sampleBuf (2 ^ 31)) bootSt.hw := by
  have hcopy : (chunkStart (init_req_copy 8192 sampleBuf (2 ^ 31)) bootSt.hw).copy = -2 ^ 31 := by decide
  refine ⟨hcopy, fun dir h => ?_⟩
  have hpos := (h.in_page 1 _ (mem_passes_first _)).pos
  rw [hcopy] at hpos
  exact absurd hpos (by decide)

end Dmacftu
