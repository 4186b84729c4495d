import Dmacftu.Lib.CInt
import Dmacftu.Lib.CopyEngine
import Dmacftu.Lib.Loop
import Dmacftu.Pin
/-!
# Copying a request with the DMA engine

The submission functions of `dmaengine.c` (`dma_async_memcpy_*`,
`dma_sync_wait`) and the copies of `dma_policy_ex_sh.c` that use them, from the
page-chunked loops up to `dma_copy_to_user` and `dma_copy_from_user`.

A channel is an engine of `Lib.CopyEngine`. A cookie is the number of
descriptors submitted so far, its own included. What the code cannot know in
advance (which mappings and descriptors it gets, what the engine and other
clients do between its steps, what a poll reports) is in a `DmaEnv`.
-/
open Lib.CInt Lib.CopyEngine

namespace Dmacftu

/-! ## The channel -/

inductive MapKind where
  | single
  | page
  deriving DecidableEq, Repr

inductive DmaDirection where
  | DMA_TO_DEVICE
  | DMA_FROM_DEVICE
  deriving DecidableEq, Repr

/-- A live streaming mapping. -/
structure Mapping where
  kind : MapKind
  addr : Nat
  len : Nat
  dir : DmaDirection
  deriving DecidableEq, Repr

/-- The channel a request uses, with its statistics summed over the CPUs, and
the live mappings. -/
structure Hw where
  eng : Engine UInt8
  maps : List Mapping
  bytes_transferred : BitVec 64
  memcpy_count : BitVec 64

/-- One attempt to submit a descriptor: what happens before it, and whether the
two mappings and the descriptor are granted. -/
structure Attempt where
  evs : List Ev
  dest_mapped : Bool
  src_mapped : Bool
  tx : Bool

/-- One look at a cookie: what happens before it, what the driver reports, and
whether the timeout has passed. -/
structure Poll where
  evs : List Ev
  tx_status : Int → Engine UInt8 → DmaStatus
  late : Bool

/-- The outcomes one copy meets. -/
structure DmaEnv where
  /-- What `copy_dma_get_channel_boot` returns. -/
  chan : Option Nat
  pin : PinEnv
  page_to_pfn : Page → Nat
  attempts : Nat → Attempt
  polls : Nat → Poll
  /-- Frame 0 is the firmware's, so no task and no buffer has it. -/
  pfn_ne : ∀ p, page_to_pfn p ≠ 0

def EBUSY : Int := 16
def EFAULT : Int := 14
def ENOMEM : Int := 12

/-- Where the kernel's linear mapping starts, and how long it is. -/
def PAGE_OFFSET : Nat := 0xffff880000000000
def LINEAR_SIZE : Nat := 2 ^ 46

/-- `__pa`, on an address of the linear mapping. -/
def virt_to_phys (v : Nat) : Nat := u64 ((v : Int) - PAGE_OFFSET)

def DmaEnv.page_to_phys (env : DmaEnv) (p : Page) : Nat := env.page_to_pfn p * PAGE_SIZE

/-! ## Submission -/

namespace Hw

def play (hw : Hw) (evs : List Ev) : Hw := { hw with eng := hw.eng.play evs }

def map (hw : Hw) (m : Mapping) : Hw := { hw with maps := m :: hw.maps }

def unmap (hw : Hw) (m : Mapping) : Hw := { hw with maps := hw.maps.erase m }

/-- `tx_submit` and the statistics. -/
def submit (hw : Hw) (d : Desc) : Int × Hw :=
  let hw := { hw with
    eng := hw.eng.submit d
    bytes_transferred := hw.bytes_transferred + BitVec.ofNat 64 d.len
    memcpy_count := hw.memcpy_count + 1 }
  (hw.eng.log.length, hw)

end Hw

/-- The bus address 0 says that a mapping was refused, and so a buffer at address 0
counts as refused whenever it is mapped. -/
def mapped (granted : Bool) (m : Mapping) : Option Mapping := if granted = true ∧ m.addr ≠ 0 then some m else none

def dma_map_single (granted : Bool) (v len : Nat) (dir : DmaDirection) : Option Mapping :=
  mapped granted ⟨.single, virt_to_phys v, len, dir⟩

def dma_map_page (env : DmaEnv) (granted : Bool) (page : Page) (offset len : Nat) (dir : DmaDirection) :
    Option Mapping :=
  mapped granted ⟨.page, env.page_to_phys page + offset, len, dir⟩

def dma_async_memcpy_pg_to_buf (env : DmaEnv) (att : Attempt) (hw : Hw) (page : Page) (offset kdata len : Nat) :
    Int × Hw :=
  let hw := hw.play att.evs
  match dma_map_single att.dest_mapped kdata len .DMA_FROM_DEVICE with
  | none => (-EFAULT, hw)
  | some dest =>
    match dma_map_page env att.src_mapped page offset len .DMA_TO_DEVICE with
    | none => (-EFAULT, (hw.map dest).unmap dest)
    | some src =>
      let hw := (hw.map dest).map src
      if att.tx then hw.submit ⟨dest.addr, src.addr, len⟩
      else (-ENOMEM, (hw.unmap src).unmap dest)

def busAddr (m : Option Mapping) : Nat := (m.map Mapping.addr).getD 0

/-- The rest of the two functions that do not look at what the mappings return. -/
def memcpyMapped (att : Attempt) (hw : Hw) (dest src : Option Mapping) (len : Nat) : Int × Hw :=
  let hw := { hw with maps := dest.toList ++ (src.toList ++ hw.maps) }
  if att.tx then hw.submit ⟨busAddr dest, busAddr src, len⟩
  else (-ENOMEM, (src.toList ++ dest.toList).foldl Hw.unmap hw)

def dma_async_memcpy_buf_to_pg (env : DmaEnv) (att : Attempt) (hw : Hw) (page : Page) (offset kdata len : Nat) :
    Int × Hw :=
  memcpyMapped att (hw.play att.evs) (dma_map_page env att.dest_mapped page offset len .DMA_FROM_DEVICE)
    (dma_map_single att.src_mapped kdata len .DMA_TO_DEVICE) len

def dma_async_memcpy_buf_to_buf (att : Attempt) (hw : Hw) (dest src len : Nat) : Int × Hw :=
  memcpyMapped att (hw.play att.evs) (dma_map_single att.dest_mapped dest len .DMA_FROM_DEVICE)
    (dma_map_single att.src_mapped src len .DMA_TO_DEVICE) len

/-- The poll loop: the next poll and the channel before it. -/
def syncWaitBody (env : DmaEnv) (cookie : Int) : Nat × Hw → (Nat × Hw) ⊕ (DmaStatus × Hw)
  | (i, hw) =>
    let hw := hw.play (env.polls i).evs
    let status := (env.polls i).tx_status cookie hw.eng
    if (env.polls i).late then .inr (.DMA_ERROR, hw)
    else if status ≠ .DMA_IN_PROGRESS then .inr (status, hw)
    else .inl (i + 1, hw)

def dma_sync_wait (env : DmaEnv) (fuel : Nat) (cookie : Int) (hw : Hw) : Option (DmaStatus × Hw) :=
  Lib.Loop.run (syncWaitBody env cookie) fuel (0, hw)

/-! ## Copies of a pinned request -/

/-- The locals of the chunk loop, the attempts made and the channel. -/
structure ChunkLoop where
  attempt : Nat
  tmp_addr_kernel : Nat
  tmp_len : Nat
  byte_offset : Int
  page_index : Nat
  copy : Int
  hw : Hw

abbrev SubmitFn := DmaEnv → Attempt → Hw → Page → Nat → Nat → Nat → Int × Hw

/-- The chunk loop's body; it is left with the cookie and `tmp_len`. -/
def chunkBody (submit : SubmitFn) (env : DmaEnv) (pages : Nat → Page) (s : ChunkLoop) :
    ChunkLoop ⊕ (Int × Nat × Hw) :=
  let r := submit env (env.attempts s.attempt) s.hw (pages s.page_index) (u32 s.byte_offset) s.tmp_addr_kernel
    (u64 s.copy)
  -- poll for a descriptor slot
  if r.1 < 0 then .inl { s with attempt := s.attempt + 1, hw := r.2 }
  else
    let tmp_len := u64 (s.tmp_len - s.copy)
    if tmp_len = 0 then .inr (r.1, tmp_len, r.2)
    else .inl {
      attempt := s.attempt + 1
      tmp_addr_kernel := u64 (s.tmp_addr_kernel + s.copy)
      tmp_len := tmp_len
      byte_offset := 0
      page_index := s.page_index + 1
      copy := min (s32 PAGE_SIZE) (s32 tmp_len)
      hw := r.2 }

def chunkStart (req_cpy_local : RequestCopy) (hw : Hw) : ChunkLoop :=
  let byte_offset := s32 (req_cpy_local.user_base % PAGE_SIZE : Nat)
  { attempt := 0
    tmp_addr_kernel := req_cpy_local.kernel_base
    tmp_len := req_cpy_local.len
    byte_offset := byte_offset
    page_index := 0
    copy := min (s32 (PAGE_SIZE - byte_offset)) (s32 req_cpy_local.len)
    hw := hw }

def RequestCopy.entry (req_cpy_local : RequestCopy) : Nat → Page :=
  match req_cpy_local.pages with
  | some a => a.entry
  | none => fun _ => 0

/-- Submission page by page, and the wait for the last cookie. -/
def copyPinned (submit : SubmitFn) (env : DmaEnv) (fuel : Nat) (req_cpy_local : RequestCopy) (hw : Hw) :
    Option (Int × RequestCopy × Hw) := do
  let (cookie, tmp_len, hw) ← Lib.Loop.run (chunkBody submit env req_cpy_local.entry) fuel
    (chunkStart req_cpy_local hw)
  let (status, hw) ← dma_sync_wait env fuel cookie hw
  return (s32 tmp_len, { req_cpy_local with dma_cookie := cookie, status := status }, hw)

/-- `__dma_copy_from_user`. -/
def Pinned.dma_copy_from_user (env : DmaEnv) (fuel : Nat) (req_cpy_local : RequestCopy) (hw : Hw) :
    Option (Int × RequestCopy × Hw) :=
  copyPinned dma_async_memcpy_pg_to_buf env fuel req_cpy_local hw

/-- `__dma_copy_to_user`. -/
def Pinned.dma_copy_to_user (env : DmaEnv) (fuel : Nat) (req_cpy_local : RequestCopy) (hw : Hw) :
    Option (Int × RequestCopy × Hw) :=
  copyPinned dma_async_memcpy_buf_to_pg env fuel req_cpy_local hw

/-! ## Copies inside the kernel -/

def kernelBody (env : DmaEnv) (dest src len : Nat) : Nat × Hw → (Nat × Hw) ⊕ (Int × Hw)
  | (k, hw) =>
    let r := dma_async_memcpy_buf_to_buf (env.attempts k) hw dest src len
    if r.1 < 0 then .inl (k + 1, r.2) else .inr r

/-- One descriptor between two virtual addresses, and the wait for it. -/
def copyKernel (dest src : Nat) (env : DmaEnv) (fuel : Nat) (req_cpy_local : RequestCopy) (hw : Hw) :
    Option (Int × RequestCopy × Hw) := do
  let (cookie, hw) ← Lib.Loop.run (kernelBody env dest src req_cpy_local.len) fuel (0, hw)
  let (status, hw) ← dma_sync_wait env fuel cookie hw
  return (0, { req_cpy_local with dma_cookie := cookie, status := status }, hw)

def dma_copy_from_kernel (env : DmaEnv) (fuel : Nat) (req_cpy_local : RequestCopy) (hw : Hw) :
    Option (Int × RequestCopy × Hw) :=
  copyKernel req_cpy_local.kernel_base req_cpy_local.user_base env fuel req_cpy_local hw

def dma_copy_to_kernel (env : DmaEnv) (fuel : Nat) (req_cpy_local : RequestCopy) (hw : Hw) :
    Option (Int × RequestCopy × Hw) :=
  copyKernel req_cpy_local.user_base req_cpy_local.kernel_base env fuel req_cpy_local hw

/-! ## Copies to and from user space -/

/-- The memory management's state and the channel's. -/
structure St where
  mm : Mm
  hw : Hw

abbrev CopyFn := DmaEnv → Nat → RequestCopy → Hw → Option (Int × RequestCopy × Hw)

/-- What follows the pinning: the copy the address limit asks for, and unpinning. -/
def copyAfterPin (kernelCopy pinnedCopy : CopyFn) (dirty : Int) (env : DmaEnv) (fuel : Nat) (hw : Hw) :
    PinResult × RequestCopy × Mm → Option (Int × RequestCopy × St)
  | (.PIN_FAILED, req_cpy_local, mm) => some (s32 req_cpy_local.len, req_cpy_local, ⟨mm, hw⟩)
  | (.PIN_NO_USER, req_cpy_local, mm) =>
    (kernelCopy env fuel req_cpy_local hw).map fun r => (r.1, r.2.1, ⟨mm, r.2.2⟩)
  | (.PIN_SUCCESSFUL, req_cpy_local, mm) =>
    (pinnedCopy env fuel req_cpy_local hw).map fun r => (r.1, r.2.1, ⟨dma_unpin_user_pages mm r.2.1 dirty, r.2.2⟩)

/-- Channel lookup, pinning, and the rest; the two directions differ in the first
four parameters. -/
def copyUser (write : Int) (kernelCopy pinnedCopy : CopyFn) (dirty : Int) (env : DmaEnv) (fuel : Nat)
    (req_cpy_local : RequestCopy) (st : St) : Option (Int × RequestCopy × St) :=
  if req_cpy_local.len > 0 then
    let req_cpy_local := { req_cpy_local with chan := env.chan }
    if req_cpy_local.chan = none then some (-EBUSY, req_cpy_local, st)
    else copyAfterPin kernelCopy pinnedCopy dirty env fuel st.hw
      (dma_pin_user_pages env.pin st.mm req_cpy_local write 0)
  else some (0, req_cpy_local, st)

def dma_copy_to_user (env : DmaEnv) (fuel : Nat) (req_cpy_local : RequestCopy) (st : St) :
    Option (Int × RequestCopy × St) :=
  copyUser PIN_WRITE dma_copy_to_kernel Pinned.dma_copy_to_user SET_DIRTY_ON env fuel req_cpy_local st

def dma_copy_from_user (env : DmaEnv) (fuel : Nat) (req_cpy_local : RequestCopy) (st : St) :
    Option (Int × RequestCopy × St) :=
  copyUser PIN_READ dma_copy_from_kernel Pinned.dma_copy_from_user SET_DIRTY_OFF env fuel req_cpy_local st

/-! ## What one submission does -/

def Attempt.granted (att : Attempt) : Prop := att.dest_mapped = true ∧ att.src_mapped = true ∧ att.tx = true

/-- An attempt submits the descriptor, or returns a negative cookie: it is not granted,
or an address of the descriptor is 0. -/
def Outcome (att : Attempt) (hw : Hw) (d : Desc) (r : Int × Hw) : Prop :=
  ((att.granted → d.dst = 0 ∨ d.src = 0) ∧ r.1 < 0 ∧ r.2.eng = hw.eng.play att.evs) ∨
    (att.granted ∧ r.1 = r.2.eng.log.length ∧ r.2.eng = (hw.eng.play att.evs).submit d)

theorem neg_EFAULT : -EFAULT < 0 := by decide

theorem neg_ENOMEM : -ENOMEM < 0 := by decide

theorem mapped_none {granted : Bool} {m : Mapping} (h : mapped granted m = none) : granted = false ∨ m.addr = 0 := by
  unfold mapped at h
  split at h
  · cases h
  next hno =>
    cases granted
    · exact .inl rfl
    · exact .inr (not_not.1 fun hne => hno ⟨rfl, hne⟩)

theorem mapped_some {granted : Bool} {m m' : Mapping} (h : mapped granted m = some m') :
    granted = true ∧ m.addr ≠ 0 ∧ m' = m := by
  unfold mapped at h
  split at h
  next hyes =>
    cases h
    exact ⟨hyes.1, hyes.2, rfl⟩
  · cases h

/-- The exits of `dma_async_memcpy_pg_to_buf`, with what was mapped at each. -/
theorem pg_to_buf_outcome (env : DmaEnv) (att : Attempt) (hw : Hw) (page : Page) (offset kdata len : Nat) :
    Outcome att hw ⟨virt_to_phys kdata, env.page_to_phys page + offset, len⟩
      (dma_async_memcpy_pg_to_buf env att hw page offset kdata len) := by
  unfold Outcome dma_async_memcpy_pg_to_buf
  cases hdest : dma_map_single att.dest_mapped kdata len .DMA_FROM_DEVICE with
  | none =>
    refine .inl ⟨fun hg => .inl ?_, neg_EFAULT, rfl⟩
    exact (mapped_none hdest).resolve_left (by simp [hg.1])
  | some dest =>
    cases hsrc : dma_map_page env att.src_mapped page offset len .DMA_TO_DEVICE with
    | none =>
      refine .inl ⟨fun hg => .inr ?_, neg_EFAULT, rfl⟩
      exact (mapped_none hsrc).resolve_left (by simp [hg.2.1])
    | some src =>
      obtain ⟨hd, -, rfl⟩ := mapped_some hdest
      obtain ⟨hs, -, rfl⟩ := mapped_some hsrc
      cases htx : att.tx
      · exact .inl ⟨fun hg => absurd hg.2.2 (by simp [htx]), neg_ENOMEM, rfl⟩
      · exact .inr ⟨⟨hd, hs, htx⟩, rfl, rfl⟩

theorem foldl_unmap_eng (ms : List Mapping) (hw : Hw) : (ms.foldl Hw.unmap hw).eng = hw.eng := by
  induction ms generalizing hw with
  | nil => rfl
  | cons m ms ih => exact ih (hw.unmap m)

/-- The mappings, which these functions do not look at, are there whenever the
descriptor is. -/
def Attempt.Mapped (att : Attempt) : Prop := att.tx = true → att.dest_mapped = true ∧ att.src_mapped = true

theorem memcpyMapped_outcome {att : Attempt} (h : att.Mapped) (hw : Hw) {dest src : Option Mapping} {d s len : Nat}
    (hd : att.dest_mapped = true → busAddr dest = d) (hs : att.src_mapped = true → busAddr src = s) :
    Outcome att hw ⟨d, s, len⟩ (memcpyMapped att (hw.play att.evs) dest src len) := by
  unfold Outcome memcpyMapped
  by_cases htx : att.tx = true
  · obtain ⟨h1, h2⟩ := h htx
    rw [if_pos htx, hd h1, hs h2]
    exact .inr ⟨⟨h1, h2, htx⟩, rfl, rfl⟩
  · rw [if_neg htx]
    exact .inl ⟨fun hg => absurd hg.2.2 htx, neg_ENOMEM, foldl_unmap_eng _ _⟩

/-- They go on with the bus address 0 as with any other. -/
theorem busAddr_mapped {granted : Bool} {m : Mapping} (h : granted = true) : busAddr (mapped granted m) = m.addr := by
  unfold mapped
  split
  · rfl
  next hno => exact (not_not.1 fun hne => hno ⟨h, hne⟩).symm

theorem buf_to_pg_outcome (env : DmaEnv) {att : Attempt} (h : att.Mapped) (hw : Hw) (page : Page)
    (offset kdata len : Nat) : Outcome att hw ⟨env.page_to_phys page + offset, virt_to_phys kdata, len⟩
      (dma_async_memcpy_buf_to_pg env att hw page offset kdata len) :=
  memcpyMapped_outcome h hw busAddr_mapped busAddr_mapped

theorem buf_to_buf_outcome {att : Attempt} (h : att.Mapped) (hw : Hw) (dest src len : Nat) :
    Outcome att hw ⟨virt_to_phys dest, virt_to_phys src, len⟩ (dma_async_memcpy_buf_to_buf att hw dest src len) :=
  memcpyMapped_outcome h hw busAddr_mapped busAddr_mapped

/-! ## The chunks -/

namespace RequestCopy

/-- Where the chunk that starts at byte `m` of the request begins in its page. -/
def offset (req_cpy_local : RequestCopy) (m : Nat) : Nat := (req_cpy_local.user_base + m) % PAGE_SIZE

def pageIndex (req_cpy_local : RequestCopy) (m : Nat) : Nat :=
  (req_cpy_local.user_base + m) / PAGE_SIZE - req_cpy_local.user_base / PAGE_SIZE

def chunkLen (req_cpy_local : RequestCopy) (m : Nat) : Nat :=
  min (PAGE_SIZE - req_cpy_local.offset m) (req_cpy_local.len - m)

/-- The loop's state when `m` bytes are submitted. -/
def chunkAt (req_cpy_local : RequestCopy) (m k : Nat) (hw : Hw) : ChunkLoop where
  attempt := k
  tmp_addr_kernel := u64 (req_cpy_local.kernel_base + m : Nat)
  tmp_len := req_cpy_local.len - m
  byte_offset := req_cpy_local.offset m
  page_index := req_cpy_local.pageIndex m
  copy := req_cpy_local.chunkLen m
  hw := hw

/-- The `k`th attempt, at the chunk that starts at byte `m`. -/
def submitChunk (req_cpy_local : RequestCopy) (submit : SubmitFn) (env : DmaEnv) (m k : Nat) (hw : Hw) : Int × Hw :=
  submit env (env.attempts k) hw (req_cpy_local.entry (req_cpy_local.pageIndex m)) (req_cpy_local.offset m)
    (u64 (req_cpy_local.kernel_base + m : Nat)) (req_cpy_local.chunkLen m)

variable {req_cpy_local : RequestCopy}

theorem chunkLen_pos {m : Nat} (h : m < req_cpy_local.len) :
    1 ≤ req_cpy_local.chunkLen m ∧ m + req_cpy_local.chunkLen m ≤ req_cpy_local.len ∧
      req_cpy_local.offset m + req_cpy_local.chunkLen m ≤ PAGE_SIZE := by
  unfold chunkLen offset PAGE_SIZE
  omega

/-- The next chunk, if there is one, starts at a page boundary. -/
theorem next_chunk {m : Nat} (h : m + req_cpy_local.chunkLen m < req_cpy_local.len) :
    req_cpy_local.offset (m + req_cpy_local.chunkLen m) = 0 ∧
      req_cpy_local.pageIndex (m + req_cpy_local.chunkLen m) = req_cpy_local.pageIndex m + 1 := by
  unfold pageIndex chunkLen offset PAGE_SIZE at *
  omega

/-- The `int` arithmetic of `copy` is exact below `2 ^ 31`. -/
theorem min_s32_eq (h : req_cpy_local.len < 2 ^ 31) (m : Nat) :
    min (s32 (PAGE_SIZE - (req_cpy_local.offset m : Nat))) (s32 (req_cpy_local.len - m : Nat)) =
      req_cpy_local.chunkLen m := by
  have hoff : req_cpy_local.offset m < 4096 := Nat.mod_lt _ (by decide)
  unfold chunkLen PAGE_SIZE
  rw [s32_of_range (by omega) (by omega), s32_of_range (by omega) (by omega)]
  omega

theorem chunkStart_eq (h : req_cpy_local.len < 2 ^ 31) (hk : req_cpy_local.kernel_base < 2 ^ 64) (hw : Hw) :
    chunkStart req_cpy_local hw = req_cpy_local.chunkAt 0 0 hw := by
  have hoff : s32 (req_cpy_local.user_base % PAGE_SIZE : Nat) = (req_cpy_local.user_base % PAGE_SIZE : Nat) := by
    apply s32_of_range <;> unfold PAGE_SIZE <;> omega
  have hcopy := min_s32_eq h 0
  unfold chunkStart chunkAt
  simp only [hoff, ← hcopy, Nat.add_zero, Nat.sub_zero, u64_of_lt hk]
  simp [offset, pageIndex]

end RequestCopy

/-- One pass through the chunk loop's body, as a pass over the request's bytes. -/
theorem chunkBody_eq (submit : SubmitFn) (env : DmaEnv) {req_cpy_local : RequestCopy}
    (hlen : req_cpy_local.len < 2 ^ 31) {m : Nat} (hm : m < req_cpy_local.len) (k : Nat) (hw : Hw) {r : Int × Hw}
    (hr : req_cpy_local.submitChunk submit env m k hw = r) :
    chunkBody submit env req_cpy_local.entry (req_cpy_local.chunkAt m k hw) =
      if r.1 < 0 then .inl (req_cpy_local.chunkAt m (k + 1) r.2)
      else if m + req_cpy_local.chunkLen m = req_cpy_local.len then .inr (r.1, 0, r.2)
      else .inl (req_cpy_local.chunkAt (m + req_cpy_local.chunkLen m) (k + 1) r.2) := by
  unfold RequestCopy.submitChunk at hr
  obtain ⟨h1, h2, h3⟩ := RequestCopy.chunkLen_pos hm
  have hoff : u32 (req_cpy_local.offset m) = req_cpy_local.offset m :=
    u32_of_lt (by unfold PAGE_SIZE at h3; omega)
  have hcopy : u64 (req_cpy_local.chunkLen m) = req_cpy_local.chunkLen m :=
    u64_of_lt (by unfold PAGE_SIZE at h3; omega)
  have hleft : u64 ((req_cpy_local.len - m : Nat) - (req_cpy_local.chunkLen m : Nat)) =
      req_cpy_local.len - (m + req_cpy_local.chunkLen m) := by
    rw [u64_of_range] <;> omega
  simp only [chunkBody, RequestCopy.chunkAt, hoff, hcopy, hr, hleft]
  split
  · rfl
  by_cases hend : m + req_cpy_local.chunkLen m = req_cpy_local.len
  · simp [hend]
  · obtain ⟨ho, hp⟩ := RequestCopy.next_chunk (show m + req_cpy_local.chunkLen m < req_cpy_local.len by omega)
    have hnext := RequestCopy.min_s32_eq hlen (m + req_cpy_local.chunkLen m)
    rw [ho, Int.natCast_zero, Int.sub_zero] at hnext
    have haddr : u64 ((u64 (req_cpy_local.kernel_base + m : Nat) : Nat) + (req_cpy_local.chunkLen m : Nat)) =
        u64 (req_cpy_local.kernel_base + (m + req_cpy_local.chunkLen m) : Nat) := by
      unfold u64
      omega
    rw [if_neg (by omega), if_neg hend, hnext, haddr, ho, hp]
    rfl

/-- A pass after which the loop goes on: its attempt failed, or there is another chunk. -/
theorem chunkAt_inl {submit : SubmitFn} {env : DmaEnv} {req_cpy_local : RequestCopy} (hlen : req_cpy_local.len < 2 ^ 31)
    {m k : Nat} {hw : Hw} {s' : ChunkLoop} (hm : m < req_cpy_local.len)
    (h : chunkBody submit env req_cpy_local.entry (req_cpy_local.chunkAt m k hw) = .inl s') :
    ((req_cpy_local.submitChunk submit env m k hw).1 < 0 ∧
      s' = req_cpy_local.chunkAt m (k + 1) (req_cpy_local.submitChunk submit env m k hw).2) ∨
    (0 ≤ (req_cpy_local.submitChunk submit env m k hw).1 ∧ m + req_cpy_local.chunkLen m < req_cpy_local.len ∧
      s' = req_cpy_local.chunkAt (m + req_cpy_local.chunkLen m) (k + 1)
        (req_cpy_local.submitChunk submit env m k hw).2) := by
  rw [chunkBody_eq submit env hlen hm k hw rfl] at h
  obtain ⟨-, hle, -⟩ := RequestCopy.chunkLen_pos hm
  split at h
  next hneg =>
    cases h
    exact .inl ⟨hneg, rfl⟩
  next hneg =>
    split at h
    next => cases h
    next hend =>
      cases h
      exact .inr ⟨Int.not_lt.1 hneg, by omega, rfl⟩

/-- The last pass. -/
theorem chunkAt_inr {submit : SubmitFn} {env : DmaEnv} {req_cpy_local : RequestCopy} (hlen : req_cpy_local.len < 2 ^ 31)
    {m k : Nat} {hw : Hw} {r : Int × Nat × Hw} (hm : m < req_cpy_local.len)
    (h : chunkBody submit env req_cpy_local.entry (req_cpy_local.chunkAt m k hw) = .inr r) :
    0 ≤ (req_cpy_local.submitChunk submit env m k hw).1 ∧ m + req_cpy_local.chunkLen m = req_cpy_local.len ∧
      r = ((req_cpy_local.submitChunk submit env m k hw).1, 0, (req_cpy_local.submitChunk submit env m k hw).2) := by
  rw [chunkBody_eq submit env hlen hm k hw rfl] at h
  split at h
  next => cases h
  next hneg =>
    split at h
    next hend =>
      cases h
      exact ⟨Int.not_lt.1 hneg, hend, rfl⟩
    next => cases h

/-- What the attempt of a pass comes to. -/
def ChunkLoop.tried (s : ChunkLoop) (submit : SubmitFn) (env : DmaEnv) (pages : Nat → Page) : Int × Hw :=
  submit env (env.attempts s.attempt) s.hw (pages s.page_index) (u32 s.byte_offset) s.tmp_addr_kernel (u64 s.copy)

theorem chunkBody_inl {submit : SubmitFn} {env : DmaEnv} {pages : Nat → Page} {s s' : ChunkLoop}
    (h : chunkBody submit env pages s = .inl s') : s'.hw = (s.tried submit env pages).2 := by
  simp only [chunkBody] at h
  split at h
  · cases h
    rfl
  · split at h
    · cases h
    · cases h
      rfl

/-- The loop is left when nothing is left to submit. -/
theorem chunkBody_inr {submit : SubmitFn} {env : DmaEnv} {pages : Nat → Page} {s : ChunkLoop} {r : Int × Nat × Hw}
    (h : chunkBody submit env pages s = .inr r) :
    0 ≤ (s.tried submit env pages).1 ∧ r = ((s.tried submit env pages).1, 0, (s.tried submit env pages).2) := by
  simp only [chunkBody] at h
  split at h
  · cases h
  next hneg =>
    split at h
    next hleft =>
      cases h
      exact ⟨Int.not_lt.1 hneg, by rw [hleft]; rfl⟩
    · cases h

theorem kernelBody_inl {env : DmaEnv} {dest src len : Nat} {s s' : Nat × Hw}
    (h : kernelBody env dest src len s = .inl s') :
    (dma_async_memcpy_buf_to_buf (env.attempts s.1) s.2 dest src len).1 < 0 ∧
      s' = (s.1 + 1, (dma_async_memcpy_buf_to_buf (env.attempts s.1) s.2 dest src len).2) := by
  simp only [kernelBody] at h
  split at h
  next hneg =>
    cases h
    exact ⟨hneg, rfl⟩
  · cases h

theorem kernelBody_inr {env : DmaEnv} {dest src len : Nat} {s : Nat × Hw} {r : Int × Hw}
    (h : kernelBody env dest src len s = .inr r) :
    0 ≤ r.1 ∧ dma_async_memcpy_buf_to_buf (env.attempts s.1) s.2 dest src len = r := by
  simp only [kernelBody] at h
  split at h
  · cases h
  next hneg =>
    cases h
    exact ⟨Int.not_lt.1 hneg, rfl⟩

/-! ## Rules for the loops -/

/-- A descriptor is granted again and again, and the timeout comes. -/
structure DmaEnv.Live (env : DmaEnv) : Prop where
  granted : ∀ k, ∃ j, k ≤ j ∧ (env.attempts j).granted
  timeout : ∀ i, ∃ j, i ≤ j ∧ (env.polls j).late = true

/-- None of the bytes has the bus address 0, for which `dma_async_memcpy_pg_to_buf`
would be called again and again. -/
def Mappable (v n : Nat) : Prop := ∀ i < n, virt_to_phys (v + i) ≠ 0

instance (v n : Nat) : Decidable (Mappable v n) := inferInstanceAs (Decidable (∀ i < n, virt_to_phys (v + i) ≠ 0))

/-- A granted attempt returns a cookie, and a cookie counts the descriptors. -/
def Counts (att : Attempt) (r : Int × Hw) : Prop :=
  (att.granted → 0 ≤ r.1) ∧ (0 ≤ r.1 → r.1 = r.2.eng.log.length)

theorem Outcome.cookie {att : Attempt} {hw : Hw} {d : Desc} {r : Int × Hw} (h : Outcome att hw d r) (h0 : 0 ≤ r.1) :
    r.1 = r.2.eng.log.length := by
  obtain ⟨-, hneg, -⟩ | ⟨-, hcookie, -⟩ := h
  · exact absurd hneg (Int.not_lt.2 h0)
  · exact hcookie

theorem Outcome.counts {att : Attempt} {hw : Hw} {d : Desc} {r : Int × Hw} (h : Outcome att hw d r) (hd : d.dst ≠ 0)
    (hs : d.src ≠ 0) : Counts att r := by
  refine ⟨fun hg => ?_, h.cookie⟩
  obtain ⟨hno, -, -⟩ | ⟨-, hcookie, -⟩ := h
  · exact absurd (hno hg) (not_or.2 ⟨hd, hs⟩)
  · omega

theorem DmaEnv.page_to_phys_ne (env : DmaEnv) (page : Page) (offset : Nat) : env.page_to_phys page + offset ≠ 0 := by
  have := env.pfn_ne page
  unfold DmaEnv.page_to_phys PAGE_SIZE
  omega

theorem pg_to_buf_counts (env : DmaEnv) (att : Attempt) (hw : Hw) (page : Page) (offset len : Nat) {kdata : Nat}
    (h : virt_to_phys kdata ≠ 0) : Counts att (dma_async_memcpy_pg_to_buf env att hw page offset kdata len) :=
  (pg_to_buf_outcome env att hw page offset kdata len).counts h (env.page_to_phys_ne page offset)

theorem memcpyMapped_counts (att : Attempt) (hw : Hw) (dest src : Option Mapping) (len : Nat) :
    Counts att (memcpyMapped att hw dest src len) := by
  unfold Counts memcpyMapped
  by_cases htx : att.tx = true
  · rw [if_pos htx]
    exact ⟨fun _ => Int.natCast_nonneg _, fun _ => rfl⟩
  · rw [if_neg htx]
    exact ⟨fun hg => absurd hg.2.2 htx, fun h0 => absurd neg_ENOMEM (Int.not_lt.2 h0)⟩

section

variable {env : DmaEnv}

/-- The wait ends, in a state the polls kept, with a status some poll reported. -/
theorem sync_wait_rule (hlive : env.Live) {Q : Hw → Prop} (hpoll : ∀ i hw, Q hw → Q (hw.play (env.polls i).evs))
    (cookie : Int) (i : Nat) (hw : Hw) (h : Q hw) :
    Lib.Loop.Returns (syncWaitBody env cookie) (i, hw) fun r =>
      Q r.2 ∧ (r.1 = .DMA_SUCCESS → ∃ i, (env.polls i).tx_status cookie r.2.eng = .DMA_SUCCESS) := by
  -- on the polls left until the timeout
  obtain ⟨j, hij, hlate⟩ := hlive.timeout i
  induction hleft : j - i using Nat.strong_induction_on generalizing i hw with
  | _ left ih =>
  have h' := hpoll i hw h
  by_cases hi : (env.polls i).late = true
  · have hbody : syncWaitBody env cookie (i, hw) = .inr (.DMA_ERROR, hw.play (env.polls i).evs) := by
      simp only [syncWaitBody, hi, if_true]
    exact .done hbody ⟨h', by simp⟩
  by_cases hst : (env.polls i).tx_status cookie (hw.play (env.polls i).evs).eng = .DMA_IN_PROGRESS
  · have hbody : syncWaitBody env cookie (i, hw) = .inl (i + 1, hw.play (env.polls i).evs) := by
      simp [syncWaitBody, hi, hst]
    have hne : i ≠ j := fun h => hi (h ▸ hlate)
    exact .step hbody (ih _ (by omega) (i + 1) _ h' (by omega) rfl)
  · have hbody : syncWaitBody env cookie (i, hw) =
        .inr ((env.polls i).tx_status cookie (hw.play (env.polls i).evs).eng, hw.play (env.polls i).evs) := by
      simp [syncWaitBody, hi, hst]
    exact .done hbody ⟨h', fun hs => ⟨i, hs⟩⟩

variable {submit : SubmitFn} {req_cpy_local : RequestCopy}

/-- The chunk loop ends, and carries `I` from the first byte to the last. The
outer induction is on the bytes left, the inner one on the attempts until one
is granted. -/
theorem chunks_rule (hlive : env.Live) (hlen : req_cpy_local.len < 2 ^ 31)
    (hcount : ∀ m k hw, m < req_cpy_local.len →
      Counts (env.attempts k) (req_cpy_local.submitChunk submit env m k hw)) {I : Nat → Hw → Prop}
    (hretry : ∀ m k hw, m < req_cpy_local.len → I m hw → (req_cpy_local.submitChunk submit env m k hw).1 < 0 →
      I m (req_cpy_local.submitChunk submit env m k hw).2)
    (hnext : ∀ m k hw, m < req_cpy_local.len → I m hw → 0 ≤ (req_cpy_local.submitChunk submit env m k hw).1 →
      I (m + req_cpy_local.chunkLen m) (req_cpy_local.submitChunk submit env m k hw).2)
    (m k : Nat) (hw : Hw) (hm : m < req_cpy_local.len) (h : I m hw) :
    Lib.Loop.Returns (chunkBody submit env req_cpy_local.entry) (req_cpy_local.chunkAt m k hw) fun r =>
      r.1 = r.2.2.eng.log.length ∧ r.2.1 = 0 ∧ I req_cpy_local.len r.2.2 := by
  induction hleft : req_cpy_local.len - m using Nat.strong_induction_on generalizing m k hw with
  | _ left ih =>
  obtain ⟨j, hkj, hj⟩ := hlive.granted k
  induction htries : j - k using Nat.strong_induction_on generalizing k hw with
  | _ tries ihTries =>
  have hbody := chunkBody_eq submit env hlen hm k hw rfl
  obtain ⟨hgranted, hcookie⟩ := hcount m k hw hm
  by_cases hneg : (req_cpy_local.submitChunk submit env m k hw).1 < 0
  · -- a negative cookie: the same chunk again
    have hne : k ≠ j := by
      rintro rfl
      exact absurd (hgranted hj) (Int.not_le.2 hneg)
    rw [if_pos hneg] at hbody
    exact .step hbody (ihTries _ (by omega) _ _ (hretry m k hw hm h hneg) (by omega) rfl)
  · have h' := hnext m k hw hm h (Int.not_lt.1 hneg)
    obtain ⟨hpos, hle, -⟩ := RequestCopy.chunkLen_pos hm
    rw [if_neg hneg] at hbody
    split at hbody
    · rename_i hend
      rw [hend] at h'
      exact .done hbody ⟨hcookie (Int.not_lt.1 hneg), rfl, h'⟩
    · exact .step hbody (ih _ (by omega) _ _ _ (by omega) h' rfl)

/-- The submission loop of the kernel copies. -/
theorem kernel_rule (hlive : env.Live) {dest src len : Nat} {I J : Hw → Prop}
    (hretry : ∀ k hw, I hw → (dma_async_memcpy_buf_to_buf (env.attempts k) hw dest src len).1 < 0 →
      I (dma_async_memcpy_buf_to_buf (env.attempts k) hw dest src len).2)
    (hnext : ∀ k hw, I hw → 0 ≤ (dma_async_memcpy_buf_to_buf (env.attempts k) hw dest src len).1 →
      J (dma_async_memcpy_buf_to_buf (env.attempts k) hw dest src len).2) (k : Nat) (hw : Hw) (h : I hw) :
    Lib.Loop.Returns (kernelBody env dest src len) (k, hw) fun r => r.1 = r.2.eng.log.length ∧ J r.2 := by
  obtain ⟨j, hkj, hj⟩ := hlive.granted k
  induction htries : j - k using Nat.strong_induction_on generalizing k hw with
  | _ tries ih =>
  obtain ⟨hgranted, hcookie⟩ : Counts (env.attempts k) (dma_async_memcpy_buf_to_buf (env.attempts k) hw dest src len) :=
    memcpyMapped_counts _ _ _ _ _
  by_cases hneg : (dma_async_memcpy_buf_to_buf (env.attempts k) hw dest src len).1 < 0
  · have hne : k ≠ j := by
      rintro rfl
      exact absurd (hgranted hj) (Int.not_le.2 hneg)
    exact .step (if_pos hneg) (ih _ (by omega) _ _ (hretry k hw h hneg) (by omega) rfl)
  · have h0 := Int.not_lt.1 hneg
    exact .done (if_neg hneg) ⟨hcookie h0, hnext k hw h h0⟩

/-- What a copy that ends returns: 0, the request with its cookie and status,
and a channel of which `Q` holds. -/
def Ends (copy : CopyFn) (env : DmaEnv) (req_cpy_local : RequestCopy) (hw : Hw) (Q : Int → DmaStatus → Hw → Prop) :
    Prop :=
  ∃ cookie status hw', Q cookie status hw' ∧ ∃ N, ∀ fuel, N ≤ fuel → copy env fuel req_cpy_local hw =
    some (0, { req_cpy_local with dma_cookie := cookie, status := status }, hw')

theorem Ends.imp {copy : CopyFn} {hw : Hw} {Q Q' : Int → DmaStatus → Hw → Prop}
    (h : Ends copy env req_cpy_local hw Q) (hq : ∀ c s hw, Q c s hw → Q' c s hw) :
    Ends copy env req_cpy_local hw Q' := by
  obtain ⟨c, s, hw', hp, hN⟩ := h
  exact ⟨c, s, hw', hq c s hw' hp, hN⟩

theorem Ends.congr {copy copy' : CopyFn} {hw : Hw} {Q : Int → DmaStatus → Hw → Prop}
    (h : Ends copy env req_cpy_local hw Q)
    (he : ∀ fuel, copy' env fuel req_cpy_local hw = copy env fuel req_cpy_local hw) :
    Ends copy' env req_cpy_local hw Q := by
  obtain ⟨c, s, hw', hp, N, hN⟩ := h
  exact ⟨c, s, hw', hp, N, fun fuel hf => (he fuel).trans (hN fuel hf)⟩

/-- What a wait adds to what held before it. -/
def Waited (env : DmaEnv) (Q : Int → Hw → Prop) (cookie : Int) (status : DmaStatus) (hw : Hw) : Prop :=
  Q cookie hw ∧ (status = .DMA_SUCCESS → ∃ i, (env.polls i).tx_status cookie hw.eng = .DMA_SUCCESS)

theorem copyPinned_ends (hlive : env.Live) (hlen : req_cpy_local.len < 2 ^ 31) (hpos : 0 < req_cpy_local.len)
    (hk : req_cpy_local.kernel_base < 2 ^ 64)
    (hcount : ∀ m k hw, m < req_cpy_local.len →
      Counts (env.attempts k) (req_cpy_local.submitChunk submit env m k hw)) {I : Nat → Hw → Prop}
    (hretry : ∀ m k hw, m < req_cpy_local.len → I m hw → (req_cpy_local.submitChunk submit env m k hw).1 < 0 →
      I m (req_cpy_local.submitChunk submit env m k hw).2)
    (hnext : ∀ m k hw, m < req_cpy_local.len → I m hw → 0 ≤ (req_cpy_local.submitChunk submit env m k hw).1 →
      I (m + req_cpy_local.chunkLen m) (req_cpy_local.submitChunk submit env m k hw).2)
    {Q : Int → Hw → Prop} (hwait : ∀ hw, I req_cpy_local.len hw → Q hw.eng.log.length hw)
    (hpoll : ∀ c i hw, Q c hw → Q c (hw.play (env.polls i).evs)) {hw : Hw} (h : I 0 hw) :
    Ends (copyPinned submit) env req_cpy_local hw (Waited env Q) := by
  obtain ⟨⟨cookie, tmp_len, hw₁⟩, ⟨hcookie, hleft, h₁⟩, N₁, hN₁⟩ :=
    chunks_rule hlive hlen hcount hretry hnext 0 0 hw hpos h
  dsimp only at hcookie hleft h₁
  subst hcookie hleft
  obtain ⟨⟨status, hw₂⟩, hq, N₂, hN₂⟩ := sync_wait_rule hlive (hpoll _) _ 0 hw₁ (hwait hw₁ h₁)
  refine ⟨_, status, hw₂, hq, max N₁ N₂, fun fuel hfuel => ?_⟩
  rw [copyPinned, RequestCopy.chunkStart_eq hlen hk, hN₁ fuel (by omega), Option.bind_eq_bind, Option.bind_some]
  dsimp only
  rw [dma_sync_wait, hN₂ fuel (by omega)]
  rfl

theorem copyKernel_ends (hlive : env.Live) {dest src : Nat} {I J : Hw → Prop}
    (hretry : ∀ k hw, I hw → (dma_async_memcpy_buf_to_buf (env.attempts k) hw dest src req_cpy_local.len).1 < 0 →
      I (dma_async_memcpy_buf_to_buf (env.attempts k) hw dest src req_cpy_local.len).2)
    (hnext : ∀ k hw, I hw → 0 ≤ (dma_async_memcpy_buf_to_buf (env.attempts k) hw dest src req_cpy_local.len).1 →
      J (dma_async_memcpy_buf_to_buf (env.attempts k) hw dest src req_cpy_local.len).2)
    {Q : Int → Hw → Prop} (hwait : ∀ hw, J hw → Q hw.eng.log.length hw)
    (hpoll : ∀ c i hw, Q c hw → Q c (hw.play (env.polls i).evs)) {hw : Hw} (h : I hw) :
    Ends (copyKernel dest src) env req_cpy_local hw (Waited env Q) := by
  obtain ⟨⟨cookie, hw₁⟩, ⟨hcookie, h₁⟩, N₁, hN₁⟩ := kernel_rule hlive hretry hnext 0 hw h
  dsimp only at hcookie h₁
  subst hcookie
  obtain ⟨⟨status, hw₂⟩, hq, N₂, hN₂⟩ := sync_wait_rule hlive (hpoll _) _ 0 hw₁ (hwait hw₁ h₁)
  refine ⟨_, status, hw₂, hq, max N₁ N₂, fun fuel hfuel => ?_⟩
  rw [copyKernel, hN₁ fuel (by omega), Option.bind_eq_bind, Option.bind_some]
  dsimp only
  rw [dma_sync_wait, hN₂ fuel (by omega)]
  rfl

end

/-! ## What the copies do to a task -/

/-- What a copy of `t` may rely on: the others stay away from its bytes, and a
poll reports success only of a completed cookie. -/
structure DmaEnv.Fair (env : DmaEnv) (t : Task) : Prop where
  quiet_attempts : ∀ k, t.Quiet (env.attempts k).evs
  quiet_polls : ∀ i, t.Quiet (env.polls i).evs
  honest : ∀ i cookie e, (env.polls i).tx_status cookie e = .DMA_SUCCESS → cookie ≤ e.done

/-- What holds when the first `m` bytes are submitted. -/
structure ChunkInv (t : Task) (mem : Nat → UInt8) (base m : Nat) (eng : Engine UInt8) : Prop where
  sound : t.Sound mem base eng
  covered : t.Covered base m eng
  base_le : base ≤ eng.log.length

/-- What holds while the cookie is waited for. -/
structure WaitInv (t : Task) (mem : Nat → UInt8) (base : Nat) (cookie : Int) (eng : Engine UInt8) : Prop where
  sound : t.Sound mem base eng
  covered : ∃ e : Engine UInt8, e.log <+: eng.log ∧ t.Covered base t.n e ∧ e.log.length = cookie

/-- What a copy leaves: the task is under way or done, and done if the status
says so. -/
structure Copied (t : Task) (mem : Nat → UInt8) (base : Nat) (status : DmaStatus) (eng : Engine UInt8) : Prop where
  sound : t.Sound mem base eng
  complete : status = .DMA_SUCCESS → ∀ i < t.n, eng.mem (t.dst i) = mem (t.src i)

section

variable {env : DmaEnv} {t : Task} {mem : Nat → UInt8} {base m : Nat} {eng : Engine UInt8}

theorem ChunkInv.play (h : ChunkInv t mem base m eng) {evs : List Ev} (hq : t.Quiet evs) :
    ChunkInv t mem base m (eng.play evs) := by
  have hl := Task.log_play eng evs
  exact ⟨h.sound.play hq, h.covered.mono hl, Nat.le_trans h.base_le hl.length_le⟩

theorem ChunkInv.submit {m' : Nat} (h : ChunkInv t mem base m eng) {d : Desc} (hd : t.Serves d)
    (hc : ∀ i, m ≤ i → i < m' → d.Covers (t.dst i)) : ChunkInv t mem base m' (eng.submit d) := by
  refine ⟨h.sound.submit (.inl hd), h.covered.submit h.base_le hc, Nat.le_trans h.base_le ?_⟩
  simp [Engine.submit]

/-- An attempt with a descriptor that serves the task. -/
theorem ChunkInv.attempt (hf : env.Fair t) {k m' : Nat} {hw : Hw} {d : Desc} {r : Int × Hw}
    (h : ChunkInv t mem base m hw.eng) (hr : Outcome (env.attempts k) hw d r) (hd : t.Serves d)
    (hc : ∀ i, m ≤ i → i < m' → d.Covers (t.dst i)) :
    (r.1 < 0 → ChunkInv t mem base m r.2.eng) ∧ (0 ≤ r.1 → ChunkInv t mem base m' r.2.eng) := by
  have hplay := h.play (hf.quiet_attempts k)
  obtain ⟨-, hneg, heng⟩ | ⟨-, hcookie, heng⟩ := hr
  · exact ⟨fun _ => heng ▸ hplay, fun h0 => by omega⟩
  · exact ⟨fun h0 => by omega, fun _ => heng ▸ hplay.submit hd hc⟩

theorem ChunkInv.wait (h : ChunkInv t mem base t.n eng) : WaitInv t mem base eng.log.length eng :=
  ⟨h.sound, eng, List.prefix_rfl, h.covered, rfl⟩

theorem WaitInv.poll {cookie : Int} (h : WaitInv t mem base cookie eng) {evs : List Ev} (hq : t.Quiet evs) :
    WaitInv t mem base cookie (eng.play evs) := by
  obtain ⟨e, hl, hc, hlen⟩ := h.covered
  exact ⟨h.sound.play hq, e, hl.trans (Task.log_play eng evs), hc, hlen⟩

theorem WaitInv.copied (hf : env.Fair t) {cookie : Int} {status : DmaStatus} {hw : Hw}
    (h : Waited env (fun c hw => WaitInv t mem base c hw.eng) cookie status hw) : Copied t mem base status hw.eng := by
  obtain ⟨hw, hstatus⟩ := h
  refine ⟨hw.sound, fun hs => ?_⟩
  obtain ⟨i, hi⟩ := hstatus hs
  obtain ⟨e, hl, hc, hlen⟩ := hw.covered
  -- descriptors complete in order, so those before the cookie are done too
  have := hf.honest i cookie _ hi
  exact hw.sound.complete hl hc (by omega)

end

end Dmacftu
