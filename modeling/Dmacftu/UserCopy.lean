import Dmacftu.DmaCopy
/-!
# The DMA copies between user and kernel memory

What `dma_copy_to_user` and `dma_copy_from_user` do as a whole: to the bytes
(`dma_copy_from_user_returns`, `dma_copy_to_user_returns`) and to the reference
counts of the pages they pin (`pins_balanced_iff`).

`Buffers` is what the code takes for granted about the two ranges. A request
over such buffers is a task of `Lib.CopyEngine`, in either direction.
-/
open Lib.CInt Lib.CopyEngine

namespace Dmacftu

/-! ## The two ranges -/

/-- The range lies in the kernel's linear mapping. -/
def Linear (v n : Nat) : Prop := PAGE_OFFSET ≤ v ∧ v + n ≤ PAGE_OFFSET + LINEAR_SIZE

theorem Linear.lt {v n : Nat} (h : Linear v n) : v < 2 ^ 64 := by
  unfold Linear PAGE_OFFSET LINEAR_SIZE at h
  omega

theorem Linear.virt_to_phys_add {v n i : Nat} (h : Linear v n) (hi : i ≤ n) :
    virt_to_phys (v + i) = v - PAGE_OFFSET + i := by
  unfold Linear PAGE_OFFSET LINEAR_SIZE at h
  unfold virt_to_phys u64 PAGE_OFFSET
  omega

/-- The device sees the range in one piece: `virt_to_phys` does not wrap inside. -/
def Unbroken (v n : Nat) : Prop := ∀ m j, m + j < n → virt_to_phys (v + m) + j = virt_to_phys (v + (m + j))

theorem Linear.unbroken {v n : Nat} (h : Linear v n) : Unbroken v n := by
  intro m j hj
  rw [h.virt_to_phys_add (by omega), h.virt_to_phys_add (by omega), Nat.add_assoc]

theorem virt_to_phys_u64 (v : Nat) : virt_to_phys (u64 v) = virt_to_phys v := by
  unfold virt_to_phys u64
  omega

/-- Where byte `i` of the user range is. With the address limit lifted, the
"user" range is kernel memory. -/
def userPhys (env : DmaEnv) (user_base i : Nat) : Nat :=
  if env.pin.kernel_ds then virt_to_phys (user_base + i)
  else env.page_to_phys (env.pin.page_of ((user_base + i) / PAGE_SIZE)) + (user_base + i) % PAGE_SIZE

/-- The ranges of a request: linearly mapped where they are the kernel's, in
frames of their own, and apart. -/
structure Buffers (env : DmaEnv) (user_base kernel_base n : Nat) : Prop where
  user_lt : user_base < 2 ^ 64
  kernel_linear : Linear kernel_base n
  user_linear : env.pin.kernel_ds = true → Linear user_base n
  frames : env.pin.kernel_ds = false → ∀ v ∈ pagesTouched user_base n, ∀ w ∈ pagesTouched user_base n,
    env.page_to_pfn (env.pin.page_of v) = env.page_to_pfn (env.pin.page_of w) → v = w
  disjoint : ∀ i < n, ∀ j < n, userPhys env user_base i ≠ virt_to_phys (kernel_base + j)

namespace Buffers

variable {env : DmaEnv} {user_base kernel_base n : Nat}

theorem kernel_inj (h : Buffers env user_base kernel_base n) :
    ∀ i < n, ∀ j < n, virt_to_phys (kernel_base + i) = virt_to_phys (kernel_base + j) → i = j := by
  intro i hi j hj heq
  rw [h.kernel_linear.virt_to_phys_add (Nat.le_of_lt hi), h.kernel_linear.virt_to_phys_add (Nat.le_of_lt hj)] at heq
  omega

theorem user_inj (h : Buffers env user_base kernel_base n) :
    ∀ i < n, ∀ j < n, userPhys env user_base i = userPhys env user_base j → i = j := by
  intro i hi j hj heq
  unfold userPhys at heq
  cases hds : env.pin.kernel_ds with
  | true =>
    have hl := h.user_linear hds
    rw [hds, if_pos rfl, if_pos rfl, hl.virt_to_phys_add (Nat.le_of_lt hi),
      hl.virt_to_phys_add (Nat.le_of_lt hj)] at heq
    omega
  | false =>
    rw [hds, if_neg (by simp), if_neg (by simp)] at heq
    have hmem : ∀ k < n, (user_base + k) / PAGE_SIZE ∈ pagesTouched user_base n := by
      intro k hk
      exact Finset.mem_image.2 ⟨user_base + k, Finset.mem_Ico.2 ⟨by omega, by omega⟩, rfl⟩
    have hpage := h.frames hds _ (hmem i hi) _ (hmem j hj)
    unfold DmaEnv.page_to_phys PAGE_SIZE at *
    omega

/-- Copying from the user range. -/
def fromUser (h : Buffers env user_base kernel_base n) : Task where
  n := n
  src i := userPhys env user_base i
  dst i := virt_to_phys (kernel_base + i)
  dst_inj := h.kernel_inj
  disjoint := fun i hi j hj heq => h.disjoint j hj i hi heq.symm

/-- Copying to the user range. -/
def toUser (h : Buffers env user_base kernel_base n) : Task where
  n := n
  src i := virt_to_phys (kernel_base + i)
  dst i := userPhys env user_base i
  dst_inj := h.user_inj
  disjoint := h.disjoint

/-- The `l` bytes of the ranges from byte `m` on are `l` consecutive bytes of
physical memory each, at `user` and at `kernel`. -/
structure Strip (env : DmaEnv) (user_base kernel_base n m l user kernel : Nat) : Prop where
  user_eq : ∀ j < l, user + j = userPhys env user_base (m + j)
  kernel_eq : ∀ j < l, kernel + j = virt_to_phys (kernel_base + (m + j))
  le : m + l ≤ n

variable {m l user kernel : Nat}

theorem Strip.fromUser (h : Buffers env user_base kernel_base n)
    (hs : Strip env user_base kernel_base n m l user kernel) :
    h.fromUser.Serves ⟨kernel, user, l⟩ ∧
      ∀ i, m ≤ i → i < m + l → Desc.Covers ⟨kernel, user, l⟩ (h.fromUser.dst i) := by
  have hle := hs.le
  refine ⟨fun j hj => ⟨m + j, Nat.lt_of_lt_of_le (Nat.add_lt_add_left hj m) hle, hs.kernel_eq j hj,
    hs.user_eq j hj⟩, fun i h1 h2 => ?_⟩
  have hdst : kernel + (i - m) = h.fromUser.dst i := by
    rw [hs.kernel_eq (i - m) (by omega), Nat.add_sub_cancel' h1]
    rfl
  rw [← hdst]
  exact ⟨Nat.le_add_right _ _, Nat.add_lt_add_left (show i - m < l by omega) _⟩

theorem Strip.toUser (h : Buffers env user_base kernel_base n)
    (hs : Strip env user_base kernel_base n m l user kernel) :
    h.toUser.Serves ⟨user, kernel, l⟩ ∧
      ∀ i, m ≤ i → i < m + l → Desc.Covers ⟨user, kernel, l⟩ (h.toUser.dst i) := by
  have hle := hs.le
  refine ⟨fun j hj => ⟨m + j, Nat.lt_of_lt_of_le (Nat.add_lt_add_left hj m) hle, hs.user_eq j hj,
    hs.kernel_eq j hj⟩, fun i h1 h2 => ?_⟩
  have hdst : user + (i - m) = h.toUser.dst i := by
    rw [hs.user_eq (i - m) (by omega), Nat.add_sub_cancel' h1]
    rfl
  rw [← hdst]
  exact ⟨Nat.le_add_right _ _, Nat.add_lt_add_left (show i - m < l by omega) _⟩

/-- With the address limit lifted, the ranges are one strip. -/
theorem strip_kernel (hk : Unbroken kernel_base n) (hu : Unbroken user_base n) (hds : env.pin.kernel_ds = true) :
    Strip env user_base kernel_base n 0 n (virt_to_phys user_base) (virt_to_phys kernel_base) := by
  have hadd : ∀ v, Unbroken v n → ∀ j < n, virt_to_phys v + j = virt_to_phys (v + (0 + j)) := by
    intro v hv j hj
    exact hv 0 j (by omega)
  refine ⟨fun j hj => ?_, hadd _ hk, by omega⟩
  rw [userPhys, hds, if_pos rfl]
  exact hadd _ hu j hj

/-- Each chunk of a pinned request is a strip. -/
theorem strip_chunk (req_cpy_local : RequestCopy) (hk : Unbroken req_cpy_local.kernel_base req_cpy_local.len)
    (hds : env.pin.kernel_ds = false)
    (hc : CoversRange env.pin req_cpy_local.user_base req_cpy_local.len req_cpy_local)
    (hm : m < req_cpy_local.len) :
    Strip env req_cpy_local.user_base req_cpy_local.kernel_base req_cpy_local.len m (req_cpy_local.chunkLen m)
      (env.page_to_phys (req_cpy_local.entry (req_cpy_local.pageIndex m)) + req_cpy_local.offset m)
      (virt_to_phys (u64 (req_cpy_local.kernel_base + m : Nat))) := by
  obtain ⟨-, hle, hoff⟩ := RequestCopy.chunkLen_pos hm
  refine ⟨fun j hj => ?_, fun j hj => ?_, hle⟩
  · obtain ⟨a, ha, -, hentry⟩ := hc.pages
    have hidx : (req_cpy_local.pageIndex m : Int) < req_cpy_local.nr_pages := by
      rw [hc.nr, card_pagesTouched (by omega)]
      unfold RequestCopy.pageIndex PAGE_SIZE
      omega
    have hpage : req_cpy_local.entry (req_cpy_local.pageIndex m) =
        env.pin.page_of ((req_cpy_local.user_base + (m + j)) / PAGE_SIZE) := by
      rw [RequestCopy.entry, ha]
      dsimp only
      rw [hentry _ hidx]
      congr 1
      unfold RequestCopy.pageIndex RequestCopy.offset PAGE_SIZE at *
      omega
    rw [userPhys, hds, if_neg (by simp), hpage]
    unfold RequestCopy.offset PAGE_SIZE at *
    omega
  · rw [virt_to_phys_u64]
    exact hk m j (by omega)

end Buffers

/-- Every chunk of a range that can be mapped is submitted as soon as it is granted. -/
theorem Mappable.counts {req_cpy_local : RequestCopy} {n m : Nat} (h : Mappable req_cpy_local.kernel_base n) (hm : m < n)
    (env : DmaEnv) (k : Nat) (hw : Hw) :
    Counts (env.attempts k) (req_cpy_local.submitChunk dma_async_memcpy_pg_to_buf env m k hw) := by
  apply pg_to_buf_counts
  rw [virt_to_phys_u64]
  exact h m hm

/-! ## What a copy returns -/

/-- What `dma_copy_to_user` and `dma_copy_from_user` leave, whatever they return:
`P` holds of the status and the channel, and a success says 0. -/
structure Result (P : DmaStatus → Hw → Prop) (req_cpy_local : RequestCopy) (r : Int × RequestCopy × St) : Prop where
  len : r.2.1.len = req_cpy_local.len
  success : r.2.1.status = .DMA_SUCCESS → r.1 = 0
  holds : P r.2.1.status r.2.2.hw

/-- A successful pin of a request of less than `2 ^ 31` bytes has its pages. -/
theorem pin_successful {env : PinEnv} {mm : Mm} {req_cp : RequestCopy} {write : Int}
    (h : (dma_pin_user_pages env mm req_cp write 0).1 = .PIN_SUCCESSFUL)
    (hb : req_cp.user_base < 2 ^ 64) (h1 : 1 ≤ req_cp.len) (hl : req_cp.len < 2 ^ 31) :
    env.kernel_ds = false ∧
      CoversRange env req_cp.user_base req_cp.len (dma_pin_user_pages env mm req_cp write 0).2.1 := by
  have hcard : (pagesTouched req_cp.user_base req_cp.len).card < 2 ^ 31 := by
    rw [card_pagesTouched h1]
    unfold PAGE_SIZE
    omega
  have hnr : nr_pages_of req_cp.user_base req_cp.len = (pagesTouched req_cp.user_base req_cp.len).card := by
    rw [nr_pages_of_eq hb (by omega) h1, s32_of_range (by omega) (by omega)]
  rcases pin_cases env mm req_cp write 0 with ⟨-, he⟩ | ⟨-, -, he⟩ | ⟨e, hds, -, ⟨-, he⟩ | ⟨-, he⟩⟩
  · rw [he] at h; cases h
  · rw [he] at h; cases h
  · rw [he] at h; cases h
  · rw [he] at h ⊢
    exact ⟨hds, pinDown_covers h1 hnr h⟩

theorem pin_no_user {env : PinEnv} {mm : Mm} {req_cp : RequestCopy} {write : Int}
    (h : (dma_pin_user_pages env mm req_cp write 0).1 = .PIN_NO_USER) :
    env.kernel_ds = true ∧ (dma_pin_user_pages env mm req_cp write 0).2 = (req_cp, mm) := by
  rcases pin_cases env mm req_cp write 0 with ⟨hds, he⟩ | ⟨-, -, he⟩ | ⟨e, -, -, ⟨-, he⟩ | ⟨-, he⟩⟩
  · exact ⟨hds, by rw [he]⟩
  · rw [he] at h; cases h
  · rw [he] at h; cases h
  · rw [he] at h
    rcases pinDown_result env { mm with allocs := mm.allocs + 1 } (allocated mm req_cp e) ⟨mm.allocs, e⟩ write 0 with
      hr | hr
    · cases hr.symm.trans h
    · cases hr.symm.trans h

/-- The exits of `copyUser`, taken together. A copy that was not started leaves
the status `DMA_INIT`. -/
theorem copyUser_returns {env : DmaEnv} {write dirty : Int} {kernelCopy pinnedCopy : CopyFn}
    {req_cpy_local : RequestCopy} {st : St} {P : DmaStatus → Hw → Prop}
    (hinit : req_cpy_local.status = .DMA_INIT) (hb : req_cpy_local.user_base < 2 ^ 64)
    (hl : req_cpy_local.len < 2 ^ 31) (hidle : P .DMA_INIT st.hw)
    (hkernel : env.pin.kernel_ds = true → 0 < req_cpy_local.len →
      Ends kernelCopy env { req_cpy_local with chan := env.chan } st.hw fun _ => P)
    (hpinned : env.pin.kernel_ds = false → 0 < req_cpy_local.len → ∀ nr pages,
      CoversRange env.pin req_cpy_local.user_base req_cpy_local.len
        { req_cpy_local with chan := env.chan, nr_pages := nr, pages := pages } →
      Ends pinnedCopy env { req_cpy_local with chan := env.chan, nr_pages := nr, pages := pages } st.hw fun _ => P) :
    ∃ r, Result P req_cpy_local r ∧
      ∃ N, ∀ fuel, N ≤ fuel → copyUser write kernelCopy pinnedCopy dirty env fuel req_cpy_local st = some r := by
  have hne : req_cpy_local.status ≠ .DMA_SUCCESS := by rw [hinit]; simp
  rw [← hinit] at hidle
  by_cases hpos : req_cpy_local.len > 0
  swap
  · exact ⟨(0, req_cpy_local, st), ⟨rfl, fun _ => rfl, hidle⟩, 0, fun _ _ => if_neg hpos⟩
  by_cases hchan : env.chan = none
  · exact ⟨(-EBUSY, { req_cpy_local with chan := env.chan }, st), ⟨rfl, fun h => absurd h hne, hidle⟩, 0,
      fun _ _ => (if_pos hpos).trans (if_pos hchan)⟩
  obtain ⟨⟨res, req, mm⟩, hpin⟩ : ∃ p, dma_pin_user_pages env.pin st.mm
      { req_cpy_local with chan := env.chan } write 0 = p := ⟨_, rfl⟩
  have hcopy : ∀ fuel, copyUser write kernelCopy pinnedCopy dirty env fuel req_cpy_local st =
      copyAfterPin kernelCopy pinnedCopy dirty env fuel st.hw (res, req, mm) := by
    intro fuel
    rw [← hpin]
    exact (if_pos hpos).trans (if_neg hchan)
  simp only [hcopy]
  obtain ⟨nr, pages, hreq⟩ := pin_req env.pin st.mm { req_cpy_local with chan := env.chan } write 0
  rw [hpin] at hreq
  dsimp only at hreq
  cases res with
  | PIN_FAILED =>
    subst hreq
    exact ⟨_, ⟨rfl, fun h => absurd h hne, hidle⟩, 0, fun fuel _ => rfl⟩
  | PIN_NO_USER =>
    -- both sides are in the kernel, and no page was pinned
    obtain ⟨hds, hsame⟩ := pin_no_user (congrArg Prod.fst hpin)
    rw [hpin] at hsame
    cases hsame
    obtain ⟨cookie, status, hw', hP, N, hN⟩ := hkernel hds hpos
    refine ⟨(0, { req_cpy_local with chan := env.chan, dma_cookie := cookie, status := status }, ⟨st.mm, hw'⟩),
      ⟨rfl, fun _ => rfl, hP⟩, N, fun fuel hf => ?_⟩
    rw [copyAfterPin, hN fuel hf]
    rfl
  | PIN_SUCCESSFUL =>
    obtain ⟨hds, hcov⟩ := pin_successful (congrArg Prod.fst hpin) hb hpos hl
    rw [hpin] at hcov
    subst hreq
    obtain ⟨cookie, status, hw', hP, N, hN⟩ := hpinned hds hpos nr pages hcov
    let req' : RequestCopy := { req_cpy_local with
      chan := env.chan, nr_pages := nr, pages := pages, dma_cookie := cookie, status := status }
    refine ⟨(0, req', ⟨dma_unpin_user_pages mm req' dirty, hw'⟩), ⟨rfl, fun _ => rfl, hP⟩, N, fun fuel hf => ?_⟩
    rw [copyAfterPin, hN fuel hf]
    rfl

/-- The engine's pending work is elsewhere. -/
structure Apart (t : Task) (eng : Engine UInt8) : Prop where
  done_le : eng.done ≤ eng.log.length
  pending : ∀ k d, eng.done ≤ k → eng.log[k]? = some d → t.Away d

theorem Apart.chunkInv {t : Task} {eng : Engine UInt8} (h : Apart t eng) :
    ChunkInv t eng.mem eng.log.length 0 eng where
  sound := Task.sound_start h.done_le h.pending
  covered _ hi := absurd hi (Nat.not_lt_zero _)
  base_le := Nat.le_refl _

section

variable {env : DmaEnv} {user_base kernel_base n : Nat} {st : St}

/-- The two copies of a pinned request, over buffers whose chunks are strips. -/
theorem copyPinned_copied {submit : SubmitFn} {req_cpy_local : RequestCopy} {t : Task} {d : Nat → Desc}
    (hlive : env.Live) (hf : env.Fair t) (hn : t.n = req_cpy_local.len) (hlen : req_cpy_local.len < 2 ^ 31)
    (hpos : 0 < req_cpy_local.len) (hk : req_cpy_local.kernel_base < 2 ^ 64)
    (hout : ∀ m k hw, Outcome (env.attempts k) hw (d m) (req_cpy_local.submitChunk submit env m k hw))
    (hcount : ∀ m k hw, m < req_cpy_local.len →
      Counts (env.attempts k) (req_cpy_local.submitChunk submit env m k hw))
    (hd : ∀ m < req_cpy_local.len, t.Serves (d m) ∧
      ∀ i, m ≤ i → i < m + req_cpy_local.chunkLen m → (d m).Covers (t.dst i)) {hw : Hw} (ha : Apart t hw.eng) :
    Ends (copyPinned submit) env req_cpy_local hw
      fun _ status hw' => Copied t hw.eng.mem hw.eng.log.length status hw'.eng := by
  refine Ends.imp (copyPinned_ends hlive hlen hpos hk hcount
    (I := fun m hw' => ChunkInv t hw.eng.mem hw.eng.log.length m hw'.eng)
    (Q := fun c hw' => WaitInv t hw.eng.mem hw.eng.log.length c hw'.eng) ?_ ?_ ?_ ?_ ha.chunkInv)
    fun c s hw' hq => WaitInv.copied hf hq
  · intro m k hw hm h
    exact (h.attempt hf (hout m k hw) (hd m hm).1 (hd m hm).2).1
  · intro m k hw hm h
    exact (h.attempt hf (hout m k hw) (hd m hm).1 (hd m hm).2).2
  · intro hw h
    rw [← hn] at h
    exact h.wait
  · intro c i hw h
    exact h.poll (hf.quiet_polls i)

theorem copyKernel_copied (dest src : Nat) (req_cpy_local : RequestCopy) {t : Task} (hlive : env.Live)
    (hf : env.Fair t) (hmap : ∀ k, (env.attempts k).Mapped)
    (hs : t.Serves ⟨virt_to_phys dest, virt_to_phys src, req_cpy_local.len⟩)
    (hc : ∀ i, 0 ≤ i → i < t.n → Desc.Covers ⟨virt_to_phys dest, virt_to_phys src, req_cpy_local.len⟩ (t.dst i))
    {hw : Hw} (ha : Apart t hw.eng) :
    Ends (copyKernel dest src) env req_cpy_local hw
      fun _ status hw' => Copied t hw.eng.mem hw.eng.log.length status hw'.eng := by
  refine Ends.imp (copyKernel_ends hlive
    (I := fun hw' => ChunkInv t hw.eng.mem hw.eng.log.length 0 hw'.eng)
    (J := fun hw' => ChunkInv t hw.eng.mem hw.eng.log.length t.n hw'.eng)
    (Q := fun c hw' => WaitInv t hw.eng.mem hw.eng.log.length c hw'.eng) ?_ ?_ ?_ ?_ ha.chunkInv)
    fun c s hw' hq => WaitInv.copied hf hq
  · intro k hw h
    exact (h.attempt hf (buf_to_buf_outcome (hmap k) hw dest src _) hs hc).1
  · intro k hw h
    exact (h.attempt hf (buf_to_buf_outcome (hmap k) hw dest src _) hs hc).2
  · intro hw h
    exact h.wait
  · intro c i hw h
    exact h.poll (hf.quiet_polls i)

/-- The four copies of a request whose pages, if it has any, are the range's. -/
theorem dma_copy_from_kernel_copied (req_cpy_local : RequestCopy)
    (hb : Buffers env req_cpy_local.user_base req_cpy_local.kernel_base req_cpy_local.len) {hw : Hw}
    (hds : env.pin.kernel_ds = true) (hlive : env.Live) (hf : env.Fair hb.fromUser)
    (hmap : ∀ k, (env.attempts k).Mapped) (ha : Apart hb.fromUser hw.eng) :
    Ends dma_copy_from_kernel env req_cpy_local hw
      fun _ status hw' => Copied hb.fromUser hw.eng.mem hw.eng.log.length status hw'.eng := by
  have hs := (Buffers.strip_kernel hb.kernel_linear.unbroken (hb.user_linear hds).unbroken hds).fromUser hb
  rw [Nat.zero_add] at hs
  exact (copyKernel_copied _ _ req_cpy_local hlive hf hmap hs.1 hs.2 ha).congr fun _ => rfl

theorem dma_copy_to_kernel_copied (req_cpy_local : RequestCopy)
    (hb : Buffers env req_cpy_local.user_base req_cpy_local.kernel_base req_cpy_local.len) {hw : Hw}
    (hds : env.pin.kernel_ds = true) (hlive : env.Live) (hf : env.Fair hb.toUser)
    (hmap : ∀ k, (env.attempts k).Mapped) (ha : Apart hb.toUser hw.eng) :
    Ends dma_copy_to_kernel env req_cpy_local hw
      fun _ status hw' => Copied hb.toUser hw.eng.mem hw.eng.log.length status hw'.eng := by
  have hs := (Buffers.strip_kernel hb.kernel_linear.unbroken (hb.user_linear hds).unbroken hds).toUser hb
  rw [Nat.zero_add] at hs
  exact (copyKernel_copied _ _ req_cpy_local hlive hf hmap hs.1 hs.2 ha).congr fun _ => rfl

theorem Pinned.dma_copy_from_user_copied (req_cpy_local : RequestCopy)
    (hb : Buffers env req_cpy_local.user_base req_cpy_local.kernel_base req_cpy_local.len) {hw : Hw}
    (hds : env.pin.kernel_ds = false)
    (hc : CoversRange env.pin req_cpy_local.user_base req_cpy_local.len req_cpy_local) (hlive : env.Live)
    (hf : env.Fair hb.fromUser) (hbus : Mappable req_cpy_local.kernel_base req_cpy_local.len)
    (hlen : req_cpy_local.len < 2 ^ 31) (hpos : 0 < req_cpy_local.len) (ha : Apart hb.fromUser hw.eng) :
    Ends Pinned.dma_copy_from_user env req_cpy_local hw
      fun _ status hw' => Copied hb.fromUser hw.eng.mem hw.eng.log.length status hw'.eng := by
  have hstrip := fun m => Buffers.strip_chunk (m := m) req_cpy_local hb.kernel_linear.unbroken hds hc
  refine (copyPinned_copied hlive hf rfl hlen hpos hb.kernel_linear.lt (fun m k hw => ?_)
    (fun m k hw hm => hbus.counts hm env k hw) (fun m hm => (hstrip m hm).fromUser hb) ha).congr fun _ => rfl
  exact pg_to_buf_outcome env _ hw _ _ _ _

theorem Pinned.dma_copy_to_user_copied (req_cpy_local : RequestCopy)
    (hb : Buffers env req_cpy_local.user_base req_cpy_local.kernel_base req_cpy_local.len) {hw : Hw}
    (hds : env.pin.kernel_ds = false)
    (hc : CoversRange env.pin req_cpy_local.user_base req_cpy_local.len req_cpy_local) (hlive : env.Live)
    (hf : env.Fair hb.toUser) (hmap : ∀ k, (env.attempts k).Mapped) (hlen : req_cpy_local.len < 2 ^ 31)
    (hpos : 0 < req_cpy_local.len) (ha : Apart hb.toUser hw.eng) :
    Ends Pinned.dma_copy_to_user env req_cpy_local hw
      fun _ status hw' => Copied hb.toUser hw.eng.mem hw.eng.log.length status hw'.eng := by
  have hstrip := fun m => Buffers.strip_chunk (m := m) req_cpy_local hb.kernel_linear.unbroken hds hc
  refine (copyPinned_copied hlive hf rfl hlen hpos hb.kernel_linear.lt (fun m k hw => ?_)
    (fun m k hw _ => memcpyMapped_counts _ _ _ _ _) (fun m hm => (hstrip m hm).toUser hb) ha).congr fun _ => rfl
  exact buf_to_pg_outcome env (hmap k) hw _ _ _ _

variable {req_cpy_local : RequestCopy}

/-- `dma_copy_from_user` ends, and what it reports is what it did. -/
theorem dma_copy_from_user_copied (hinit : req_cpy_local.status = .DMA_INIT)
    (hb : Buffers env req_cpy_local.user_base req_cpy_local.kernel_base req_cpy_local.len)
    (hn : req_cpy_local.len < 2 ^ 31) (hlive : env.Live) (hf : env.Fair hb.fromUser)
    (hbus : env.pin.kernel_ds = false → Mappable req_cpy_local.kernel_base req_cpy_local.len)
    (hmap : env.pin.kernel_ds = true → ∀ k, (env.attempts k).Mapped) (ha : Apart hb.fromUser st.hw.eng) :
    ∃ r, Result (fun status hw => Copied hb.fromUser st.hw.eng.mem st.hw.eng.log.length status hw.eng)
        req_cpy_local r ∧
      ∃ N, ∀ fuel, N ≤ fuel → dma_copy_from_user env fuel req_cpy_local st = some r :=
  copyUser_returns hinit hb.user_lt hn ⟨ha.chunkInv.sound, by simp⟩
    (fun hds _ => dma_copy_from_kernel_copied { req_cpy_local with chan := env.chan } hb hds hlive hf (hmap hds) ha)
    fun hds hpos nr pages hc => Pinned.dma_copy_from_user_copied
      { req_cpy_local with chan := env.chan, nr_pages := nr, pages := pages } hb hds hc hlive hf (hbus hds) hn hpos ha

/-- `dma_copy_to_user` ends, and what it reports is what it did. -/
theorem dma_copy_to_user_copied (hinit : req_cpy_local.status = .DMA_INIT)
    (hb : Buffers env req_cpy_local.user_base req_cpy_local.kernel_base req_cpy_local.len)
    (hn : req_cpy_local.len < 2 ^ 31) (hlive : env.Live) (hf : env.Fair hb.toUser)
    (hmap : ∀ k, (env.attempts k).Mapped) (ha : Apart hb.toUser st.hw.eng) :
    ∃ r, Result (fun status hw => Copied hb.toUser st.hw.eng.mem st.hw.eng.log.length status hw.eng)
        req_cpy_local r ∧
      ∃ N, ∀ fuel, N ≤ fuel → dma_copy_to_user env fuel req_cpy_local st = some r :=
  copyUser_returns hinit hb.user_lt hn ⟨ha.chunkInv.sound, by simp⟩
    (fun hds _ => dma_copy_to_kernel_copied { req_cpy_local with chan := env.chan } hb hds hlive hf hmap ha)
    fun hds hpos nr pages hc => Pinned.dma_copy_to_user_copied
      { req_cpy_local with chan := env.chan, nr_pages := nr, pages := pages } hb hds hc hlive hf hmap hn hpos ha

end

/-! ## What every result has -/

/-- Whatever a copy of a pinned request returns, it returns 0 and changes only
the request's cookie and status. -/
theorem copyPinned_some {submit : SubmitFn} {env : DmaEnv} {fuel : Nat} {req_cpy_local : RequestCopy} {hw : Hw}
    {r : Int × RequestCopy × Hw} (h : copyPinned submit env fuel req_cpy_local hw = some r) :
    r.1 = 0 ∧ ∃ cookie status, r.2.1 = { req_cpy_local with dma_cookie := cookie, status := status } := by
  unfold copyPinned at h
  obtain ⟨⟨cookie, tmp_len, hw₁⟩, hloop, h⟩ := Option.bind_eq_some_iff.1 h
  obtain ⟨⟨status, hw₂⟩, -, h⟩ := Option.bind_eq_some_iff.1 h
  cases h
  -- the loop is left only where `tmp_len` is 0
  have hleft : tmp_len = 0 := by
    refine Lib.Loop.run_inv (I := fun _ => True) (P := fun r => r.2.1 = 0) (fun _ _ _ _ => trivial) ?_ trivial hloop
    intro s r _ hr
    obtain ⟨-, rfl⟩ := chunkBody_inr hr
    rfl
  subst hleft
  exact ⟨show s32 0 = 0 by decide, _, _, rfl⟩

theorem copyKernel_some {dest src : Nat} {env : DmaEnv} {fuel : Nat} {req_cpy_local : RequestCopy} {hw : Hw}
    {r : Int × RequestCopy × Hw} (h : copyKernel dest src env fuel req_cpy_local hw = some r) :
    r.1 = 0 ∧ ∃ cookie status, r.2.1 = { req_cpy_local with dma_cookie := cookie, status := status } := by
  unfold copyKernel at h
  obtain ⟨⟨cookie, hw₁⟩, -, h⟩ := Option.bind_eq_some_iff.1 h
  obtain ⟨⟨status, hw₂⟩, -, h⟩ := Option.bind_eq_some_iff.1 h
  cases h
  exact ⟨rfl, _, _, rfl⟩

/-- The exits of `copyUser`: nothing is copied, or one of the two copies made
the result. -/
theorem copyUser_exits {write dirty : Int} {kernelCopy pinnedCopy : CopyFn} {env : DmaEnv} {fuel : Nat}
    {req_cpy_local : RequestCopy} {st : St} {r : Int × RequestCopy × St}
    (h : copyUser write kernelCopy pinnedCopy dirty env fuel req_cpy_local st = some r)
    {pin : PinResult × RequestCopy × Mm}
    (hpin : dma_pin_user_pages env.pin st.mm { req_cpy_local with chan := env.chan } write 0 = pin) :
    (r.2.1.status = req_cpy_local.status ∧ r.2.1.len = req_cpy_local.len ∧
      (req_cpy_local.len = 0 ∨ env.chan = none ∨ pin.1 = .PIN_FAILED)) ∨
    (pin.1 = .PIN_NO_USER ∧ ∃ r' mm, kernelCopy env fuel { req_cpy_local with chan := env.chan } st.hw = some r' ∧
      r = (r'.1, r'.2.1, ⟨mm, r'.2.2⟩)) ∨
    (pin.1 = .PIN_SUCCESSFUL ∧ ∃ r' mm, pinnedCopy env fuel pin.2.1 st.hw = some r' ∧
      r = (r'.1, r'.2.1, ⟨mm, r'.2.2⟩)) := by
  unfold copyUser at h
  split at h
  swap
  · rename_i hlen
    cases h
    exact .inl ⟨rfl, rfl, .inl (by omega)⟩
  dsimp only at h
  split at h
  · rename_i hchan
    cases h
    exact .inl ⟨rfl, rfl, .inr (.inl hchan)⟩
  rw [hpin] at h
  obtain ⟨nr, pages, hreq⟩ := pin_req env.pin st.mm { req_cpy_local with chan := env.chan } write 0
  rw [hpin] at hreq
  obtain ⟨res, req, mm⟩ := pin
  dsimp only at hreq
  cases res with
  | PIN_FAILED =>
    subst hreq
    cases h
    exact .inl ⟨rfl, rfl, .inr (.inr rfl)⟩
  | PIN_NO_USER =>
    obtain ⟨-, hsame⟩ := pin_no_user (congrArg Prod.fst hpin)
    rw [hpin] at hsame
    cases hsame
    obtain ⟨r', hcopy, rfl⟩ := Option.map_eq_some_iff.1 h
    exact .inr (.inl ⟨rfl, r', _, hcopy, rfl⟩)
  | PIN_SUCCESSFUL =>
    obtain ⟨r', hcopy, rfl⟩ := Option.map_eq_some_iff.1 h
    exact .inr (.inr ⟨rfl, r', _, hcopy, rfl⟩)

/-- The status `DMA_SUCCESS` comes with the value 0, and the length is kept. -/
theorem copyUser_some {write dirty : Int} {kernelCopy pinnedCopy : CopyFn} {env : DmaEnv} {fuel : Nat}
    {req_cpy_local : RequestCopy} {st : St} {r : Int × RequestCopy × St}
    (hkernel : ∀ req hw r, kernelCopy env fuel req hw = some r → r.1 = 0 ∧
      ∃ cookie status, r.2.1 = { req with dma_cookie := cookie, status := status })
    (hpinned : ∀ req hw r, pinnedCopy env fuel req hw = some r → r.1 = 0 ∧
      ∃ cookie status, r.2.1 = { req with dma_cookie := cookie, status := status })
    (hinit : req_cpy_local.status = .DMA_INIT)
    (h : copyUser write kernelCopy pinnedCopy dirty env fuel req_cpy_local st = some r) :
    r.2.1.len = req_cpy_local.len ∧ (r.2.1.status = .DMA_SUCCESS → r.1 = 0) := by
  obtain ⟨hstatus, hlen, -⟩ | ⟨-, r', mm, hcopy, rfl⟩ | ⟨-, r', mm, hcopy, rfl⟩ := copyUser_exits h rfl
  · exact ⟨hlen, fun hs => by rw [hstatus, hinit] at hs; cases hs⟩
  · obtain ⟨h0, cookie, status, hr⟩ := hkernel _ _ _ hcopy
    exact ⟨by dsimp only; rw [hr], fun _ => h0⟩
  · obtain ⟨nr, pages, hreq⟩ := pin_req env.pin st.mm { req_cpy_local with chan := env.chan } write 0
    rw [hreq] at hcopy
    obtain ⟨h0, cookie, status, hr⟩ := hpinned _ _ _ hcopy
    exact ⟨by dsimp only; rw [hr], fun _ => h0⟩

theorem dma_copy_from_kernel_some {env : DmaEnv} {fuel : Nat} (req_cpy_local : RequestCopy) (hw : Hw)
    (r : Int × RequestCopy × Hw) (h : dma_copy_from_kernel env fuel req_cpy_local hw = some r) :
    r.1 = 0 ∧ ∃ cookie status, r.2.1 = { req_cpy_local with dma_cookie := cookie, status := status } := by
  unfold dma_copy_from_kernel at h
  exact copyKernel_some h

theorem dma_copy_to_kernel_some {env : DmaEnv} {fuel : Nat} (req_cpy_local : RequestCopy) (hw : Hw)
    (r : Int × RequestCopy × Hw) (h : dma_copy_to_kernel env fuel req_cpy_local hw = some r) :
    r.1 = 0 ∧ ∃ cookie status, r.2.1 = { req_cpy_local with dma_cookie := cookie, status := status } := by
  unfold dma_copy_to_kernel at h
  exact copyKernel_some h

theorem dma_copy_from_user_some {env : DmaEnv} {fuel : Nat} {req_cpy_local : RequestCopy} {st : St}
    {r : Int × RequestCopy × St} (hinit : req_cpy_local.status = .DMA_INIT)
    (h : dma_copy_from_user env fuel req_cpy_local st = some r) :
    r.2.1.len = req_cpy_local.len ∧ (r.2.1.status = .DMA_SUCCESS → r.1 = 0) :=
  copyUser_some dma_copy_from_kernel_some (fun _ _ _ hr => copyPinned_some hr) hinit h

theorem dma_copy_to_user_some {env : DmaEnv} {fuel : Nat} {req_cpy_local : RequestCopy} {st : St}
    {r : Int × RequestCopy × St} (hinit : req_cpy_local.status = .DMA_INIT)
    (h : dma_copy_to_user env fuel req_cpy_local st = some r) :
    r.2.1.len = req_cpy_local.len ∧ (r.2.1.status = .DMA_SUCCESS → r.1 = 0) :=
  copyUser_some dma_copy_to_kernel_some (fun _ _ _ hr => copyPinned_some hr) hinit h

section

variable {env : DmaEnv} {req_cpy_local : RequestCopy} {st : St}

theorem copyKernel_total (hlive : env.Live) (dest src : Nat) (req_cpy_local : RequestCopy) (hw : Hw) :
    Ends (copyKernel dest src) env req_cpy_local hw fun _ _ _ => True :=
  (copyKernel_ends hlive (I := fun _ => True) (J := fun _ => True) (Q := fun _ _ => True) (by simp) (by simp) (by simp)
    (by simp) trivial).imp fun _ _ _ _ => trivial

theorem copyPinned_total {submit : SubmitFn} (hlive : env.Live) (req_cpy_local : RequestCopy)
    (hlen : req_cpy_local.len < 2 ^ 31) (hpos : 0 < req_cpy_local.len) (hk : req_cpy_local.kernel_base < 2 ^ 64)
    (hcount : ∀ m k hw, m < req_cpy_local.len →
      Counts (env.attempts k) (req_cpy_local.submitChunk submit env m k hw)) (hw : Hw) :
    Ends (copyPinned submit) env req_cpy_local hw fun _ _ _ => True :=
  (copyPinned_ends hlive hlen hpos hk hcount (I := fun _ _ => True) (Q := fun _ _ => True) (by simp) (by simp)
    (by simp) (by simp) trivial).imp fun _ _ _ _ => trivial

/-- Both copies end, whatever they are asked to copy and whatever the other
clients do, as long as no mapping is refused for ever. -/
theorem dma_copy_from_user_total (hlive : env.Live) (hinit : req_cpy_local.status = .DMA_INIT)
    (hu : req_cpy_local.user_base < 2 ^ 64) (hk : req_cpy_local.kernel_base < 2 ^ 64)
    (hbus : env.pin.kernel_ds = false → Mappable req_cpy_local.kernel_base req_cpy_local.len)
    (hlen : req_cpy_local.len < 2 ^ 31) :
    ∃ r N, ∀ fuel, N ≤ fuel → dma_copy_from_user env fuel req_cpy_local st = some r := by
  obtain ⟨r, -, hN⟩ : ∃ r, Result (fun _ _ => True) req_cpy_local r ∧
      ∃ N, ∀ fuel, N ≤ fuel → dma_copy_from_user env fuel req_cpy_local st = some r := by
    refine copyUser_returns hinit hu hlen trivial (fun _ _ => ?_) fun hds hpos nr pages _ => ?_
    · exact (copyKernel_total hlive _ _ _ st.hw).congr fun _ => rfl
    · refine (copyPinned_total hlive { req_cpy_local with chan := env.chan, nr_pages := nr, pages := pages }
        hlen hpos hk (fun m k hw hm => ?_) st.hw).congr fun _ => rfl
      exact @Mappable.counts { req_cpy_local with chan := env.chan, nr_pages := nr, pages := pages } _ m (hbus hds) hm
        env k hw
  exact ⟨r, hN⟩

theorem dma_copy_to_user_total (hlive : env.Live) (hinit : req_cpy_local.status = .DMA_INIT)
    (hu : req_cpy_local.user_base < 2 ^ 64) (hk : req_cpy_local.kernel_base < 2 ^ 64)
    (hlen : req_cpy_local.len < 2 ^ 31) :
    ∃ r N, ∀ fuel, N ≤ fuel → dma_copy_to_user env fuel req_cpy_local st = some r := by
  obtain ⟨r, -, hN⟩ : ∃ r, Result (fun _ _ => True) req_cpy_local r ∧
      ∃ N, ∀ fuel, N ≤ fuel → dma_copy_to_user env fuel req_cpy_local st = some r := by
    refine copyUser_returns hinit hu hlen trivial (fun _ _ => ?_) fun _ hpos nr pages _ => ?_
    · exact (copyKernel_total hlive _ _ _ st.hw).congr fun _ => rfl
    · refine (copyPinned_total hlive { req_cpy_local with chan := env.chan, nr_pages := nr, pages := pages }
        hlen hpos hk (fun m k hw _ => ?_) st.hw).congr fun _ => rfl
      exact memcpyMapped_counts _ _ _ _ _
  exact ⟨r, hN⟩

end

/-! ## The pages' reference counts -/

/-- When the copy functions leave the reference counts as they were. -/
def PinEnv.Balanced (env : PinEnv) (chan : Option Nat) (req_cp : RequestCopy) (write : Int) : Prop :=
  req_cp.len = 0 ∨ chan = none ∨ env.kernel_ds = true ∨
    env.TailNull req_cp.user_base req_cp.len (env.filled req_cp.user_base req_cp.len write 0)

theorem copyUser_refs {env : DmaEnv} {fuel : Nat} {write dirty : Int} {kernelCopy : CopyFn} {submit : SubmitFn}
    {req_cpy_local : RequestCopy} {st : St} {r : Int × RequestCopy × St}
    (h : copyUser write kernelCopy (copyPinned submit) dirty env fuel req_cpy_local st = some r) :
    (∀ p, r.2.2.mm.refs p = st.mm.refs p) ↔ env.pin.Balanced env.chan req_cpy_local write := by
  unfold copyUser at h
  by_cases hpos : req_cpy_local.len > 0
  swap
  · rw [if_neg hpos] at h
    cases h
    exact iff_of_true (fun _ => rfl) (.inl (by omega))
  rw [if_pos hpos] at h
  dsimp only at h
  by_cases hchan : env.chan = none
  · rw [if_pos hchan] at h
    cases h
    exact iff_of_true (fun _ => rfl) (.inr (.inl hchan))
  rw [if_neg hchan] at h
  have hbal := pin_balanced env.pin st.mm { req_cpy_local with chan := env.chan } write 0
  have hB : env.pin.Balanced env.chan req_cpy_local write ↔ (env.pin.kernel_ds = false →
      env.pin.TailNull req_cpy_local.user_base req_cpy_local.len
        (env.pin.filled req_cpy_local.user_base req_cpy_local.len write 0)) := by
    unfold PinEnv.Balanced
    cases env.pin.kernel_ds <;> simp [hchan, Nat.pos_iff_ne_zero.1 hpos]
  rw [hB]
  obtain ⟨⟨res, req, mm⟩, hpin⟩ : ∃ p, dma_pin_user_pages env.pin st.mm
      { req_cpy_local with chan := env.chan } write 0 = p := ⟨_, rfl⟩
  rw [hpin] at h hbal
  cases res with
  | PIN_FAILED =>
    cases h
    rw [← hbal]
    simp
  | PIN_NO_USER =>
    obtain ⟨hds, hsame⟩ := pin_no_user (congrArg Prod.fst hpin)
    rw [hpin] at hsame
    cases hsame
    obtain ⟨r', -, hr⟩ := Option.map_eq_some_iff.1 h
    subst hr
    exact iff_of_true (fun _ => rfl) fun hf => absurd (hds.symm.trans hf) (by simp)
  | PIN_SUCCESSFUL =>
    -- the unpin gives back what the pin took, whatever the copies did
    obtain ⟨r', hcopy, hr⟩ := Option.map_eq_some_iff.1 h
    obtain ⟨-, cookie, status, hreq⟩ := copyPinned_some hcopy
    subst hr
    refine iff_of_true (fun p => ?_) (hbal.1 fun hf => by cases hf)
    have := unpin_pinned (congrArg Prod.fst hpin) dirty p
    rw [hpin] at this
    rw [← this, hreq]
    rfl

/-- Page pins are balanced exactly when the first array entry that was not
filled is `NULL`; the loop that unpins stops only there. -/
theorem pins_balanced_iff (env : DmaEnv) (mm : Mm) (req_cp : RequestCopy) (req_prio : RequestCopyPrio)
    (write force : Int) (fuel : Nat) (st : St) :
    (((dma_pin_user_pages env.pin mm req_cp write force).1 = .PIN_FAILED →
        ∀ p, (dma_pin_user_pages env.pin mm req_cp write force).2.2.refs p = mm.refs p) ↔
      (env.pin.kernel_ds = false → env.pin.TailNull req_cp.user_base req_cp.len
        (env.pin.filled req_cp.user_base req_cp.len write force))) ∧
    (((dma_pin_user_pages_prio env.pin mm req_prio write force).1 = .PIN_FAILED →
        ∀ p, (dma_pin_user_pages_prio env.pin mm req_prio write force).2.2.refs p = mm.refs p) ↔
      env.pin.TailNull req_prio.user_base req_prio.len (env.pin.get_user_pages req_prio.user_base
        (nr_pages_of req_prio.user_base req_prio.len) write force).toNat) ∧
    (∀ r, dma_copy_to_user env fuel req_cp st = some r →
      ((∀ p, r.2.2.mm.refs p = st.mm.refs p) ↔ env.pin.Balanced env.chan req_cp PIN_WRITE)) ∧
    (∀ r, dma_copy_from_user env fuel req_cp st = some r →
      ((∀ p, r.2.2.mm.refs p = st.mm.refs p) ↔ env.pin.Balanced env.chan req_cp PIN_READ)) :=
  ⟨pin_balanced env.pin mm req_cp write force, pin_prio_balanced env.pin mm req_prio write force,
    fun _ h => copyUser_refs h, fun _ h => copyUser_refs h⟩

/-- A kernel that has one page of the two asked for, and an array with something
in it. -/
def shortPin : PinEnv where
  kernel_ds := false
  kmalloc _ := some fun i => 100 + i
  access_ok_write _ _ := true
  access_ok_read _ _ := true
  get_user_pages _ nr _ _ := min nr 1
  page_of v := v + 1
  gup_le _ nr _ _ := Int.min_le_left nr 1
  page_ne v := Nat.succ_ne_zero v

/-- A kernel buffer, in frame 7. -/
def sampleBuf : Nat := PAGE_OFFSET + 0x7000

/-- Page `p` is that of frame `p`; there is no page 0. -/
def frameOf : Page → Nat
  | 0 => 1
  | p + 1 => p + 1

theorem frameOf_ne (p : Page) : frameOf p ≠ 0 := by cases p <;> simp [frameOf]

def shortEnv : DmaEnv where
  chan := some 0
  pin := shortPin
  page_to_pfn := frameOf
  pfn_ne := frameOf_ne
  attempts _ := ⟨[], true, true, true⟩
  polls _ := ⟨[], fun _ _ => .DMA_SUCCESS, true⟩

def bootSt : St := ⟨bootMm, ⟨⟨fun _ => 0, [], 0⟩, [], 0, 0⟩⟩

/-- The failed pin of two pages releases page 101, which it never took. -/
theorem stray_page_released :
    (dma_pin_user_pages shortPin bootMm (init_req_copy 4096 sampleBuf 8192) PIN_READ 0).1 = .PIN_FAILED ∧
    (dma_pin_user_pages shortPin bootMm (init_req_copy 4096 sampleBuf 8192) PIN_READ 0).2.2.refs 101 = 0 ∧
    (dma_pin_user_pages_prio shortPin bootMm (init_req_copy_prio 4096 sampleBuf 8192 0) PIN_READ 0).1 =
      .PIN_FAILED ∧
    (dma_pin_user_pages_prio shortPin bootMm (init_req_copy_prio 4096 sampleBuf 8192 0) PIN_READ 0).2.2.refs 101 =
      0 ∧
    (dma_copy_from_user shortEnv 0 (init_req_copy 4096 sampleBuf 8192) bootSt).map
      (fun r => r.2.2.mm.refs 101) = some 0 ∧
    (dma_copy_to_user shortEnv 0 (init_req_copy 4096 sampleBuf 8192) bootSt).map
      (fun r => r.2.2.mm.refs 101) = some 0 ∧
    bootMm.refs 101 = 1 ∧ bootSt.mm.refs 101 = 1 := by
  decide

end Dmacftu
