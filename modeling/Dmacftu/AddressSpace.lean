import Dmacftu.Lib.BlockCopy
import Dmacftu.PolicyCopy
/-!
# The copies over any kernel memory

`dma_map_single` translates a kernel address as if it were in the linear
mapping, and one chunk as if it were contiguous. Neither `dma_copy_to_user` nor
`dma_copy_from_user` asks whether the buffer is there; `copy_module_from_user`
keeps clear of them because its buffer comes from `vmalloc`.

An `AddressSpace` is what the CPU translates with, and `Direction.cpu` the copy
the CPU makes. `dma_copies_iff` says for which buffers the DMA copy comes to the
same.
-/
open Lib.CInt Lib.CopyEngine

namespace Dmacftu

/-! ## What the CPU sees -/

/-- The first page of the linear mapping, and its size in pages. -/
def LINEAR_PAGE : Nat := PAGE_OFFSET / PAGE_SIZE
def LINEAR_PAGES : Nat := LINEAR_SIZE / PAGE_SIZE

/-- The tables a copy runs under, from page numbers to page frames. The linear
mapping has room for all of the memory, and a hole at either end; frame 0 is the
firmware's and no task's. -/
structure AddressSpace where
  kernel : Nat → Option Nat
  user : Nat → Option Nat
  /-- The address limit is lifted. -/
  kernel_ds : Bool
  kernel_lt : ∀ v f, kernel v = some f → f < LINEAR_PAGES
  user_lt : ∀ v f, user v = some f → f < LINEAR_PAGES
  user_ne : ∀ v, user v ≠ some 0
  linear : ∀ v f, kernel v = some f → LINEAR_PAGE ≤ v → v < LINEAR_PAGE + LINEAR_PAGES → v = LINEAR_PAGE + f
  hole_below : kernel (LINEAR_PAGE - 1) = none
  hole_above : kernel (LINEAR_PAGE + LINEAR_PAGES) = none

/-- The byte of memory an address stands for. -/
def translate (table : Nat → Option Nat) (v : Nat) : Option Nat :=
  (table (v / PAGE_SIZE)).map fun f => f * PAGE_SIZE + v % PAGE_SIZE

/-- Where the bytes of a range are, if they are anywhere. -/
def byteAt (range : Nat → Option Nat) (i : Nat) : Nat := (range i).getD 0

theorem byteAt_eq {range : Nat → Option Nat} {i p : Nat} (h : range i = some p) : byteAt range i = p := by
  rw [byteAt, h, Option.getD_some]

/-- The CPU's copy, byte by byte; it faults on a page that is not there. -/
def cpuCopy (src dst : Nat → Option Nat) : Nat → (Nat → UInt8) → Option (Nat → UInt8)
  | 0, mem => some mem
  | n + 1, mem => do
    let mem ← cpuCopy src dst n mem
    let s ← src n
    let d ← dst n
    return Function.update mem d (mem s)

namespace AddressSpace

variable (sp : AddressSpace) (req : RequestCopy)

def kernelAt (i : Nat) : Option Nat := translate sp.kernel (req.kernel_base + i)

def userAt (i : Nat) : Option Nat := translate (if sp.kernel_ds then sp.kernel else sp.user) (req.user_base + i)

/-- All the kernel addresses of the request are in the linear mapping. -/
def AllLinear : Prop := Linear req.kernel_base req.len ∧ (sp.kernel_ds = true → Linear req.user_base req.len)

end AddressSpace

namespace Direction

/-- Where the CPU reads and writes byte `i` of a request. -/
def src (dir : Direction) (sp : AddressSpace) (req : RequestCopy) : Nat → Option Nat :=
  match dir with
  | .from_user => sp.userAt req
  | .to_user => sp.kernelAt req

def dst (dir : Direction) (sp : AddressSpace) (req : RequestCopy) : Nat → Option Nat :=
  match dir with
  | .from_user => sp.kernelAt req
  | .to_user => sp.userAt req

/-- `copy_from_user_pure` and `copy_to_user_pure`, where they succeed. -/
def cpu (dir : Direction) (sp : AddressSpace) (req : RequestCopy) : (Nat → UInt8) → Option (Nat → UInt8) :=
  cpuCopy (dir.src sp req) (dir.dst sp req) req.len

/-- The CPU's copy succeeds, and is a copy: both ranges are mapped, and no byte is
written before it is read. -/
structure Ranges (dir : Direction) (sp : AddressSpace) (req : RequestCopy) : Prop where
  kernel_mapped : ∀ i < req.len, (sp.kernelAt req i).isSome
  user_mapped : ∀ i < req.len, (sp.userAt req i).isSome
  forward : ∀ j < req.len, ∀ i ≤ j, dir.dst sp req i ≠ dir.src sp req j

def copy (dir : Direction) : DmaEnv → Nat → RequestCopy → St → Option (Int × RequestCopy × St) :=
  match dir with
  | .from_user => dma_copy_from_user
  | .to_user => dma_copy_to_user

end Direction

/-! ## When the DMA copy replaces the CPU's -/

/-- The outcomes a copy meets in this address space, where the other clients
write only `others`: `get_user_pages` finds the task's pages, mappings are
granted, and success is reported only of a completed cookie. -/
structure DmaEnv.In (env : DmaEnv) (sp : AddressSpace) (others : Nat → Prop) : Prop where
  kernel_ds : env.pin.kernel_ds = sp.kernel_ds
  user : ∀ v f, sp.user v = some f → env.page_to_pfn (env.pin.page_of v) = f
  mapped : ∀ k, (env.attempts k).Mapped
  attempts : ∀ k d, Ev.submit d ∈ (env.attempts k).evs → d.Within others
  polls : ∀ i d, Ev.submit d ∈ (env.polls i).evs → d.Within others
  honest : ∀ i cookie e, (env.polls i).tx_status cookie e = .DMA_SUCCESS → cookie ≤ e.done

/-- What is still to do when the copy starts is the others' business. -/
structure Idle (others : Nat → Prop) (eng : Engine UInt8) : Prop where
  done_le : eng.done ≤ eng.log.length
  pending : ∀ d ∈ eng.log.drop eng.done, d.Within others

/-- Whatever is in memory and whatever the engine and the other clients do: when
the status is `DMA_SUCCESS`, the memory is what the CPU's copy leaves, but for
what the others write. -/
def AddressSpace.Replaces (sp : AddressSpace) (dir : Direction) (req : RequestCopy) : Prop :=
  ∀ (env : DmaEnv) (others : Nat → Prop) (st : St) (fuel : Nat) (r : Int × RequestCopy × St) (mem : Nat → UInt8),
    env.In sp others → Idle others st.hw.eng →
    (∀ i < req.len, ∀ p, dir.src sp req i = some p → ¬ others p) →
    dir.copy env fuel req st = some r → r.2.1.status = .DMA_SUCCESS → dir.cpu sp req st.hw.eng.mem = some mem →
    ∀ p, ¬ others p → r.2.2.hw.eng.mem p = mem p

/-! ## What the copies submit -/

namespace Direction

/-- Where the device reads and writes byte `i` of a request. -/
def busSrc (dir : Direction) (env : DmaEnv) (req : RequestCopy) (i : Nat) : Nat :=
  match dir with
  | .from_user => userPhys env req.user_base i
  | .to_user => virt_to_phys (req.kernel_base + i)

def busDst (dir : Direction) (env : DmaEnv) (req : RequestCopy) (i : Nat) : Nat :=
  match dir with
  | .from_user => virt_to_phys (req.kernel_base + i)
  | .to_user => userPhys env req.user_base i

/-- The descriptor over `l` bytes from two places on. -/
def desc (dir : Direction) (kernel user l : Nat) : Desc :=
  match dir with
  | .from_user => ⟨kernel, user, l⟩
  | .to_user => ⟨user, kernel, l⟩

theorem desc_len (dir : Direction) (kernel user l : Nat) : (dir.desc kernel user l).len = l := by
  cases dir <;> rfl

/-- A strip is a block of the copy, in either direction. -/
theorem strip_moves (dir : Direction) {env : DmaEnv} {req : RequestCopy} {m l kernel user : Nat} {ds : List Desc}
    (hs : Buffers.Strip env req.user_base req.kernel_base req.len m l user kernel) (hl : 0 < l)
    (h : Moves (dir.busSrc env req) (dir.busDst env req) m ds) :
    Moves (dir.busSrc env req) (dir.busDst env req) (m + l) (ds ++ [dir.desc kernel user l]) := by
  have hlen := dir.desc_len kernel user l
  rw [← hlen] at hl
  have := h.snoc (d := dir.desc kernel user l) hl ?_ ?_
  · rwa [hlen] at this
  · rw [hlen]
    cases dir with
    | from_user => exact hs.kernel_eq
    | to_user => exact hs.user_eq
  · rw [hlen]
    cases dir with
    | from_user => exact hs.user_eq
    | to_user => exact hs.kernel_eq

theorem submit_outcome (dir : Direction) (env : DmaEnv) {att : Attempt} (h : dir = .to_user → att.Mapped) (hw : Hw)
    (page : Page) (offset kdata len : Nat) : Outcome att hw (dir.desc (virt_to_phys kdata) (env.page_to_phys page + offset) len)
      (dir.submit env att hw page offset kdata len) := by
  cases dir with
  | from_user => exact pg_to_buf_outcome env att hw page offset kdata len
  | to_user => exact buf_to_pg_outcome env (h rfl) hw page offset kdata len

end Direction

/-- The first `m` bytes of the copy are submitted, the last with this cookie. -/
def Submitted (others : Nat → Prop) (src dst : Nat → Nat) (e₀ : Engine UInt8) (m : Nat) (cookie : Int)
    (e : Engine UInt8) : Prop :=
  ∃ (ds : List Desc) (c : Nat), (c : Int) = cookie ∧ Moves src dst m ds ∧ Carries others e₀ ds c e

section

variable {others : Nat → Prop} {src dst : Nat → Nat} {e₀ : Engine UInt8} {m : Nat} {cookie : Int} {e : Engine UInt8}

theorem Submitted.play (h : Submitted others src dst e₀ m cookie e) {evs : List Ev}
    (hevs : ∀ d, Ev.submit d ∈ evs → d.Within others) : Submitted others src dst e₀ m cookie (e.play evs) := by
  obtain ⟨ds, c, hc, hmoves, hcarries⟩ := h
  exact ⟨ds, c, hc, hmoves, hcarries.play hevs⟩

theorem Submitted.start (h : e₀.done ≤ e₀.log.length) : Submitted others src dst e₀ 0 e₀.log.length e₀ :=
  ⟨[], _, rfl, .nil, .start h⟩

/-- An attempt either fails or submits the next block. -/
theorem Submitted.attempt {att : Attempt} {hw : Hw} {d : Desc} {r : Int × Hw} {m' : Nat}
    (h : Submitted others src dst e₀ m cookie hw.eng) (hevs : ∀ d, Ev.submit d ∈ att.evs → d.Within others)
    (hr : Outcome att hw d r) (hd : ∀ ds, Moves src dst m ds → Moves src dst m' (ds ++ [d])) :
    (r.1 < 0 → Submitted others src dst e₀ m cookie r.2.eng) ∧
      (0 ≤ r.1 → Submitted others src dst e₀ m' r.1 r.2.eng) := by
  have hplay := h.play hevs
  obtain ⟨-, hneg, heng⟩ | ⟨-, hcookie, heng⟩ := hr
  · exact ⟨fun _ => heng ▸ hplay, fun h0 => by omega⟩
  · refine ⟨fun h0 => by omega, fun _ => ?_⟩
    obtain ⟨ds, c, -, hmoves, hcarries⟩ := hplay
    rw [hcookie, heng]
    exact ⟨_, _, rfl, hd ds hmoves, hcarries.submit d⟩

end

section

variable {sp : AddressSpace} {others : Nat → Prop} {env : DmaEnv} {req : RequestCopy} {dir : Direction} {fuel : Nat}
  {hw : Hw}

/-- The chunk loop, when it is left, has submitted the whole request. -/
theorem chunks_submitted (req : RequestCopy) (hin : env.In sp others) (hlen : req.len < 2 ^ 31) (hpos : 0 < req.len)
    (hkb : req.kernel_base < 2 ^ 64) (hk : Unbroken req.kernel_base req.len) (hds : env.pin.kernel_ds = false)
    (hc : CoversRange env.pin req.user_base req.len req) (hdone : hw.eng.done ≤ hw.eng.log.length)
    {cookie : Int} {left : Nat} {hw₁ : Hw} (h : dir.chunks env fuel req hw = some (cookie, left, hw₁)) :
    Submitted others (dir.busSrc env req) (dir.busDst env req) hw.eng req.len cookie hw₁.eng := by
  let S := Submitted others (dir.busSrc env req) (dir.busDst env req) hw.eng
  let I : ChunkLoop → Prop := fun s => ∃ m k hw' c, m < req.len ∧ s = req.chunkAt m k hw' ∧ S m c hw'.eng
  have hattempt : ∀ {m k : Nat} {hw' : Hw} {c : Int}, m < req.len → S m c hw'.eng →
      ((req.submitChunk dir.submit env m k hw').1 < 0 → S m c (req.submitChunk dir.submit env m k hw').2.eng) ∧
      (0 ≤ (req.submitChunk dir.submit env m k hw').1 → S (m + req.chunkLen m)
        (req.submitChunk dir.submit env m k hw').1 (req.submitChunk dir.submit env m k hw').2.eng) := by
    intro m k hw' c hm hs
    exact hs.attempt (hin.attempts k) (dir.submit_outcome env (fun _ => hin.mapped k) hw' _ _ _ _) fun ds hmoves =>
      dir.strip_moves (Buffers.strip_chunk req hk hds hc hm) (RequestCopy.chunkLen_pos hm).1 hmoves
  refine Lib.Loop.run_inv (I := I) (P := fun r => S req.len r.1 r.2.2.eng) ?_ ?_
    ⟨0, 0, hw, _, hpos, RequestCopy.chunkStart_eq hlen hkb hw, Submitted.start hdone⟩ h
  · rintro s s' ⟨m, k, hw', c, hm, rfl, hs⟩ hbody
    rcases chunkAt_inl hlen hm hbody with ⟨hneg, rfl⟩ | ⟨h0, hlt, rfl⟩
    · exact ⟨m, k + 1, _, c, hm, rfl, (hattempt hm hs).1 hneg⟩
    · exact ⟨_, k + 1, _, _, hlt, rfl, (hattempt hm hs).2 h0⟩
  · rintro s r ⟨m, k, hw', c, hm, rfl, hs⟩ hbody
    obtain ⟨h0, hend, rfl⟩ := chunkAt_inr hlen hm hbody
    have := (hattempt hm hs).2 h0
    rwa [hend] at this

/-- So has the submission loop of the kernel copies. -/
theorem kernel_submitted (hin : env.In sp others) (hpos : 0 < req.len) (hk : Unbroken req.kernel_base req.len)
    (hu : Unbroken req.user_base req.len) (hds : env.pin.kernel_ds = true) {dest source : Nat}
    (hd : ⟨virt_to_phys dest, virt_to_phys source, req.len⟩ =
      dir.desc (virt_to_phys req.kernel_base) (virt_to_phys req.user_base) req.len)
    (hdone : hw.eng.done ≤ hw.eng.log.length) {cookie : Int} {hw₁ : Hw}
    (h : Lib.Loop.run (kernelBody env dest source req.len) fuel (0, hw) = some (cookie, hw₁)) :
    Submitted others (dir.busSrc env req) (dir.busDst env req) hw.eng req.len cookie hw₁.eng := by
  let S := Submitted others (dir.busSrc env req) (dir.busDst env req) hw.eng
  have hattempt : ∀ {k : Nat} {hw' : Hw} {c : Int} {r : Int × Hw}, S 0 c hw'.eng →
      dma_async_memcpy_buf_to_buf (env.attempts k) hw' dest source req.len = r →
      (r.1 < 0 → S 0 c r.2.eng) ∧ (0 ≤ r.1 → S req.len r.1 r.2.eng) := by
    rintro k hw' c r hs rfl
    refine hs.attempt (hin.attempts k) (buf_to_buf_outcome (hin.mapped k) hw' dest source req.len) ?_
    intro ds hmoves
    have := dir.strip_moves (Buffers.strip_kernel hk hu hds) hpos hmoves
    rwa [Nat.zero_add, ← hd] at this
  refine Lib.Loop.run_inv (I := fun s => ∃ c, S 0 c s.2.eng) (P := fun r => S req.len r.1 r.2.eng) ?_ ?_
    (s := (0, hw)) ⟨_, Submitted.start hdone⟩ h
  · rintro s s' ⟨c, hs⟩ hbody
    obtain ⟨hneg, rfl⟩ := kernelBody_inl hbody
    exact ⟨c, (hattempt hs rfl).1 hneg⟩
  · rintro s r ⟨c, hs⟩ hbody
    obtain ⟨h0, hr⟩ := kernelBody_inr hbody
    exact (hattempt hs hr).2 h0

theorem DmaEnv.seen_inv {Q : Engine UInt8 → Prop} (hplay : ∀ i e, Q e → Q (e.play (env.polls i).evs))
    {e : Engine UInt8} (h : Q e) (i : Nat) : Q (env.seen e i) := by
  induction i with
  | zero => exact hplay 0 e h
  | succ i ih => exact hplay (i + 1) _ ih

/-- The wait leaves what is submitted, and a success says that it is through. -/
theorem Submitted.wait {src dst : Nat → Nat} {e₀ : Engine UInt8} {n : Nat} {cookie : Int} (hin : env.In sp others)
    (h : Submitted others src dst e₀ n cookie hw.eng) {status : DmaStatus} {hw' : Hw}
    (hwait : dma_sync_wait env fuel cookie hw = some (status, hw')) :
    Submitted others src dst e₀ n cookie hw'.eng ∧ (status = .DMA_SUCCESS → cookie ≤ hw'.eng.done) := by
  obtain ⟨i, -, rfl, heng⟩ := sync_wait_spec hwait
  rw [heng]
  refine ⟨DmaEnv.seen_inv (fun j e hj => hj.play (hin.polls j)) h i, fun hs => ?_⟩
  unfold DmaEnv.verdict at hs
  split at hs
  · cases hs
  · exact hin.honest i cookie _ hs

end

/-! ## The copies as a whole -/

namespace Direction

def inKernel : Direction → CopyFn
  | .from_user => dma_copy_from_kernel
  | .to_user => dma_copy_to_kernel

/-- The submission loop of the kernel copies. -/
def kernelLoop (dir : Direction) (env : DmaEnv) (fuel : Nat) (req : RequestCopy) (hw : Hw) : Option (Int × Hw) :=
  match dir with
  | .from_user => Lib.Loop.run (kernelBody env req.kernel_base req.user_base req.len) fuel (0, hw)
  | .to_user => Lib.Loop.run (kernelBody env req.user_base req.kernel_base req.len) fuel (0, hw)

variable {dir : Direction} {env : DmaEnv} {fuel : Nat} {req : RequestCopy}

theorem copyKernel_spec {dest source : Nat} {hw : Hw} {r : Int × RequestCopy × Hw}
    (h : copyKernel dest source env fuel req hw = some r) :
    ∃ cookie hw₁, Lib.Loop.run (kernelBody env dest source req.len) fuel (0, hw) = some (cookie, hw₁) ∧
      dma_sync_wait env fuel cookie hw₁ = some (r.2.1.status, r.2.2) := by
  unfold copyKernel at h
  obtain ⟨⟨cookie, hw₁⟩, hloop, h⟩ := Option.bind_eq_some_iff.1 h
  obtain ⟨⟨status, hw₂⟩, hwait, h⟩ := Option.bind_eq_some_iff.1 h
  cases h
  exact ⟨cookie, hw₁, hloop, hwait⟩

theorem inKernel_spec {hw : Hw} {r : Int × RequestCopy × Hw} (h : dir.inKernel env fuel req hw = some r) :
    ∃ cookie hw₁, dir.kernelLoop env fuel req hw = some (cookie, hw₁) ∧
      dma_sync_wait env fuel cookie hw₁ = some (r.2.1.status, r.2.2) := by
  cases dir with
  | from_user => exact copyKernel_spec h
  | to_user => exact copyKernel_spec h

/-- A copy that returns was not made, or has gone through one of the two loops
and the wait. -/
theorem copy_cases {st : St} {r : Int × RequestCopy × St} (hu : req.user_base < 2 ^ 64) (hpos : 1 ≤ req.len)
    (hlen : req.len < 2 ^ 31) (h : dir.copy env fuel req st = some r) :
    (r.2.1.status = req.status ∧ (env.chan = none ∨
      ∃ write, (dma_pin_user_pages env.pin st.mm { req with chan := env.chan } write 0).1 = .PIN_FAILED)) ∨
    ∃ cookie hw₁, dma_sync_wait env fuel cookie hw₁ = some (r.2.1.status, r.2.2.hw) ∧
      ((env.pin.kernel_ds = true ∧ dir.kernelLoop env fuel req st.hw = some (cookie, hw₁)) ∨
        (env.pin.kernel_ds = false ∧ ∃ nr pages left,
          CoversRange env.pin req.user_base req.len { req with chan := env.chan, nr_pages := nr, pages := pages } ∧
          dir.chunks env fuel { req with chan := env.chan, nr_pages := nr, pages := pages } st.hw =
            some (cookie, left, hw₁))) := by
  obtain ⟨write, dirty, hcopy⟩ : ∃ write dirty,
      dir.copy env fuel req st = copyUser write dir.inKernel dir.pinned dirty env fuel req st := by
    cases dir <;> exact ⟨_, _, rfl⟩
  rw [hcopy] at h
  rcases copyUser_exits h rfl with ⟨hstatus, -, hidle⟩ | ⟨hpin, r', mm, hk, rfl⟩ | ⟨hpin, r', mm, hp, rfl⟩
  · left
    rcases hidle with h0 | hchan | hfail
    · omega
    · exact ⟨hstatus, .inl hchan⟩
    · exact ⟨hstatus, .inr ⟨write, hfail⟩⟩
  · right
    obtain ⟨cookie, hw₁, hloop, hwait⟩ := inKernel_spec hk
    refine ⟨cookie, hw₁, hwait, .inl ⟨(pin_no_user hpin).1, ?_⟩⟩
    cases dir <;> exact hloop
  · right
    obtain ⟨hds, hcov⟩ := pin_successful hpin hu hpos hlen
    obtain ⟨nr, pages, hreq⟩ := pin_req env.pin st.mm { req with chan := env.chan } write 0
    rw [hreq] at hp hcov
    obtain ⟨cookie, hw₁, status, hw₂, hchunks, hwait, rfl⟩ := pinned_spec hp
    exact ⟨cookie, hw₁, hwait, .inr ⟨hds, nr, pages, 0, hcov, hchunks⟩⟩

/-- The memory a successful copy leaves is that of its blocks. -/
theorem copy_memory {sp : AddressSpace} {others : Nat → Prop} (hin : env.In sp others) (hinit : req.status = .DMA_INIT)
    (hu : req.user_base < 2 ^ 64) (hkb : req.kernel_base < 2 ^ 64) (hpos : 1 ≤ req.len) (hlen : req.len < 2 ^ 31)
    (hk : Unbroken req.kernel_base req.len) (hub : sp.kernel_ds = true → Unbroken req.user_base req.len) {st : St}
    (hidle : Idle others st.hw.eng) {r : Int × RequestCopy × St} (h : dir.copy env fuel req st = some r)
    (hs : r.2.1.status = .DMA_SUCCESS) (hread : ∀ i < req.len, ¬ others (dir.busSrc env req i)) :
    ∃ ds, Moves (dir.busSrc env req) (dir.busDst env req) req.len ds ∧
      ∀ p, ¬ others p → r.2.2.hw.eng.mem p = runs ds st.hw.eng.mem p := by
  obtain ⟨cookie, hw₁, hwait, hloop⟩ : ∃ cookie hw₁, dma_sync_wait env fuel cookie hw₁ =
      some (r.2.1.status, r.2.2.hw) ∧ Submitted others (dir.busSrc env req) (dir.busDst env req) st.hw.eng req.len
        cookie hw₁.eng := by
    rcases copy_cases hu hpos hlen h with ⟨hstatus, -⟩ | ⟨cookie, hw₁, hwait, ⟨hds, hloop⟩ | ⟨hds, hloop⟩⟩
    · rw [hstatus, hinit] at hs
      cases hs
    · refine ⟨cookie, hw₁, hwait, ?_⟩
      have hub' := hub (hin.kernel_ds.symm.trans hds)
      cases dir with
      | from_user => exact kernel_submitted hin hpos hk hub' hds rfl hidle.done_le hloop
      | to_user => exact kernel_submitted hin hpos hk hub' hds rfl hidle.done_le hloop
    · refine ⟨cookie, hw₁, hwait, ?_⟩
      obtain ⟨nr, pages, left, hcov, hchunks⟩ := hloop
      have := chunks_submitted { req with chan := env.chan, nr_pages := nr, pages := pages } hin hlen hpos hkb hk hds
        hcov hidle.done_le hchunks
      cases dir <;> exact this
  obtain ⟨⟨ds, c, hc, hmoves, hcarries⟩, hdone⟩ := hloop.wait hin hwait
  refine ⟨ds, hmoves, hcarries.memory hidle.pending hidle.done_le (by have := hdone hs; omega) ?_⟩
  intro d hd p hcov
  obtain ⟨i, hi, -, hsrc⟩ := hmoves.covers hd hcov
  rw [← hsrc]
  exact hread i hi

end Direction

/-! ## Where the device looks -/

/-- The addresses the device uses for `n` bytes are the CPU's if `ok` holds, and
beyond all memory if not. -/
def Sees (ok : Prop) (n : Nat) (bus cpu : Nat → Nat) : Prop :=
  (ok ∧ ∀ i < n, bus i = cpu i) ∨ (¬ ok ∧ ∀ i < n, LINEAR_SIZE ≤ bus i)

theorem translate_lt {table : Nat → Option Nat} (h : ∀ v f, table v = some f → f < LINEAR_PAGES) (v : Nat) :
    (translate table v).getD 0 < LINEAR_SIZE := by
  unfold translate
  cases hv : table (v / PAGE_SIZE) with
  | none => exact Nat.two_pow_pos 46
  | some f =>
    have := h _ _ hv
    rw [Option.map_some, Option.getD_some]
    unfold LINEAR_PAGES LINEAR_SIZE PAGE_SIZE at *
    omega

theorem translate_isSome {table : Nat → Option Nat} {v : Nat} :
    (translate table v).isSome ↔ ∃ f, table (v / PAGE_SIZE) = some f := by
  unfold translate
  rw [Option.isSome_map, Option.isSome_iff_exists]

namespace AddressSpace

variable {sp : AddressSpace} {v n : Nat}

/-- With a hole at either end, a mapped range is in the linear mapping or apart
from it. -/
theorem range_cases (h : ∀ i < n, (translate sp.kernel (v + i)).isSome) :
    Linear v n ∨ (¬ Linear v n ∧ (v + n ≤ PAGE_OFFSET ∨ PAGE_OFFSET + LINEAR_SIZE ≤ v)) := by
  have hpage : ∀ a, v ≤ a → a < v + n → sp.kernel (a / PAGE_SIZE) ≠ none := by
    intro a h1 h2 hnone
    obtain ⟨f, hf⟩ := translate_isSome.1 (h (a - v) (by omega))
    rw [Nat.add_sub_cancel' h1, hnone] at hf
    cases hf
  have hbelow : ¬ (v ≤ PAGE_OFFSET - 1 ∧ PAGE_OFFSET - 1 < v + n) := by
    rintro ⟨h1, h2⟩
    exact hpage _ h1 h2 sp.hole_below
  have habove : ¬ (v ≤ PAGE_OFFSET + LINEAR_SIZE ∧ PAGE_OFFSET + LINEAR_SIZE < v + n) := by
    rintro ⟨h1, h2⟩
    exact hpage _ h1 h2 sp.hole_above
  unfold Linear PAGE_OFFSET LINEAR_SIZE at *
  omega

theorem range_unbroken (h : ∀ i < n, (translate sp.kernel (v + i)).isSome) (hv : v < 2 ^ 64) (hn : 1 ≤ n)
    (hlen : n < 2 ^ 31) : Unbroken v n := by
  intro m j hj
  have := range_cases h
  unfold Linear PAGE_OFFSET LINEAR_SIZE at this
  unfold virt_to_phys u64 PAGE_OFFSET
  omega

/-- Apart from the linear mapping nothing has the bus address 0. -/
theorem range_mappable (h : ∀ i < n, (translate sp.kernel (v + i)).isSome) (hv : v < 2 ^ 64) (hlen : n < 2 ^ 31)
    (hnl : ¬ Linear v n) : Mappable v n := by
  intro i hi
  have := range_cases h
  unfold Linear PAGE_OFFSET LINEAR_SIZE at this hnl
  unfold virt_to_phys u64 PAGE_OFFSET
  omega

/-- `virt_to_phys` is right in the linear mapping, and nowhere else. -/
theorem range_sees (h : ∀ i < n, (translate sp.kernel (v + i)).isSome) (hv : v < 2 ^ 64) (hn : 1 ≤ n)
    (hlen : n < 2 ^ 31) :
    Sees (Linear v n) n (fun i => virt_to_phys (v + i)) (byteAt fun i => translate sp.kernel (v + i)) := by
  rcases range_cases h with hl | ⟨hnl, hout⟩
  · refine .inl ⟨hl, fun i hi => ?_⟩
    obtain ⟨f, hf⟩ := translate_isSome.1 (h i hi)
    have hv := hl.virt_to_phys_add (Nat.le_of_lt hi)
    have hframe := sp.linear _ f hf
    dsimp only
    rw [hv, byteAt, translate, hf, Option.map_some, Option.getD_some]
    unfold Linear LINEAR_PAGE LINEAR_PAGES PAGE_OFFSET LINEAR_SIZE PAGE_SIZE at *
    omega
  · refine .inr ⟨hnl, fun i hi => ?_⟩
    dsimp only
    unfold PAGE_OFFSET LINEAR_SIZE at hout
    unfold virt_to_phys u64 PAGE_OFFSET LINEAR_SIZE
    omega

end AddressSpace

section

variable {sp : AddressSpace} {req : RequestCopy}

theorem kernel_sees {dir : Direction} (hr : dir.Ranges sp req) (hkb : req.kernel_base < 2 ^ 64) (hpos : 1 ≤ req.len)
    (hlen : req.len < 2 ^ 31) : Sees (Linear req.kernel_base req.len) req.len
      (fun i => virt_to_phys (req.kernel_base + i)) (byteAt (sp.kernelAt req)) :=
  AddressSpace.range_sees hr.kernel_mapped hkb hpos hlen

theorem user_sees {dir : Direction} {env : DmaEnv} {others : Nat → Prop} (hin : env.In sp others)
    (hr : dir.Ranges sp req) (hu : req.user_base < 2 ^ 64) (hpos : 1 ≤ req.len) (hlen : req.len < 2 ^ 31) :
    Sees (sp.kernel_ds = true → Linear req.user_base req.len) req.len (userPhys env req.user_base)
      (byteAt (sp.userAt req)) := by
  have hmapped := hr.user_mapped
  unfold AddressSpace.userAt at hmapped ⊢
  cases hds : sp.kernel_ds with
  | true =>
    simp only [hds, if_true] at hmapped ⊢
    have hbus : userPhys env req.user_base = fun i => virt_to_phys (req.user_base + i) := by
      funext i
      rw [userPhys, hin.kernel_ds, hds, if_pos rfl]
    rw [hbus, true_implies]
    exact AddressSpace.range_sees hmapped hu hpos hlen
  | false =>
    refine .inl ⟨by simp, fun i hi => ?_⟩
    simp only [hds, Bool.false_eq_true, if_false] at hmapped ⊢
    obtain ⟨f, hf⟩ := translate_isSome.1 (hmapped i hi)
    rw [userPhys, hin.kernel_ds, hds, if_neg (by simp), DmaEnv.page_to_phys, hin.user _ _ hf, byteAt, translate, hf]
    rfl

/-- The same for either direction: what holds of the source, and of the
destination. -/
theorem Direction.sees (dir : Direction) {env : DmaEnv} {others : Nat → Prop} (hin : env.In sp others)
    (hr : dir.Ranges sp req) (hu : req.user_base < 2 ^ 64) (hkb : req.kernel_base < 2 ^ 64) (hpos : 1 ≤ req.len)
    (hlen : req.len < 2 ^ 31) : ∃ srcOk dstOk, (srcOk ∧ dstOk ↔ sp.AllLinear req) ∧
      Sees srcOk req.len (dir.busSrc env req) (byteAt (dir.src sp req)) ∧
      Sees dstOk req.len (dir.busDst env req) (byteAt (dir.dst sp req)) := by
  have hk := kernel_sees hr hkb hpos hlen
  have hus := user_sees hin hr hu hpos hlen
  cases dir with
  | from_user => exact ⟨_, _, and_comm, hus, hk⟩
  | to_user => exact ⟨_, _, Iff.rfl, hk, hus⟩

/-- What the ranges say of the source and the destination. -/
theorem Direction.Ranges.sides {dir : Direction} (hr : dir.Ranges sp req) :
    (∀ i < req.len, (dir.src sp req i).isSome) ∧ (∀ i < req.len, (dir.dst sp req i).isSome) ∧
      ∀ j < req.len, ∀ i ≤ j, byteAt (dir.dst sp req) i ≠ byteAt (dir.src sp req) j := by
  obtain ⟨hs, hd⟩ : (∀ i < req.len, (dir.src sp req i).isSome) ∧ ∀ i < req.len, (dir.dst sp req i).isSome := by
    cases dir with
    | from_user => exact ⟨hr.user_mapped, hr.kernel_mapped⟩
    | to_user => exact ⟨hr.kernel_mapped, hr.user_mapped⟩
  refine ⟨hs, hd, fun j hj i hi => ?_⟩
  obtain ⟨x, hx⟩ := Option.isSome_iff_exists.1 (hd i (Nat.lt_of_le_of_lt hi hj))
  obtain ⟨y, hy⟩ := Option.isSome_iff_exists.1 (hs j hj)
  have hne := hr.forward j hj i hi
  rw [hx, hy] at hne
  rw [byteAt_eq hx, byteAt_eq hy]
  simpa using hne

theorem Direction.byte_lt (dir : Direction) (sp : AddressSpace) (req : RequestCopy) (i : Nat) :
    byteAt (dir.src sp req) i < LINEAR_SIZE ∧ byteAt (dir.dst sp req) i < LINEAR_SIZE := by
  have hk : (sp.kernelAt req i).getD 0 < LINEAR_SIZE := translate_lt sp.kernel_lt _
  have hu : (sp.userAt req i).getD 0 < LINEAR_SIZE := by
    apply translate_lt
    split
    · exact sp.kernel_lt
    · exact sp.user_lt
  cases dir with
  | from_user => exact ⟨hu, hk⟩
  | to_user => exact ⟨hk, hu⟩

end

theorem cpuCopy_eq {src dst : Nat → Option Nat} {n : Nat} (hs : ∀ i < n, (src i).isSome)
    (hd : ∀ i < n, (dst i).isSome) (mem : Nat → UInt8) :
    cpuCopy src dst n mem = some (bytes (byteAt src) (byteAt dst) n mem) := by
  induction n with
  | zero => rfl
  | succ n ih =>
    obtain ⟨s, hs'⟩ := Option.isSome_iff_exists.1 (hs n (Nat.lt_succ_self n))
    obtain ⟨d, hd'⟩ := Option.isSome_iff_exists.1 (hd n (Nat.lt_succ_self n))
    rw [cpuCopy, ih (fun i hi => hs i (Nat.lt_succ_of_lt hi)) (fun i hi => hd i (Nat.lt_succ_of_lt hi)), bytes]
    simp [hs', hd', byteAt_eq hs', byteAt_eq hd']

/-- A copy whose source or destination the device looks for beyond all memory
leaves the last byte without its value. -/
theorem blocks_miss {src dst bsrc bdst : Nat → Nat} {n : Nat} {ds : List Desc} {srcOk dstOk : Prop}
    (hlt : ∀ i, src i < LINEAR_SIZE ∧ dst i < LINEAR_SIZE) (hne : dst n ≠ src n) (h : Moves bsrc bdst (n + 1) ds)
    (hs : Sees srcOk (n + 1) bsrc src) (hd : Sees dstOk (n + 1) bdst dst) (hbad : ¬ (srcOk ∧ dstOk))
    (mem : Nat → UInt8) (hmem : ∀ p, p ≠ src n → mem p = 0) : runs ds mem (dst n) = 0 := by
  have hn := Nat.lt_succ_self n
  have hltn := hlt n
  rcases hd with ⟨hdst, hd⟩ | ⟨-, hd⟩
  · -- the last block writes where it should, what it reads out there
    rcases hs with ⟨hsrc, -⟩ | ⟨-, hs⟩
    · exact absurd ⟨hsrc, hdst⟩ hbad
    have hread := hs n hn
    rw [← hd n hn, h.last (fun i hi => ?_)]
    · exact hmem _ (by omega)
    · have := (hlt i).2
      have := hd i hi
      omega
  · rw [h.frame (fun i hi => ?_)]
    · exact hmem _ hne
    · have := hd i hi
      omega

/-! ## A machine on which every copy succeeds -/

/-- Everything is granted, no other client is about, and the engine carries out
a descriptor before each attempt and each poll. -/
def AddressSpace.openEnv (sp : AddressSpace) : DmaEnv where
  chan := some 0
  pin := {
    kernel_ds := sp.kernel_ds
    kmalloc := fun _ => some fun _ => 0
    access_ok_write := fun _ _ => true
    access_ok_read := fun _ _ => true
    get_user_pages := fun _ nr _ _ => nr
    page_of := fun v => v + 1
    gup_le := fun _ _ _ _ => Int.le_refl _
    page_ne := Nat.succ_ne_zero }
  page_to_pfn p := (sp.user (p - 1)).getD 1
  pfn_ne p := by
    cases h : sp.user (p - 1) with
    | none => exact Nat.one_ne_zero
    | some f =>
      rintro rfl
      exact sp.user_ne _ h
  attempts _ := ⟨[.run], true, true, true⟩
  polls i := ⟨[.run], fun cookie eng => if cookie ≤ eng.done then .DMA_SUCCESS else .DMA_IN_PROGRESS, i != 0⟩

/-- No more than one descriptor is left to carry out. -/
def Prompt (e : Engine UInt8) : Prop := e.log.length ≤ e.done + 1

theorem Prompt.run {e : Engine UInt8} (h : Prompt e) : (e.play [.run]).log.length ≤ (e.play [.run]).done := by
  unfold Prompt at h
  show (e.tick .run).log.length ≤ (e.tick .run).done
  simp only [Engine.tick]
  split
  next => exact h
  next hnone => exact List.getElem?_eq_none_iff.1 hnone

theorem Prompt.attempt {att : Attempt} {hw : Hw} {d : Desc} {r : Int × Hw} (h : Prompt hw.eng)
    (hatt : att.evs = [.run]) (hr : Outcome att hw d r) :
    Prompt r.2.eng ∧ (0 ≤ r.1 → r.1 = r.2.eng.log.length) := by
  have hrun := h.run
  refine ⟨?_, hr.cookie⟩
  unfold Prompt
  obtain ⟨-, -, heng⟩ | ⟨-, -, heng⟩ := hr
  · rw [heng, hatt]
    exact Nat.le_succ_of_le hrun
  · rw [heng, hatt]
    show (_ ++ [d]).length ≤ _
    rw [List.length_append]
    exact Nat.succ_le_succ hrun

namespace AddressSpace

variable (sp : AddressSpace)

theorem open_in (others : Nat → Prop) : sp.openEnv.In sp others where
  kernel_ds := rfl
  user v f h := by
    show (sp.user (v + 1 - 1)).getD 1 = f
    rw [Nat.add_sub_cancel, h, Option.getD_some]
  mapped _ _ := ⟨rfl, rfl⟩
  attempts _ d h := by simp [openEnv] at h
  polls _ d h := by simp [openEnv] at h
  honest i cookie e h := by
    simp only [openEnv] at h
    split at h
    · assumption
    · cases h

theorem open_mapped (k : Nat) : (sp.openEnv.attempts k).Mapped := fun _ => ⟨rfl, rfl⟩

theorem open_live : sp.openEnv.Live where
  granted k := ⟨k, Nat.le_refl k, rfl, rfl, rfl⟩
  timeout i := ⟨i + 1, Nat.le_succ i, rfl⟩

theorem open_pin (mm : Mm) (req : RequestCopy) (write : Int) :
    (dma_pin_user_pages sp.openEnv.pin mm req write 0).1 ≠ .PIN_FAILED := by
  rcases pin_cases sp.openEnv.pin mm req write 0 with ⟨-, he⟩ | ⟨-, hk, -⟩ | ⟨e, -, -, ⟨hd, -⟩ | ⟨-, he⟩⟩
  · rw [he]
    simp
  · cases hk
  · rcases hd with ⟨hw, -⟩ | ⟨hr, -⟩
    · cases hw
    · cases hr
  · rw [he, pinDown_all rfl]
    simp

/-- The wait succeeds at the first poll. -/
theorem open_wait {fuel : Nat} {hw hw' : Hw} {cookie : Int} {status : DmaStatus} (h : Prompt hw.eng)
    (hc : cookie = hw.eng.log.length) (hwait : dma_sync_wait sp.openEnv fuel cookie hw = some (status, hw')) :
    status = .DMA_SUCCESS := by
  obtain ⟨i, hi, rfl, -⟩ := sync_wait_spec hwait
  have hlog : hw.eng.log.length ≤ (hw.eng.play [.run]).done := by
    have hprefix := (Task.log_play hw.eng [.run]).length_le
    have := h.run
    omega
  have h0 : sp.openEnv.verdict cookie hw.eng 0 = .DMA_SUCCESS := by
    show (if cookie ≤ (hw.eng.play [.run]).done then DmaStatus.DMA_SUCCESS else .DMA_IN_PROGRESS) = _
    rw [if_pos (by omega)]
  have hfirst : sp.openEnv.EndsAt cookie hw.eng 0 := ⟨by rw [h0]; simp, fun j hj => absurd hj (Nat.not_lt_zero j)⟩
  rw [hi.unique hfirst, h0]

variable {sp} {dir : Direction} {req : RequestCopy} {fuel : Nat}

theorem open_chunks {hw hw₁ : Hw} {cookie : Int} {left : Nat} (h : Prompt hw.eng)
    (hloop : dir.chunks sp.openEnv fuel req hw = some (cookie, left, hw₁)) :
    Prompt hw₁.eng ∧ cookie = hw₁.eng.log.length := by
  have hattempt := fun (s : ChunkLoop) (hs : Prompt s.hw.eng) => hs.attempt rfl
    (dir.submit_outcome sp.openEnv (fun _ => sp.open_mapped s.attempt) s.hw (req.entry s.page_index) (u32 s.byte_offset)
      s.tmp_addr_kernel (u64 s.copy))
  refine Lib.Loop.run_inv (I := fun s => Prompt s.hw.eng)
    (P := fun r => Prompt r.2.2.eng ∧ r.1 = r.2.2.eng.log.length) ?_ ?_ (s := chunkStart req hw) h hloop
  · intro s s' hs hbody
    rw [chunkBody_inl hbody]
    exact (hattempt s hs).1
  · intro s r hs hbody
    obtain ⟨h0, rfl⟩ := chunkBody_inr hbody
    exact ⟨(hattempt s hs).1, (hattempt s hs).2 h0⟩

theorem open_kernel {dest source : Nat} {hw hw₁ : Hw} {cookie : Int} (h : Prompt hw.eng)
    (hloop : Lib.Loop.run (kernelBody sp.openEnv dest source req.len) fuel (0, hw) = some (cookie, hw₁)) :
    Prompt hw₁.eng ∧ cookie = hw₁.eng.log.length := by
  have hattempt := fun (k : Nat) (hw' : Hw) (hs : Prompt hw'.eng) =>
    hs.attempt rfl (buf_to_buf_outcome (sp.open_mapped k) hw' dest source req.len)
  refine Lib.Loop.run_inv (I := fun s => Prompt s.2.eng)
    (P := fun r => Prompt r.2.eng ∧ r.1 = r.2.eng.log.length) ?_ ?_ (s := (0, hw)) h hloop
  · intro s s' hs hbody
    obtain ⟨-, rfl⟩ := kernelBody_inl hbody
    exact (hattempt s.1 s.2 hs).1
  · intro s r hs hbody
    obtain ⟨h0, rfl⟩ := kernelBody_inr hbody
    exact ⟨(hattempt s.1 s.2 hs).1, (hattempt s.1 s.2 hs).2 h0⟩

/-- Here every copy ends, with success. -/
theorem open_copy (sp : AddressSpace) (dir : Direction) (hinit : req.status = .DMA_INIT) (hu : req.user_base < 2 ^ 64)
    (hkb : req.kernel_base < 2 ^ 64) (hbus : dir = .from_user → sp.kernel_ds = false → Mappable req.kernel_base req.len)
    (hpos : 1 ≤ req.len) (hlen : req.len < 2 ^ 31) {st : St} (h : Prompt st.hw.eng) :
    ∃ fuel r, dir.copy sp.openEnv fuel req st = some r ∧ r.2.1.status = .DMA_SUCCESS := by
  obtain ⟨r, N, hN⟩ : ∃ r N, ∀ fuel, N ≤ fuel → dir.copy sp.openEnv fuel req st = some r := by
    cases dir with
    | from_user => exact dma_copy_from_user_total sp.open_live hinit hu hkb (hbus rfl) hlen
    | to_user => exact dma_copy_to_user_total sp.open_live hinit hu hkb hlen
  have hr := hN N (Nat.le_refl N)
  refine ⟨N, r, hr, ?_⟩
  rcases Direction.copy_cases hu hpos hlen hr with
    ⟨-, hchan | ⟨write, hfail⟩⟩ | ⟨cookie, hw₁, hwait, ⟨-, hloop⟩ | ⟨-, hloop⟩⟩
  · cases hchan
  · exact absurd hfail (sp.open_pin _ _ _)
  · have hprompt : Prompt hw₁.eng ∧ cookie = hw₁.eng.log.length := by
      cases dir with
      | from_user => exact open_kernel h hloop
      | to_user => exact open_kernel h hloop
    exact sp.open_wait hprompt.1 hprompt.2 hwait
  · obtain ⟨nr, pages, left, -, hchunks⟩ := hloop
    have hprompt := open_chunks h hchunks
    exact sp.open_wait hprompt.1 hprompt.2 hwait

end AddressSpace

/-! ## Which buffers the DMA copies are right for -/

/-- A memory of zeros but for the byte at `p`. -/
def markedSt (p : Nat) : St := ⟨bootMm, ⟨⟨fun q => if q = p then 1 else 0, [], 0⟩, [], 0, 0⟩⟩

theorem markedSt_idle (p : Nat) (others : Nat → Prop) : Idle others (markedSt p).hw.eng :=
  ⟨Nat.le_refl 0, by simp [markedSt]⟩

/-- One run that ends otherwise than the CPU's copy. -/
theorem not_replaces {sp : AddressSpace} {dir : Direction} {req : RequestCopy} {p q fuel : Nat} {a b : UInt8}
    (hdma : (dir.copy sp.openEnv fuel req (markedSt p)).map (fun r => (r.2.1.status, r.2.2.hw.eng.mem q)) =
      some (.DMA_SUCCESS, a))
    (hcpu : (dir.cpu sp req (markedSt p).hw.eng.mem).map (· q) = some b) (hne : a ≠ b) : ¬ sp.Replaces dir req := by
  intro h
  obtain ⟨r, hr, hrv⟩ := Option.map_eq_some_iff.1 hdma
  obtain ⟨mem, hm, rfl⟩ := Option.map_eq_some_iff.1 hcpu
  obtain ⟨hstatus, rfl⟩ := Prod.mk.inj hrv
  exact hne (h _ (fun _ => False) _ fuel r mem (sp.open_in _) (markedSt_idle p _) (by simp) hr hstatus hm q not_false)

/-- The DMA copy replaces the CPU's exactly for requests whose kernel addresses
are all in the linear mapping. -/
theorem dma_copies_iff (sp : AddressSpace) (dir : Direction) {req : RequestCopy} (hinit : req.status = .DMA_INIT)
    (hu : req.user_base < 2 ^ 64) (hkb : req.kernel_base < 2 ^ 64) (hpos : 1 ≤ req.len) (hlen : req.len < 2 ^ 31)
    (hr : dir.Ranges sp req) : sp.Replaces dir req ↔ sp.AllLinear req := by
  have hk : Unbroken req.kernel_base req.len := AddressSpace.range_unbroken hr.kernel_mapped hkb hpos hlen
  have hub : sp.kernel_ds = true → Unbroken req.user_base req.len := by
    intro hds
    have hmapped := hr.user_mapped
    simp only [AddressSpace.userAt, hds, if_true] at hmapped
    exact AddressSpace.range_unbroken hmapped hu hpos hlen
  obtain ⟨hs, hd, hne⟩ := hr.sides
  have hcpu := cpuCopy_eq hs hd
  constructor
  · -- from a bad address to a memory in which the two copies differ
    intro hR
    by_contra hbad
    obtain ⟨n, hn⟩ : ∃ n, req.len = n + 1 := ⟨req.len - 1, by omega⟩
    -- only the byte to be copied last is not 0
    let st := markedSt (byteAt (dir.src sp req) n)
    have hin := sp.open_in fun _ => False
    have hidle : Idle (fun _ => False) st.hw.eng := markedSt_idle _ _
    have hprompt : Prompt st.hw.eng := Nat.zero_le 1
    have hbus : dir = .from_user → sp.kernel_ds = false → Mappable req.kernel_base req.len := by
      intro _ hds
      refine AddressSpace.range_mappable hr.kernel_mapped hkb hlen fun hl => hbad ⟨hl, fun hlift => ?_⟩
      exact absurd (hds.symm.trans hlift) (by simp)
    obtain ⟨fuel, r, hcopy, hstatus⟩ := sp.open_copy dir hinit hu hkb hbus hpos hlen hprompt
    obtain ⟨ds, hmoves, hmem⟩ := Direction.copy_memory hin hinit hu hkb hpos hlen hk hub hidle hcopy hstatus (by simp)
    obtain ⟨srcOk, dstOk, hok, hseesSrc, hseesDst⟩ := dir.sees hin hr hu hkb hpos hlen
    rw [← hok] at hbad
    rw [hn] at hmoves hseesSrc hseesDst
    have hdma : r.2.2.hw.eng.mem (byteAt (dir.dst sp req) n) = 0 := by
      rw [hmem _ not_false]
      exact blocks_miss (dir.byte_lt sp req) (hne n (by omega) n (Nat.le_refl n)) hmoves hseesSrc hseesDst hbad _
        fun p hp => if_neg hp
    have hlast : bytes (byteAt (dir.src sp req)) (byteAt (dir.dst sp req)) (n + 1) st.hw.eng.mem
        (byteAt (dir.dst sp req) n) = 1 :=
      (bytes_last (fun i hi => hne n (by omega) i (Nat.le_of_lt hi)) _).trans (if_pos rfl)
    have heq := hR sp.openEnv _ st fuel r _ hin hidle (by simp) hcopy hstatus (hcpu _)
      (byteAt (dir.dst sp req) n) not_false
    rw [hdma, hn, hlast] at heq
    exact absurd heq (by decide)
  · intro hall env others st fuel r mem hin hidle hothers hcopy hstatus hmem
    obtain ⟨srcOk, dstOk, hok, hseesSrc, hseesDst⟩ := dir.sees hin hr hu hkb hpos hlen
    obtain ⟨hsrcOk, hdstOk⟩ := hok.2 hall
    have hsrc : ∀ i < req.len, dir.busSrc env req i = byteAt (dir.src sp req) i := by
      obtain ⟨-, h⟩ | ⟨h, -⟩ := hseesSrc
      · exact h
      · exact absurd hsrcOk h
    have hdst : ∀ i < req.len, dir.busDst env req i = byteAt (dir.dst sp req) i := by
      obtain ⟨-, h⟩ | ⟨h, -⟩ := hseesDst
      · exact h
      · exact absurd hdstOk h
    obtain ⟨ds, hmoves, heng⟩ := Direction.copy_memory hin hinit hu hkb hpos hlen hk hub hidle hcopy hstatus
      fun i hi => by
        rw [hsrc i hi]
        obtain ⟨p, hp⟩ := Option.isSome_iff_exists.1 (hs i hi)
        rw [byteAt_eq hp]
        exact hothers i hi p hp
    cases (hcpu st.hw.eng.mem).symm.trans hmem
    intro p hp
    rw [heng p hp, hmoves.runs_eq fun i j hij hj => ?_, bytes_congr hsrc hdst]
    rw [hdst i (by omega), hsrc j hj]
    exact hne j hj i (Nat.le_of_lt hij)

/-- A task with one page, and a kernel with one page. -/
def onePage (v : Nat) (hbelow : v ≠ LINEAR_PAGE - 1) (habove : v ≠ LINEAR_PAGE + LINEAR_PAGES)
    (hlinear : LINEAR_PAGE ≤ v → v < LINEAR_PAGE + LINEAR_PAGES → v = LINEAR_PAGE + 7) : AddressSpace where
  kernel w := if w = v then some 7 else none
  user w := if w = 1 then some 5 else none
  kernel_ds := false
  kernel_lt w f h := by
    obtain ⟨-, rfl⟩ : w = v ∧ 7 = f := by simpa using h
    decide
  user_lt w f h := by
    obtain ⟨-, rfl⟩ : w = 1 ∧ 5 = f := by simpa using h
    decide
  user_ne w h := by simp at h
  linear w f h := by
    obtain ⟨rfl, rfl⟩ : w = v ∧ 7 = f := by simpa using h
    exact hlinear
  hole_below := if_neg hbelow.symm
  hole_above := if_neg habove.symm

/-- The kernel's page is in the linear mapping, -/
def linearSpace : AddressSpace := onePage (LINEAR_PAGE + 7) (by decide) (by decide) fun _ _ => rfl

/-- or where `vmalloc` maps it. -/
def vmallocSpace : AddressSpace := onePage 0xffffc90000000 (by decide) (by decide) (by decide)

def byteReq (kernel_base : Nat) : RequestCopy := init_req_copy 4096 kernel_base 1

theorem linear_byte : linearSpace.AllLinear (byteReq (PAGE_OFFSET + 0x7000)) :=
  ⟨⟨by decide, by decide⟩, fun h => absurd h (by decide)⟩

theorem dma_copies_iff_sample : linearSpace.Replaces .from_user (byteReq (PAGE_OFFSET + 0x7000)) ∧
    linearSpace.Replaces .to_user (byteReq (PAGE_OFFSET + 0x7000)) :=
  ⟨(dma_copies_iff linearSpace .from_user rfl (by decide) (by decide) (by decide) (by decide)
      ⟨by decide, by decide, by decide⟩).2 linear_byte,
    (dma_copies_iff linearSpace .to_user rfl (by decide) (by decide) (by decide) (by decide)
      ⟨by decide, by decide, by decide⟩).2 linear_byte⟩

/-- Success is reported, and the byte is not where the CPU's copy puts it. -/
theorem vmalloc_missed :
    Direction.from_user.Ranges vmallocSpace (byteReq 0xffffc90000000000) ∧
    Direction.to_user.Ranges vmallocSpace (byteReq 0xffffc90000000000) ∧
    ¬ vmallocSpace.Replaces .from_user (byteReq 0xffffc90000000000) ∧
    ¬ vmallocSpace.Replaces .to_user (byteReq 0xffffc90000000000) := by
  refine ⟨⟨by decide, by decide, by decide⟩, ⟨by decide, by decide, by decide⟩, ?_, ?_⟩
  · exact not_replaces (p := 0x5000) (q := 0x7000) (a := 0) (b := 1) (show (dma_copy_from_user vmallocSpace.openEnv 2
      (byteReq 0xffffc90000000000) (markedSt 0x5000)).map _ = _ by decide) (by decide) (by decide)
  · exact not_replaces (p := 0x7000) (q := 0x5000) (a := 0) (b := 1) (show (dma_copy_to_user vmallocSpace.openEnv 2
      (byteReq 0xffffc90000000000) (markedSt 0x7000)).map _ = _ by decide) (by decide) (by decide)

end Dmacftu
