import Dmacftu.CircularBuffer
import Dmacftu.UserCopy
/-!
# The user-copy entry points

`arch/x86/include/asm/uaccess_64.h`, built with a DMA policy: the untraced
wrappers (`*_dma_pure`), which try the DMA copy and fall back on the CPU, and
the traced entry points, which do the same and write a record of it to a ring.
The names with two leading underscores are here in the namespace `Unchecked`.

The CPU primitives are in a `Cpu`: they get the destination, the source and
the number of bytes, and return the number of bytes not copied.

`fallback_contract` and `traced_agrees` are about all four entry points, for lengths
an `int` can hold; `remainder_sane_iff` is about `copy_from_user` for all lengths.
-/
open Lib.CInt Lib.CopyEngine

namespace Dmacftu

/-! ## The untraced wrappers -/

structure Cpu where
  copy_from_user_pure : Nat → Nat → Nat → Hw → Nat × Hw
  copy_to_user_pure : Nat → Nat → Nat → Hw → Nat × Hw
  unchecked_copy_from_user_pure : Nat → Nat → Nat → Hw → Nat × Hw
  unchecked_copy_to_user_pure : Nat → Nat → Nat → Hw → Nat × Hw

/-- No CPU copy is done here. -/
def idleCpu : Cpu where
  copy_from_user_pure _ _ n hw := (n, hw)
  copy_to_user_pure _ _ n hw := (n, hw)
  unchecked_copy_from_user_pure _ _ n hw := (n, hw)
  unchecked_copy_to_user_pure _ _ n hw := (n, hw)

/-- The wrappers' common part: what the DMA copy returned decides whether the CPU
primitive runs. The result is the `int` the wrappers keep. -/
def orElseCpu (dma : Option (Int × RequestCopy × St)) (pure : Hw → Nat × Hw) : Option (Int × St) :=
  dma.map fun (r, req_cpy_local, st) =>
    if r < 0 ∨ req_cpy_local.status ≠ .DMA_SUCCESS then
      let c := pure st.hw
      (s32 c.1, { st with hw := c.2 })
    else (r, st)

/-- The caller gets the `int` back as an `unsigned long`. -/
def copy_from_user_dma_pure (env : DmaEnv) (cpu : Cpu) (fuel to_ from_ n : Nat) (st : St) : Option (Nat × St) :=
  (orElseCpu (dma_copy_from_user env fuel (init_req_copy from_ to_ n) st) (cpu.copy_from_user_pure to_ from_ n)).map
    fun (r, st) => (u64 r, st)

def copy_to_user_dma_pure (env : DmaEnv) (cpu : Cpu) (fuel dst src size : Nat) (st : St) : Option (Int × St) :=
  orElseCpu (dma_copy_to_user env fuel (init_req_copy dst src size) st) (cpu.copy_to_user_pure dst src size)

def Unchecked.copy_from_user_dma_pure (env : DmaEnv) (cpu : Cpu) (fuel dst src size : Nat) (st : St) :
    Option (Int × St) :=
  orElseCpu (dma_copy_from_user env fuel (init_req_copy src dst size) st)
    (cpu.unchecked_copy_from_user_pure dst src size)

def Unchecked.copy_to_user_dma_pure (env : DmaEnv) (cpu : Cpu) (fuel dst src size : Nat) (st : St) :
    Option (Int × St) :=
  orElseCpu (dma_copy_to_user env fuel (init_req_copy dst src size) st)
    (cpu.unchecked_copy_to_user_pure dst src size)

/-! ## The traced entry points -/

/-- What a traced copy reads from its surroundings. -/
structure TraceEnv where
  return_address : Nat
  smp_processor_id : Nat
  clock_start : Nat
  clock_end : Nat
  get_cpu : Nat

/-- The four per-CPU variables. -/
inductive MemBuff where
  | mem_buff_from
  | mem_buff_to
  | unchecked_mem_buff_from
  | unchecked_mem_buff_to
  deriving DecidableEq, Repr

/-- The per-CPU rings, and the records passed to `cbWrite` so far with the ring
each went to. -/
structure Traced where
  st : St
  ring : MemBuff → Nat → CircularBuffer UnitBuff
  written : List (MemBuff × Nat × UnitBuff)

/-- The record of a copy up to its end: everything but the ring it goes to. -/
def TraceEnv.unit (tr : TraceEnv) (type_op : TypeOp) (size : Nat) : UnitBuff where
  index_cpu_event := 0
  count_event := 0
  addr := tr.return_address
  size := size
  type_op := type_op
  index_cpu := u16 tr.smp_processor_id
  clock_cpu_start := tr.clock_start
  clock_cpu_end := tr.clock_end

/-- The record as it goes to the ring of CPU `cpu`, whose counter it takes. -/
def stamp {α : Type} (cpu : Nat) (cb : CircularBuffer α) (unit : UnitBuff) : UnitBuff × CircularBuffer α :=
  let c := get_counter cb
  ({ unit with index_cpu_event := cpu, count_event := u64 c.1 }, c.2)

/-- From `get_cpu` to `put_cpu`. -/
def emit (buff : MemBuff) (tr : TraceEnv) (unit : UnitBuff) (s : Traced) : Traced :=
  let cpu := u16 tr.get_cpu
  let r := stamp cpu (s.ring buff cpu) unit
  { s with
    ring := Function.update s.ring buff (Function.update (s.ring buff) cpu (cbWrite r.2 r.1))
    written := s.written ++ [(buff, cpu, r.1)] }

/-- `n` is the parameter, the DMA copy's result and the value returned, all
three `unsigned long`: it is never negative. -/
def copy_from_user (env : DmaEnv) (cpu : Cpu) (tr : TraceEnv) (fuel to_ from_ n : Nat) (s : Traced) :
    Option (Nat × Traced) :=
  let size := n
  (dma_copy_from_user env fuel (init_req_copy from_ to_ n) s.st).map fun (r, req_cpy_local, st) =>
    let n := u64 r
    if n < 0 ∨ req_cpy_local.status ≠ .DMA_SUCCESS then
      let n := req_cpy_local.len
      let c := cpu.copy_from_user_pure to_ from_ n st.hw
      let n := c.1
      (n, emit .mem_buff_from tr (tr.unit .OP_COPY_CPU (u64 ((size : Int) - n))) { s with st := { st with hw := c.2 } })
    else (n, emit .mem_buff_from tr (tr.unit .OP_COPY_DMA (u64 ((size : Int) - n))) { s with st := st })

/-- The other three entry points keep the result in an `int`; `sizeOf` is how the
record's size is computed from it. -/
def tracedCopy (buff : MemBuff) (dma : St → Option (Int × RequestCopy × St)) (pure : Hw → Nat × Hw)
    (sizeOf : Int → Nat) (tr : TraceEnv) (s : Traced) : Option (Int × Traced) :=
  (dma s.st).map fun (r, req_cpy_local, st) =>
    if r < 0 ∨ req_cpy_local.status ≠ .DMA_SUCCESS then
      let c := pure st.hw
      let r := s32 c.1
      (r, emit buff tr (tr.unit .OP_COPY_CPU (sizeOf r)) { s with st := { st with hw := c.2 } })
    else (r, emit buff tr (tr.unit .OP_COPY_DMA (sizeOf r)) { s with st := st })

/-- `size - r` is an `unsigned` difference, stored in an `unsigned long`. -/
def copy_to_user (env : DmaEnv) (cpu : Cpu) (tr : TraceEnv) (fuel dst src size : Nat) (s : Traced) :
    Option (Int × Traced) :=
  tracedCopy .mem_buff_to (dma_copy_to_user env fuel (init_req_copy dst src size))
    (cpu.copy_to_user_pure dst src size) (fun r => u32 ((size : Int) - r)) tr s

def Unchecked.copy_from_user (env : DmaEnv) (cpu : Cpu) (tr : TraceEnv) (fuel dst src size : Nat)
    (s : Traced) : Option (Int × Traced) :=
  tracedCopy .unchecked_mem_buff_from (dma_copy_from_user env fuel (init_req_copy src dst size))
    (cpu.unchecked_copy_from_user_pure dst src size) (fun ret => u64 ((size : Int) - ret)) tr s

def Unchecked.copy_to_user (env : DmaEnv) (cpu : Cpu) (tr : TraceEnv) (fuel dst src size : Nat)
    (s : Traced) : Option (Int × Traced) :=
  tracedCopy .unchecked_mem_buff_to (dma_copy_to_user env fuel (init_req_copy dst src size))
    (cpu.unchecked_copy_to_user_pure dst src size) (fun ret => u64 ((size : Int) - ret)) tr s

/-! ## The four entry points as one -/

inductive Entry where
  | copy_from_user
  | copy_to_user
  | unchecked_copy_from_user
  | unchecked_copy_to_user
  deriving DecidableEq, Repr

namespace Entry

def toUser : Entry → Bool
  | copy_from_user | unchecked_copy_from_user => false
  | copy_to_user | unchecked_copy_to_user => true

/-- The request an entry point makes of its destination, source and length. -/
def request (e : Entry) (dst src n : Nat) : RequestCopy :=
  if e.toUser then init_req_copy dst src n else init_req_copy src dst n

def dma (e : Entry) (env : DmaEnv) (fuel dst src n : Nat) (st : St) : Option (Int × RequestCopy × St) :=
  if e.toUser then dma_copy_to_user env fuel (e.request dst src n) st
  else dma_copy_from_user env fuel (e.request dst src n) st

def pure : Entry → Cpu → Nat → Nat → Nat → Hw → Nat × Hw
  | copy_from_user => Cpu.copy_from_user_pure
  | copy_to_user => Cpu.copy_to_user_pure
  | unchecked_copy_from_user => Cpu.unchecked_copy_from_user_pure
  | unchecked_copy_to_user => Cpu.unchecked_copy_to_user_pure

/-- The ring an entry point writes its record to. -/
def buff : Entry → MemBuff
  | copy_from_user => .mem_buff_from
  | copy_to_user => .mem_buff_to
  | unchecked_copy_from_user => .unchecked_mem_buff_from
  | unchecked_copy_to_user => .unchecked_mem_buff_to

/-- The untraced wrapper. -/
def dmaPure : Entry → DmaEnv → Cpu → Nat → Nat → Nat → Nat → St → Option (Int × St)
  | copy_from_user => fun env cpu fuel dst src n st =>
    (copy_from_user_dma_pure env cpu fuel dst src n st).map fun (r, st) => (r, st)
  | copy_to_user => copy_to_user_dma_pure
  | unchecked_copy_from_user => Unchecked.copy_from_user_dma_pure
  | unchecked_copy_to_user => Unchecked.copy_to_user_dma_pure

/-- The traced entry point. -/
def traced : Entry → DmaEnv → Cpu → TraceEnv → Nat → Nat → Nat → Nat → Traced → Option (Int × Traced)
  | copy_from_user => fun env cpu tr fuel dst src n s =>
    (Dmacftu.copy_from_user env cpu tr fuel dst src n s).map fun (r, s) => (r, s)
  | copy_to_user => Dmacftu.copy_to_user
  | unchecked_copy_from_user => Unchecked.copy_from_user
  | unchecked_copy_to_user => Unchecked.copy_to_user

/-- How a DMA copy's result is turned into the entry point's: by the status alone. -/
def settle (pure : Hw → Nat × Hw) (r : Int × RequestCopy × St) : Int × St :=
  if r.2.1.status = .DMA_SUCCESS then (0, r.2.2)
  else ((pure r.2.2.hw).1, { r.2.2 with hw := (pure r.2.2.hw).2 })

theorem request_status (e : Entry) (dst src n : Nat) : (e.request dst src n).status = .DMA_INIT := by
  unfold request
  split <;> rfl

theorem request_len (e : Entry) (dst src n : Nat) : (e.request dst src n).len = n := by
  unfold request
  split <;> rfl

theorem dma_some (e : Entry) {env : DmaEnv} {fuel dst src n : Nat} {st : St} {r : Int × RequestCopy × St}
    (h : e.dma env fuel dst src n st = some r) :
    r.2.1.len = n ∧ (r.2.1.status = .DMA_SUCCESS → r.1 = 0) := by
  unfold dma at h
  rw [← e.request_len dst src n]
  split at h
  · exact dma_copy_to_user_some (e.request_status dst src n) h
  · exact dma_copy_from_user_some (e.request_status dst src n) h

variable {cpu : Cpu} {n : Nat} {pure : Hw → Nat × Hw} {r : Int × RequestCopy × St}

theorem settle_bounds (hc : ∀ hw, (pure hw).1 ≤ n) (r : Int × RequestCopy × St) :
    0 ≤ (settle pure r).1 ∧ (settle pure r).1 ≤ n := by
  unfold settle
  split
  · exact ⟨Int.le_refl 0, Int.natCast_nonneg n⟩
  · exact ⟨Int.natCast_nonneg _, Int.ofNat_le.2 (hc _)⟩

/-- The wrappers' test is a test of the status, and the conversions of the
primitive's result change nothing. -/
theorem fallback_eq (hn : n < 2 ^ 31) (hc : ∀ hw, (pure hw).1 ≤ n)
    (hr : r.2.1.status = .DMA_SUCCESS → r.1 = 0) :
    (if r.1 < 0 ∨ r.2.1.status ≠ .DMA_SUCCESS then
      (s32 (pure r.2.2.hw).1, { r.2.2 with hw := (pure r.2.2.hw).2 }) else (r.1, r.2.2)) = settle pure r := by
  unfold settle
  have hs : s32 (pure r.2.2.hw).1 = (pure r.2.2.hw).1 := by
    have := hc r.2.2.hw
    apply s32_of_range <;> omega
  by_cases h : r.2.1.status = .DMA_SUCCESS
  · rw [if_pos h, if_neg (by rw [hr h]; simp [h]), hr h]
  · rw [if_neg h, if_pos (.inr h), hs]

theorem orElseCpu_eq {dma : Option (Int × RequestCopy × St)} (hn : n < 2 ^ 31) (hc : ∀ hw, (pure hw).1 ≤ n)
    (hd : ∀ r, dma = some r → r.2.1.status = .DMA_SUCCESS → r.1 = 0) :
    orElseCpu dma pure = dma.map (settle pure) := by
  cases dma with
  | none => rfl
  | some r => exact congrArg some (fallback_eq hn hc (hd r rfl))

theorem u64_settle (hn : n < 2 ^ 31) (hc : ∀ hw, (pure hw).1 ≤ n) (r : Int × RequestCopy × St) :
    (u64 (settle pure r).1 : Int) = (settle pure r).1 := by
  obtain ⟨h0, h1⟩ := settle_bounds hc r
  rw [u64_of_range h0 (by omega)]
  omega

theorem dmaPure_eq (e : Entry) {env : DmaEnv} {fuel dst src : Nat} {st : St} (hn : n < 2 ^ 31)
    (hc : ∀ hw, (e.pure cpu dst src n hw).1 ≤ n) :
    e.dmaPure env cpu fuel dst src n st = (e.dma env fuel dst src n st).map (settle (e.pure cpu dst src n)) := by
  have hd : ∀ r, e.dma env fuel dst src n st = some r → r.2.1.status = .DMA_SUCCESS → r.1 = 0 :=
    fun r h => (e.dma_some h).2
  cases e with
  | copy_from_user =>
    have heq := orElseCpu_eq hn hc hd
    show ((orElseCpu (copy_from_user.dma env fuel dst src n st) (copy_from_user.pure cpu dst src n)).map _).map _ = _
    rw [heq, Option.map_map, Option.map_map]
    congr 1
    funext r
    exact Prod.ext (u64_settle hn hc r) rfl
  | copy_to_user => exact orElseCpu_eq hn hc hd
  | unchecked_copy_from_user => exact orElseCpu_eq hn hc hd
  | unchecked_copy_to_user => exact orElseCpu_eq hn hc hd

/-- What a traced entry point makes of the DMA copy's result. -/
def settleTraced (buff : MemBuff) (pure : Hw → Nat × Hw) (tr : TraceEnv) (n : Nat) (s : Traced)
    (r : Int × RequestCopy × St) : Int × Traced :=
  let y := settle pure r
  let type_op := if r.2.1.status = .DMA_SUCCESS then .OP_COPY_DMA else .OP_COPY_CPU
  (y.1, emit buff tr (tr.unit type_op (n - y.1).toNat) { s with st := y.2 })

theorem tracedCopy_eq {buff : MemBuff} {dma : St → Option (Int × RequestCopy × St)} {sizeOf : Int → Nat}
    {tr : TraceEnv} {s : Traced} (hn : n < 2 ^ 31) (hc : ∀ hw, (pure hw).1 ≤ n)
    (hd : ∀ r, dma s.st = some r → r.2.1.status = .DMA_SUCCESS → r.1 = 0)
    (hsize : ∀ r : Int, 0 ≤ r → r ≤ n → sizeOf r = (n - r).toNat) :
    tracedCopy buff dma pure sizeOf tr s = (dma s.st).map (settleTraced buff pure tr n s) := by
  apply Option.map_congr
  intro r h
  have hfall := fallback_eq hn hc (hd r h)
  obtain ⟨h0, h1⟩ := settle_bounds hc r
  simp only [settleTraced]
  rw [← hsize _ h0 h1, ← hfall]
  by_cases hs : r.2.1.status = .DMA_SUCCESS
  · have hcond : ¬ (r.1 < 0 ∨ r.2.1.status ≠ .DMA_SUCCESS) := by rw [hd r h hs]; simp [hs]
    simp only [if_neg hcond, if_pos hs]
  · have hcond : r.1 < 0 ∨ r.2.1.status ≠ .DMA_SUCCESS := .inr hs
    simp only [if_pos hcond, if_neg hs]

/-- `copy_from_user` tests an `unsigned long` for being negative; the status makes
up for it. -/
theorem copy_from_user_traced_eq {env : DmaEnv} {tr : TraceEnv} {fuel dst src : Nat} {s : Traced} (hn : n < 2 ^ 31)
    (hc : ∀ hw, (cpu.copy_from_user_pure dst src n hw).1 ≤ n) :
    (Dmacftu.copy_from_user env cpu tr fuel dst src n s).map (fun x => ((x.1 : Int), x.2)) =
      (dma_copy_from_user env fuel (init_req_copy src dst n) s.st).map
        (settleTraced .mem_buff_from (cpu.copy_from_user_pure dst src n) tr n s) := by
  unfold Dmacftu.copy_from_user
  rw [Option.map_map]
  apply Option.map_congr
  intro r h
  obtain ⟨hlen, hzero⟩ := dma_copy_from_user_some rfl h
  have hlen : r.2.1.len = n := hlen
  obtain ⟨h0, h1⟩ := settle_bounds hc r
  have hsize : u64 ((n : Int) - (settle (cpu.copy_from_user_pure dst src n) r).1) = _ :=
    u64_of_range (by omega) (by omega)
  simp only [settleTraced, Function.comp]
  rw [← hsize]
  unfold settle
  by_cases hs : r.2.1.status = .DMA_SUCCESS
  · have hcond : ¬ (u64 r.1 < 0 ∨ r.2.1.status ≠ .DMA_SUCCESS) := by simp [hs]
    have hu : u64 r.1 = 0 := by rw [hzero hs]; decide
    simp only [if_neg hcond, if_pos hs]
    rw [hu, Int.natCast_zero]
  · have hcond : u64 r.1 < 0 ∨ r.2.1.status ≠ .DMA_SUCCESS := .inr hs
    simp only [if_pos hcond, if_neg hs, hlen]

theorem traced_eq (e : Entry) {env : DmaEnv} {tr : TraceEnv} {fuel dst src : Nat} {s : Traced} (hn : n < 2 ^ 31)
    (hc : ∀ hw, (e.pure cpu dst src n hw).1 ≤ n) :
    e.traced env cpu tr fuel dst src n s =
      (e.dma env fuel dst src n s.st).map (settleTraced e.buff (e.pure cpu dst src n) tr n s) := by
  have hsize : ∀ r : Int, 0 ≤ r → r ≤ n → u64 ((n : Int) - r) = (n - r).toNat :=
    fun r h0 h1 => u64_of_range (by omega) (by omega)
  cases e with
  | copy_from_user => exact copy_from_user_traced_eq hn hc
  | copy_to_user =>
    show Dmacftu.copy_to_user env cpu tr fuel dst src n s = (dma_copy_to_user env fuel (init_req_copy dst src n) s.st).map
      (settleTraced .mem_buff_to (cpu.copy_to_user_pure dst src n) tr n s)
    unfold Dmacftu.copy_to_user
    refine tracedCopy_eq hn hc (fun r h => (dma_copy_to_user_some rfl h).2) fun r h0 h1 => ?_
    exact u32_of_range (by omega) (by omega)
  | unchecked_copy_from_user =>
    show Unchecked.copy_from_user env cpu tr fuel dst src n s =
      (dma_copy_from_user env fuel (init_req_copy src dst n) s.st).map
        (settleTraced .unchecked_mem_buff_from (cpu.unchecked_copy_from_user_pure dst src n) tr n s)
    unfold Unchecked.copy_from_user
    exact tracedCopy_eq hn hc (fun r h => (dma_copy_from_user_some rfl h).2) hsize
  | unchecked_copy_to_user =>
    show Unchecked.copy_to_user env cpu tr fuel dst src n s =
      (dma_copy_to_user env fuel (init_req_copy dst src n) s.st).map
        (settleTraced .unchecked_mem_buff_to (cpu.unchecked_copy_to_user_pure dst src n) tr n s)
    unfold Unchecked.copy_to_user
    exact tracedCopy_eq hn hc (fun r h => (dma_copy_to_user_some rfl h).2) hsize

/-! ## The results -/

/-- The user buffer among destination and source. -/
def userBase : Entry → Nat → Nat → Nat
  | copy_from_user, _, src | unchecked_copy_from_user, _, src => src
  | copy_to_user, dst, _ | unchecked_copy_to_user, dst, _ => dst

/-- The kernel buffer among destination and source. -/
def kernelBase : Entry → Nat → Nat → Nat
  | copy_from_user, dst, _ | unchecked_copy_from_user, dst, _ => dst
  | copy_to_user, _, src | unchecked_copy_to_user, _, src => src

/-- What an entry point is to do: byte `i` goes from `src i` to `dst i`. -/
def task (e : Entry) {env : DmaEnv} {dst src n : Nat}
    (hb : Buffers env (e.userBase dst src) (e.kernelBase dst src) n) : Task :=
  match e.toUser with
  | true => hb.toUser
  | false => hb.fromUser

/-- What the CPU primitives promise: `r ≤ n`, the first `n - r` bytes copied, and
the source left alone. -/
structure CpuOk (pure : Hw → Nat × Hw) (t : Task) (n : Nat) : Prop where
  le : ∀ hw, (pure hw).1 ≤ n
  copied : ∀ hw, ∀ i < n - (pure hw).1, (pure hw).2.eng.mem (t.dst i) = (pure hw).2.eng.mem (t.src i)
  source : ∀ hw, ∀ i < n, (pure hw).2.eng.mem (t.src i) = hw.eng.mem (t.src i)

theorem dma_copied (e : Entry) {env : DmaEnv} {dst src : Nat} {st : St} (hn : n < 2 ^ 31)
    (hb : Buffers env (e.userBase dst src) (e.kernelBase dst src) n) (hlive : env.Live) (hf : env.Fair (e.task hb))
    (hbus : e.toUser = false → env.pin.kernel_ds = false → Mappable (e.kernelBase dst src) n)
    (hmap : e.toUser = true ∨ env.pin.kernel_ds = true → ∀ k, (env.attempts k).Mapped)
    (ha : Apart (e.task hb) st.hw.eng) :
    ∃ r, Copied (e.task hb) st.hw.eng.mem st.hw.eng.log.length r.2.1.status r.2.2.hw.eng ∧
      ∃ N, ∀ fuel, N ≤ fuel → e.dma env fuel dst src n st = some r := by
  cases e with
  | copy_from_user | unchecked_copy_from_user =>
    obtain ⟨r, hr, hN⟩ := @dma_copy_from_user_copied env st (init_req_copy src dst n) rfl hb hn hlive hf
      (hbus rfl) (fun hds => hmap (.inr hds)) ha
    exact ⟨r, hr.holds, hN⟩
  | copy_to_user | unchecked_copy_to_user =>
    obtain ⟨r, hr, hN⟩ := @dma_copy_to_user_copied env st (init_req_copy dst src n) rfl hb hn hlive hf
      (hmap (.inl rfl)) ha
    exact ⟨r, hr.holds, hN⟩

theorem dma_total (e : Entry) {env : DmaEnv} {dst src : Nat} {st : St} (hn : n < 2 ^ 31) (hd : dst < 2 ^ 64)
    (hs : src < 2 ^ 64) (hlive : env.Live)
    (hbus : e.toUser = false → env.pin.kernel_ds = false → Mappable (e.kernelBase dst src) n) :
    ∃ r N, ∀ fuel, N ≤ fuel → e.dma env fuel dst src n st = some r := by
  cases e with
  | copy_from_user | unchecked_copy_from_user =>
    exact @dma_copy_from_user_total env (init_req_copy src dst n) st hlive rfl hs hd (hbus rfl) hn
  | copy_to_user | unchecked_copy_to_user =>
    exact @dma_copy_to_user_total env (init_req_copy dst src n) st hlive rfl hd hs hn

/-- The fallback contract of the untraced wrappers: they end and return some
`r ≤ n`, with the first `n - r` bytes of the destination those of the source.
The value is 0 where the DMA copy succeeded and the primitive's elsewhere. -/
theorem fallback_contract (e : Entry) {env : DmaEnv} {cpu : Cpu} {dst src n : Nat} {st : St} (hn : n < 2 ^ 31)
    (hb : Buffers env (e.userBase dst src) (e.kernelBase dst src) n) (hlive : env.Live) (hf : env.Fair (e.task hb))
    (hbus : e.toUser = false → env.pin.kernel_ds = false → Mappable (e.kernelBase dst src) n)
    (hmap : e.toUser = true ∨ env.pin.kernel_ds = true → ∀ k, (env.attempts k).Mapped)
    (ha : Apart (e.task hb) st.hw.eng) (hc : CpuOk (e.pure cpu dst src n) (e.task hb) n) :
    ∃ (r : Nat) (st' : St) (x : Int × RequestCopy × St) (N : Nat),
      (∀ fuel, N ≤ fuel → e.dma env fuel dst src n st = some x ∧
        e.dmaPure env cpu fuel dst src n st = some ((r : Int), st')) ∧
      r ≤ n ∧
      (∀ i < n - r, st'.hw.eng.mem ((e.task hb).dst i) = st.hw.eng.mem ((e.task hb).src i)) ∧
      (∀ i < n, st'.hw.eng.mem ((e.task hb).src i) = st.hw.eng.mem ((e.task hb).src i)) ∧
      (x.2.1.status = .DMA_SUCCESS → r = 0) ∧
      (x.2.1.status ≠ .DMA_SUCCESS → r = (e.pure cpu dst src n x.2.2.hw).1) := by
  obtain ⟨x, hcopied, N, hN⟩ := e.dma_copied hn hb hlive hf hbus hmap ha
  have htn : (e.task hb).n = n := by cases e <;> rfl
  have hsource : ∀ i < n, x.2.2.hw.eng.mem ((e.task hb).src i) = st.hw.eng.mem ((e.task hb).src i) :=
    fun i hi => hcopied.sound.source i (htn.symm ▸ hi)
  have hpure : ∀ fuel, N ≤ fuel →
      e.dmaPure env cpu fuel dst src n st = some (settle (e.pure cpu dst src n) x) := by
    intro fuel hfuel
    rw [e.dmaPure_eq hn hc.le, hN fuel hfuel]
    rfl
  by_cases hs : x.2.1.status = .DMA_SUCCESS
  · refine ⟨0, x.2.2, x, N, fun fuel hf => ⟨hN fuel hf, ?_⟩, Nat.zero_le n, ?_, hsource, fun _ => rfl,
      fun h => absurd hs h⟩
    · rw [hpure fuel hf, settle, if_pos hs]
      rfl
    · intro i hi
      exact hcopied.complete hs i (htn.symm ▸ hi)
  · refine ⟨(e.pure cpu dst src n x.2.2.hw).1, { x.2.2 with hw := (e.pure cpu dst src n x.2.2.hw).2 }, x, N,
      fun fuel hf => ⟨hN fuel hf, ?_⟩, hc.le _, ?_, ?_, fun h => absurd h hs, fun _ => rfl⟩
    · rw [hpure fuel hf, settle, if_neg hs]
    · -- what the DMA copy left behind does not matter: the primitive starts over
      intro i hi
      have hi' : i < n := Nat.lt_of_lt_of_le hi (Nat.sub_le _ _)
      rw [hc.copied _ i hi, hc.source _ i hi', hsource i hi']
    · intro i hi
      rw [hc.source _ i hi, hsource i hi]

/-- An engine that takes every descriptor and has done nothing when the timeout
comes. -/
def stalledEnv : DmaEnv where
  chan := some 0
  pin := roomy (2 ^ 22)
  page_to_pfn := frameOf
  pfn_ne := frameOf_ne
  attempts _ := ⟨[], true, true, true⟩
  polls _ := ⟨[], fun _ _ => .DMA_IN_PROGRESS, true⟩

theorem stalledEnv_live : stalledEnv.Live where
  granted k := ⟨k, Nat.le_refl k, rfl, rfl, rfl⟩
  timeout i := ⟨i, Nat.le_refl i, rfl⟩

theorem stalledEnv_fair (t : Task) : stalledEnv.Fair t where
  quiet_attempts _ _ h := absurd h List.not_mem_nil
  quiet_polls _ _ h := absurd h List.not_mem_nil
  honest _ _ _ h := by cases h

/-- Four bytes across a page boundary of the user range. -/
theorem stalledEnv_buffers : Buffers stalledEnv 8190 sampleBuf 4 where
  user_lt := by decide
  kernel_linear := ⟨by decide, by decide⟩
  user_linear h := by cases h
  frames _ v _ w _ h := Nat.succ.inj h
  disjoint := by decide

/-- A CPU copy from user memory that meets no fault. -/
def faultlessCopy (dst src n : Nat) (hw : Hw) : Nat × Hw :=
  let base := virt_to_phys dst
  let mem := hw.eng.mem
  (0, { hw with eng := { hw.eng with
    mem := fun p => if base ≤ p ∧ p < base + n then mem (userPhys stalledEnv src (p - base)) else mem p } })

def faultless : Cpu := ⟨faultlessCopy, faultlessCopy, faultlessCopy, faultlessCopy⟩

theorem faultless_ok : CpuOk (copy_from_user.pure faultless sampleBuf 8190 4)
    (copy_from_user.task stalledEnv_buffers) 4 := by
  have hbase : virt_to_phys sampleBuf = 0x7000 := by decide
  have hdst : ∀ i < 4, virt_to_phys (sampleBuf + i) = 0x7000 + i := by decide
  have hsrc : ∀ i < 4, ¬ (0x7000 ≤ userPhys stalledEnv 8190 i ∧ userPhys stalledEnv 8190 i < 0x7004) := by decide
  have hmem : ∀ (hw : Hw) (p : Nat), (faultlessCopy sampleBuf 8190 4 hw).2.eng.mem p =
      if 0x7000 ≤ p ∧ p < 0x7004 then hw.eng.mem (userPhys stalledEnv 8190 (p - 0x7000)) else hw.eng.mem p := by
    intro hw p
    simp [faultlessCopy, hbase]
  have hkeep : ∀ (hw : Hw), ∀ i < 4, (faultlessCopy sampleBuf 8190 4 hw).2.eng.mem (userPhys stalledEnv 8190 i) =
      hw.eng.mem (userPhys stalledEnv 8190 i) := by
    intro hw i hi
    rw [hmem, if_neg (hsrc i hi)]
  refine ⟨fun _ => Nat.zero_le 4, fun hw i hi => ?_, hkeep⟩
  have hi : i < 4 := hi
  show (faultlessCopy sampleBuf 8190 4 hw).2.eng.mem (virt_to_phys (sampleBuf + i)) =
    (faultlessCopy sampleBuf 8190 4 hw).2.eng.mem (userPhys stalledEnv 8190 i)
  rw [hkeep hw i hi, hmem, hdst i hi, if_pos (by omega), Nat.add_sub_cancel_left]

/-- The first byte of the user range is 7. -/
def sevenSt : St := { bootSt with hw := { bootSt.hw with
  eng := ⟨fun p => if p = userPhys stalledEnv 8190 0 then 7 else 0, [], 0⟩ } }

/-- Four bytes that the stalled engine leaves to the CPU. -/
theorem fallback_contract_stalled : ∃ (st' : St) (x : Int × RequestCopy × St) (N : Nat),
    (∀ fuel, N ≤ fuel → copy_from_user.dma stalledEnv fuel sampleBuf 8190 4 sevenSt = some x ∧
      copy_from_user.dmaPure stalledEnv faultless fuel sampleBuf 8190 4 sevenSt = some (0, st')) ∧
    st'.hw.eng.mem (virt_to_phys sampleBuf) = 7 ∧
    ∀ i < 4, st'.hw.eng.mem (userPhys stalledEnv 8190 i) = sevenSt.hw.eng.mem (userPhys stalledEnv 8190 i) := by
  have ha : Apart (copy_from_user.task stalledEnv_buffers) sevenSt.hw.eng :=
    ⟨Nat.le_refl 0, fun k d _ h => by cases h⟩
  have hbus : Mappable sampleBuf 4 := by decide
  obtain ⟨r, st', x, N, hN, hle, hcopied, hsource, hok, hcpu⟩ := fallback_contract copy_from_user (by decide)
    stalledEnv_buffers stalledEnv_live (stalledEnv_fair _) (fun _ _ => hbus) (fun _ _ _ => ⟨rfl, rfl⟩) ha faultless_ok
  have hr : r = 0 := by
    by_cases hs : x.2.1.status = .DMA_SUCCESS
    · exact hok hs
    · exact hcpu hs
  subst hr
  exact ⟨st', x, N, hN, hcopied 0 (by decide), hsource⟩

/-- The traced entry points do what the untraced ones do, and each writes one
record, a truthful one. -/
theorem traced_agrees (e : Entry) {env : DmaEnv} {cpu : Cpu} {tr : TraceEnv} {dst src n : Nat} {s : Traced}
    (hn : n < 2 ^ 31) (hd : dst < 2 ^ 64) (hs : src < 2 ^ 64) (hlive : env.Live)
    (hbus : e.toUser = false → env.pin.kernel_ds = false → Mappable (e.kernelBase dst src) n)
    (hc : ∀ hw, (e.pure cpu dst src n hw).1 ≤ n) :
    (∃ x N, ∀ fuel, N ≤ fuel → e.traced env cpu tr fuel dst src n s = some x) ∧
    ∀ fuel,
      (e.traced env cpu tr fuel dst src n s).map (fun x => (x.1, x.2.st)) = e.dmaPure env cpu fuel dst src n s.st ∧
      ∀ x, e.traced env cpu tr fuel dst src n s = some x → ∃ unit r,
        e.dma env fuel dst src n s.st = some r ∧
        x.2.written = s.written ++ [(e.buff, unit.index_cpu_event, unit)] ∧
        (unit.size : Int) + x.1 = n ∧
        (unit.type_op = .OP_COPY_DMA ↔ r.2.1.status = .DMA_SUCCESS) ∧
        unit.count_event = u64 (get_counter (s.ring e.buff unit.index_cpu_event)).1 ∧
        x.2.ring e.buff unit.index_cpu_event =
          cbWrite (get_counter (s.ring e.buff unit.index_cpu_event)).2 unit := by
  refine ⟨?_, fun fuel => ⟨?_, fun x hx => ?_⟩⟩
  · obtain ⟨r, N, hN⟩ := e.dma_total hn hd hs hlive hbus
    exact ⟨settleTraced e.buff (e.pure cpu dst src n) tr n s r, N, fun fuel hf => by
      rw [e.traced_eq hn hc, hN fuel hf]
      rfl⟩
  · rw [e.traced_eq hn hc, e.dmaPure_eq hn hc, Option.map_map]
    rfl
  · rw [e.traced_eq hn hc] at hx
    obtain ⟨r, hr, rfl⟩ := Option.map_eq_some_iff.1 hx
    obtain ⟨h0, h1⟩ := settle_bounds hc r
    let unit : UnitBuff := { tr.unit (if r.2.1.status = .DMA_SUCCESS then .OP_COPY_DMA else .OP_COPY_CPU)
        ((n : Int) - (settle (e.pure cpu dst src n) r).1).toNat with
      index_cpu_event := u16 tr.get_cpu
      count_event := u64 (get_counter (s.ring e.buff (u16 tr.get_cpu))).1 }
    refine ⟨unit, r, hr, rfl, ?_, ?_, rfl, ?_⟩
    · dsimp only [unit, settleTraced, TraceEnv.unit]
      omega
    · dsimp only [unit, TraceEnv.unit]
      split
      · rename_i h
        exact iff_of_true rfl h
      · rename_i h
        exact iff_of_false (by simp) h
    · simp [settleTraced, emit, stamp, unit]

def bootTraced : Traced := ⟨bootSt, fun _ _ => cbInit ⟨0, 0, 0, 0, .OP_COPY_NO_DEF, 0, 0, 0⟩, []⟩

theorem traced_agrees_stalled : ∃ x unit r, copy_from_user.traced stalledEnv faultless ⟨0, 0, 0, 0, 0⟩ 2 sampleBuf 8190 4
      bootTraced = some x ∧
    copy_from_user.dmaPure stalledEnv faultless 2 sampleBuf 8190 4 bootSt = some (x.1, x.2.st) ∧
    copy_from_user.dma stalledEnv 2 sampleBuf 8190 4 bootSt = some r ∧
    x.2.written = [(copy_from_user.buff, unit.index_cpu_event, unit)] ∧ (unit.size : Int) + x.1 = 4 ∧
    (unit.type_op = .OP_COPY_DMA ↔ r.2.1.status = .DMA_SUCCESS) ∧ unit.count_event = 1 := by
  have hbus : Mappable sampleBuf 4 := by decide
  have hsome : (copy_from_user.traced stalledEnv faultless ⟨0, 0, 0, 0, 0⟩ 2 sampleBuf 8190 4 bootTraced).isSome = true := by
    decide
  obtain ⟨x, hx⟩ := Option.isSome_iff_exists.1 hsome
  obtain ⟨hsame, hrecord⟩ := (@traced_agrees copy_from_user stalledEnv faultless ⟨0, 0, 0, 0, 0⟩ sampleBuf 8190 4
    bootTraced (by decide) (by decide) (by decide) stalledEnv_live (fun _ _ => hbus) faultless_ok.le).2 2
  obtain ⟨unit, r, hr, hwritten, hsize, htype, hcount, -⟩ := hrecord x hx
  rw [hx] at hsame
  exact ⟨x, unit, r, hx, hsame.symm, hr, hwritten, hsize, htype, hcount⟩

end Entry

/-! ## The two builds of `copy_from_user` -/

/-- `copy_from_user`, built without tracing. -/
def Untraced.copy_from_user (env : DmaEnv) (cpu : Cpu) (fuel to_ from_ n : Nat) (st : St) : Option (Nat × St) :=
  copy_from_user_dma_pure env cpu fuel to_ from_ n st

section

variable {env : DmaEnv} {cpu : Cpu} {tr : TraceEnv} {fuel to_ from_ n : Nat} {s : Traced} {r : Int × RequestCopy × St}

/-- The traced build keeps the remainder as it is. -/
theorem copy_from_user_value (h : dma_copy_from_user env fuel (init_req_copy from_ to_ n) s.st = some r) :
    (copy_from_user env cpu tr fuel to_ from_ n s).map Prod.fst =
      some (if r.2.1.status = .DMA_SUCCESS then 0 else (cpu.copy_from_user_pure to_ from_ n r.2.2.hw).1) := by
  obtain ⟨hlen, hzero⟩ := dma_copy_from_user_some rfl h
  have hlen : r.2.1.len = n := hlen
  unfold copy_from_user
  rw [h, Option.map_some, Option.map_some]
  by_cases hs : r.2.1.status = .DMA_SUCCESS
  · have hcond : ¬ (u64 r.1 < 0 ∨ r.2.1.status ≠ .DMA_SUCCESS) := by simp [hs]
    simp only [if_neg hcond, if_pos hs]
    rw [hzero hs]
    rfl
  · have hcond : u64 r.1 < 0 ∨ r.2.1.status ≠ .DMA_SUCCESS := .inr hs
    simp only [if_pos hcond, if_neg hs, hlen]

/-- The untraced build passes it through an `int`. -/
theorem untraced_value (h : dma_copy_from_user env fuel (init_req_copy from_ to_ n) s.st = some r) :
    (Untraced.copy_from_user env cpu fuel to_ from_ n s.st).map Prod.fst =
      some (if r.2.1.status = .DMA_SUCCESS then 0 else u64 (s32 (cpu.copy_from_user_pure to_ from_ n r.2.2.hw).1)) := by
  obtain ⟨-, hzero⟩ := dma_copy_from_user_some rfl h
  unfold Untraced.copy_from_user copy_from_user_dma_pure orElseCpu
  rw [h, Option.map_some, Option.map_some, Option.map_some]
  by_cases hs : r.2.1.status = .DMA_SUCCESS
  · have hcond : ¬ (r.1 < 0 ∨ r.2.1.status ≠ .DMA_SUCCESS) := by rw [hzero hs]; simp [hs]
    simp only [if_neg hcond, if_pos hs]
    rw [hzero hs]
    rfl
  · have hcond : r.1 < 0 ∨ r.2.1.status ≠ .DMA_SUCCESS := .inr hs
    simp only [if_pos hcond, if_neg hs]

end

/-- Both builds return with the DMA copy. The untraced one returns what the traced one
does, and no more than `n`, exactly where the DMA copy succeeded or the CPU's remainder
survives an `int`. -/
theorem remainder_sane_iff (env : DmaEnv) (cpu : Cpu) (tr : TraceEnv) (fuel to_ from_ : Nat) {n : Nat} (s : Traced)
    (hn : n < 2 ^ 64) (hm : ∀ hw, (cpu.copy_from_user_pure to_ from_ n hw).1 ≤ n) :
    (dma_copy_from_user env fuel (init_req_copy from_ to_ n) s.st = none →
      Untraced.copy_from_user env cpu fuel to_ from_ n s.st = none ∧
        copy_from_user env cpu tr fuel to_ from_ n s = none) ∧
    ∀ r, dma_copy_from_user env fuel (init_req_copy from_ to_ n) s.st = some r → ∃ v t m,
      m = (cpu.copy_from_user_pure to_ from_ n r.2.2.hw).1 ∧
      (Untraced.copy_from_user env cpu fuel to_ from_ n s.st).map Prod.fst = some v ∧
      (copy_from_user env cpu tr fuel to_ from_ n s).map Prod.fst = some t ∧
      t = (if r.2.1.status = .DMA_SUCCESS then 0 else m) ∧
      (v ≤ n ∧ v = t ↔ r.2.1.status = .DMA_SUCCESS ∨ m < 2 ^ 31 ∨ 2 ^ 64 - 2 ^ 31 ≤ m) := by
  constructor
  · intro h
    unfold Untraced.copy_from_user copy_from_user_dma_pure orElseCpu copy_from_user
    rw [h]
    exact ⟨rfl, rfl⟩
  · intro r h
    refine ⟨_, _, _, rfl, untraced_value h, copy_from_user_value h, rfl, ?_⟩
    have hmn := hm r.2.2.hw
    by_cases hs : r.2.1.status = .DMA_SUCCESS
    · simp [hs]
    · -- the remainder went through an `int` and back
      simp only [hs, false_or]
      rw [← u64_s32_iff (Nat.lt_of_le_of_lt hmn hn)]
      constructor
      · exact And.right
      · intro heq
        exact ⟨heq.symm ▸ hmn, heq⟩

/-- No channel is free. -/
def busyEnv : DmaEnv := { Entry.stalledEnv with chan := none }

theorem remainder_sane_sample : ∃ v,
    (Untraced.copy_from_user busyEnv idleCpu 0 sampleBuf 8192 (2 ^ 31 - 1) bootSt).map Prod.fst = some v ∧
      v ≤ 2 ^ 31 - 1 := by
  obtain ⟨v, t, m, hmEq, hv, -, -, hiff⟩ := (@remainder_sane_iff busyEnv idleCpu ⟨0, 0, 0, 0, 0⟩ 0 sampleBuf 8192
    (2 ^ 31 - 1) Entry.bootTraced (by decide) fun _ => Nat.le_refl _).2 _ rfl
  have hm : m = 2 ^ 31 - 1 := hmEq
  exact ⟨v, hv, (hiff.2 (.inr (.inl (by omega)))).1⟩

/-- Two gigabytes that nobody copied come back as more than were asked for. -/
theorem remainder_wraps :
    (Untraced.copy_from_user busyEnv idleCpu 0 sampleBuf 8192 (2 ^ 31) bootSt).map Prod.fst = some (2 ^ 64 - 2 ^ 31) ∧
    (copy_from_user busyEnv idleCpu ⟨0, 0, 0, 0, 0⟩ 0 sampleBuf 8192 (2 ^ 31) Entry.bootTraced).map Prod.fst =
      some (2 ^ 31) ∧
    ¬ 2 ^ 64 - 2 ^ 31 ≤ 2 ^ 31 :=
  ⟨by decide, by decide, by decide⟩

end Dmacftu
