import Dmacftu.Session
import Dmacftu.Uaccess
/-!
# The Cache benchmark's driver

`benchmark_driver_write` and `benchmark_driver_read` of
`micro-benchmark_Cache_2CPU`: each moves `len` bytes between the caller's buffer
and the next slot of the device's kernel memory, by the CPU or with the DMA engine
under the shared policy.
-/
open Lib.CInt

namespace Dmacftu.Cache

def CPU_MEASURE : Nat := 1
def DMA_MEASURE : Nat := 2

structure BenchmarkData where
  kernel_size : Nat
  kernel_buf : Nat
  counter_op_read : Nat
  counter_op_write : Nat
  type : Nat

/-- `mem_index`; a division by 0 does not come back. -/
def mem_index (counter kernel_size len : Nat) : Option Int :=
  if len = 0 then none
  else
    let slots := u64 (s32 (kernel_size / len : Nat))
    if slots = 0 then none else some (s32 (counter % slots : Nat))

/-- The switch over the measure: `p` is the DMA copy, `write` and `dirty` are the
arguments of its pin and unpin, `pure` is the CPU's copy. -/
def transfer (type : Nat) (p : PolicyCopy) (write dirty : Int) (pure : Hw → Nat × Hw) (env : DmaEnv) (fuel : Nat)
    (buf tmp_buf len : Nat) (hw : Hw) (s : Session) : Option (Int × Hw × Session) :=
  if type = CPU_MEASURE then
    let r := pure hw
    some (s32 r.1, r.2, { s with log := s.log ++ [.copied p.dir tmp_buf len] })
  else if type = DMA_MEASURE then
    match s.pin env.pin (init_req_copy buf tmp_buf len) write 0 with
    | (.PIN_SUCCESSFUL, req_cpy_local, s) =>
      (s.copy p env fuel req_cpy_local hw).map fun (ret, req_cpy_local, hw, s) =>
        (ret, hw, s.unpin req_cpy_local dirty)
    | (_, _, s) => some (-EACCES, hw, s)
  else some (-EPERM, hw, s)

/-- What the driver reports. -/
def report (len : Nat) (ret : Int) : Int := if ret < 0 then ret else s64 (len - ret)

/-- The bounds checks and the slot, before `op` moves the bytes. -/
def driverOp (b_data : BenchmarkData) (counter : Nat) (buf len : Nat)
    (op : (tmp_buf : Nat) → Hw → Session → Option (Int × Hw × Session)) (hw : Hw) (s : Session) :
    Option (Int × Hw × Session) :=
  if buf = 0 then some (-EINVAL, hw, s)
  else if len > b_data.kernel_size then some (-EFAULT, hw, s)
  else (mem_index counter b_data.kernel_size len).bind fun i => op (u64 (b_data.kernel_buf + i * len)) hw s

section

variable (c : Caller) (cpu : Cpu) (env : DmaEnv) (fuel : Nat)

def benchmark_driver_write (b_data : BenchmarkData) (buf len : Nat) (hw : Hw) (s : Session) :
    Option (Int × BenchmarkData × Hw × Session) :=
  (driverOp b_data b_data.counter_op_write buf len (fun tmp_buf =>
      transfer b_data.type c.dma_copy_from_user_sh 1 SET_DIRTY_ON (cpu.copy_from_user_pure tmp_buf buf len) env fuel buf
        tmp_buf len) hw s).map fun (ret, hw, s) =>
    (report len ret,
      if ret < 0 then b_data else { b_data with counter_op_write := u64 (b_data.counter_op_write + 1 : Nat) }, hw, s)

def benchmark_driver_read (b_data : BenchmarkData) (buf len : Nat) (hw : Hw) (s : Session) :
    Option (Int × BenchmarkData × Hw × Session) :=
  (driverOp b_data b_data.counter_op_read buf len (fun tmp_buf =>
      transfer b_data.type c.dma_copy_to_user_sh 0 SET_DIRTY_OFF (cpu.copy_to_user_pure buf tmp_buf len) env fuel buf
        tmp_buf len) hw s).map fun (ret, hw, s) =>
    (report len ret,
      if ret < 0 then b_data else { b_data with counter_op_read := u64 (b_data.counter_op_read + 1 : Nat) }, hw, s)

end

open Session in
/-- The outcomes of a transfer: no descriptor, or the copies between a pin and its
unpin. -/
theorem transfer_cases {type : Nat} {p : PolicyCopy} {write dirty : Int} {pure : Hw → Nat × Hw} {env : DmaEnv} {fuel : Nat}
    {buf tmp_buf len : Nat} {hw : Hw} {mm : Mm} {r : Int × Hw × Session}
    (h : transfer type p write dirty pure env fuel buf tmp_buf len hw ⟨mm, []⟩ = some r)
    {q : PinResult × RequestCopy × Mm} (hq : dma_pin_user_pages env.pin mm (init_req_copy buf tmp_buf len) write 0 = q) :
    (¬ (type = DMA_MEASURE ∧ q.1 = .PIN_SUCCESSFUL) ∧ (∀ dir id live e, .submitted dir id live e ∉ r.2.2.log) ∧
      (∀ ret status, .returned ret status ∉ r.2.2.log) ∧ ∃ x, r.1 = s32 x) ∨
    (type = DMA_MEASURE ∧ q.1 = .PIN_SUCCESSFUL ∧
      ∃ r', p.run env fuel q.2.1 hw = some r' ∧ r.1 = r'.1 ∧ r.2.1 = r'.2.2 ∧
        r.2.2.log = pinEvents write .PIN_SUCCESSFUL q.2.1 ++ (copyEvents q.2.2 p env fuel q.2.1 hw ++
          [.returned r'.1 r'.2.1.status]) ++ unpinEvents r'.2.1 dirty) := by
  unfold transfer at h
  split at h
  next hcpu =>
    cases h
    refine .inl ⟨fun hd => ?_, by simp, by simp, _, rfl⟩
    rw [hcpu] at hd
    cases hd.1
  next hcpu =>
    split at h
    next hdma =>
      simp only [Session.pin, hq, List.nil_append] at h
      obtain ⟨res, req, mm'⟩ := q
      cases res with
      | PIN_FAILED | PIN_NO_USER =>
        cases h
        refine .inl ⟨by simp, fun _ _ _ _ => ?_, fun _ _ => ?_, -EACCES, (by decide : -EACCES = s32 (-EACCES))⟩
        · dsimp only
          exact submitted_not_mem_pinEvents
        · dsimp only
          exact returned_not_mem_pinEvents
      | PIN_SUCCESSFUL =>
        obtain ⟨_, hcopy, rfl⟩ := Option.map_eq_some_iff.1 h
        obtain ⟨r', hrun, rfl⟩ := Option.map_eq_some_iff.1 hcopy
        exact .inr ⟨hdma, rfl, r', hrun, rfl, rfl, rfl⟩
    next hdma =>
      cases h
      exact .inl ⟨fun hd => hdma hd.1, by simp, by simp, -EPERM, (by decide : -EPERM = s32 (-EPERM))⟩

/-- The outcomes of a call: refused, or a transfer from or to its slot. -/
theorem driverOp_cases {b_data : BenchmarkData} {counter buf len : Nat}
    {op : Nat → Hw → Session → Option (Int × Hw × Session)} {hw : Hw} {s : Session} {r : Int × Hw × Session}
    (h : driverOp b_data counter buf len op hw s = some r) :
    (¬ (buf ≠ 0 ∧ len ≤ b_data.kernel_size) ∧ r.1 < 0 ∧ r.2.2 = s) ∨
    (buf ≠ 0 ∧ 0 < len ∧ len ≤ b_data.kernel_size ∧ ∃ i, mem_index counter b_data.kernel_size len = some i ∧
      op (u64 (b_data.kernel_buf + i * len)) hw s = some r) := by
  unfold driverOp at h
  split at h
  next hbuf =>
    cases h
    exact .inl ⟨fun hargs => hargs.1 hbuf, (by decide : -EINVAL < 0), rfl⟩
  next hbuf =>
    split at h
    next hlen =>
      cases h
      exact .inl ⟨fun hargs => absurd hargs.2 (Nat.not_le.2 hlen), (by decide : -EFAULT < 0), rfl⟩
    next hlen =>
      obtain ⟨i, hi, h⟩ := Option.bind_eq_some_iff.1 h
      have hpos : 0 < len := by
        rcases Nat.eq_zero_or_pos len with rfl | hpos
        · simp [mem_index] at hi
        · exact hpos
      exact .inr ⟨hbuf, hpos, Nat.not_lt.1 hlen, i, hi, h⟩

end Dmacftu.Cache
