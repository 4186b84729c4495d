import Dmacftu.Lib.Runs
import Dmacftu.Session
import Dmacftu.Uaccess
/-!
# The Band benchmark's driver

`micro-benchmark_Band`: four devices, each with a slice of the boot memory and a
request that lives in the device. `MB_LOAD` fills the slice and pins the request's
pages, `read` and `write` copy what was loaded, `MB_UNLOAD` unpins. Nothing orders
these calls, so a request may be copied or unpinned when its page array is long
freed. What such an array then holds is whatever `stale` says.
-/
open Lib.CInt

namespace Dmacftu.Band

def MB_MINOR : Nat := 4

def CPU_MEASURE : Nat := 1
def EXCLUSIVE_MEASURE : Nat := 2
def SHARED_MEASURE : Nat := 3
def PRIORITY_MEASURE : Nat := 4

structure BenchmarkData where
  user_size : Nat
  user_buf : Nat
  kernel_size : Nat
  kernel_buf : Nat
  id_chan : Int
  req_cpy_local : RequestCopy
  req_cpy_local_prio : RequestCopyPrio
  type : Nat

/-- `query_arg_t`. -/
structure QueryArg where
  write : Nat
  buf_user : Nat
  len : Nat
  buf_user_lt : buf_user < 2 ^ 64
  len_lt : len < 2 ^ 64
  deriving DecidableEq, Repr

/-- What a call meets. -/
structure Env where
  caller : Caller
  env : DmaEnv
  hw : Hw
  cpu : Cpu
  fuel : Nat
  /-- What the memory of a freed page array holds. -/
  stale : Nat → Page

/-! ## Read and write -/

/-- The request as the memory has it: a freed array's entries are not its own any more. -/
def refresh (mm : Mm) (stale : Nat → Page) (req : RequestCopy) : RequestCopy :=
  { req with pages := req.pages.map fun a => if a.id ∈ mm.freed then { a with entry := stale } else a }

def refreshPrio (mm : Mm) (stale : Nat → Page) (req : RequestCopyPrio) : RequestCopyPrio :=
  { req with toRequestCopy := refresh mm stale req.toRequestCopy }

/-- The switch over the measure: the CPU's copy, and the three policies'. -/
def transfer (e : Env) (dir : Direction) (pure : Hw → Nat × Hw) (excl sh : PolicyCopy) (prio : Nat → PolicyCopy)
    (b_data : BenchmarkData) (s : Session) : Option (Int × BenchmarkData × Session) :=
  if b_data.type = CPU_MEASURE then
    some (s32 (pure e.hw).1, b_data, { s with log := s.log ++ [.copied dir b_data.kernel_buf b_data.user_size] })
  else if b_data.type = EXCLUSIVE_MEASURE then
    (s.copy excl e.env e.fuel (refresh s.mm e.stale b_data.req_cpy_local) e.hw).map fun (ret, req, _, s) =>
      (ret, { b_data with req_cpy_local := req }, s)
  else if b_data.type = SHARED_MEASURE then
    (s.copy sh e.env e.fuel (refresh s.mm e.stale b_data.req_cpy_local) e.hw).map fun (ret, req, _, s) =>
      (ret, { b_data with req_cpy_local := req }, s)
  else if b_data.type = PRIORITY_MEASURE then
    let req_prio := refreshPrio s.mm e.stale b_data.req_cpy_local_prio
    (s.copy (prio req_prio.priority) e.env e.fuel req_prio.toRequestCopy e.hw).map fun (ret, req, _, s) =>
      (ret, { b_data with req_cpy_local_prio := { req_prio with toRequestCopy := req } }, s)
  else some (-EPERM, b_data, s)

def report (len : Nat) (ret : Int) : Int := if ret < 0 then ret else s64 (len - ret)

/-- The checks of the arguments, and what is reported. -/
def driverOp (b_data : BenchmarkData) (buf len : Nat)
    (op : BenchmarkData → Session → Option (Int × BenchmarkData × Session)) (s : Session) :
    Option (Int × BenchmarkData × Session) :=
  if buf = 0 then some (-EINVAL, b_data, s)
  else if len > b_data.kernel_size then some (-EFAULT, b_data, s)
  else (op b_data s).map fun (ret, b_data, s) => (report len ret, b_data, s)

def benchmark_driver_write (e : Env) (b_data : BenchmarkData) (buf len : Nat) (s : Session) :
    Option (Int × BenchmarkData × Session) :=
  driverOp b_data buf len
    (transfer e .from_user (e.cpu.copy_from_user_pure b_data.kernel_buf b_data.user_buf b_data.user_size)
      e.caller.dma_copy_from_user_excl e.caller.dma_copy_from_user_sh e.caller.dma_copy_from_user_prio) s

def benchmark_driver_read (e : Env) (b_data : BenchmarkData) (buf len : Nat) (s : Session) :
    Option (Int × BenchmarkData × Session) :=
  driverOp b_data buf len
    (transfer e .to_user (e.cpu.copy_to_user_pure b_data.user_buf b_data.kernel_buf b_data.user_size)
      e.caller.dma_copy_to_user_excl e.caller.dma_copy_to_user_sh e.caller.dma_copy_to_user_prio) s

/-! ## The ioctls -/

/-- The commands; the argument is missing if it cannot be read. -/
inductive Ioctl where
  | MB_LOAD (q : Option QueryArg)
  | MB_UNLOAD (q : Option QueryArg)
  | other
  deriving DecidableEq, Repr

def load (type_measure : Nat) (e : Env) (q : QueryArg) (b_data : BenchmarkData) (s : Session) :
    Int × BenchmarkData × Session :=
  let b_data := { b_data with user_size := q.len, user_buf := q.buf_user }
  let s := { s with log := s.log ++ [.filled b_data.kernel_buf (s32 b_data.user_size)] }
  if type_measure = EXCLUSIVE_MEASURE ∨ type_measure = SHARED_MEASURE then
    let (ret, req, s) := s.pin e.env.pin (init_req_copy b_data.user_buf b_data.kernel_buf b_data.user_size) q.write 0
    (if ret = .PIN_SUCCESSFUL then 0 else -EACCES, { b_data with req_cpy_local := req }, s)
  else if type_measure = PRIORITY_MEASURE then
    let (ret, req, s) := s.pin_prio e.env.pin
      (init_req_copy_prio b_data.user_buf b_data.kernel_buf b_data.user_size (u16 b_data.id_chan)) q.write 0
    (if ret = .PIN_SUCCESSFUL then 0 else -EACCES, { b_data with req_cpy_local_prio := req }, s)
  else (0, b_data, s)

def unload (type_measure : Nat) (e : Env) (q : QueryArg) (b_data : BenchmarkData) (s : Session) :
    Int × BenchmarkData × Session :=
  let dirty := if q.write = 0 then SET_DIRTY_OFF else SET_DIRTY_ON
  if type_measure = EXCLUSIVE_MEASURE ∨ type_measure = SHARED_MEASURE then
    (0, b_data, s.unpin (refresh s.mm e.stale b_data.req_cpy_local) dirty)
  else if type_measure = PRIORITY_MEASURE then
    (0, b_data, s.unpin (refreshPrio s.mm e.stale b_data.req_cpy_local_prio).toRequestCopy dirty)
  else (0, b_data, s)

def benchmark_driver_ioctl (type_measure : Nat) (e : Env) (b_data : BenchmarkData) (s : Session) :
    Ioctl → Int × BenchmarkData × Session
  | .MB_LOAD (some q) => load type_measure e q b_data s
  | .MB_UNLOAD (some q) => unload type_measure e q b_data s
  | .MB_LOAD none => (-EACCES, b_data, s)
  | .MB_UNLOAD none => (-EACCES, b_data, s)
  | .other => (-EINVAL, b_data, s)

/-! ## Runs -/

inductive Op where
  | ioctl (cmd : Ioctl)
  | read (buf len : Nat)
  | write (buf len : Nat)
  deriving DecidableEq, Repr

/-- A call on a device. -/
structure Call where
  dev : Fin MB_MINOR
  env : Env
  op : Op

/-- The devices, and the account of what was done on each. -/
structure State where
  mm : Mm
  vector_mb : Fin MB_MINOR → BenchmarkData
  log : List (Fin MB_MINOR × Event)

def Op.run (type_measure : Nat) (e : Env) (b_data : BenchmarkData) (s : Session) :
    Op → Option (Int × BenchmarkData × Session)
  | .ioctl cmd => some (benchmark_driver_ioctl type_measure e b_data s cmd)
  | .read buf len => benchmark_driver_read e b_data buf len s
  | .write buf len => benchmark_driver_write e b_data buf len s

def call (type_measure : Nat) (st : State) (c : Call) : Option State :=
  (c.op.run type_measure c.env (st.vector_mb c.dev) ⟨st.mm, []⟩).map fun (_, b_data, s) =>
    { mm := s.mm
      vector_mb := Function.update st.vector_mb c.dev b_data
      log := st.log ++ s.log.map (c.dev, ·) }

/-- A zeroed request; `DMA_SUCCESS` is 0. -/
def zeroReq : RequestCopy where
  chan := none
  user_base := 0
  kernel_base := 0
  len := 0
  pages := none
  nr_pages := 0
  dma_cookie := 0
  status := .DMA_SUCCESS

def init_micro_bench (k_addr k_size type_id : Nat) (id_chan : Int) : BenchmarkData where
  user_size := 0
  user_buf := 0
  kernel_size := k_size
  kernel_buf := k_addr
  id_chan := id_chan
  req_cpy_local := zeroReq
  req_cpy_local_prio := { toRequestCopy := zeroReq, priority := 0 }
  type := type_id

/-- The boot memory: where it is, and how long. -/
structure BootMem where
  boot_mem_microBenchmark : Nat
  size_boot_mem_mb : Nat
  size_mem : size_boot_mem_mb ∈ bootSizes
  fits : boot_mem_microBenchmark + size_boot_mem_mb ≤ 2 ^ 64

def BootMem.temp_size (m : BootMem) : Nat := m.size_boot_mem_mb / MB_MINOR

/-- The devices as `init_all_micro_bench` leaves them, over any state of the pages. -/
def init_all_micro_bench (m : BootMem) (type_id : Nat) (mm : Mm) : State where
  mm := mm
  vector_mb k := init_micro_bench (m.boot_mem_microBenchmark + m.temp_size * k) m.temp_size type_id k
  log := []

end Dmacftu.Band
