import Dmacftu.Session
import Dmacftu.Uaccess
/-!
# The Msg benchmark's driver

`benchmark_driver_write` of `micro-benchmark_Msg`: it fills the kernel buffer, pins
the caller's buffer if the copies are DMA copies, and makes one copy to warm up and
then `BUFF_MEASURE` of them, each of which records the CPU, the times and the size.
`type_measure` is the module's parameter, `type` is the device's.
-/
open Lib.CInt

namespace Dmacftu.Msg

def BUFF_MEASURE : Nat := 300

def ID_COPY_FROM : Nat := 1
def ID_COPY_TO : Nat := 2
def ID_COPY_FROM_NC : Nat := 3
def ID_COPY_TO_NC : Nat := 4

def CPU_MEASURE : Int := 0
def EXCLUSIVE_MEASURE : Int := 1
def SHARED_MEASURE : Int := 2

/-- `struct unit_buff_user`. -/
structure UnitBuffUser where
  index_cpu : Nat
  size : Nat
  clock_cpu_start : Nat
  clock_cpu_end : Nat
  deriving DecidableEq, Repr

/-- `struct benchmark_output`. -/
structure BenchmarkOutput where
  count : Nat
  buffer : Nat → UnitBuffUser

structure BenchmarkData where
  user_size : Nat
  user_buf : Nat
  kernel_size : Nat
  kernel_buf : Nat
  type : Nat
  results : BenchmarkOutput

/-- What one copy meets: the policies and the CPU, the channel as it finds it,
and the clock. -/
structure Measure where
  caller : Caller
  env : DmaEnv
  hw : Hw
  clock_start : Nat
  clock_end : Nat

/-- The operations of measure, up to the times. -/
abbrev MeasureFn := Measure → Nat → RequestCopy → Session → Option (Int × RequestCopy × Session)

def cpuMeasure (dir : Direction) (pure : RequestCopy → Hw → Nat × Hw) : MeasureFn := fun m _ req s =>
  some (s32 (pure req m.hw).1, req, { s with log := s.log ++ [.copied dir req.kernel_base req.len] })

def dmaMeasure (p : Caller → PolicyCopy) : MeasureFn := fun m fuel req s =>
  (s.copy (p m.caller) m.env fuel req m.hw).map fun (ret, req, _, s) => (ret, req, s)

def cpu_copy_from_measure (cpu : Cpu) : MeasureFn :=
  cpuMeasure .from_user fun req => cpu.copy_from_user_pure req.kernel_base req.user_base req.len

def cpu_copy_to_measure (cpu : Cpu) : MeasureFn :=
  cpuMeasure .to_user fun req => cpu.copy_to_user_pure req.user_base req.kernel_base req.len

def dma_copy_from_measure_ex : MeasureFn := dmaMeasure Caller.dma_copy_from_user_excl

def dma_copy_to_measure_ex : MeasureFn := dmaMeasure Caller.dma_copy_to_user_excl

def dma_copy_from_measure_sh : MeasureFn := dmaMeasure Caller.dma_copy_from_user_sh

def dma_copy_to_measure_sh : MeasureFn := dmaMeasure Caller.dma_copy_to_user_sh

/-- The loop's variables. -/
structure Loop where
  req_cpy_local : RequestCopy
  results : BenchmarkOutput
  s : Session

/-- The results with `f` applied to unit `i`. -/
def BenchmarkOutput.setUnit (results : BenchmarkOutput) (i : Nat) (f : UnitBuffUser → UnitBuffUser) : BenchmarkOutput :=
  { results with buffer := Function.update results.buffer i (f (results.buffer i)) }

/-- A copy with its CPU and its times in unit `i`. -/
def measureUnit (ptr_copy : MeasureFn) (m : Measure) (fuel i : Nat) (l : Loop) : Option (Int × Loop) :=
  (ptr_copy m fuel l.req_cpy_local l.s).map fun (ret, req_cpy_local, s) =>
    (ret, { req_cpy_local, s, results := l.results.setUnit i fun unit => { unit with
      index_cpu := u16 m.caller.cpu, clock_cpu_start := m.clock_start, clock_cpu_end := m.clock_end } })

/-- A pass through the loop: `size` is an `unsigned long`, `ret` an `int`. -/
def measureBody (ptr_copy : MeasureFn) (ms : Nat → Measure) (fuel : Nat) (l : Loop) (i : Nat) : Option Loop :=
  (measureUnit ptr_copy (ms (i + 1)) fuel i l).map fun (ret, l) =>
    let results := l.results.setUnit i fun unit => { unit with size := u64 (l.req_cpy_local.len - ret) }
    { l with results := { results with count := u32 (results.count + 1 : Nat) } }

/-- The copies of one `start_measure`: `ms 0` is the one that warms up. -/
def measureAll (ptr_copy : MeasureFn) (ms : Nat → Measure) (fuel : Nat) (l : Loop) : Option Loop :=
  (measureUnit ptr_copy (ms 0) fuel 0 l).bind fun (_, l) =>
    (List.range BUFF_MEASURE).foldlM (measureBody ptr_copy ms fuel) l

def isFrom (type : Nat) : Bool := type = ID_COPY_FROM || type = ID_COPY_FROM_NC

def start_measure (type_measure : Int) (ptr_copy : MeasureFn) (ms : Nat → Measure) (fuel : Nat) (b_data : BenchmarkData)
    (s : Session) : Option (Int × BenchmarkData × Session) :=
  let req_cpy_local := init_req_copy b_data.user_buf b_data.kernel_buf b_data.user_size
  let results := { b_data.results with count := 0 }
  if type_measure = EXCLUSIVE_MEASURE ∨ type_measure = SHARED_MEASURE then
    match s.pin (ms 0).env.pin req_cpy_local (if isFrom b_data.type then PIN_READ else PIN_WRITE) 0 with
    | (.PIN_SUCCESSFUL, req_cpy_local, s) =>
      (measureAll ptr_copy ms fuel ⟨req_cpy_local, results, s⟩).map fun l =>
        (0, { b_data with results := l.results },
          l.s.unpin l.req_cpy_local (if isFrom b_data.type then SET_DIRTY_OFF else SET_DIRTY_ON))
    | (_, _, s) => some (-EACCES, { b_data with results }, s)
  else
    (measureAll ptr_copy ms fuel ⟨req_cpy_local, results, s⟩).map fun l =>
      (0, { b_data with results := l.results }, l.s)

/-- `ptr_copy`, which `init_measure` leaves unset for other values of `type_measure`. -/
def ptr_copy (cpu : Cpu) (type_measure : Int) : Direction → Option MeasureFn
  | .from_user =>
    if type_measure = CPU_MEASURE then some (cpu_copy_from_measure cpu)
    else if type_measure = EXCLUSIVE_MEASURE then some dma_copy_from_measure_ex
    else if type_measure = SHARED_MEASURE then some dma_copy_from_measure_sh
    else none
  | .to_user =>
    if type_measure = CPU_MEASURE then some (cpu_copy_to_measure cpu)
    else if type_measure = EXCLUSIVE_MEASURE then some dma_copy_to_measure_ex
    else if type_measure = SHARED_MEASURE then some dma_copy_to_measure_sh
    else none

/-- The switch over the device's type; the two `_NC` types flush the cache and are
the same otherwise. -/
def direction (type : Nat) : Option Direction :=
  if type = ID_COPY_FROM ∨ type = ID_COPY_FROM_NC then some .from_user
  else if type = ID_COPY_TO ∨ type = ID_COPY_TO_NC then some .to_user
  else none

def init_measure (cpu : Cpu) (type_measure : Int) (ms : Nat → Measure) (fuel : Nat) (b_data : BenchmarkData)
    (s : Session) : Option (Int × BenchmarkData × Session) :=
  if b_data.kernel_buf = 0 then some (-ENOMEM, b_data, s)
  else match direction b_data.type with
    | none => some (-EINVAL, b_data, s)
    | some dir => (ptr_copy cpu type_measure dir).bind fun copy => start_measure type_measure copy ms fuel b_data s

def benchmark_driver_write (cpu : Cpu) (type_measure : Int) (ms : Nat → Measure) (fuel : Nat) (b_data : BenchmarkData)
    (buf len : Nat) (s : Session) : Option (Int × BenchmarkData × Session) :=
  if buf = 0 then some (-EINVAL, b_data, s)
  else if len > b_data.kernel_size then some (-EFAULT, b_data, s)
  else
    let b_data := { b_data with user_size := len, user_buf := buf }
    let s := { s with log := s.log ++ [.filled b_data.kernel_buf (s32 b_data.user_size)] }
    (init_measure cpu type_measure ms fuel b_data s).map fun (ret, b_data, s) =>
      (if ret < 0 then -EFAULT else s64 len, b_data, s)

def sampleMsg : BenchmarkData := ⟨0, 0, 33554432, sampleBuf, ID_COPY_TO, ⟨0, fun _ => ⟨0, 0, 0, 0⟩⟩⟩

end Dmacftu.Msg
