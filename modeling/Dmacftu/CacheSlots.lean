import Dmacftu.Cache
import Dmacftu.Chunks
import Mathlib.Data.Fin.VecNotation
/-!
# The slots of the Cache driver

`init_all_micro_bench` gives each device a quarter of the boot memory, and a call of
length `len` uses one of its slots of `len` bytes, which a counter of the calls picks.
`slots_defined_iff` says which calls find a slot, inside the device's quarter, and
move its bytes and no others, after any calls and for any counters.
-/
open Lib.CInt Lib.Runs

namespace Dmacftu

/-- The bytes of kernel memory that an event is about. -/
def Event.Touches (a : Nat) : Event → Prop
  | .submitted _ _ _ sub => sub.kdata ≤ a ∧ a < sub.kdata + sub.len
  | .copied _ addr len => addr ≤ a ∧ a < addr + len
  | .filled addr nbytes => addr ≤ a ∧ (a : Int) < addr + nbytes
  | _ => False

def Touched (evs : List Event) (a : Nat) : Prop := ∃ ev ∈ evs, ev.Touches a

namespace Cache

abbrev MB_MINOR : Nat := 4

/-- What `init_micro_bench` fills in, if `kzalloc` succeeds. -/
def init_micro_bench (kzalloc : Bool) (k_addr k_size : Nat) (type_id : Int) : Option BenchmarkData :=
  if kzalloc then
    some { kernel_size := k_size, kernel_buf := k_addr, counter_op_read := 0, counter_op_write := 0, type := u16 type_id }
  else none

abbrev Devices := Fin MB_MINOR → BenchmarkData

/-- The data of the four devices, if none of them fails. -/
def init_all_micro_bench (kzalloc : Nat → Bool) (boot_mem_microBenchmark size_boot_mem_mb : Nat) (type_id : Int) :
    Option Devices := do
  let temp_size := size_boot_mem_mb / MB_MINOR
  let d0 ← init_micro_bench (kzalloc 0) boot_mem_microBenchmark temp_size type_id
  let d1 ← init_micro_bench (kzalloc 1) (u64 (boot_mem_microBenchmark + temp_size : Nat)) temp_size type_id
  let d2 ← init_micro_bench (kzalloc 2) (u64 (boot_mem_microBenchmark + temp_size * 2 : Nat)) temp_size type_id
  let d3 ← init_micro_bench (kzalloc 3) (u64 (boot_mem_microBenchmark + temp_size * 3 : Nat)) temp_size type_id
  return ![d0, d1, d2, d3]

/-- A call on one of the devices, and the circumstances it is made in. -/
structure Call where
  dev : Fin MB_MINOR
  write : Bool
  buf : Nat
  len : Nat
  c : Caller
  cpu : Cpu
  env : DmaEnv
  fuel : Nat
  hw : Hw
  mm : Mm

namespace Call

/-- The counter the call picks its slot with. -/
def counter (x : Call) (ds : Devices) : Nat :=
  if x.write then (ds x.dev).counter_op_write else (ds x.dev).counter_op_read

/-- The call of the driver, with an account of its own. -/
def run (x : Call) (ds : Devices) : Option (Int × BenchmarkData × Hw × Session) :=
  if x.write then benchmark_driver_write x.c x.cpu x.env x.fuel (ds x.dev) x.buf x.len x.hw ⟨x.mm, []⟩
  else benchmark_driver_read x.c x.cpu x.env x.fuel (ds x.dev) x.buf x.len x.hw ⟨x.mm, []⟩

/-- The DMA copy of the call. -/
def policy (x : Call) : PolicyCopy := if x.write then x.c.dma_copy_from_user_sh else x.c.dma_copy_to_user_sh

/-- The pin of the call, for the slot at `tmp_buf`. -/
def pinned (x : Call) (tmp_buf : Nat) : PinResult × RequestCopy × Mm :=
  dma_pin_user_pages x.env.pin x.mm (init_req_copy x.buf tmp_buf x.len) (if x.write then 1 else 0) 0

/-- Whether the call gets as far as a copy: the CPU's always does, the engine's if
the pages are pinned and there is a channel. -/
def Transfers (x : Call) (ds : Devices) (tmp_buf : Nat) : Prop :=
  (ds x.dev).type = CPU_MEASURE ∨
    (ds x.dev).type = DMA_MEASURE ∧ (x.pinned tmp_buf).1 = .PIN_SUCCESSFUL ∧ x.policy.chan ≠ none

/-- What the call has submitted when its fuel is spent; it need not come back. -/
def underway (x : Call) (ds : Devices) : List Event :=
  match mem_index (x.counter ds) (ds x.dev).kernel_size x.len with
  | none => []
  | some i =>
    let r := x.pinned (u64 ((ds x.dev).kernel_buf + i * x.len))
    if (ds x.dev).type = DMA_MEASURE ∧ r.1 = .PIN_SUCCESSFUL then
      Session.copyEvents r.2.2 x.policy x.env x.fuel r.2.1 x.hw
    else []

/-- If the arguments are accepted, the slot is defined and in the device's part of the
boot memory, a call that comes back has moved exactly the bytes of the slot, if it got
as far as a copy, and one that is under way has moved none but them. -/
def FindsSlot (x : Call) (boot_mem size_boot_mem : Nat) (ds : Devices) : Prop :=
  x.buf ≠ 0 → x.len ≤ (ds x.dev).kernel_size → ∃ i tmp_buf : Nat,
    mem_index (x.counter ds) (ds x.dev).kernel_size x.len = some (i : Int) ∧
    tmp_buf = (ds x.dev).kernel_buf + i * x.len ∧
    boot_mem + x.dev * (size_boot_mem / MB_MINOR) ≤ tmp_buf ∧
    tmp_buf + x.len ≤ boot_mem + (x.dev + 1) * (size_boot_mem / MB_MINOR) ∧
    (∀ r, x.run ds = some r → ∀ a, Touched r.2.2.2.log a ↔
      x.Transfers ds tmp_buf ∧ tmp_buf ≤ a ∧ a < tmp_buf + x.len) ∧
    ∀ a, Touched (x.underway ds) a → tmp_buf ≤ a ∧ a < tmp_buf + x.len

end Call

/-- The devices after a call that comes back. -/
def call (ds : Devices) (x : Call) : Option Devices := (x.run ds).map fun r => Function.update ds x.dev r.2.1

/-! ## One slot -/

section

variable {counter kernel_size len : Nat}

theorem mem_index_zero (counter kernel_size : Nat) : mem_index counter kernel_size 0 = none := if_pos rfl

/-- Below `2 ^ 31` slots, the conversions change nothing. -/
theorem mem_index_eq (hlen : 1 ≤ len) (hle : len ≤ kernel_size) (hk : kernel_size < 2 ^ 31) :
    mem_index counter kernel_size len = some ((counter % (kernel_size / len) : Nat) : Int) := by
  have hpos : 0 < kernel_size / len := Nat.div_pos hle hlen
  have hlt : kernel_size / len < 2 ^ 31 := Nat.lt_of_le_of_lt (Nat.div_le_self _ _) hk
  have hslots : u64 (s32 (kernel_size / len : Nat)) = kernel_size / len := by
    rw [s32_of_range (by omega) (by omega), u64_of_lt (by omega)]
  have hmod := Nat.mod_lt counter hpos
  unfold mem_index
  rw [if_neg (Nat.ne_of_gt hlen), hslots]
  dsimp only
  rw [if_neg (Nat.ne_of_gt hpos), s32_of_range (by omega) (by omega)]

/-- The slots end where the memory does, or before. -/
theorem slot_le (hlen : 1 ≤ len) (hle : len ≤ kernel_size) :
    counter % (kernel_size / len) * len + len ≤ kernel_size := by
  have hlt : counter % (kernel_size / len) < kernel_size / len := Nat.mod_lt _ (Nat.div_pos hle hlen)
  calc counter % (kernel_size / len) * len + len = (counter % (kernel_size / len) + 1) * len := (Nat.succ_mul _ _).symm
    _ ≤ kernel_size / len * len := Nat.mul_le_mul_right len hlt
    _ ≤ kernel_size := Nat.div_mul_le_self _ _

end

/-! ## What a call touches -/

section

open Session

variable {evs evs' : List Event} {a : Nat}

theorem touched_append : Touched (evs ++ evs') a ↔ Touched evs a ∨ Touched evs' a := by
  simp [Touched, or_and_right, exists_or]

theorem touched_copied {dir : Direction} {addr len : Nat} :
    Touched [.copied dir addr len] a ↔ addr ≤ a ∧ a < addr + len := by
  simp [Touched, Event.Touches]

theorem not_touched_returned {ret : Int} {status : DmaStatus} : ¬ Touched [.returned ret status] a := by
  simp [Touched, Event.Touches]

theorem not_touched_pinEvents {write : Int} {res : PinResult} {req : RequestCopy} :
    ¬ Touched (pinEvents write res req) a := by
  rintro ⟨ev, hev, ht⟩
  cases res with
  | PIN_NO_USER => cases hev
  | PIN_SUCCESSFUL =>
    obtain ⟨_, -, rfl⟩ := mem_pinEvents_successful.1 hev
    exact ht
  | PIN_FAILED =>
    rcases List.mem_append.1 hev with hev | hev
    · obtain ⟨_, -, rfl⟩ := mem_pinEvents_successful.1 hev
      exact ht
    · obtain ⟨_, -, rfl⟩ := mem_unpinEvents.1 hev
      exact ht

theorem not_touched_unpinEvents {req : RequestCopy} {dirty : Int} : ¬ Touched (unpinEvents req dirty) a := by
  rintro ⟨ev, hev, ht⟩
  obtain ⟨_, -, rfl⟩ := mem_unpinEvents.1 hev
  exact ht

variable {mm : Mm} {p : PolicyCopy} {env : DmaEnv} {fuel : Nat} {req : RequestCopy} {hw : Hw}

theorem touched_submitEvents {dir : Direction} : Touched (submitEvents mm dir env fuel req hw) a ↔
    req.pages ≠ none ∧ ∃ e ∈ dir.subs env fuel req hw, e.kdata ≤ a ∧ a < e.kdata + e.len := by
  constructor
  · rintro ⟨ev, hev, ht⟩
    obtain ⟨pages, hpages, e, he, rfl⟩ := mem_submitEvents.1 hev
    exact ⟨by simp [hpages], e, he, ht⟩
  · rintro ⟨hpages, e, he, ht⟩
    obtain ⟨pages, hpages⟩ := Option.ne_none_iff_exists'.1 hpages
    exact ⟨_, mem_submitEvents.2 ⟨pages, hpages, e, he, rfl⟩, ht⟩

/-- Whatever a copy has submitted is in the request's kernel memory. -/
theorem copyEvents_touched (hlen : req.len < 2 ^ 31) (hfits : req.kernel_base + req.len ≤ 2 ^ 64)
    (h : Touched (copyEvents mm p env fuel req hw) a) : req.kernel_base ≤ a ∧ a < req.kernel_base + req.len := by
  unfold copyEvents at h
  split at h
  next hcopy =>
    obtain ⟨-, he⟩ := touched_submitEvents.1 h
    obtain ⟨⟨m, htiles⟩, -⟩ := @subs_tile env p.dir fuel { req with chan := p.chan } hw hlen hcopy.1 (by dsimp only; omega)
    obtain ⟨hlo, hhi⟩ := (htiles.covers hfits a).1 he
    exact ⟨hlo, Nat.lt_of_lt_of_le hhi (Nat.add_le_add_left htiles.le _)⟩
  · obtain ⟨_, hev, -⟩ := h
    cases hev

/-- A copy that comes back has submitted all of it, if there is a channel. -/
theorem copyEvents_touched_iff (hlen : req.len < 2 ^ 31) (hpos : 0 < req.len)
    (hfits : req.kernel_base + req.len ≤ 2 ^ 64) {r : Int × RequestCopy × Hw} (h : p.run env fuel req hw = some r) :
    Touched (copyEvents mm p env fuel req hw) a ↔
      p.chan ≠ none ∧ req.kernel_base ≤ a ∧ a < req.kernel_base + req.len := by
  rcases PolicyCopy.run_cases h with ⟨h0, -⟩ | ⟨-, hnone, -⟩ | ⟨-, hchan, hpages, hpinned⟩
  · omega
  · simp [copyEvents, hnone, Touched]
  · obtain ⟨cookie, hw₁, -, -, hchunks, -, -⟩ := Direction.pinned_spec hpinned
    have htiles := (@subs_tile env p.dir fuel { req with chan := p.chan } hw hlen hpos (by dsimp only; omega)).2 _ hchunks
    rw [copyEvents, if_pos ⟨hpos, hchan⟩, touched_submitEvents, htiles.covers hfits]
    simp [hchan, hpages]

/-- A transfer that comes back has moved exactly the `len` bytes from `tmp_buf` on, if
it got as far as a copy. -/
theorem transfer_touched_iff {type : Nat} {write dirty : Int} {pure : Hw → Nat × Hw} {buf tmp_buf len : Nat}
    (hlen : len < 2 ^ 31) (hpos : 0 < len) (hfits : tmp_buf + len ≤ 2 ^ 64) {r : Int × Hw × Session}
    (h : transfer type p write dirty pure env fuel buf tmp_buf len hw ⟨mm, []⟩ = some r) :
    Touched r.2.2.log a ↔ (type = CPU_MEASURE ∨ type = DMA_MEASURE ∧
      (dma_pin_user_pages env.pin mm (init_req_copy buf tmp_buf len) write 0).1 = .PIN_SUCCESSFUL ∧ p.chan ≠ none) ∧
      tmp_buf ≤ a ∧ a < tmp_buf + len := by
  by_cases hcpu : type = CPU_MEASURE
  · rw [transfer, if_pos hcpu] at h
    cases h
    simpa [hcpu] using touched_copied
  rw [transfer, if_neg hcpu] at h
  split at h
  next hdma =>
    cases hres : (dma_pin_user_pages env.pin mm (init_req_copy buf tmp_buf len) write 0).1 with
    | PIN_FAILED | PIN_NO_USER =>
      simp only [Session.pin, hres] at h
      cases h
      simp [hdma, DMA_MEASURE, CPU_MEASURE, not_touched_pinEvents]
    | PIN_SUCCESSFUL =>
      simp only [Session.pin, hres] at h
      obtain ⟨_, hcopy, rfl⟩ := Option.map_eq_some_iff.1 h
      obtain ⟨r', hrun, rfl⟩ := Option.map_eq_some_iff.1 hcopy
      obtain ⟨entry, hpin, -⟩ := pin_taken hres
      simp only [hpin, List.nil_append, Session.unpin] at hrun ⊢
      rw [touched_append, touched_append, touched_append, copyEvents_touched_iff hlen hpos hfits hrun]
      simp [hdma, DMA_MEASURE, CPU_MEASURE, not_touched_pinEvents, not_touched_unpinEvents, not_touched_returned,
        allocated, init_req_copy]
  next hdma =>
    cases h
    simp [hcpu, hdma, Touched]

/-- A call with a slot at `tmp_buf`: what it has moved when it comes back, and while it
is under way. -/
theorem Call.touched {x : Call} {ds : Devices} {i : Int} {tmp_buf : Nat} (hbuf : x.buf ≠ 0)
    (hle : x.len ≤ (ds x.dev).kernel_size) (hpos : 0 < x.len) (hlen : x.len < 2 ^ 31)
    (hindex : mem_index (x.counter ds) (ds x.dev).kernel_size x.len = some i)
    (htmp : u64 ((ds x.dev).kernel_buf + i * x.len) = tmp_buf) (hfits : tmp_buf + x.len ≤ 2 ^ 64) :
    (∀ r, x.run ds = some r → ∀ a, Touched r.2.2.2.log a ↔
      x.Transfers ds tmp_buf ∧ tmp_buf ≤ a ∧ a < tmp_buf + x.len) ∧
    ∀ a, Touched (x.underway ds) a → tmp_buf ≤ a ∧ a < tmp_buf + x.len := by
  -- a call with a slot comes to its body, with the slot as buffer
  have hcopy : ∀ {op : Nat → Hw → Session → Option (Int × Hw × Session)} {s : Session} {r : Int × Hw × Session},
      driverOp (ds x.dev) (x.counter ds) x.buf x.len op x.hw s = some r → op tmp_buf x.hw s = some r := by
    intro op s r h
    rcases driverOp_cases h with ⟨hargs, -⟩ | ⟨-, -, -, i', hi', hop⟩
    · exact absurd ⟨hbuf, hle⟩ hargs
    · cases hindex.symm.trans hi'
      rwa [htmp] at hop
  constructor
  · intro r hr a
    unfold Call.run Call.counter at *
    unfold Call.Transfers Call.pinned Call.policy
    split at hr
    next hwrite =>
      obtain ⟨r', hr', rfl⟩ := Option.map_eq_some_iff.1 hr
      rw [if_pos hwrite] at hcopy
      simpa [hwrite] using transfer_touched_iff hlen hpos hfits (hcopy hr')
    next hread =>
      obtain ⟨r', hr', rfl⟩ := Option.map_eq_some_iff.1 hr
      rw [if_neg hread] at hcopy
      simpa [hread] using transfer_touched_iff hlen hpos hfits (hcopy hr')
  · intro a ha
    unfold Call.underway at ha
    rw [hindex] at ha
    dsimp only at ha
    rw [htmp] at ha
    split at ha
    next hpinned =>
      obtain ⟨entry, hpin, -⟩ := pin_taken hpinned.2
      unfold Call.pinned at ha
      rw [hpin] at ha
      exact copyEvents_touched hlen hfits ha
    · obtain ⟨_, hev, -⟩ := ha
      cases hev

end

/-! ## All runs -/

/-- Each device has its part of the boot memory, whatever its counters are. -/
structure Sliced (boot_mem size_boot_mem : Nat) (ds : Devices) : Prop where
  kernel_buf : ∀ k, (ds k).kernel_buf = boot_mem + k * (size_boot_mem / MB_MINOR)
  kernel_size : ∀ k, (ds k).kernel_size = size_boot_mem / MB_MINOR

section

variable {boot_mem size_boot_mem : Nat} {ds ds' : Devices}

theorem init_micro_bench_some {kzalloc : Bool} {k_addr k_size : Nat} {type_id : Int} {d : BenchmarkData}
    (h : init_micro_bench kzalloc k_addr k_size type_id = some d) : d.kernel_buf = k_addr ∧ d.kernel_size = k_size := by
  unfold init_micro_bench at h
  split at h
  · cases h
    exact ⟨rfl, rfl⟩
  · cases h

theorem init_sliced {kzalloc : Nat → Bool} {type_id : Int} (hboot : boot_mem + size_boot_mem < 2 ^ 64)
    (h : init_all_micro_bench kzalloc boot_mem size_boot_mem type_id = some ds) : Sliced boot_mem size_boot_mem ds := by
  have hu : ∀ j ≤ 3, u64 (boot_mem + size_boot_mem / MB_MINOR * j : Nat) = boot_mem + size_boot_mem / MB_MINOR * j := by
    intro j hj
    have : size_boot_mem / 4 * j ≤ size_boot_mem := Nat.le_trans (Nat.mul_le_mul_left _ (Nat.le_succ_of_le hj))
      (Nat.div_mul_le_self _ 4)
    exact u64_of_lt (by unfold MB_MINOR; omega)
  obtain ⟨d0, h0, h⟩ := Option.bind_eq_some_iff.1 h
  obtain ⟨d1, h1, h⟩ := Option.bind_eq_some_iff.1 h
  obtain ⟨d2, h2, h⟩ := Option.bind_eq_some_iff.1 h
  obtain ⟨d3, h3, h⟩ := Option.bind_eq_some_iff.1 h
  cases h
  obtain ⟨hb0, hs0⟩ := init_micro_bench_some h0
  obtain ⟨hb1, hs1⟩ := init_micro_bench_some h1
  obtain ⟨hb2, hs2⟩ := init_micro_bench_some h2
  obtain ⟨hb3, hs3⟩ := init_micro_bench_some h3
  have hu1 := hu 1 (by decide)
  rw [Nat.mul_one] at hu1
  constructor
  · intro k
    match k with
    | 0 => exact hb0.trans (by simp)
    | 1 => exact hb1.trans (hu1.trans (by simp))
    | 2 => exact hb2.trans ((hu 2 (by decide)).trans (by rw [Nat.mul_comm]; rfl))
    | 3 => exact hb3.trans ((hu 3 (by decide)).trans (by rw [Nat.mul_comm]; rfl))
  · intro k
    match k with
    | 0 => exact hs0
    | 1 => exact hs1
    | 2 => exact hs2
    | 3 => exact hs3

/-- A call leaves the device's memory where it is. -/
theorem call_slice {x : Call} (h : call ds x = some ds') (k : Fin MB_MINOR) :
    (ds' k).kernel_buf = (ds k).kernel_buf ∧ (ds' k).kernel_size = (ds k).kernel_size := by
  obtain ⟨r, hr, rfl⟩ := Option.map_eq_some_iff.1 h
  have hsame : r.2.1.kernel_buf = (ds x.dev).kernel_buf ∧ r.2.1.kernel_size = (ds x.dev).kernel_size := by
    unfold Call.run at hr
    split at hr
    · obtain ⟨_, -, rfl⟩ := Option.map_eq_some_iff.1 hr
      dsimp only
      split <;> exact ⟨rfl, rfl⟩
    · obtain ⟨_, -, rfl⟩ := Option.map_eq_some_iff.1 hr
      dsimp only
      split <;> exact ⟨rfl, rfl⟩
  by_cases hk : k = x.dev
  · subst hk
    rw [Function.update_self]
    exact hsame
  · rw [Function.update_of_ne hk]
    exact ⟨rfl, rfl⟩

theorem Sliced.call {x : Call} (hs : Sliced boot_mem size_boot_mem ds) (h : call ds x = some ds') :
    Sliced boot_mem size_boot_mem ds' where
  kernel_buf k := (call_slice h k).1.trans (hs.kernel_buf k)
  kernel_size k := (call_slice h k).2.trans (hs.kernel_size k)

theorem Sliced.findsSlot_iff (hs : Sliced boot_mem size_boot_mem ds) (hsize : size_boot_mem ≤ 2 ^ 30)
    (hboot : boot_mem + size_boot_mem < 2 ^ 64) (x : Call) :
    x.FindsSlot boot_mem size_boot_mem ds ↔ x.buf = 0 ∨ 1 ≤ x.len := by
  constructor
  · intro h
    by_contra hbad
    rw [not_or, Nat.not_le, Nat.lt_one_iff] at hbad
    obtain ⟨hbuf, hlen⟩ := hbad
    obtain ⟨i, tmp_buf, hi, -⟩ := h hbuf (hlen ▸ Nat.zero_le _)
    -- the code would divide by 0
    rw [hlen, mem_index_zero] at hi
    cases hi
  · intro h hbuf hle
    have hlen : 1 ≤ x.len := h.resolve_left hbuf
    have hk : (ds x.dev).kernel_size < 2 ^ 31 := by
      rw [hs.kernel_size]
      exact Nat.lt_of_le_of_lt (Nat.div_le_self _ _) (by omega)
    have hend := @slot_le (x.counter ds) _ _ hlen hle
    have hindex := @mem_index_eq (x.counter ds) _ _ hlen hle hk
    have hslices : x.dev * (size_boot_mem / MB_MINOR) + size_boot_mem / MB_MINOR ≤ size_boot_mem := by
      have := x.dev.isLt
      calc x.dev * (size_boot_mem / MB_MINOR) + size_boot_mem / MB_MINOR
          = (x.dev + 1) * (size_boot_mem / MB_MINOR) := (Nat.succ_mul _ _).symm
        _ ≤ MB_MINOR * (size_boot_mem / MB_MINOR) := Nat.mul_le_mul_right _ this
        _ ≤ size_boot_mem := Nat.mul_div_le _ _
    have hbuf' := hs.kernel_buf x.dev
    have hsize' := hs.kernel_size x.dev
    have htmp : u64 ((ds x.dev).kernel_buf + (x.counter ds % ((ds x.dev).kernel_size / x.len) : Nat) * x.len) =
        (ds x.dev).kernel_buf + x.counter ds % ((ds x.dev).kernel_size / x.len) * x.len := by
      rw [← Int.natCast_mul, ← Int.natCast_add, u64_of_lt]
      omega
    have hend' : x.dev * (size_boot_mem / MB_MINOR) + size_boot_mem / MB_MINOR =
        (x.dev + 1) * (size_boot_mem / MB_MINOR) := (Nat.succ_mul _ _).symm
    refine ⟨_, _, hindex, rfl, by omega, by omega, ?_⟩
    exact Call.touched hbuf hle hlen (by omega) hindex htmp (by omega)

/-- The devices with these values in their counters. -/
def Devices.count (ds : Devices) (reads writes : Fin MB_MINOR → Nat) : Devices :=
  fun k => { ds k with counter_op_read := reads k, counter_op_write := writes k }

theorem Sliced.count (hs : Sliced boot_mem size_boot_mem ds) (reads writes : Fin MB_MINOR → Nat) :
    Sliced boot_mem size_boot_mem (ds.count reads writes) := ⟨hs.kernel_buf, hs.kernel_size⟩

end

/-- From the devices' initial state, and with the counters anywhere, after any calls:
a call that is accepted finds a slot in its device's memory exactly if it is for at
least a byte. -/
theorem slots_defined_iff {kzalloc : Nat → Bool} {boot_mem size_boot_mem : Nat} {type_id : Int} {ds₀ ds : Devices}
    (hsize : size_boot_mem ≤ 2 ^ 30) (hboot : boot_mem + size_boot_mem < 2 ^ 64)
    (hinit : init_all_micro_bench kzalloc boot_mem size_boot_mem type_id = some ds₀)
    (reads writes : Fin MB_MINOR → Nat) {calls : List Call} (h : exec call (ds₀.count reads writes) calls = some ds)
    (x : Call) : x.FindsSlot boot_mem size_boot_mem ds ↔ x.buf = 0 ∨ 1 ≤ x.len := by
  have hs : Sliced boot_mem size_boot_mem ds :=
    exec_inv (Sliced boot_mem size_boot_mem) (fun _ _ _ hs hcall => hs.call hcall) ((init_sliced hboot hinit).count _ _) h
  exact hs.findsSlot_iff hsize hboot x

def sampleCall (write : Bool) (dev : Fin MB_MINOR) (len : Nat) : Call :=
  ⟨dev, write, 4096, len, sampleCaller, idleCpu, shortEnv, 0, bootSt.hw, bootMm⟩

theorem slots_defined_iff_sample : ∃ ds, init_all_micro_bench (fun _ => true) sampleBuf (2 ^ 30) 1 = some ds ∧
    (sampleCall true 3 4096).FindsSlot sampleBuf (2 ^ 30) (ds.count (fun _ => 0) fun _ => 2 ^ 64 - 1) := by
  obtain ⟨ds, hds⟩ : ∃ ds, init_all_micro_bench (fun _ => true) sampleBuf (2 ^ 30) 1 = some ds := ⟨_, rfl⟩
  exact ⟨ds, hds, (@slots_defined_iff _ _ _ _ ds _ (Nat.le_refl _) (by decide) hds _ _ [] rfl _).2 (.inr (by decide))⟩

/-- A call of no bytes divides by zero, and does not come back. -/
theorem zero_length_divides : ∃ ds, init_all_micro_bench (fun _ => true) sampleBuf (2 ^ 30) 1 = some ds ∧
    (∀ write, call ds (sampleCall write 0 0) = none) ∧
    ∀ write, ¬ (sampleCall write 0 0).FindsSlot sampleBuf (2 ^ 30) ds := by
  refine ⟨_, rfl, ?_, ?_⟩
  · intro write
    cases write <;> rfl
  · intro write h
    obtain ⟨i, tmp_buf, hi, -⟩ := h (show 4096 ≠ 0 by decide) (Nat.zero_le _)
    rw [show (sampleCall write 0 0).len = 0 from rfl, mem_index_zero] at hi
    cases hi

end Cache

end Dmacftu
