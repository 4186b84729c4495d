import Dmacftu.SparseSize
/-!
# The lines of the sparse file

`TraceDaemon` has the file as a list of lines, `SparseFile` as bytes. As long as a read of
all CPUs fits the estimate, the loop of `record_measures` on the bytes is the loop on the
lines: it returns the same, and leaves the text of the same lines
(`saveFile_refines`). So `recorded_file` says of the bytes what `TraceDaemon` shows of the
lines: after `clean_kernel_buffer` they are the header line, and lines of fresh records.
-/
open Lib.CInt Lib.CText

namespace Dmacftu.Trace

variable {α : Type}

/-! ## The loop, on the file -/

/-- A region as the daemon has it. -/
def RegionMem.toUser (f : α → UnitBuffUser) (reg_m : RegionMem α) : RegionMem UnitBuffUser :=
  ⟨reg_m.count, fun j => f (reg_m.buffer j)⟩

/-- What a call meets that reads this device. -/
def SaveEnv.saveCall (present : List Nat) (f : α → UnitBuffUser) (n_cpu region : Nat) (e : SaveEnv α)
    (dev : TraceData α) : SaveCall where
  read := match trace_driver_read present e.toReadEnv region N_UNIT dev with
    | (ret, some regions, _) => if ret ≠ REGION_SIZE * n_cpu then none else some fun i => (regions i).toUser f
    | (_, none, _) => none
  mmap := e.mmap
  munmap := e.munmap
  lseek := e.lseek

/-- The loop of `record_measures`. -/
def saveFile (present : List Nat) (f : α → UnitBuffUser) (page_size n_cpu region : Nat) : List (SaveEnv α) →
    TraceData α → DaemonTrace → Option (Int × TraceData α × DaemonTrace)
  | [], dev, d => some (0, dev, d)
  | e :: es, dev, d => do
    let (ret, d) ← (e.saveCall present f n_cpu region dev).save_measure page_size n_cpu d
    let dev := (trace_driver_read present e.toReadEnv region N_UNIT dev).2.2
    if ret < 0 then some (ret, dev, d) else saveFile present f page_size n_cpu region es dev d

/-! ## One call -/

section

variable {present : List Nat} {f : α → UnitBuffUser} {unit : α → UnitBuff} {page_size n_cpu region : Nat}
  {dev : TraceData α} {d : DaemonTrace} {units : List UnitBuffUser}

theorem allRecords_toUser (f : α → UnitBuffUser) (n_cpu : Nat) (regions : Nat → RegionMem α) :
    allRecords n_cpu (fun i => (regions i).toUser f) = (List.range n_cpu).flatMap fun i => (regions i).records.map f := by
  unfold allRecords
  refine congrArg (fun g => (List.range n_cpu).flatMap g) (funext fun i => ?_)
  rw [RegionMem.records, RegionMem.records, List.map_map]
  rfl

theorem records_map_line (hf : ∀ a, (f a).line = line (unit a)) (n_cpu : Nat) (regions : Nat → RegionMem α) :
    (allRecords n_cpu fun i => (regions i).toUser f).map UnitBuffUser.line =
      (List.range n_cpu).flatMap fun i => (regions i).records.map fun a => line (unit a) := by
  rw [allRecords_toUser, List.map_flatMap]
  refine congrArg (fun g => (List.range n_cpu).flatMap g) (funext fun i => ?_)
  rw [List.map_map]
  exact List.map_congr_left fun a _ => hf a

theorem sum_counts (f : α → UnitBuffUser) (n_cpu : Nat) (regions : Nat → RegionMem α) :
    ((List.range n_cpu).map fun i => (regions i).count).sum = (allRecords n_cpu fun i => (regions i).toUser f).length := by
  rw [allRecords, List.length_flatMap]
  refine congrArg List.sum (congrArg (fun g => (List.range n_cpu).map g) (funext fun i => ?_))
  rw [RegionMem.records, List.length_map, List.length_range]
  rfl

/-- A call on the file is the call on its lines. -/
theorem save_measure_refines (hf : ∀ a, (f a).line = line (unit a)) (h : d.Holds units) (hpage : 0 < page_size)
    (hpage' : page_size ≤ 2 ^ 62) {e : SaveEnv α} (hsmall : (e.saveCall present f n_cpu region dev).Small n_cpu) :
    ∃ ret d' units', (e.saveCall present f n_cpu region dev).save_measure page_size n_cpu d = some (ret, d') ∧
      d'.Holds units' ∧ save_measure present unit n_cpu region e (dev, units.map UnitBuffUser.line) =
        (ret, (trace_driver_read present e.toReadEnv region N_UNIT dev).2.2, units'.map UnitBuffUser.line) := by
  cases hr : trace_driver_read present e.toReadEnv region N_UNIT dev with
  | mk ret r =>
    obtain ⟨regions, dev'⟩ := r
    unfold save_measure
    simp only [hr]
    cases regions with
    | none =>
      dsimp only
      have hread : (e.saveCall present f n_cpu region dev).read = none := by rw [SaveEnv.saveCall, hr]
      exact ⟨-EFAULT, d, units, by rw [SaveCall.save_measure, hread], h, rfl⟩
    | some regions =>
      dsimp only
      by_cases hret : ret ≠ REGION_SIZE * n_cpu
      · have hread : (e.saveCall present f n_cpu region dev).read = none := by
          rw [SaveEnv.saveCall, hr]
          exact if_pos hret
        rw [if_pos hret]
        exact ⟨-EFAULT, d, units, by rw [SaveCall.save_measure, hread], h, rfl⟩
      · have hread : (e.saveCall present f n_cpu region dev).read = some fun i => (regions i).toUser f := by
          rw [SaveEnv.saveCall, hr]
          exact if_neg hret
        rw [SaveCall.Small, records_eq hread] at hsmall
        obtain ⟨d', hholds, hcall⟩ := save_measure_small h hpage hpage' hread hsmall
        -- the lines of the units are the lines of the records
        have hlines : units.map UnitBuffUser.line ++ ((List.range n_cpu).flatMap fun i => (regions i).records.map fun a =>
            line (unit a)) = (units ++ allRecords n_cpu fun i => (regions i).toUser f).map UnitBuffUser.line := by
          rw [List.map_append, records_map_line hf]
        change _ = some (if _ then if !e.mmap then _ else if !e.munmap then _ else if !e.lseek then _ else _ else
          if !e.lseek then _ else _) at hcall
        rw [if_neg hret, sum_counts f, hlines, hcall]
        by_cases hpos : (allRecords n_cpu fun i => (regions i).toUser f).length > 0
        · rw [if_pos hpos, if_pos hpos]
          cases e.mmap with
          | false => exact ⟨-1, d, units, rfl, h, rfl⟩
          | true =>
            cases e.munmap with
            | false => exact ⟨-EINVAL, d', _, rfl, hholds, rfl⟩
            | true =>
              cases e.lseek with
              | false => exact ⟨-EINVAL, d', _, rfl, hholds, rfl⟩
              | true => exact ⟨0, d', _, rfl, hholds, rfl⟩
        · have hnil : allRecords n_cpu (fun i => (regions i).toUser f) = [] := List.eq_nil_of_length_eq_zero (by omega)
          rw [hnil, List.append_nil] at hholds
          rw [if_neg hpos, if_neg hpos]
          cases e.lseek with
          | false => exact ⟨-EINVAL, d', units, rfl, hholds, rfl⟩
          | true => exact ⟨0, d', units, rfl, hholds, rfl⟩

end

/-! ## The loop -/

section

variable {f : α → UnitBuffUser} {unit : α → UnitBuff} {page_size n_cpu : Nat} {dev : TraceData α}

theorem sized_stores (h : ∀ j, Sized (dev.ptr_cb j)) (ws : List (Nat × α)) : ∀ j, Sized ((dev.stores ws).ptr_cb j) := by
  have hstale : Stale (fun _ : α => True) 0 [] dev := ⟨h, fun _ hj => absurd hj List.not_mem_nil⟩
  exact (hstale.stores fun _ _ => trivial).rings

/-- The rings of a device stay sound, and a CPU that was read has no more records in its
region than it was asked for. -/
theorem readCpus_bounded (e : ReadEnv α) {len : Nat} (hlen : len ≤ BUFF_READ) : ∀ (js : List Nat) {dev : TraceData α},
    (∀ j, Sized (dev.ptr_cb j)) → (∀ j, Sized ((readCpus e len js dev).ptr_cb j)) ∧
      ∀ k, k ∈ js ∨ (dev.ptr_region k).count ≤ len → ((readCpus e len js dev).ptr_region k).count ≤ len := by
  intro js
  induction js with
  | nil => exact fun h => ⟨h, fun k hk => hk.resolve_left List.not_mem_nil⟩
  | cons j js ih =>
    intro dev h
    have hstores := sized_stores h (e.stored j)
    obtain ⟨hsized, -, hrecords⟩ := region_read_cpu_spec (hstores j) hlen ((dev.stores (e.stored j)).ptr_region j)
    have hread : ∀ i, Sized (((dev.stores (e.stored j)).readCpu len j).ptr_cb i) := sized_update hstores hsized
    obtain ⟨hrings, hcounts⟩ := ih hread
    refine ⟨hrings, fun k hk => hcounts k ?_⟩
    by_cases hkj : k = j
    · right
      subst hkj
      have hlength := congrArg List.length hrecords
      rw [RegionMem.records, List.length_map, List.length_range, List.length_take] at hlength
      rw [TraceData.readCpu]
      simp only [Function.update_self]
      omega
    · rw [TraceData.readCpu]
      simp only [Function.update_of_ne hkj, stores_ptr_region]
      exact hk.imp_left fun hmem => (List.mem_cons.1 hmem).resolve_left hkj

theorem trace_driver_read_bounded (present : List Nat) (h : ∀ j, Sized (dev.ptr_cb j)) (e : ReadEnv α) (buf : Nat) :
    (∀ j, Sized ((trace_driver_read present e buf N_UNIT dev).2.2.ptr_cb j)) ∧
      ∀ regions ∈ (trace_driver_read present e buf N_UNIT dev).2.1, ∀ k ∈ present, (regions k).count ≤ N_UNIT := by
  unfold trace_driver_read
  split
  next => exact ⟨h, fun _ hr => by cases hr⟩
  next =>
    obtain ⟨hrings, hcounts⟩ := readCpus_bounded e (clampLen_le N_UNIT) present h
    dsimp only
    split
    next => exact ⟨hrings, fun _ hr => by cases hr⟩
    next =>
      refine ⟨hrings, fun regions hr k hk => ?_⟩
      obtain rfl := Option.some.inj hr
      exact hcounts k (.inl hk)

/-- The driver gives no more records for a CPU than `save_measure` asks for. -/
theorem saveCall_bounded (f : α → UnitBuffUser) (n_cpu n region : Nat) (h : ∀ j, Sized (dev.ptr_cb j)) (e : SaveEnv α) :
    (e.saveCall (List.range n) f n_cpu region dev).Bounded n_cpu := by
  intro regions hread i hi
  have hcounts := (trace_driver_read_bounded (List.range n) h e.toReadEnv region).2
  unfold SaveEnv.saveCall at hread
  dsimp only at hread
  split at hread
  next ret regions' dev' hr =>
    split at hread
    next => cases hread
    next hret =>
      have hsize := (not_not.1 hret).symm.trans (trace_driver_read_size hr)
      rw [count_region_eq, List.length_range] at hsize
      have hn : n_cpu = n := Nat.eq_of_mul_eq_mul_left (by decide : 0 < REGION_SIZE) (by exact_mod_cast hsize)
      obtain rfl := Option.some.inj hread
      rw [hr] at hcounts
      exact hcounts regions' rfl i (List.mem_range.2 (hn ▸ hi))
  next => cases hread

/-- The loop on the file is the loop on its lines. -/
theorem saveFile_refines (n region : Nat) (hf : ∀ a, (f a).line = line (unit a)) (hpage : 0 < page_size)
    (hpage' : page_size ≤ 2 ^ 62) (hcpu : N_CHAR_LINE * (n_cpu * N_UNIT) < 2 ^ 31) : ∀ (es : List (SaveEnv α))
    {dev : TraceData α} {d : DaemonTrace} {units : List UnitBuffUser}, (∀ j, Sized (dev.ptr_cb j)) → d.Holds units →
    ∃ ret dev' d' units', saveFile (List.range n) f page_size n_cpu region es dev d = some (ret, dev', d') ∧ d'.Holds units' ∧
      saveMeasures (List.range n) unit n_cpu region es (dev, units.map UnitBuffUser.line) =
        (ret, dev', units'.map UnitBuffUser.line) := by
  intro es
  induction es with
  | nil => exact fun _ h => ⟨0, _, _, _, rfl, h, rfl⟩
  | cons e es ih =>
    intro dev d units hrings h
    have hrings' := (trace_driver_read_bounded (List.range n) hrings e.toReadEnv region).1
    have hsmall : (e.saveCall (List.range n) f n_cpu region dev).Small n_cpu :=
      Nat.lt_of_le_of_lt (Nat.mul_le_mul_left _ (records_length_le (saveCall_bounded f n_cpu n region hrings e))) hcpu
    obtain ⟨ret, d', units', hcall, hholds, hline⟩ := save_measure_refines hf h hpage hpage' hsmall
    unfold saveFile saveMeasures
    rw [hcall, hline, Option.bind_eq_bind, Option.bind_some]
    dsimp only
    by_cases hret : ret < 0
    · rw [if_pos hret, if_pos hret]
      exact ⟨ret, _, d', units', rfl, hholds, rfl⟩
    · rw [if_neg hret, if_neg hret]
      exact ih hrings' hholds

end

/-- What the driver stored, if it is the daemon's record. -/
def UnitBuffUser.unit (u : UnitBuffUser) : UnitBuff where
  index_cpu_event := u.index_cpu_event.toNat
  count_event := u.count_event.toUInt64.toNat
  addr := u.addr.toNat
  size := u.size.toNat
  type_op := if u.type_op = OP_CPU then .OP_COPY_CPU else if u.type_op = OP_DMA then .OP_COPY_DMA else .OP_COPY_NO_DEF
  index_cpu := u.index_cpu.toNat
  clock_cpu_start := u.clock_cpu_start.toNat
  clock_cpu_end := u.clock_cpu_end.toNat

theorem line_unit (u : UnitBuffUser) : u.line = line u.unit := by
  unfold UnitBuffUser.line line UnitBuffUser.unit
  by_cases hcpu : u.type_op = OP_CPU
  · rw [if_pos hcpu, if_pos hcpu]
    rfl
  · rw [if_neg hcpu, if_neg hcpu]
    by_cases hdma : u.type_op = OP_DMA
    · rw [if_pos hdma, if_pos hdma]
      rfl
    · rw [if_neg hdma, if_neg hdma]
      rfl

/-- The file that is recorded after `clean_kernel_buffer` has the header line, and lines of
fresh records only. -/
theorem recorded_file {n n_cpu page_size : Nat} {fresh : UnitBuffUser → Prop} (hpage : 0 < page_size)
    (hpage' : page_size ≤ 2 ^ 62) (hcpu : N_CHAR_LINE * (n_cpu * N_UNIT) < 2 ^ 31) {dev dev₀ : TraceData UnitBuffUser}
    (hrings : ∀ j, Sized (dev.ptr_cb j)) {es : Nat → ReadEnv UnitBuffUser} (hes : ∀ i, (es i).Fresh fresh)
    {region size_r : Nat} (hclean : clean_kernel_buffer (List.range n) es region size_r dev = (0, dev₀)) {d : DaemonTrace}
    (h : d.Holds []) {saves : List (SaveEnv UnitBuffUser)} (hsaves : ∀ e ∈ saves, e.toReadEnv.Fresh fresh) :
    ∃ ret dev' d' units, saveFile (List.range n) id page_size n_cpu region saves dev₀ d = some (ret, dev', d') ∧
      d'.Holds units ∧ ∀ u ∈ units, ∃ a, fresh a ∧ u.line = a.line := by
  have hstale := clean_stale hrings hes hclean
  obtain ⟨ret, dev', d', units, hrun, hholds, hlines⟩ :=
    saveFile_refines n region line_unit hpage hpage' hcpu saves hstale.rings h
  refine ⟨ret, dev', d', units, hrun, hholds, fun u hu => ?_⟩
  obtain ⟨lines, hfile, hfresh⟩ := saveMeasures_fresh UnitBuffUser.unit n_cpu region hstale hsaves (s := (dev₀, []))
  rw [List.map_nil] at hlines
  rw [hlines, List.nil_append] at hfile
  obtain ⟨a, ha, hline⟩ := hfresh u.line (hfile ▸ List.mem_map_of_mem hu)
  exact ⟨a, ha, hline.trans (line_unit a).symm⟩

end Dmacftu.Trace
