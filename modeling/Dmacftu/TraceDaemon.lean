import Dmacftu.TraceDriver
/-!
# The trace daemon

`trace/daemon`: `clean_kernel_buffer` reads the device until the records of
earlier runs must be gone, `save_measure` writes a line for each record it reads.
Records go on being stored all the while. `clean_slate` says that none of the
records that were in a ring before is read after `clean_kernel_buffer`: its rounds
take as many records of each ring as the ring can hold, and the ring hands out the
oldest ones first.
-/
open Lib.CInt Lib.Fifo

namespace Dmacftu.Trace

open CircularBuffer

def KERNEL_UNIT_BUFFER : Nat := 1024
def N_UNIT : Nat := 500

variable {α : Type}

/-! ## The code -/

/-- The rounds of `clean_kernel_buffer` from `i` on. -/
def cleanRounds (present : List Nat) (es : Nat → ReadEnv α) (region size_r : Nat) :
    (i n : Nat) → TraceData α → Int × TraceData α
  | _, 0, d => (0, d)
  | i, n + 1, d =>
    let (ret, _, d) := trace_driver_read present (es i) region N_UNIT d
    if ret ≠ size_r then (-EFAULT, d) else cleanRounds present es region size_r (i + 1) n d

def n_read_clean : Nat := KERNEL_UNIT_BUFFER / N_UNIT + 1

def clean_kernel_buffer (present : List Nat) (es : Nat → ReadEnv α) (region size_r : Nat) (d : TraceData α) :
    Int × TraceData α :=
  cleanRounds present es region size_r 0 n_read_clean d

def diff_time (start end_ : Nat) : Nat := if start > end_ then 0 else end_ - start

/-- A line of the file. -/
structure Line where
  index_cpu_event : Nat
  count_event : Nat
  size : Nat
  index_cpu : Nat
  clock_cpu_start : Nat
  clock_cpu_end : Nat
  time_op : Nat
  addr : Nat
  type_op : String
  deriving DecidableEq, Repr

def typeOp : TypeOp → String
  | .OP_COPY_CPU => "CPU"
  | .OP_COPY_DMA => "DMA"
  | .OP_COPY_NO_DEF => "NO DEF"

def line (unit : UnitBuff) : Line where
  index_cpu_event := unit.index_cpu_event
  count_event := unit.count_event
  size := unit.size
  index_cpu := unit.index_cpu
  clock_cpu_start := unit.clock_cpu_start
  clock_cpu_end := unit.clock_cpu_end
  time_op := diff_time unit.clock_cpu_start unit.clock_cpu_end
  addr := unit.addr
  type_op := typeOp unit.type_op

/-- What `save_measure` meets: a read, and the outcomes of its system calls. -/
structure SaveEnv (α : Type) extends ReadEnv α where
  mmap : Bool
  munmap : Bool
  lseek : Bool

/-- `unit` is the record itself, without what tells it from an equal one. -/
def save_measure (present : List Nat) (unit : α → UnitBuff) (n_cpu region : Nat) (e : SaveEnv α)
    (s : TraceData α × List Line) : Int × TraceData α × List Line :=
  match trace_driver_read present e.toReadEnv region N_UNIT s.1 with
  | (ret, some regions, d) =>
    if ret ≠ REGION_SIZE * n_cpu then (-EFAULT, d, s.2)
    else if ((List.range n_cpu).map fun i => (regions i).count).sum > 0 then
      if !e.mmap then (-1, d, s.2)
      else
        let file := s.2 ++ (List.range n_cpu).flatMap fun i => (regions i).records.map fun a => line (unit a)
        if !e.munmap then (-EINVAL, d, file) else if !e.lseek then (-EINVAL, d, file) else (0, d, file)
    else if !e.lseek then (-EINVAL, d, s.2) else (0, d, s.2)
  | (_, none, d) => (-EFAULT, d, s.2)

/-- The loop of `record_measures`: it ends at the first error. -/
def saveMeasures (present : List Nat) (unit : α → UnitBuff) (n_cpu region : Nat) : List (SaveEnv α) →
    TraceData α × List Line → Int × TraceData α × List Line
  | [], s => (0, s)
  | e :: es, s =>
    let r := save_measure present unit n_cpu region e s
    if r.1 < 0 then r else saveMeasures present unit n_cpu region es r.2

/-- What later reads deliver. -/
def laterReads (present : List Nat) (buf : Nat) : List (ReadEnv α × Nat) → TraceData α → List (Nat → RegionMem α)
  | [], _ => []
  | (e, len) :: rs, d =>
    let (_, regions, d) := trace_driver_read present e buf len d
    regions.toList ++ laterReads present buf rs d

/-! ## Stale records -/

variable {fresh : α → Prop} {present : List Nat} {d : TraceData α}

/-- All that is stored during a read is `fresh`. -/
def ReadEnv.Fresh (fresh : α → Prop) (e : ReadEnv α) : Prop := ∀ j, ∀ w ∈ e.stored j, fresh w.2

/-- The rings of `cpus` have at most `b` records each that are not `fresh`, the oldest ones. -/
structure Stale (fresh : α → Prop) (b : Nat) (cpus : List Nat) (d : TraceData α) : Prop where
  rings : ∀ j, Sized (d.ptr_cb j)
  stale : ∀ j ∈ cpus, StaleAtMost fresh b (d.ptr_cb j).contents

theorem Stale.store {b : Nat} (h : Stale fresh b present d) (i : Nat) {elem : α} (he : fresh elem) :
    Stale fresh b present (d.store i elem) := by
  refine ⟨sized_update h.rings (sized_cbWrite (h.rings i) elem), ?_⟩
  intro j hj
  by_cases hji : j = i
  · subst hji
    have hlt := stored_lt (h.rings j).1
    simp only [TraceData.store, Function.update_self]
    rcases Nat.lt_or_ge (d.ptr_cb j).stored ((d.ptr_cb j).size - 1) with hr | hr
    · rw [(cbWrite_room (h.rings j).1 hr elem).2]
      exact (h.stale j hj).push he
    · rw [cbWrite_full (h.rings j).1 (by omega)]
      exact h.stale j hj
  · simpa [TraceData.store, hji] using h.stale j hj

theorem Stale.stores {b : Nat} : ∀ {ws : List (Nat × α)} {d : TraceData α}, Stale fresh b present d →
    (∀ w ∈ ws, fresh w.2) → Stale fresh b present (d.stores ws) := by
  intro ws
  induction ws with
  | nil => intro d h _; exact h
  | cons w ws ih =>
    intro d h hws
    exact ih (h.store w.1 (hws w (by simp))) fun v hv => hws v (by simp [hv])

theorem readCpu_contents (hrings : ∀ j, Sized (d.ptr_cb j)) {len : Nat} (hlen : len ≤ BUFF_READ) (j i : Nat) :
    Sized ((d.readCpu len j).ptr_cb i) ∧ ((d.readCpu len j).ptr_cb i).contents =
      if i = j then (d.ptr_cb i).contents.drop len else (d.ptr_cb i).contents := by
  obtain ⟨hsized, hcontents, -⟩ := region_read_cpu_spec (hrings j) hlen (d.ptr_region j)
  refine ⟨sized_update hrings hsized i, ?_⟩
  by_cases hij : i = j
  · subst hij
    simpa [TraceData.readCpu] using hcontents
  · simp [TraceData.readCpu, hij]

/-- Reading a ring takes stale records first, and adds none to another. -/
theorem Stale.readCpu {b : Nat} {js : List Nat} (h : Stale fresh b js d) {len : Nat} (hlen : len ≤ BUFF_READ) (j : Nat) :
    Stale fresh b js (d.readCpu len j) ∧
      ∀ {c : Nat}, StaleAtMost fresh c (d.ptr_cb j).contents →
        StaleAtMost fresh (c - len) ((d.readCpu len j).ptr_cb j).contents := by
  have hread := readCpu_contents h.rings hlen j
  refine ⟨⟨fun i => (hread i).1, ?_⟩, ?_⟩
  · intro i hi
    rw [(hread i).2]
    split
    · exact ((h.stale i hi).drop len).mono (Nat.sub_le b len)
    · exact h.stale i hi
  · intro c hc
    rw [(hread j).2, if_pos rfl]
    exact hc.drop len

/-- A read lowers the bound of each ring by the records it asks for. -/
theorem readCpus_stale {e : ReadEnv α} (he : e.Fresh fresh) {b len : Nat} (hlen : len ≤ BUFF_READ) : ∀ {js done : List Nat}
    {d : TraceData α}, Stale fresh b js d → Stale fresh (b - len) done d →
    Stale fresh (b - len) (done ++ js) (readCpus e len js d) := by
  intro js
  induction js with
  | nil => intro done d _ hd; rwa [List.append_nil]
  | cons j js ih =>
    intro done d h hd
    have h₁ := h.stores (he j)
    obtain ⟨hkeep, hj⟩ := h₁.readCpu hlen j
    have hdone := ((hd.stores (he j)).readCpu hlen j).1
    rw [← List.singleton_append, ← List.append_assoc]
    refine ih ⟨hkeep.rings, fun i hi => hkeep.stale i (by simp [hi])⟩ ⟨hkeep.rings, ?_⟩
    intro i hi
    rcases List.mem_append.1 hi with hi | hi
    · exact hdone.stale i hi
    · obtain rfl := List.mem_singleton.1 hi
      exact hj (h₁.stale i (by simp))

@[simp] theorem stores_ptr_region (ws : List (Nat × α)) : ∀ d : TraceData α, (d.stores ws).ptr_region = d.ptr_region := by
  induction ws with
  | nil => exact fun d => rfl
  | cons w ws ih => exact fun d => ih _

/-- Rings without stale records fill the regions with fresh ones. -/
theorem readCpus_fresh {e : ReadEnv α} (he : e.Fresh fresh) {len : Nat} (hlen : len ≤ BUFF_READ) : ∀ {js done : List Nat}
    {d : TraceData α}, Stale fresh 0 js d → (∀ k ∈ done, ∀ a ∈ (d.ptr_region k).records, fresh a) →
    ∀ k ∈ done ++ js, ∀ a ∈ ((readCpus e len js d).ptr_region k).records, fresh a := by
  intro js
  induction js with
  | nil => intro done d _ hd; rwa [List.append_nil]
  | cons j js ih =>
    intro done d h hd
    have h₁ := h.stores (he j)
    have hkeep := (h₁.readCpu hlen j).1
    rw [← List.singleton_append, ← List.append_assoc]
    refine ih ⟨hkeep.rings, fun i hi => hkeep.stale i (by simp [hi])⟩ ?_
    intro k hk a ha
    by_cases hkj : k = j
    · subst hkj
      obtain ⟨-, -, hrecords⟩ := region_read_cpu_spec (h₁.rings k) hlen ((d.stores (e.stored k)).ptr_region k)
      have hregion : ((d.stores (e.stored k)).readCpu len k).ptr_region k =
        (region_read_cpu len ((d.stores (e.stored k)).ptr_cb k) ((d.stores (e.stored k)).ptr_region k)).2 :=
        Function.update_self ..
      rw [hregion, hrecords] at ha
      exact (h₁.stale k (by simp)).all_fresh a (List.mem_of_mem_take ha)
    · have hdone : k ∈ done := by
        rcases List.mem_append.1 hk with hk | hk
        · exact hk
        · exact absurd (List.mem_singleton.1 hk) hkj
      have hregion : ((d.stores (e.stored j)).readCpu len j).ptr_region k = d.ptr_region k := by
        simp [TraceData.readCpu, hkj]
      rw [hregion] at ha
      exact hd k hdone a ha

/-! ## A clean slate -/

/-- What a read leaves of the stale records, and what it delivers when there are none. -/
theorem trace_driver_read_stale (buf len : Nat) {e : ReadEnv α} (he : e.Fresh fresh) {b : Nat}
    (h : Stale fresh b present d) :
    Stale fresh b present (trace_driver_read present e buf len d).2.2 ∧
      (buf ≠ 0 → Stale fresh (b - clampLen len) present (trace_driver_read present e buf len d).2.2) ∧
      (b = 0 → ∀ regions ∈ (trace_driver_read present e buf len d).2.1, ∀ k ∈ present,
        ∀ a ∈ (regions k).records, fresh a) := by
  unfold trace_driver_read
  split
  next hbuf => exact ⟨h, fun hne => absurd hbuf hne, fun _ _ hr => by cases hr⟩
  next hbuf =>
    have hread : Stale fresh (b - clampLen len) ([] ++ present) (readCpus e (clampLen len) present d) :=
      readCpus_stale he (clampLen_le len) h ⟨h.rings, by simp⟩
    rw [List.nil_append] at hread
    have hregions : b = 0 → ∀ k ∈ present, ∀ a ∈ ((readCpus e (clampLen len) present d).ptr_region k).records, fresh a := by
      intro hb
      have hall : ∀ k ∈ [] ++ present, ∀ a ∈ ((readCpus e (clampLen len) present d).ptr_region k).records, fresh a :=
        readCpus_fresh he (clampLen_le len) (hb ▸ h) (by simp)
      rwa [List.nil_append] at hall
    have hkeep : Stale fresh b present (readCpus e (clampLen len) present d) :=
      ⟨hread.rings, fun j hj => (hread.stale j hj).mono (Nat.sub_le _ _)⟩
    dsimp only
    split
    · exact ⟨hkeep, fun _ => hread, fun _ _ hr => by cases hr⟩
    · refine ⟨hkeep, fun _ => hread, ?_⟩
      intro hb regions hr
      obtain rfl := Option.some.inj hr
      exact hregions hb

theorem cleanRounds_stale {es : Nat → ReadEnv α} (hes : ∀ i, (es i).Fresh fresh) {region size_r : Nat} : ∀ {n i b : Nat}
    {d d' : TraceData α}, Stale fresh b present d → cleanRounds present es region size_r i n d = (0, d') →
    Stale fresh (b - n * N_UNIT) present d' := by
  intro n
  induction n with
  | zero =>
    intro i b d d' h hrun
    cases hrun
    simpa using h
  | succ n ih =>
    intro i b d d' h hrun
    simp only [cleanRounds] at hrun
    obtain ⟨-, hread, -⟩ := trace_driver_read_stale region N_UNIT (hes i) h
    split at hrun
    · cases hrun
    next hret =>
      have hregion : region ≠ 0 := by
        rintro rfl
        apply hret
        have hinval : (-EINVAL : Int) < 0 := by decide
        simp only [trace_driver_read, if_true]
        omega
      have := ih (hread hregion) hrun
      have hclamp : clampLen N_UNIT = N_UNIT := rfl
      rwa [hclamp, Nat.sub_sub, Nat.add_comm, ← Nat.succ_mul] at this

theorem laterReads_fresh {buf : Nat} : ∀ {rs : List (ReadEnv α × Nat)} {d : TraceData α}, Stale fresh 0 present d →
    (∀ r ∈ rs, r.1.Fresh fresh) → ∀ regions ∈ laterReads present buf rs d, ∀ k ∈ present,
      ∀ a ∈ (regions k).records, fresh a := by
  intro rs
  induction rs with
  | nil => intro d _ _ regions hr; cases hr
  | cons r rs ih =>
    intro d h hrs regions hr
    obtain ⟨hkeep, -, hregions⟩ := trace_driver_read_stale buf r.2 (hrs r (by simp)) h
    rcases List.mem_append.1 hr with hr | hr
    · exact hregions rfl regions (Option.mem_toList.1 hr)
    · exact ih hkeep (fun r' hr' => hrs r' (by simp [hr'])) regions hr

theorem trace_driver_read_size {e : ReadEnv α} {buf len : Nat} {ret : Int} {regions : Nat → RegionMem α}
    {d' : TraceData α} (h : trace_driver_read present e buf len d = (ret, some regions, d')) :
    ret = REGION_SIZE * count_region present := by
  unfold trace_driver_read at h
  split at h
  · cases h
  dsimp only at h
  split at h <;> cases h
  rfl

/-- The lines that are appended to the file are of fresh records. -/
def AppendsFresh (fresh : α → Prop) (unit : α → UnitBuff) (file file' : List Line) : Prop :=
  ∃ lines, file' = file ++ lines ∧ ∀ l ∈ lines, ∃ a, fresh a ∧ l = line (unit a)

theorem AppendsFresh.refl (unit : α → UnitBuff) (file : List Line) : AppendsFresh fresh unit file file :=
  ⟨[], (List.append_nil file).symm, fun _ hl => absurd hl List.not_mem_nil⟩

theorem AppendsFresh.trans {unit : α → UnitBuff} {file file' file'' : List Line} (h : AppendsFresh fresh unit file file')
    (h' : AppendsFresh fresh unit file' file'') : AppendsFresh fresh unit file file'' := by
  obtain ⟨lines, rfl, hlines⟩ := h
  obtain ⟨lines', rfl, hlines'⟩ := h'
  refine ⟨lines ++ lines', List.append_assoc .., ?_⟩
  intro l hl
  rcases List.mem_append.1 hl with hl | hl
  · exact hlines l hl
  · exact hlines' l hl

theorem save_measure_fresh {n : Nat} (unit : α → UnitBuff) (n_cpu region : Nat) {e : SaveEnv α} (he : e.toReadEnv.Fresh fresh)
    {s : TraceData α × List Line} (h : Stale fresh 0 (List.range n) s.1) :
    Stale fresh 0 (List.range n) (save_measure (List.range n) unit n_cpu region e s).2.1 ∧
      AppendsFresh fresh unit s.2 (save_measure (List.range n) unit n_cpu region e s).2.2 := by
  obtain ⟨hkeep, -, hregions⟩ := trace_driver_read_stale region N_UNIT he h
  cases hr : trace_driver_read (List.range n) e.toReadEnv region N_UNIT s.1 with
  | mk ret r =>
    obtain ⟨regions, d'⟩ := r
    rw [hr] at hkeep hregions
    unfold save_measure
    simp only [hr]
    cases regions with
    | none => exact ⟨hkeep, .refl unit s.2⟩
    | some regions =>
      dsimp only
      split
      · exact ⟨hkeep, .refl unit s.2⟩
      next hret =>
        -- the daemon takes a read of any other size for an error
        have hn : n_cpu = n := by
          have hsize := (not_not.1 hret).symm.trans (trace_driver_read_size hr)
          rw [count_region_eq, List.length_range] at hsize
          exact Nat.eq_of_mul_eq_mul_left (by decide : 0 < REGION_SIZE) (by exact_mod_cast hsize)
        have happend : AppendsFresh fresh unit s.2
            (s.2 ++ (List.range n_cpu).flatMap fun i => (regions i).records.map fun a => line (unit a)) := by
          refine ⟨_, rfl, ?_⟩
          intro l hl
          obtain ⟨i, hi, hl⟩ := List.mem_flatMap.1 hl
          obtain ⟨a, ha, rfl⟩ := List.mem_map.1 hl
          exact ⟨a, hregions rfl regions rfl i (hn ▸ hi) a ha, rfl⟩
        split
        · split
          · exact ⟨hkeep, .refl unit s.2⟩
          split
          · exact ⟨hkeep, happend⟩
          split
          · exact ⟨hkeep, happend⟩
          · exact ⟨hkeep, happend⟩
        split
        · exact ⟨hkeep, .refl unit s.2⟩
        · exact ⟨hkeep, .refl unit s.2⟩

theorem saveMeasures_fresh {n : Nat} (unit : α → UnitBuff) (n_cpu region : Nat) : ∀ {es : List (SaveEnv α)}
    {s : TraceData α × List Line}, Stale fresh 0 (List.range n) s.1 → (∀ e ∈ es, e.toReadEnv.Fresh fresh) →
    AppendsFresh fresh unit s.2 (saveMeasures (List.range n) unit n_cpu region es s).2.2 := by
  intro es
  induction es with
  | nil => intro s _ _; exact .refl unit s.2
  | cons e es ih =>
    intro s h hes
    obtain ⟨hkeep, happend⟩ := save_measure_fresh unit n_cpu region (hes e (by simp)) h
    rw [saveMeasures]
    split
    · exact happend
    · exact happend.trans (ih hkeep fun e' he' => hes e' (by simp [he']))

/-- The rounds of `clean_kernel_buffer` take all that a ring can hold. -/
theorem clean_stale {d d' : TraceData α} (hrings : ∀ j, Sized (d.ptr_cb j)) {es : Nat → ReadEnv α}
    (hes : ∀ i, (es i).Fresh fresh) {region size_r : Nat} (h : clean_kernel_buffer present es region size_r d = (0, d')) :
    Stale fresh 0 present d' := by
  have hfull : Stale fresh (CIRC_BUFF_SIZE - 1) present d := by
    refine ⟨hrings, ?_⟩
    intro j _
    apply staleAtMost_of_length
    have hlt := stored_lt (hrings j).1
    rw [(hrings j).2] at hlt
    rw [length_contents]
    omega
  exact cleanRounds_stale hes hfull h

/-- After `clean_kernel_buffer` no later read delivers, and no line of the file is
of, a record that a ring had before it: all of them are `fresh`, which may be any
property of the records stored from then on. -/
theorem clean_slate (n : Nat) (fresh : α → Prop) (d : TraceData α) (hrings : ∀ j, Sized (d.ptr_cb j))
    (es : Nat → ReadEnv α) (hes : ∀ i, (es i).Fresh fresh) (region size_r : Nat) (d' : TraceData α)
    (h : clean_kernel_buffer (List.range n) es region size_r d = (0, d')) :
    (∀ (buf : Nat) (rs : List (ReadEnv α × Nat)), (∀ r ∈ rs, r.1.Fresh fresh) →
      ∀ regions ∈ laterReads (List.range n) buf rs d', ∀ k < n, ∀ a ∈ (regions k).records, fresh a) ∧
    ∀ (unit : α → UnitBuff) (n_cpu region : Nat) (saves : List (SaveEnv α)) (file : List Line),
      (∀ e ∈ saves, e.toReadEnv.Fresh fresh) →
        AppendsFresh fresh unit file (saveMeasures (List.range n) unit n_cpu region saves (d', file)).2.2 := by
  have hclean := clean_stale hrings hes h
  refine ⟨?_, ?_⟩
  · intro buf rs hrs regions hr k hk
    exact laterReads_fresh hclean hrs regions hr k (List.mem_range.2 hk)
  · intro unit n_cpu region saves file hsaves
    exact saveMeasures_fresh unit n_cpu region hclean hsaves

/-- A record 8 is stored before each read. -/
def sampleStores : ReadEnv Nat where
  stored _ := [(0, 8)]
  left := 0

theorem sampleStores_fresh : sampleStores.Fresh (· = 8) := by
  intro j w hw
  obtain rfl := List.mem_singleton.1 hw
  rfl

/-- The ring has a record 7 before. -/
theorem clean_slate_sample :
    (clean_kernel_buffer (List.range 1) (fun _ => sampleStores) 4096 28008 sampleDevice.toTraceData).1 = 0 ∧
    (∀ (buf : Nat) (rs : List (ReadEnv Nat × Nat)), (∀ r ∈ rs, r.1.Fresh (· = 8)) →
      ∀ regions ∈ laterReads (List.range 1) buf rs
        (clean_kernel_buffer (List.range 1) (fun _ => sampleStores) 4096 28008 sampleDevice.toTraceData).2,
      ∀ k < 1, ∀ a ∈ (regions k).records, a = 8) ∧
    ∀ (unit : Nat → UnitBuff) (n_cpu region : Nat) (saves : List (SaveEnv Nat)) (file : List Line),
      (∀ e ∈ saves, e.toReadEnv.Fresh (· = 8)) →
        AppendsFresh (· = 8) unit file (saveMeasures (List.range 1) unit n_cpu region saves
          ((clean_kernel_buffer (List.range 1) (fun _ => sampleStores) 4096 28008 sampleDevice.toTraceData).2, file)).2.2 :=
  have hret : (clean_kernel_buffer (List.range 1) (fun _ => sampleStores) 4096 28008 sampleDevice.toTraceData).1 = 0 := by
    decide
  ⟨hret, clean_slate 1 (· = 8) sampleDevice.toTraceData sample_sized (fun _ => sampleStores) (fun _ => sampleStores_fresh)
    4096 28008 _ (Prod.ext hret rfl)⟩

end Dmacftu.Trace
