import Dmacftu.CircularBuffer
import Dmacftu.Session
/-!
# The trace device

`trace/driver`: a `read` takes up to `BUFF_READ` records from the ring of each
present CPU into the device's regions and copies the regions to the caller.
`trace_driver_read` is the function as one caller sees it, with the records that
are stored meanwhile. `step` is its parts, one CPU's region at a time, for any
number of callers at once.

The regions belong to the device, not to the call, there are as many as present
CPUs, and each is found by its CPU's number. `delivered_once_run` says what a
run has to keep to for every record taken from a ring to reach the caller that
took it.
-/
open Lib.CInt Lib.Runs

namespace Dmacftu.Trace

open CircularBuffer

def BUFF_READ : Nat := 500

/-! ## The code -/

/-- `struct region_mem`: the first `BUFF_READ` entries are allocated. -/
structure RegionMem (α : Type) where
  count : Nat
  buffer : Nat → α

/-- `struct trace_data`, up to where it points. -/
structure TraceData (α : Type) where
  ptr_region : Nat → RegionMem α
  ptr_cb : Nat → CircularBuffer α

variable {α : Type}

/-- `mem_trace_init` counts the present CPUs. -/
def count_region (present : List Nat) : Nat := present.foldl (fun count_region _ => count_region + 1) 0

def region_read_cpu (len : Int) (ptr_cb : CircularBuffer α) (reg_m : RegionMem α) : CircularBuffer α × RegionMem α :=
  let (len, buffer, ptr_cb) := cbRead_list ptr_cb reg_m.buffer len
  (ptr_cb, { count := u32 (0 + len), buffer })

/-- A pass of the loop over the present CPUs. -/
def TraceData.readCpu (d : TraceData α) (len : Int) (j : Nat) : TraceData α :=
  let (ptr_cb, reg_m) := region_read_cpu len (d.ptr_cb j) (d.ptr_region j)
  { ptr_cb := Function.update d.ptr_cb j ptr_cb, ptr_region := Function.update d.ptr_region j reg_m }

/-- A traced copy stores its record in the ring of CPU `j`. -/
def TraceData.store (d : TraceData α) (j : Nat) (elem : α) : TraceData α :=
  { d with ptr_cb := Function.update d.ptr_cb j (cbWrite (d.ptr_cb j) elem) }

def TraceData.stores (d : TraceData α) (ws : List (Nat × α)) : TraceData α := ws.foldl (fun d w => d.store w.1 w.2) d

/-- What a read meets: the records stored before each CPU's turn, and how many
bytes `copy_to_user_pure` does not copy. -/
structure ReadEnv (α : Type) where
  stored : Nat → List (Nat × α)
  left : Nat

def clampLen (len : Nat) : Nat := if len > BUFF_READ then BUFF_READ else len

def readCpus (e : ReadEnv α) (len : Int) : List Nat → TraceData α → TraceData α
  | [], d => d
  | j :: js, d => readCpus e len js ((d.stores (e.stored j)).readCpu len j)

/-- `sizeof(struct unit_buff_user)`, and the bytes of a region before its buffer. -/
def UNIT_SIZE : Nat := 56
def HEAD_SIZE : Nat := 8

/-- `sizeof(struct region_mem)`. -/
def REGION_SIZE : Nat := HEAD_SIZE + BUFF_READ * UNIT_SIZE

/-- The return value, the regions as the caller gets them, if it gets them all, and
the device after the call. -/
def trace_driver_read (present : List Nat) (e : ReadEnv α) (buf len : Nat) (d : TraceData α) :
    Int × Option (Nat → RegionMem α) × TraceData α :=
  if buf = 0 then (-EINVAL, none, d)
  else
    let d := readCpus e (clampLen len) present d
    if e.left ≠ 0 then (- EIO, none, d) else (REGION_SIZE * count_region present, some d.ptr_region, d)

/-- The records a region says it has. -/
def RegionMem.records (reg_m : RegionMem α) : List α := (List.range reg_m.count).map reg_m.buffer

theorem count_region_eq (present : List Nat) : count_region present = present.length := by
  have h : ∀ n, present.foldl (fun count_region _ => count_region + 1) n = n + present.length := by
    induction present with
    | nil => exact fun n => rfl
    | cons j js ih =>
      intro n
      rw [List.foldl_cons, ih, List.length_cons]
      omega
  exact (h 0).trans (Nat.zero_add _)

theorem clampLen_le (len : Nat) : clampLen len ≤ BUFF_READ := by
  unfold clampLen
  split <;> omega

/-- A region gets the oldest records of the ring, and they leave the ring. -/
theorem region_read_cpu_spec {ptr_cb : CircularBuffer α} (h : Sized ptr_cb) {len : Nat} (hlen : len ≤ BUFF_READ)
    (reg_m : RegionMem α) : Sized (region_read_cpu len ptr_cb reg_m).1 ∧
      (region_read_cpu len ptr_cb reg_m).1.contents = ptr_cb.contents.drop len ∧
      (region_read_cpu len ptr_cb reg_m).2.records = ptr_cb.contents.take len := by
  have hlt : (len : Int) < 2 ^ 31 := by
    unfold BUFF_READ at hlen
    omega
  obtain ⟨hm, hout, -, hok, hdrop⟩ := cbRead_list_spec h.1 reg_m.buffer (Int.natCast_nonneg len) hlt rfl
  rw [Int.toNat_natCast] at hm hout hdrop
  refine ⟨⟨hok, (cbRead_list_size _ _ _).trans h.2⟩, ?_, ?_⟩
  · show (cbRead_list ptr_cb reg_m.buffer len).2.2.contents = _
    rw [hdrop, ← length_contents, ← List.drop_eq_drop_min]
  · have hcount : (region_read_cpu len ptr_cb reg_m).2.count = min len ptr_cb.stored := by
      show u32 (0 + (cbRead_list ptr_cb reg_m.buffer len).1) = _
      rw [hm, Int.zero_add, u32_of_lt]
      omega
    rw [RegionMem.records, hcount]
    show (List.range _).map (cbRead_list ptr_cb reg_m.buffer len).2.1 = _
    rw [map_range_eq_take hout, ← length_contents, ← List.take_eq_take_min]

theorem sized_cbWrite {cb : CircularBuffer α} (h : Sized cb) (elem : α) : Sized (cbWrite cb elem) := by
  refine ⟨?_, (cbWrite_size cb elem).trans h.2⟩
  have hlt := stored_lt h.1
  rcases Nat.lt_or_ge cb.stored (cb.size - 1) with hr | hr
  · exact (cbWrite_room h.1 hr elem).1
  · rw [cbWrite_full h.1 (by omega)]
    exact h.1

/-! ## Several callers -/

/-- A `read` on its way: the CPUs whose rings it has still to read, and what it took
from the others. -/
structure Call (α : Type) where
  len : Nat
  todo : List Nat
  removed : Nat → List α

/-- What happens in a run: a region is written, or a call returns. The call took
`removed` from the rings, and its caller got `delivered`, CPU by CPU. -/
inductive Event (α : Type) where
  | region (j : Nat)
  | returned (ret : Int) (removed delivered : Nat → List α)

/-- The device, the callers inside `trace_driver_read`, and the account of the run. -/
structure State (T α : Type) extends TraceData α where
  calls : T → Option (Call α)
  log : List (Event α)

inductive Label (T α : Type) where
  | enter (t : T) (buf len : Nat)
  | region (t : T)
  | copy (t : T) (left : Nat)
  | store (j : Nat) (elem : α)

variable {T : Type} [DecidableEq T]

/-- Where entry `i` of region `k` ends, from the start of the regions. -/
def entryEnd (k i : Nat) : Nat := k * REGION_SIZE + HEAD_SIZE + (i + 1) * UNIT_SIZE

/-- The records of region `k` that lie inside what was copied. -/
def delivered (count left : Nat) (ptr_region : Nat → RegionMem α) (k : Nat) : List α :=
  if k < count then
    ((List.range (ptr_region k).count).filter fun i => entryEnd k i ≤ REGION_SIZE * count - left).map
      (ptr_region k).buffer
  else []

/-- The oldest records of a ring, up to those it still has. -/
def takenFrom (before after : CircularBuffer α) : List α := before.contents.take (before.stored - after.stored)

/-- One pass of a caller's loop, or its copy; `none` if the caller is not there. -/
def step (present : List Nat) (s : State T α) : Label T α → Option (State T α)
  | .enter t buf len =>
    if (s.calls t).isSome then none
    else if buf = 0 then some { s with log := s.log ++ [.returned (-EINVAL) (fun _ => []) fun _ => []] }
    else some { s with calls := Function.update s.calls t (some ⟨clampLen len, present, fun _ => []⟩) }
  | .region t => match s.calls t with
    | some ⟨len, j :: todo, removed⟩ =>
      let d := s.toTraceData.readCpu len j
      some
        { toTraceData := d
          calls := Function.update s.calls t
            (some ⟨len, todo, Function.update removed j (takenFrom (s.ptr_cb j) (d.ptr_cb j))⟩)
          log := s.log ++ [.region j] }
    | _ => none
  | .copy t left => match s.calls t with
    | some ⟨_, [], removed⟩ =>
      let count := count_region present
      some { s with
        calls := Function.update s.calls t none
        log := s.log ++ [.returned (if left ≠ 0 then - EIO else REGION_SIZE * count) removed
          (delivered count left s.ptr_region)] }
    | _ => none
  | .store j elem => some { s with toTraceData := s.toTraceData.store j elem }

/-- Regions are written inside the array, and a call's caller gets, CPU by CPU,
the records the call took and no others. -/
def Event.Good (count : Nat) : Event α → Prop
  | .region j => j < count
  | .returned _ removed delivered => ∀ k, delivered k = removed k

/-- A region that is written is there and has no records of another call that is yet
to copy them, and a copy reaches the end of every record. -/
def Undisturbed (present : List Nat) (s : State T α) : Label T α → Prop
  | .region t => ∀ c j, s.calls t = some c → c.todo.head? = some j →
      j < count_region present ∧ ∀ u ≠ t, ∀ c', s.calls u = some c' → j ∈ c'.todo
  | .copy _ left => ∀ k < count_region present, ∀ i < (s.ptr_region k).count,
      entryEnd k i ≤ REGION_SIZE * count_region present - left
  | _ => True

variable {present : List Nat} {s s' : State T α}

/-! ## One caller -/

/-- What a call of `trace_driver_read` does, with the stores it meets in between. -/
def callLabels (t : T) (present : List Nat) (e : ReadEnv α) (buf len : Nat) : List (Label T α) :=
  .enter t buf len ::
    ((present.flatMap fun j => (e.stored j).map (fun w => .store w.1 w.2) ++ [.region t]) ++ [.copy t e.left])

theorem exec_stores (ws : List (Nat × α)) : ∀ {s : State T α} {ls : List (Label T α)},
    exec (step present) s (ws.map (fun w => .store w.1 w.2) ++ ls) =
      exec (step present) { s with toTraceData := s.toTraceData.stores ws } ls := by
  induction ws with
  | nil => intro s ls; rfl
  | cons w ws ih => intro s ls; exact ih

/-- The passes of a caller's loop, up to the account. -/
theorem exec_readCpus (present : List Nat) (t : T) (e : ReadEnv α) (len : Nat) (tail : List (Label T α)) :
    ∀ {todo : List Nat} {s : State T α} {removed : Nat → List α}, s.calls t = some ⟨len, todo, removed⟩ →
      ∃ removed' log, exec (step present) s
          ((todo.flatMap fun j => (e.stored j).map (fun w => .store w.1 w.2) ++ [.region t]) ++ tail) =
        exec (step present)
          { toTraceData := readCpus e len todo s.toTraceData
            calls := Function.update s.calls t (some ⟨len, [], removed'⟩), log := s.log ++ log } tail := by
  intro todo
  induction todo with
  | nil =>
    intro s removed hc
    refine ⟨removed, [], ?_⟩
    rw [← hc, Function.update_eq_self, List.append_nil]
    rfl
  | cons j todo ih =>
    intro s removed hc
    rw [List.flatMap_cons, List.append_assoc, List.append_assoc, exec_stores]
    let d := s.toTraceData.stores (e.stored j)
    let s₁ : State T α :=
      { toTraceData := d.readCpu len j
        calls := Function.update s.calls t
          (some ⟨len, todo, Function.update removed j (takenFrom (d.ptr_cb j) ((d.readCpu len j).ptr_cb j))⟩)
        log := s.log ++ [.region j] }
    have hstep : step present { s with toTraceData := d } (.region t) = some s₁ := by
      simp only [step, hc]
      rfl
    obtain ⟨removed', log, hrun⟩ := ih (s := s₁) (Function.update_self ..)
    refine ⟨removed', .region j :: log, ?_⟩
    rw [List.singleton_append, exec, hstep, Option.bind_some, hrun]
    simp [s₁, d, readCpus, Function.update_idem]

/-- Alone on the device, the steps of a call do what `trace_driver_read` does. -/
theorem exec_call (t : T) (present : List Nat) (e : ReadEnv α) {buf : Nat} (hbuf : buf ≠ 0) (len : Nat)
    (hidle : s.calls t = none) : ∃ s' log removed, exec (step present) s (callLabels t present e buf len) = some s' ∧
      s'.toTraceData = (trace_driver_read present e buf len s.toTraceData).2.2 ∧ s'.calls = s.calls ∧
      s'.log = s.log ++ log ++ [.returned (trace_driver_read present e buf len s.toTraceData).1 removed
        (delivered (count_region present) e.left s'.ptr_region)] := by
  let s₁ : State T α := { s with calls := Function.update s.calls t (some ⟨clampLen len, present, fun _ => []⟩) }
  have henter : step present s (.enter t buf len) = some s₁ := by
    simp [step, hidle, hbuf, s₁]
  obtain ⟨removed, log, hrun⟩ := exec_readCpus present t e (clampLen len) [.copy t e.left]
    (s := s₁) (Function.update_self ..)
  have hback : Function.update (Function.update s₁.calls t (some ⟨clampLen len, [], removed⟩)) t none = s.calls := by
    simp only [s₁, Function.update_idem]
    rw [← hidle, Function.update_eq_self]
  let d := readCpus e (clampLen len) present s.toTraceData
  let s' : State T α :=
    { toTraceData := d
      calls := s.calls
      log := s.log ++ log ++ [.returned (if e.left ≠ 0 then - EIO else REGION_SIZE * count_region present) removed
        (delivered (count_region present) e.left d.ptr_region)] }
  refine ⟨s', log, removed, ?_, ?_, rfl, ?_⟩
  · rw [callLabels, exec, henter, Option.bind_some, hrun]
    simp only [exec, step, Function.update_self, Option.bind_some, hback]
    rfl
  · simp only [trace_driver_read, hbuf, if_false]
    split <;> rfl
  · simp only [trace_driver_read, hbuf, if_false]
    split
    next hleft => simp [s', hleft]
    next hleft => simp [s', hleft]

/-! ## Calls keep apart -/

/-- The regions a call has written hold what it took. -/
structure CallOk (present : List Nat) (ptr_region : Nat → RegionMem α) (c : Call α) : Prop where
  len_le : c.len ≤ BUFF_READ
  todo : c.todo <:+ present
  held : ∀ j ∈ present, j ∉ c.todo → j < present.length ∧ (ptr_region j).records = c.removed j
  rest : ∀ j, j ∉ present ∨ j ∈ c.todo → c.removed j = []

structure Inv (present : List Nat) (s : State T α) : Prop where
  rings : ∀ j, Sized (s.ptr_cb j)
  call : ∀ t c, s.calls t = some c → CallOk present s.ptr_region c
  apart : ∀ t u c c', t ≠ u → s.calls t = some c → s.calls u = some c' → ∀ j ∈ present, j ∈ c.todo ∨ j ∈ c'.todo
  good : ∀ e ∈ s.log, e.Good present.length

/-- Writing a region a call has not got to yet does not touch what it holds. -/
theorem CallOk.write_region {ptr_region : Nat → RegionMem α} {c : Call α} (h : CallOk present ptr_region c) {j : Nat}
    (hj : j ∈ c.todo) (reg_m : RegionMem α) : CallOk present (Function.update ptr_region j reg_m) c := by
  refine ⟨h.len_le, h.todo, ?_, h.rest⟩
  intro i hi hdone
  have hij : i ≠ j := by
    rintro rfl
    exact hdone hj
  rw [Function.update_of_ne hij]
  exact h.held i hi hdone

/-- A pass of the loop moves the next CPU's records to its region. -/
theorem CallOk.read {ptr_region : Nat → RegionMem α} {len j : Nat} {todo : List Nat} {removed : Nat → List α}
    (h : CallOk present ptr_region ⟨len, j :: todo, removed⟩) (hnd : present.Nodup) (hj : j < present.length)
    {reg_m : RegionMem α} {taken : List α} (hreg : reg_m.records = taken) :
    CallOk present (Function.update ptr_region j reg_m) ⟨len, todo, Function.update removed j taken⟩ := by
  have htodo : todo <:+ present := (List.suffix_cons j todo).trans h.todo
  have hnot : j ∉ todo := (List.nodup_cons.1 (hnd.sublist h.todo.sublist)).1
  refine ⟨h.len_le, htodo, ?_, ?_⟩
  · intro i hi hdone
    show i < present.length ∧ (Function.update ptr_region j reg_m i).records = Function.update removed j taken i
    by_cases hij : i = j
    · subst hij
      rw [Function.update_self, Function.update_self]
      exact ⟨hj, hreg⟩
    · rw [Function.update_of_ne hij, Function.update_of_ne hij]
      exact h.held i hi (by simp [hij, hdone])
  · intro i hi
    have hij : i ≠ j := by
      rintro rfl
      rcases hi with hi | hi
      · exact hi (h.todo.subset (by simp))
      · exact hnot hi
    show Function.update removed j taken i = []
    rw [Function.update_of_ne hij]
    refine h.rest i ?_
    rcases hi with hi | hi
    · exact .inl hi
    · exact .inr (by simp [hi])

/-- The present CPUs are the regions' numbers, once all of them are. -/
theorem mem_present (hnd : present.Nodup) (hlt : ∀ j ∈ present, j < present.length) {k : Nat} (hk : k < present.length) :
    k ∈ present := by
  have hsub : present.toFinset ⊆ Finset.range present.length := by
    intro j hj
    exact Finset.mem_range.2 (hlt j (List.mem_toFinset.1 hj))
  have hcard : (Finset.range present.length).card ≤ present.toFinset.card := by
    rw [Finset.card_range, List.toFinset_card_of_nodup hnd]
  have heq := Finset.eq_of_subset_of_card_le hsub hcard
  exact List.mem_toFinset.1 (heq ▸ Finset.mem_range.2 hk)

/-- A call that has read every CPU delivers what it took, if its copy gets that far. -/
theorem CallOk.delivers {ptr_region : Nat → RegionMem α} {len left : Nat} {removed : Nat → List α}
    (h : CallOk present ptr_region ⟨len, [], removed⟩) (hnd : present.Nodup)
    (hcopied : ∀ k < present.length, ∀ i < (ptr_region k).count,
      entryEnd k i ≤ REGION_SIZE * present.length - left) (k : Nat) :
    delivered present.length left ptr_region k = removed k := by
  have hlt : ∀ j ∈ present, j < present.length := fun j hj => (h.held j hj (by simp)).1
  unfold delivered
  split
  next hk =>
    have hheld : (ptr_region k).records = removed k := (h.held k (mem_present hnd hlt hk) (by simp)).2
    rw [← hheld, RegionMem.records, List.filter_eq_self.2]
    intro i hi
    exact decide_eq_true (hcopied k hk i (List.mem_range.1 hi))
  next hk => exact (h.rest k (.inl fun hmem => hk (hlt k hmem))).symm

/-- A step of one caller, who becomes `new`. -/
theorem Inv.setCall (hi : Inv present s) {d : TraceData α} {log : List (Event α)} {t : T} {new : Option (Call α)}
    (hrings : ∀ j, Sized (d.ptr_cb j)) (hnew : ∀ c, new = some c → CallOk present d.ptr_region c)
    (hother : ∀ u ≠ t, ∀ c, s.calls u = some c → CallOk present d.ptr_region c)
    (hapart : ∀ c, new = some c → ∀ u ≠ t, ∀ c', s.calls u = some c' → ∀ j ∈ present, j ∈ c.todo ∨ j ∈ c'.todo)
    (hgood : ∀ e ∈ log, e.Good present.length) :
    Inv present { toTraceData := d, calls := Function.update s.calls t new, log } where
  rings := hrings
  call u c hu := by
    by_cases hut : u = t
    · subst hut
      exact hnew c (by simpa using hu)
    · exact hother u hut c (by simpa [hut] using hu)
  apart u v c c' huv hu hv j hj := by
    by_cases hut : u = t
    · subst hut
      have hvu : v ≠ u := huv.symm
      exact hapart c (by simpa using hu) v hvu c' (by simpa [hvu] using hv) j hj
    · by_cases hvt : v = t
      · subst hvt
        exact (hapart c' (by simpa using hv) u hut c (by simpa [hut] using hu) j hj).symm
      · exact hi.apart u v c c' huv (by simpa [hut] using hu) (by simpa [hvt] using hv) j hj
  good := hgood

theorem good_append {log : List (Event α)} {count : Nat} {e : Event α} (h : ∀ e ∈ log, e.Good count)
    (he : e.Good count) : ∀ e' ∈ log ++ [e], e'.Good count := by
  intro e' he'
  rcases List.mem_append.1 he' with he' | he'
  · exact h e' he'
  · obtain rfl := List.mem_singleton.1 he'
    exact he

theorem sized_update {ptr_cb : Nat → CircularBuffer α} (h : ∀ j, Sized (ptr_cb j)) {j : Nat} {cb : CircularBuffer α}
    (hcb : Sized cb) (i : Nat) : Sized (Function.update ptr_cb j cb i) := by
  by_cases hij : i = j
  · subst hij
    rwa [Function.update_self]
  · rw [Function.update_of_ne hij]
    exact h i

theorem step_region_inv (hnd : present.Nodup) (hi : Inv present s) {t : T} {len j : Nat} {todo : List Nat}
    {removed : Nat → List α} (hc : s.calls t = some ⟨len, j :: todo, removed⟩) (hj : j < present.length)
    (hfree : ∀ u ≠ t, ∀ c', s.calls u = some c' → j ∈ c'.todo) :
    Inv present
      { toTraceData := s.toTraceData.readCpu len j
        calls := Function.update s.calls t (some
          ⟨len, todo, Function.update removed j (takenFrom (s.ptr_cb j) ((s.toTraceData.readCpu len j).ptr_cb j))⟩)
        log := s.log ++ [.region j] } := by
  have hcall := hi.call t _ hc
  have hlen : len ≤ BUFF_READ := hcall.len_le
  obtain ⟨hsized, hcontents, hrecords⟩ := region_read_cpu_spec (hi.rings j) hlen (s.ptr_region j)
  have htaken : takenFrom (s.ptr_cb j) ((s.toTraceData.readCpu len j).ptr_cb j) = (s.ptr_cb j).contents.take len := by
    have hcb : (s.toTraceData.readCpu len j).ptr_cb j = (region_read_cpu len (s.ptr_cb j) (s.ptr_region j)).1 :=
      Function.update_self ..
    rw [takenFrom, hcb, ← length_contents, ← length_contents, hcontents, List.length_drop,
      List.take_eq_take_iff]
    omega
  apply hi.setCall (sized_update hi.rings hsized)
  · intro c hcnew
    cases hcnew
    exact hcall.read hnd hj (hrecords.trans htaken.symm)
  · intro u hu c hcu
    exact (hi.call u c hcu).write_region (hfree u hu c hcu) _
  · intro c hcnew u hu c' hcu i hip
    cases hcnew
    by_cases hij : i = j
    · exact .inr (hij ▸ hfree u hu c' hcu)
    · rcases hi.apart t u _ c' hu.symm hc hcu i hip with h | h
      · exact .inl (by simpa [hij] using h)
      · exact .inr h
  · exact good_append hi.good hj

theorem step_inv (hnd : present.Nodup) (s : State T α) (l : Label T α) (s' : State T α) (hi : Inv present s)
    (hl : Undisturbed present s l) (h : step present s l = some s') : Inv present s' := by
  cases l with
  | enter t buf len =>
    simp only [step] at h
    split at h
    · cases h
    split at h
    · cases h
      exact ⟨hi.rings, hi.call, hi.apart, good_append hi.good fun k => rfl⟩
    · cases h
      apply hi.setCall hi.rings ?_ (fun u _ => hi.call u) ?_ hi.good
      · intro c hc
        cases hc
        exact ⟨clampLen_le len, List.suffix_refl _, fun j hj hdone => absurd hj hdone, fun j _ => rfl⟩
      · intro c hc u hu c' hc' j hj
        cases hc
        exact .inl hj
  | region t =>
    simp only [step] at h
    split at h
    next len j todo removed hc =>
      cases h
      obtain ⟨hj, hfree⟩ := hl _ j hc rfl
      rw [count_region_eq] at hj
      exact step_region_inv hnd hi hc hj hfree
    · cases h
  | copy t left =>
    simp only [step] at h
    split at h
    next len removed hc =>
      cases h
      have hcopied : ∀ k < count_region present, ∀ i < (s.ptr_region k).count,
        entryEnd k i ≤ REGION_SIZE * count_region present - left := hl
      rw [count_region_eq] at hcopied ⊢
      -- the copy-out delivers the region as it was filled, whatever came into the rings since
      apply hi.setCall hi.rings (fun c hc => by cases hc) (fun u _ => hi.call u) (fun c hc => by cases hc)
      exact good_append hi.good ((hi.call t _ hc).delivers hnd hcopied)
    · cases h
  | store j elem =>
    cases h
    exact ⟨sized_update hi.rings (sized_cbWrite (hi.rings j) elem), hi.call, hi.apart, hi.good⟩

/-- In every run in which no region is written while another call's records wait
in it, regions are only written inside the array, and every copy reaches its last
record, each call delivers what it took. -/
theorem delivered_once_run (present : List Nat) (hnd : present.Nodup) (s : State T α) (hrings : ∀ j, Sized (s.ptr_cb j))
    (hidle : ∀ t, s.calls t = none) (hlog : s.log = []) (ls : List (Label T α)) (s' : State T α)
    (hls : along (step present) (Undisturbed present) s ls) (h : exec (step present) s ls = some s') :
    ∀ e ∈ s'.log, e.Good (count_region present) := by
  have hinit : Inv present s := by
    refine ⟨hrings, ?_, ?_, ?_⟩
    · intro t c hc
      rw [hidle t] at hc
      cases hc
    · intro t u c c' _ hc
      rw [hidle t] at hc
      cases hc
    · rw [hlog]
      intro e he
      cases he
  rw [count_region_eq]
  exact (exec_inv_along (Inv present) (step_inv hnd) hinit hls h).good

/-- A device whose regions are fresh from `kzalloc`, with one record in the ring of
CPU 0. -/
def sampleDevice : State Bool Nat where
  ptr_region _ := ⟨0, fun _ => 0⟩
  ptr_cb j := if j = 0 then cbWrite (cbInit 0) 7 else cbInit 0
  calls _ := none
  log := []

theorem sample_sized (j : Nat) : Sized (sampleDevice.ptr_cb j) := by
  simp only [sampleDevice]
  split
  · exact sized_cbWrite (sized_init 0) 7
  · exact sized_init 0

/-- Two callers, the second of whom gets to the ring when the first is done with it. -/
def sampleReads : List (Label Bool Nat) :=
  [.enter true 1 500, .enter false 1 500, .region true, .store 0 8, .copy true 0, .region false, .copy false 0]

theorem sample_undisturbed : along (step [0]) (Undisturbed [0]) sampleDevice sampleReads := by
  have hcopied : ∀ (reg : Nat → RegionMem Nat), (reg 0).count = 1 → ∀ k < count_region [0], ∀ i < (reg k).count,
      entryEnd k i ≤ REGION_SIZE * count_region [0] - 0 := by
    intro reg hcount k hk i hi
    obtain rfl : k = 0 := Nat.lt_one_iff.1 hk
    obtain rfl : i = 0 := Nat.lt_one_iff.1 (hcount ▸ hi)
    decide
  -- the caller that reads finds the other one before region 0 or gone
  refine ⟨trivial, fun _ h => ?_⟩
  cases h
  refine ⟨trivial, fun _ h => ?_⟩
  cases h
  refine ⟨?_, fun _ h => ?_⟩
  · intro c j hc hj
    cases hc
    cases hj
    refine ⟨by decide, ?_⟩
    intro u hu c' hc'
    cases u with
    | true => exact absurd rfl hu
    | false => cases hc'; simp
  cases h
  refine ⟨trivial, fun _ h => ?_⟩
  cases h
  refine ⟨hcopied _ rfl, fun _ h => ?_⟩
  cases h
  refine ⟨?_, fun _ h => ?_⟩
  · intro c j hc hj
    cases hc
    cases hj
    refine ⟨by decide, ?_⟩
    intro u hu c' hc'
    cases u with
    | true => cases hc'
    | false => exact absurd rfl hu
  cases h
  refine ⟨hcopied _ rfl, fun _ h => ?_⟩
  exact trivial

theorem delivered_once_run_sample :
    ∃ s', exec (step [0]) sampleDevice sampleReads = some s' ∧ ∀ e ∈ s'.log, e.Good (count_region [0]) :=
  ⟨_, rfl, delivered_once_run [0] (by decide) sampleDevice sample_sized (fun _ => rfl) rfl sampleReads _
    sample_undisturbed rfl⟩

/-- Region `k` in an event's account. -/
def Event.at (k : Nat) : Event Nat → Nat ⊕ Int × List Nat × List Nat
  | .region j => .inl j
  | .returned ret removed delivered => .inr (ret, removed k, delivered k)

def accountAt (k : Nat) (present : List Nat) (ls : List (Label Bool Nat)) :
    Option (List (Nat ⊕ Int × List Nat × List Nat)) :=
  (exec (step present) sampleDevice ls).map fun s => s.log.map (Event.at k)

theorem not_good {k : Nat} {present : List Nat} {ls : List (Label Bool Nat)} {account : List (Nat ⊕ Int × List Nat × List Nat)}
    (h : accountAt k present ls = some account)
    (hbad : (∃ j, .inl j ∈ account ∧ count_region present ≤ j) ∨ ∃ ret removed delivered,
      .inr (ret, removed, delivered) ∈ account ∧ delivered ≠ removed) :
    ∃ s', exec (step present) sampleDevice ls = some s' ∧ ¬ ∀ e ∈ s'.log, e.Good (count_region present) := by
  obtain ⟨s', hs', rfl⟩ := Option.map_eq_some_iff.1 h
  refine ⟨s', hs', fun hgood => ?_⟩
  rcases hbad with ⟨j, hj, hle⟩ | ⟨ret, removed, delivered, hmem, hne⟩
  · obtain ⟨e, he, hat⟩ := List.mem_map.1 hj
    cases e with
    | region i =>
      cases hat
      exact absurd (hgood _ he) (Nat.not_lt.2 hle)
    | returned _ _ _ => cases hat
  · obtain ⟨e, he, hat⟩ := List.mem_map.1 hmem
    cases e with
    | region i => cases hat
    | returned _ _ _ =>
      cases hat
      exact hne (hgood _ he k)

/-- CPUs 0 and 2 are present: region 2 of two is written. A copy that fails: the
record it was to deliver is gone. Two calls that overlap: the second empties the
region the first has yet to copy. -/
theorem records_lost :
    (∃ s', exec (step [0, 2]) sampleDevice [.enter true 1 500, .region true, .region true, .copy true 0] = some s' ∧
      ¬ ∀ e ∈ s'.log, e.Good (count_region [0, 2])) ∧
    (∃ s', exec (step [0]) sampleDevice [.enter true 1 500, .region true, .copy true 28008] = some s' ∧
      ¬ ∀ e ∈ s'.log, e.Good (count_region [0])) ∧
    ∃ s', exec (step [0]) sampleDevice
        [.enter true 1 500, .enter false 1 500, .region true, .region false, .copy true 0, .copy false 0] = some s' ∧
      ¬ ∀ e ∈ s'.log, e.Good (count_region [0]) := by
  refine ⟨?_, ?_, ?_⟩
  · have h : accountAt 0 [0, 2] [.enter true 1 500, .region true, .region true, .copy true 0] =
        some [.inl 0, .inl 2, .inr (56016, [7], [7])] := by
      decide
    exact not_good h (.inl ⟨2, by simp, by decide⟩)
  · have h : accountAt 0 [0] [.enter true 1 500, .region true, .copy true 28008] =
        some [.inl 0, .inr (- EIO, [7], [])] := by
      decide
    exact not_good h (.inr ⟨- EIO, [7], [], by simp, by simp⟩)
  · have h : accountAt 0 [0]
        [.enter true 1 500, .enter false 1 500, .region true, .region false, .copy true 0, .copy false 0] =
        some [.inl 0, .inl 0, .inr (28008, [7], []), .inr (28008, [], [])] := by
      decide
    exact not_good h (.inr ⟨28008, [7], [], by simp, by simp⟩)

end Dmacftu.Trace
