import Dmacftu.SparseFile
import Mathlib.Tactic.Ring
/-!
# The size of the sparse file

`init_daemon` estimates how long the file gets, `daemon_create_sparse_file` makes it one
byte longer than that, and `save_measure` maps parts of it without asking. The estimate
leaves room for a few more reads than there are, but it is made in an `int`:
`always_big_enough_iff` says for which measurements it is an upper bound, and that no
call then maps what is behind the end of the file.
-/
open Lib.CInt Lib.CText Lib.Runs

namespace Dmacftu.Trace

/-! ## The code -/

def PLUS_CHAR_LINE : Nat := 5

def MAX_SIZE_SP (n_read n_cpu : Int) : Int :=
  s32 (s32 (s32 (s32 (n_read + PLUS_CHAR_LINE) * N_UNIT) * N_CHAR_LINE) * n_cpu)

def init_daemon (daemon_ptr : DaemonTrace) (n_cpu n_read : Int) : DaemonTrace :=
  { daemon_ptr with size_max := u64 (MAX_SIZE_SP n_read n_cpu), offset_map := 0 }

/-- The new offset in a file of this length, if there can be one. -/
def lseekEnd (length : Nat) (offset : Int) : Int := if length + offset < 0 then -1 else length + offset

/-- The length of the file is the last result. -/
def daemon_create_sparse_file (open_ write : Bool) (daemon_ptr : DaemonTrace) : Int × DaemonTrace × Nat :=
  if !open_ then (-1, daemon_ptr, 0)
  else
    -- truncated, and then without text up to whatever is written
    let daemon_ptr := { daemon_ptr with sp := fun _ => NUL }
    let offset := lseekEnd 0 (s64 daemon_ptr.size_max)
    if s32 offset < 0 then (s32 offset, daemon_ptr, 0)
    else if !write then (-1, daemon_ptr, 0)
    else (0, { daemon_ptr with sp := put daemon_ptr.sp offset.toNat [NUL] }, offset.toNat + 1)

/-- What `record_measures` meets before its loop; `ready` is what `init_region`, the `open`
of the device and `clean_kernel_buffer` come to. -/
structure StartEnv where
  open_ : Bool
  write : Bool
  mmap : Bool
  munmap : Bool
  ready : Bool

/-- `init_daemon`, and `record_measures` up to its loop: what the loop starts from, and the
length of the file. -/
def startMeasures (e : StartEnv) (n_cpu n_read : Int) (daemon_ptr : DaemonTrace) : Option (DaemonTrace × Nat) :=
  let (ret, daemon_ptr, length) := daemon_create_sparse_file e.open_ e.write (init_daemon daemon_ptr n_cpu n_read)
  if ret < 0 then none
  else do
    let (ret, daemon_ptr) ← sparse_first_row e.mmap e.munmap daemon_ptr
    if ret < 0 then none else if !e.ready then none else some (daemon_ptr, length)

/-- What a call maps: an offset and a length. -/
def SaveCall.mapped (page_size n_cpu : Nat) (e : SaveCall) (daemon_ptr : DaemonTrace) : Option (Nat × Nat) :=
  match e.read with
  | none => none
  | some region =>
    let count_region := countRegion n_cpu region
    let size_map := sizeMap page_size count_region daemon_ptr
    if count_region > 0 ∧ e.maps size_map then some (offsetToPage page_size daemon_ptr, size_map) else none

/-- The device fills its regions with `N_UNIT` records at most. -/
def SaveCall.Bounded (n_cpu : Nat) (e : SaveCall) : Prop :=
  ∀ region, e.read = some region → ∀ i < n_cpu, (region i).count ≤ N_UNIT

/-- What the call maps is in the file. -/
def SaveCall.Inside (page_size n_cpu length : Nat) (d : DaemonTrace) (e : SaveCall) : Prop :=
  ∀ offset size, e.mapped page_size n_cpu d = some (offset, size) → offset + size ≤ length

/-! ## Room for every call -/

section

variable {page_size n_cpu length : Nat} {d : DaemonTrace} {units : List UnitBuffUser} {e : SaveCall}

/-- Without a mapping the call leaves the file alone. -/
theorem save_measure_unmapped (h : e.mapped page_size n_cpu d = none) {r : Int × DaemonTrace}
    (hcall : e.save_measure page_size n_cpu d = some r) : r.2 = d := by
  unfold SaveCall.mapped at h
  unfold SaveCall.save_measure at hcall
  split at hcall
  next => rw [← Option.some.inj hcall]
  next region hread =>
    rw [hread] at h
    simp only [ite_eq_right_iff, reduceCtorEq, imp_false, not_and, Bool.not_eq_true] at h
    dsimp only at hcall
    split at hcall
    next hcount =>
      rw [h hcount] at hcall
      rw [← Option.some.inj hcall]
    next =>
      split at hcall <;> rw [← Option.some.inj hcall]

theorem mapped_eq {offset size : Nat} (h : e.mapped page_size n_cpu d = some (offset, size)) :
    ∃ region, e.read = some region ∧ 0 < countRegion n_cpu region ∧ e.maps size ∧ offset = offsetToPage page_size d ∧
      size = sizeMap page_size (countRegion n_cpu region) d := by
  unfold SaveCall.mapped at h
  split at h
  next => cases h
  next region hread =>
    simp only [Option.ite_none_right_eq_some, Option.some.injEq, Prod.mk.injEq] at h
    obtain ⟨⟨hcount, hmaps⟩, rfl, rfl⟩ := h
    exact ⟨region, hread, hcount, hmaps, rfl, rfl⟩

/-- With one, it writes there. -/
theorem save_measure_mapped {offset size : Nat} (h : e.mapped page_size n_cpu d = some (offset, size))
    {r : Int × DaemonTrace} (hcall : e.save_measure page_size n_cpu d = some r) :
    writeRecords offset size (e.records n_cpu) d = some r.2 := by
  obtain ⟨region, hread, hcount, hmaps, rfl, rfl⟩ := mapped_eq h
  rw [records_eq hread]
  unfold SaveCall.save_measure at hcall
  rw [hread] at hcall
  dsimp only at hcall
  rw [if_pos hcount, hmaps] at hcall
  obtain ⟨d', hwrite, rfl⟩ := Option.map_eq_some_iff.1 hcall
  rw [hwrite]
  split
  · rfl
  · split <;> rfl

theorem records_length_le (h : e.Bounded n_cpu) : (e.records n_cpu).length ≤ n_cpu * N_UNIT := by
  unfold SaveCall.records
  split
  next => exact Nat.zero_le _
  next region hread =>
    have hcount := h region hread
    clear hread h
    unfold allRecords
    induction n_cpu with
    | zero => exact Nat.zero_le _
    | succ n ih =>
      have hlast := hcount n (Nat.lt_succ_self n)
      have hrest := ih fun i hi => hcount i (Nat.lt_succ_of_lt hi)
      rw [List.range_succ, List.flatMap_append, List.length_append, List.flatMap_singleton, Nat.succ_mul]
      refine Nat.add_le_add hrest ?_
      rwa [RegionMem.records, List.length_map, List.length_range]

/-- No more than the estimate for its records is mapped behind the text. -/
theorem mapped_le (hpage : 0 < page_size) (hpage' : page_size < 2 ^ 63) {offset size : Nat}
    (h : e.mapped page_size n_cpu d = some (offset, size)) :
    offset + size ≤ d.offset_map + N_CHAR_LINE * (e.records n_cpu).length := by
  obtain ⟨region, hread, hcount, hmaps, rfl, rfl⟩ := mapped_eq h
  rw [records_eq hread]
  rw [countRegion_eq] at hcount hmaps ⊢
  have hmod := Nat.mod_lt d.offset_map hpage
  have hbase := offset_sub_page page_size d
  have hbase' := offsetToPage_le page_size d
  have hlt := maps_lt hmaps
  unfold sizeMap at hlt ⊢
  have hsum := u64_add_s32 (by omega) hlt
  have hn := s32_le (x := (allRecords n_cpu region).length) (by omega)
  have hest := s32_le (x := N_CHAR_LINE * s32 (allRecords n_cpu region).length) (by unfold N_CHAR_LINE; omega)
  unfold N_CHAR_LINE at *
  omega

/-- A call that succeeds adds no more lines than it has records. -/
theorem saved_length (h : d.Holds units) {d' : DaemonTrace} (hsave : saved page_size n_cpu d e = some d') :
    ∃ units', d'.Holds units' ∧ units'.length ≤ units.length + (e.records n_cpu).length := by
  rw [saved_eq] at hsave
  cases hmapped : e.mapped page_size n_cpu d with
  | none =>
    obtain rfl : d' = d := save_measure_unmapped hmapped hsave
    exact ⟨units, h, Nat.le_add_right _ _⟩
  | some range =>
    obtain ⟨offset, size⟩ := range
    have hwrite := save_measure_mapped hmapped hsave
    obtain ⟨region, hread, hcount, -, rfl, -⟩ := mapped_eq hmapped
    rw [countRegion_eq, ← records_eq hread] at hcount
    rcases writeRecords_eq size h (offsetToPage_le page_size d) (ne_nil_of_count hcount) with
      ⟨hnone, -⟩ | ⟨d'', hsome, hholds, -⟩
    · rw [hnone] at hwrite
      cases hwrite
    · obtain rfl := Option.some.inj (hsome.symm.trans hwrite)
      exact ⟨_, hholds, Nat.le_of_eq List.length_append⟩

theorem contents_length_le (units : List UnitBuffUser) : (contents units).length ≤ FIRST_ROW.length + 159 * units.length := by
  rw [contents, List.length_append, List.flatMap_def]
  exact Nat.add_le_add_left (lines_length units).2 _

theorem holds_offset_le (h : d.Holds units) : d.offset_map ≤ FIRST_ROW.length + 159 * units.length := by
  rw [(holds_iff.1 h).2]
  exact contents_length_le units

/-- While the file is as long as the estimate for the calls still to come and the lines
there are, each of them maps what is in the file. -/
theorem along_inside (hpage : 0 < page_size) (hpage' : page_size < 2 ^ 63) : ∀ {saves : List SaveCall} {d : DaemonTrace}
    {units : List UnitBuffUser}, d.Holds units → (∀ e ∈ saves, e.Bounded n_cpu) →
    FIRST_ROW.length + N_CHAR_LINE * (units.length + saves.length * (n_cpu * N_UNIT)) ≤ length →
    along (saved page_size n_cpu) (fun d e => e.Inside page_size n_cpu length d) d saves := by
  intro saves
  induction saves with
  | nil => exact fun _ _ _ => trivial
  | cons e saves ih =>
    intro d units h hbounded hroom
    have hrecords := records_length_le (hbounded e List.mem_cons_self)
    rw [List.length_cons, Nat.succ_mul] at hroom
    unfold N_CHAR_LINE at hroom
    refine ⟨?_, ?_⟩
    · intro offset size hmapped
      have hmap := mapped_le hpage hpage' hmapped
      have hoffset := holds_offset_le h
      unfold N_CHAR_LINE at hmap
      omega
    · intro d' hsave
      obtain ⟨units', h', hunits⟩ := saved_length h hsave
      refine ih h' (fun e he => hbounded e (List.mem_cons_of_mem _ he)) ?_
      unfold N_CHAR_LINE
      omega

end

/-! ## The estimate -/

/-- `(n_read + PLUS_CHAR_LINE) * N_UNIT * N_CHAR_LINE * n_cpu`, not wrapped around. -/
def estimate (n_read n_cpu : Nat) : Nat := (n_read + PLUS_CHAR_LINE) * N_UNIT * N_CHAR_LINE * n_cpu

/-- What the lines of the reads need at most. -/
def needed (n_read n_cpu : Nat) : Nat := n_read * n_cpu * N_UNIT * N_CHAR_LINE

theorem estimate_eq (n_read n_cpu : Nat) : 
    estimate n_read n_cpu = needed n_read n_cpu + PLUS_CHAR_LINE * N_UNIT * N_CHAR_LINE * n_cpu := by
  unfold estimate needed
  ring

/-- The product is wrapped around once. -/
theorem MAX_SIZE_SP_eq (n_read n_cpu : Nat) : MAX_SIZE_SP n_read n_cpu = s32 (estimate n_read n_cpu) := by
  have hcast : (estimate n_read n_cpu : Int) = (n_read + PLUS_CHAR_LINE) * N_UNIT * N_CHAR_LINE * n_cpu := by
    unfold estimate
    push_cast
    rfl
  rw [MAX_SIZE_SP, s32_mul (n_read + PLUS_CHAR_LINE), s32_mul ((n_read + PLUS_CHAR_LINE) * N_UNIT), s32_mul, hcast]

/-- The wraps of the estimate take less off it than the reads that there are not. Or the
`int` is negative, and as an `unsigned long` it is large. -/
def SizeFits (n_cpu n_read : Nat) : Prop :=
  (estimate n_read n_cpu % 2 ^ 32 < 2 ^ 31 ∧
    estimate n_read n_cpu / 2 ^ 32 * 2 ^ 32 + FIRST_ROW.length ≤ PLUS_CHAR_LINE * N_UNIT * N_CHAR_LINE * n_cpu) ∨
  (2 ^ 31 ≤ estimate n_read n_cpu % 2 ^ 32 ∧
    FIRST_ROW.length + needed n_read n_cpu + 2 ^ 32 ≤ 2 ^ 64 + estimate n_read n_cpu % 2 ^ 32)

/-- `SizeFits` says when the stored estimate is an upper bound. -/
theorem size_max_iff (n_cpu n_read : Nat) (d : DaemonTrace) :
    FIRST_ROW.length + needed n_read n_cpu ≤ (init_daemon d n_cpu n_read).size_max ↔ SizeFits n_cpu n_read := by
  unfold init_daemon SizeFits
  rw [MAX_SIZE_SP_eq]
  have hestimate := estimate_eq n_read n_cpu
  generalize estimate n_read n_cpu = x at *
  generalize PLUS_CHAR_LINE * N_UNIT * N_CHAR_LINE * n_cpu = spare at *
  dsimp only
  unfold u64 s32 u32
  split <;> omega

/-! ## The file made -/

/-- The offset that `lseek` finds for an estimate. -/
theorem lseekEnd_size {d : DaemonTrace} {x : Int} (hsize : d.size_max = u64 x) (hx : -2 ^ 31 ≤ x ∧ x < 2 ^ 31) :
    lseekEnd 0 (s64 d.size_max) = if x < 0 then -1 else x := by
  have hs : s64 (u64 x) = x := by
    unfold s64 u64
    split <;> omega
  rw [hsize, hs, lseekEnd, Int.natCast_zero, Int.zero_add]

/-- A file that is made has no text. -/
theorem create_ok {d : DaemonTrace} {x : Int} (hsize : d.size_max = u64 x) (hx : -2 ^ 31 ≤ x ∧ x < 2 ^ 31) (h : 0 ≤ x) :
    daemon_create_sparse_file true true d = (0, { d with sp := fun _ => NUL }, d.size_max + 1) := by
  have hneg := Int.not_lt.2 h
  have hnat : x.toNat = d.size_max := by rw [hsize, u64_of_range h (by omega)]
  unfold daemon_create_sparse_file
  dsimp only
  rw [lseekEnd_size hsize hx, if_neg hneg, s32_of_range hx.1 hx.2, if_neg hneg, hnat, put_nul]
  rfl

/-- It is only made if its size is not negative in an `int`. -/
theorem create_nonneg {open_ write : Bool} {d : DaemonTrace} {x : Int} (hsize : d.size_max = u64 x)
    (hx : -2 ^ 31 ≤ x ∧ x < 2 ^ 31) (h : ¬ (daemon_create_sparse_file open_ write d).1 < 0) :
    open_ = true ∧ write = true ∧ 0 ≤ x := by
  unfold daemon_create_sparse_file at h
  dsimp only at h
  rw [lseekEnd_size hsize hx] at h
  cases open_ with
  | false => exact absurd (show (-1 : Int) < 0 by decide) h
  | true =>
    by_cases hneg : x < 0
    · rw [if_pos hneg] at h
      exact absurd (show s32 (-1) < 0 by decide) h
    · rw [if_neg hneg, s32_of_range hx.1 hx.2, if_neg hneg] at h
      cases write with
      | false => exact absurd (show (-1 : Int) < 0 by decide) h
      | true => exact ⟨rfl, rfl, Int.not_lt.1 hneg⟩

theorem sparse_first_row_ret {mmap munmap : Bool} {d d' : DaemonTrace} (hzero : d.sp = fun _ => NUL) {ret : Int}
    (h : sparse_first_row mmap munmap d = some (ret, d')) (hret : ¬ ret < 0) : ret = 0 := by
  rw [sparse_first_row_eq hzero] at h
  split at h
  · have heq := (Prod.mk.inj (Option.some.inj h)).1
    split at heq
    · exact heq.symm
    · exact absurd (heq ▸ hret) (by decide)
  · exact absurd ((Prod.mk.inj (Option.some.inj h)).1 ▸ hret) (by decide)

theorem MAX_SIZE_SP_range (n_read n_cpu : Int) : -2 ^ 31 ≤ MAX_SIZE_SP n_read n_cpu ∧ MAX_SIZE_SP n_read n_cpu < 2 ^ 31 :=
  s32_range _

theorem size_max_eq (n_cpu n_read : Int) (d : DaemonTrace) :
    (init_daemon d n_cpu n_read).size_max = u64 (MAX_SIZE_SP n_read n_cpu) := by
  rw [init_daemon]

theorem startMeasures_spec {e : StartEnv} {n_cpu n_read : Int} {d d₁ : DaemonTrace} {length : Nat}
    (h : startMeasures e n_cpu n_read d = some (d₁, length)) :
    0 ≤ MAX_SIZE_SP n_read n_cpu ∧ length = (init_daemon d n_cpu n_read).size_max + 1 ∧ d₁.Holds [] := by
  unfold startMeasures at h
  dsimp only at h
  split at h
  next => cases h
  next hret =>
    obtain ⟨hopen, hwrite, hneg⟩ := create_nonneg (size_max_eq n_cpu n_read d) (MAX_SIZE_SP_range n_read n_cpu) hret
    rw [hopen, hwrite, create_ok (size_max_eq n_cpu n_read d) (MAX_SIZE_SP_range n_read n_cpu) hneg] at h
    dsimp only at h
    obtain ⟨⟨ret, d'⟩, hfirst, h⟩ := Option.bind_eq_some_iff.1 h
    dsimp only at h
    split at h
    next => cases h
    next hret =>
      obtain rfl := sparse_first_row_ret rfl hfirst hret
      split at h
      next => cases h
      next =>
        obtain ⟨rfl, rfl⟩ := Prod.mk.inj (Option.some.inj h)
        exact ⟨hneg, rfl, sparse_first_row_holds rfl hfirst⟩

/-- When nothing fails, the loop is reached unless the `int` is negative. -/
theorem startMeasures_ok {n_cpu n_read : Int} (d : DaemonTrace) (h : 0 ≤ MAX_SIZE_SP n_read n_cpu) :
    startMeasures ⟨true, true, true, true, true⟩ n_cpu n_read d =
      some ({ init_daemon d n_cpu n_read with sp := image FIRST_ROW, offset_map := FIRST_ROW.length },
        (init_daemon d n_cpu n_read).size_max + 1) := by
  unfold startMeasures
  dsimp only
  rw [create_ok (size_max_eq n_cpu n_read d) (MAX_SIZE_SP_range n_read n_cpu) h]
  dsimp only
  rw [sparse_first_row_eq rfl]
  rfl

/-- The estimate is an upper bound, and no call of a measurement maps what is behind the end
of the file. -/
def BigEnough (page_size n_cpu n_read : Nat) (d : DaemonTrace) : Prop :=
  FIRST_ROW.length + needed n_read n_cpu ≤ (init_daemon d n_cpu n_read).size_max ∧
  ∀ e d₁ length, startMeasures e n_cpu n_read d = some (d₁, length) → ∀ saves : List SaveCall, saves.length = n_read →
    (∀ e ∈ saves, e.Bounded n_cpu) →
    along (saved page_size n_cpu) (fun d e => e.Inside page_size n_cpu length d) d₁ saves

/-- The file is big enough exactly if the estimate, wrapped around, still is. -/
theorem always_big_enough_iff {page_size : Nat} (hpage : 0 < page_size) (hpage' : page_size < 2 ^ 63) (n_cpu n_read : Nat)
    (d : DaemonTrace) : BigEnough page_size n_cpu n_read d ↔ SizeFits n_cpu n_read := by
  rw [← size_max_iff n_cpu n_read d]
  refine ⟨fun h => h.1, fun hsize => ⟨hsize, ?_⟩⟩
  intro e d₁ length hstart saves hsaves hbounded
  obtain ⟨-, hlength, hholds⟩ := startMeasures_spec hstart
  refine along_inside hpage hpage' hholds hbounded ?_
  have hneed : N_CHAR_LINE * (([] : List UnitBuffUser).length + saves.length * (n_cpu * N_UNIT)) = needed n_read n_cpu := by
    rw [hsaves, needed, List.length_nil, Nat.zero_add, Nat.mul_comm, ← Nat.mul_assoc]
  omega

theorem always_big_enough_sample : BigEnough 4096 8 1000 emptyFile := by
  refine (always_big_enough_iff (by decide) (by decide) 8 1000 emptyFile).2 (.inl ?_)
  rw [first_row.1]
  decide

/-- For 42945 reads the estimate comes to 32704 in an `int`, and the records of one read do
not fit the file. -/
theorem size_wraps : ∃ d₁, startMeasures ⟨true, true, true, true, true⟩ 1 42945 emptyFile = some (d₁, 32705) ∧
    (SaveCall.mk (some (fullRegion 500)) true true true).mapped 4096 1 d₁ = some (0, 100140) ∧
    ¬ BigEnough 4096 1 42945 emptyFile := by
  refine ⟨_, startMeasures_ok emptyFile (by decide), ?_, ?_⟩
  · have hcount : countRegion 1 (fullRegion 500) = 500 := by
      rw [countRegion_eq, fullRegion_length]
      decide
    unfold SaveCall.mapped
    dsimp only
    rw [hcount, sizeMap, offsetToPage, first_row.1]
    decide
  · intro h
    have hsize := h.1
    rw [first_row.1] at hsize
    exact absurd hsize (by decide)

end Dmacftu.Trace
