import Dmacftu.Lib.CText
import Dmacftu.TraceDaemon
/-!
# The sparse file, byte by byte

`save_measure` maps the file from the last page boundary before its end, looks for the
end of the text with `strlen`, and writes each record behind it with `sprintf`. How
much it maps is an estimate of `N_CHAR_LINE` bytes a record, in `int` arithmetic.

`sparse_file_iff`: as long as the estimate fits an `int`, the file holds the header line
and a line for each record, and nothing is written outside the mapping; a call for
which it does not fit fails or goes wrong.
-/
open Lib.CInt Lib.CText Lib.Runs

namespace Dmacftu.Trace

/-! ## The code -/

def N_CHAR_LINE : Nat := 200

/-- `struct unit_buff_user`. -/
structure UnitBuffUser where
  index_cpu_event : UInt16
  count_event : Int64
  addr : UInt64
  size : UInt64
  type_op : UInt16
  index_cpu : UInt16
  clock_cpu_start : UInt64
  clock_cpu_end : UInt64

def OP_CPU : UInt16 := 1
def OP_DMA : UInt16 := 2

/-- What is printed of a record. -/
def UnitBuffUser.line (unit : UnitBuffUser) : Line where
  index_cpu_event := unit.index_cpu_event.toNat
  count_event := unit.count_event.toUInt64.toNat
  size := unit.size.toNat
  index_cpu := unit.index_cpu.toNat
  clock_cpu_start := unit.clock_cpu_start.toNat
  clock_cpu_end := unit.clock_cpu_end.toNat
  time_op := diff_time unit.clock_cpu_start.toNat unit.clock_cpu_end.toNat
  addr := unit.addr.toNat
  type_op := if unit.type_op = OP_CPU then "CPU" else if unit.type_op = OP_DMA then "DMA" else "NO DEF"

/-- `"%d    %13llu%17lu%10d%21llu%21llu%15llu%24p%13s\n"`. -/
def Line.text (l : Line) : List Char :=
  decimal l.index_cpu_event ++ "    ".toList ++ pad 13 (decimal l.count_event) ++ pad 17 (decimal l.size) ++
    pad 10 (decimal l.index_cpu) ++ pad 21 (decimal l.clock_cpu_start) ++ pad 21 (decimal l.clock_cpu_end) ++
    pad 15 (decimal l.time_op) ++ pad 24 (pointer l.addr) ++ pad 13 l.type_op.toList ++ ['\n']

/-- The part of `struct daemon_trace` that is about the sparse file, and the file. -/
structure DaemonTrace where
  size_max : Nat
  offset_map : Nat
  sp : Memory

def FIRST_ROW : List Char :=
  ("#[cpu]CounterEvent     Byte Copiati  end[cpu]     StartTime___(ns)       EndTime___(ns)   " ++
    "DiffTime(ns)             ReturnPoint      Type_op\n").toList

/-- `strncpy` fills up with `NUL`s. -/
def strncpy (mem : Memory) (dest : Nat) (src : List Char) (n : Nat) : Memory :=
  put mem dest (src.take n ++ List.replicate (n - src.length) NUL)

/-- It is `none` where the code would leave its mapping, as the functions below are. -/
def sparse_first_row (mmap munmap : Bool) (daemon_ptr : DaemonTrace) : Option (Int × DaemonTrace) :=
  if !mmap then some (-EINVAL, daemon_ptr)
  else do
    let sp := strncpy daemon_ptr.sp 0 FIRST_ROW N_CHAR_LINE
    let n ← strlen sp 0 N_CHAR_LINE
    let daemon_ptr := { daemon_ptr with sp, offset_map := n }
    if !munmap then return (-EINVAL, daemon_ptr) else return (0, daemon_ptr)

/-- What a call of `save_measure` meets: the batch, unless the read is short, and the
outcomes of the other system calls. -/
structure SaveCall where
  read : Option (Nat → RegionMem UnitBuffUser)
  mmap : Bool
  munmap : Bool
  lseek : Bool

/-- A mapping of no bytes, or of more than there are addresses, is refused. -/
def SaveCall.maps (e : SaveCall) (size_map : Nat) : Bool := e.mmap && 0 < size_map && size_map < 2 ^ 63

/-- The sum of the counts, in an `int`. -/
def countRegion (n_cpu : Nat) (region : Nat → RegionMem UnitBuffUser) : Int :=
  (List.range n_cpu).foldl (fun count_region i => s32 (count_region + (region i).count)) 0

/-- The records, CPU by CPU. -/
def allRecords (n_cpu : Nat) (region : Nat → RegionMem UnitBuffUser) : List UnitBuffUser :=
  (List.range n_cpu).flatMap fun i => (region i).records

def offsetToPage (page_size : Nat) (daemon_ptr : DaemonTrace) : Nat :=
  daemon_ptr.offset_map - daemon_ptr.offset_map % page_size

def sizeMap (page_size : Nat) (count_region : Int) (daemon_ptr : DaemonTrace) : Nat :=
  u64 ((daemon_ptr.offset_map % page_size : Nat) + s32 (N_CHAR_LINE * count_region))

/-- Writes the records to the mapping, and moves the offset to the end of the text. -/
def writeRecords (offset_to_page size_map : Nat) (units : List UnitBuffUser) (daemon_ptr : DaemonTrace) :
    Option DaemonTrace := do
  let sp ← (units.map fun unit => unit.line.text).foldlM (append offset_to_page size_map) daemon_ptr.sp
  let n ← strlen sp offset_to_page size_map
  return { daemon_ptr with sp, offset_map := offset_to_page + n }

def SaveCall.save_measure (page_size n_cpu : Nat) (e : SaveCall) (daemon_ptr : DaemonTrace) : Option (Int × DaemonTrace) :=
  match e.read with
  | none => some (-EFAULT, daemon_ptr)
  | some region =>
    let count_region := countRegion n_cpu region
    if count_region > 0 then
      let offset_to_page := offsetToPage page_size daemon_ptr
      let size_map := sizeMap page_size count_region daemon_ptr
      if !e.maps size_map then some (-1, daemon_ptr)
      else (writeRecords offset_to_page size_map (allRecords n_cpu region) daemon_ptr).map fun daemon_ptr =>
        if !e.munmap then (-EINVAL, daemon_ptr) else if !e.lseek then (-EINVAL, daemon_ptr) else (0, daemon_ptr)
    else if !e.lseek then some (-EINVAL, daemon_ptr) else some (0, daemon_ptr)

/-! ## Lines -/

theorem u64_decimal (n : UInt64) : (decimal n.toNat).length ≤ 20 :=
  decimal_length_le (by decide) (Nat.lt_of_lt_of_le n.toNat_lt (by decide))

theorem u16_decimal (n : UInt16) : (decimal n.toNat).length ≤ 5 :=
  decimal_length_le (by decide) (Nat.lt_of_lt_of_le n.toNat_lt (by decide))

theorem diff_time_le (start end_ : Nat) : diff_time start end_ ≤ end_ := by
  unfold diff_time
  split
  · exact Nat.zero_le _
  · exact Nat.sub_le _ _

theorem type_op_text (unit : UnitBuffUser) : unit.line.type_op.toList.length ≤ 6 ∧ Printable unit.line.type_op.toList := by
  unfold UnitBuffUser.line
  dsimp only
  split
  · decide
  · split <;> decide

/-- Whatever the fields are, a line is well below `N_CHAR_LINE`. -/
theorem text_length (unit : UnitBuffUser) : 140 ≤ unit.line.text.length ∧ unit.line.text.length ≤ 159 := by
  have hevent := u16_decimal unit.index_cpu_event
  have hevent' := decimal_length_pos unit.index_cpu_event.toNat
  have hcount := u64_decimal unit.count_event.toUInt64
  have hsize := u64_decimal unit.size
  have hcpu := u16_decimal unit.index_cpu
  have hstart := u64_decimal unit.clock_cpu_start
  have hend := u64_decimal unit.clock_cpu_end
  have hdiff : (decimal (diff_time unit.clock_cpu_start.toNat unit.clock_cpu_end.toNat)).length ≤ 20 :=
    decimal_length_le (by decide) (Nat.lt_of_le_of_lt (diff_time_le _ _)
      (Nat.lt_of_lt_of_le (UInt64.toNat_lt _) (by decide)))
  have haddr : (pointer unit.addr.toNat).length ≤ 18 :=
    pointer_length_le (k := 16) (by decide) (Nat.lt_of_lt_of_le unit.addr.toNat_lt (by decide))
  have htype := (type_op_text unit).1
  have hblank : "    ".toList.length = 4 := by decide
  simp only [Line.text, List.length_append, pad_length, List.length_singleton, hblank]
  simp only [UnitBuffUser.line] at htype ⊢
  omega

/-- A line without its end. -/
def Line.row (l : Line) : List Char :=
  decimal l.index_cpu_event ++ "    ".toList ++ pad 13 (decimal l.count_event) ++ pad 17 (decimal l.size) ++
    pad 10 (decimal l.index_cpu) ++ pad 21 (decimal l.clock_cpu_start) ++ pad 21 (decimal l.clock_cpu_end) ++
    pad 15 (decimal l.time_op) ++ pad 24 (pointer l.addr) ++ pad 13 l.type_op.toList

theorem text_row (l : Line) : l.text = l.row ++ ['\n'] := rfl

theorem printable_row (unit : UnitBuffUser) : Printable unit.line.row := by
  have hpad : ∀ w n, Printable (pad w (decimal n)) := fun w n => (graphic_decimal n).printable.pad w
  unfold Line.row
  refine .append (.append (.append (.append (.append (.append (.append (.append (.append ?_ ?_) (hpad _ _)) (hpad _ _))
    (hpad _ _)) (hpad _ _)) (hpad _ _)) (hpad _ _)) ((graphic_pointer _).printable.pad _)) ((type_op_text unit).2.pad _)
  · exact (graphic_decimal _).printable
  · decide

theorem nul_not_mem_text (unit : UnitBuffUser) : NUL ∉ unit.line.text := by
  rw [text_row, List.mem_append]
  exact not_or.2 ⟨(printable_row unit).nul_not_mem, by decide⟩

/-! ## The file -/

/-- The header line, and a line for each record. -/
def contents (units : List UnitBuffUser) : List Char := FIRST_ROW ++ units.flatMap fun unit => unit.line.text

/-- The text of the file is these records', up to `offset_map`, and behind it there is
nothing. -/
structure DaemonTrace.Holds (d : DaemonTrace) (units : List UnitBuffUser) : Prop where
  text : (List.range d.offset_map).map d.sp = contents units
  no_nul : ∀ i < d.offset_map, d.sp i ≠ NUL
  zero : ∀ i, d.offset_map ≤ i → d.sp i = NUL

theorem first_row : FIRST_ROW.length = 140 ∧ NUL ∉ FIRST_ROW := by decide +kernel

theorem nul_not_mem_contents (units : List UnitBuffUser) : NUL ∉ contents units := by
  intro hmem
  rcases List.mem_append.1 hmem with hmem | hmem
  · exact first_row.2 hmem
  · obtain ⟨unit, -, hmem⟩ := List.mem_flatMap.1 hmem
    exact nul_not_mem_text unit hmem

theorem contents_nil : contents [] = FIRST_ROW := by rw [contents, List.flatMap_nil, List.append_nil]

theorem contents_append (units units' : List UnitBuffUser) :
    contents (units ++ units') = contents units ++ (units'.map fun unit => unit.line.text).flatten := by
  rw [contents, contents, List.flatMap_append, List.append_assoc, List.flatMap_def (l := units')]

theorem holds_iff {d : DaemonTrace} {units : List UnitBuffUser} :
    d.Holds units ↔ d.sp = image (contents units) ∧ d.offset_map = (contents units).length := by
  constructor
  · intro h
    have hlen : d.offset_map = (contents units).length := by
      rw [← h.text, List.length_map, List.length_range]
    refine ⟨funext fun i => ?_, hlen⟩
    by_cases hi : i < d.offset_map
    · rw [image, ← h.text, List.getElem?_map, List.getElem?_range hi]
      rfl
    · rw [image_of_le (by omega), h.zero i (by omega)]
  · rintro ⟨hsp, hlen⟩
    refine ⟨?_, ?_, ?_⟩
    · rw [hsp, hlen]
      apply List.ext_getElem
      · simp
      · intro i _ hi
        rw [List.getElem_map, List.getElem_range, image_of_lt hi]
    · intro i hi
      rw [hsp]
      exact image_ne (nul_not_mem_contents units) (hlen ▸ hi)
    · intro i hi
      rw [hsp]
      exact image_of_le (hlen ▸ hi)

/-- Lines are neither too short nor too long. -/
theorem lines_length (units : List UnitBuffUser) :
    140 * units.length ≤ (units.map fun unit => unit.line.text).flatten.length ∧
      (units.map fun unit => unit.line.text).flatten.length ≤ 159 * units.length := by
  induction units with
  | nil => exact ⟨Nat.le_refl 0, Nat.le_refl 0⟩
  | cons unit units ih =>
    obtain ⟨hlo, hhi⟩ := text_length unit
    rw [List.map_cons, List.flatten_cons, List.length_append, List.length_cons]
    omega

/-! ## One call -/

section

variable {page_size n_cpu : Nat} {d : DaemonTrace} {units units' : List UnitBuffUser} {offset_to_page size_map : Nat}

theorem writeRecords_eq (size_map : Nat) (h : d.Holds units) (hbase : offset_to_page ≤ d.offset_map) (hne : units' ≠ []) :
    (writeRecords offset_to_page size_map units' d = none ∧ size_map ≤ d.offset_map - offset_to_page +
      (units'.map fun unit => unit.line.text).flatten.length) ∨
    ∃ d', writeRecords offset_to_page size_map units' d = some d' ∧ d'.Holds (units ++ units') ∧
      d.offset_map - offset_to_page + (units'.map fun unit => unit.line.text).flatten.length < size_map := by
  obtain ⟨hsp, hlen⟩ := holds_iff.1 h
  rw [hlen] at hbase ⊢
  have hlines : ∀ s ∈ units'.map fun unit => unit.line.text, NUL ∉ s := by
    intro s hs
    obtain ⟨unit, -, rfl⟩ := List.mem_map.1 hs
    exact nul_not_mem_text unit
  have hlength := congrArg List.length (contents_append units units')
  rw [List.length_append] at hlength
  unfold writeRecords
  rw [hsp, appends_image (nul_not_mem_contents units) hlines hbase, ← contents_append]
  by_cases hroom :
    (contents units).length - offset_to_page + (units'.map fun unit => unit.line.text).flatten.length < size_map
  · right
    have hbase' : offset_to_page ≤ (contents (units ++ units')).length := by omega
    rw [if_pos (.inr hroom), Option.bind_eq_bind, Option.bind_some, strlen_image (nul_not_mem_contents _) hbase',
      if_pos (by omega), Option.bind_eq_bind, Option.bind_some]
    refine ⟨_, rfl, ?_, hroom⟩
    rw [holds_iff, Nat.add_sub_cancel' hbase']
    simp
  · left
    rw [if_neg (by rw [List.map_eq_nil_iff]; exact not_or.2 ⟨hne, hroom⟩)]
    exact ⟨rfl, Nat.not_lt.1 hroom⟩

theorem countRegion_eq (n_cpu : Nat) (region : Nat → RegionMem UnitBuffUser) :
    countRegion n_cpu region = s32 (allRecords n_cpu region).length := by
  unfold countRegion allRecords
  induction n_cpu with
  | zero => rfl
  | succ n ih =>
    rw [List.range_succ, List.foldl_append, ih, List.flatMap_append, List.length_append]
    show s32 (s32 _ + _) = _
    rw [s32_add]
    simp [RegionMem.records]

/-- The records of a call, and whether the estimate for them fits an `int`. -/
def SaveCall.records (e : SaveCall) (n_cpu : Nat) : List UnitBuffUser :=
  match e.read with
  | none => []
  | some region => allRecords n_cpu region

def SaveCall.Small (e : SaveCall) (n_cpu : Nat) : Prop := N_CHAR_LINE * (e.records n_cpu).length < 2 ^ 31

instance (e : SaveCall) (n_cpu : Nat) : Decidable (e.Small n_cpu) := inferInstanceAs (Decidable (_ < _))

theorem offsetToPage_le (page_size : Nat) (d : DaemonTrace) : offsetToPage page_size d ≤ d.offset_map := Nat.sub_le _ _

theorem offset_sub_page (page_size : Nat) (d : DaemonTrace) :
    d.offset_map - offsetToPage page_size d = d.offset_map % page_size := by
  have := Nat.mod_le d.offset_map page_size
  unfold offsetToPage
  omega

theorem maps_lt {e : SaveCall} (h : e.maps size_map = true) : size_map < 2 ^ 63 := by
  simp only [SaveCall.maps, Bool.and_eq_true, decide_eq_true_eq] at h
  exact h.2

theorem ne_nil_of_count (h : 0 < s32 units.length) : units ≠ [] := by
  rintro rfl
  exact absurd h (by decide)

/-- The ways a call that reports no error goes. -/
theorem save_measure_cases {e : SaveCall} (hok : ∀ r, e.save_measure page_size n_cpu d = some r → r.1 = 0) :
    ∃ region, e.read = some region ∧
      ((countRegion n_cpu region ≤ 0 ∧ e.save_measure page_size n_cpu d = some (0, d)) ∨
      (0 < countRegion n_cpu region ∧ sizeMap page_size (countRegion n_cpu region) d < 2 ^ 63 ∧
        e.save_measure page_size n_cpu d = (writeRecords (offsetToPage page_size d)
          (sizeMap page_size (countRegion n_cpu region) d) (allRecords n_cpu region) d).map fun d' => (0, d'))) := by
  unfold SaveCall.save_measure at hok ⊢
  cases hread : e.read with
  | none =>
    rw [hread] at hok
    exact absurd (show (-EFAULT : Int) = 0 from hok _ rfl) (by decide)
  | some region =>
    rw [hread] at hok
    refine ⟨region, rfl, ?_⟩
    dsimp only at hok ⊢
    by_cases hcount : countRegion n_cpu region > 0
    · right
      rw [if_pos hcount] at hok ⊢
      cases hmaps : e.maps (sizeMap page_size (countRegion n_cpu region) d) with
      | false =>
        rw [hmaps] at hok
        exact absurd (show (-1 : Int) = 0 from hok _ rfl) (by decide)
      | true =>
        rw [hmaps] at hok
        refine ⟨hcount, maps_lt hmaps, ?_⟩
        cases hw : writeRecords (offsetToPage page_size d) (sizeMap page_size (countRegion n_cpu region) d)
          (allRecords n_cpu region) d with
        | none => rfl
        | some d' =>
          rw [hw] at hok
          have hret := hok _ rfl
          cases hmunmap : e.munmap <;> cases hlseek : e.lseek <;> simp [hmunmap, hlseek] at hret ⊢
          all_goals exact absurd hret (by decide)
    · left
      rw [if_neg hcount] at hok ⊢
      cases hlseek : e.lseek with
      | false =>
        rw [hlseek] at hok
        exact absurd (show (-EINVAL : Int) = 0 from hok _ rfl) (by decide)
      | true => exact ⟨Int.not_lt.1 hcount, rfl⟩

theorem records_eq {e : SaveCall} {region : Nat → RegionMem UnitBuffUser} (h : e.read = some region) :
    e.records n_cpu = allRecords n_cpu region := by
  rw [SaveCall.records, h]

/-- What is mapped behind the text is less than the lines need, unless the estimate for
them fits an `int`. -/
theorem sizeMap_room {n lines : Nat} (hpage : 0 < page_size) (hpage' : page_size < 2 ^ 63) (hlines : 140 * n ≤ lines)
    (hlt : sizeMap page_size (s32 n) d < 2 ^ 63) (hroom : d.offset_map % page_size + lines < sizeMap page_size (s32 n) d) :
    N_CHAR_LINE * n < 2 ^ 31 := by
  have hmod := Nat.mod_lt d.offset_map hpage
  unfold sizeMap at hlt hroom
  have hsum := u64_add_s32 (by omega) hlt
  have hest := (s32_range (N_CHAR_LINE * s32 n)).2
  have hfits : (lines : Int) < s32 (N_CHAR_LINE * s32 n) := by omega
  have hn : 140 * n < 2 ^ 31 := by omega
  rw [s32_of_range (x := n) (by omega) (by omega)] at hfits
  unfold N_CHAR_LINE at hfits ⊢
  have := lt_of_s32_nonneg (x := (200 : Nat) * (n : Int)) (by omega) (by omega)
  omega

theorem sizeMap_small {n : Nat} (hpage : 0 < page_size) (hpage' : page_size < 2 ^ 63) (h : N_CHAR_LINE * n < 2 ^ 31) :
    sizeMap page_size (s32 n) d = d.offset_map % page_size + N_CHAR_LINE * n := by
  have hmod := Nat.mod_lt d.offset_map hpage
  unfold sizeMap N_CHAR_LINE at *
  rw [s32_of_range (x := n) (by omega) (by omega), s32_of_range (by omega) (by omega), u64_of_range (by omega) (by omega)]
  omega

/-- There is room for the lines when the estimate for them fits. -/
theorem writeRecords_small (h : d.Holds units) (hpage : 0 < page_size) (hpage' : page_size < 2 ^ 63) (hne : units' ≠ [])
    (hsmall : N_CHAR_LINE * units'.length < 2 ^ 31) :
    ∃ d', writeRecords (offsetToPage page_size d) (sizeMap page_size (s32 units'.length) d) units' d = some d' ∧
      d'.Holds (units ++ units') := by
  have hlines := (lines_length units').2
  have hpos := List.length_pos_iff.2 hne
  rcases writeRecords_eq (sizeMap page_size (s32 units'.length) d) h (offsetToPage_le page_size d) hne with
    ⟨-, hroom⟩ | ⟨d', hsome, hholds, -⟩
  · rw [offset_sub_page, sizeMap_small hpage hpage' hsmall] at hroom
    unfold N_CHAR_LINE at hroom
    omega
  · exact ⟨d', hsome, hholds⟩

/-- What a call comes to when the estimate for its records fits: the system calls decide,
and the file gets the lines unless it cannot be mapped. -/
theorem save_measure_small (h : d.Holds units) (hpage : 0 < page_size) (hpage' : page_size ≤ 2 ^ 62) {e : SaveCall}
    {region : Nat → RegionMem UnitBuffUser} (hread : e.read = some region)
    (hsmall : N_CHAR_LINE * (allRecords n_cpu region).length < 2 ^ 31) :
    ∃ d', d'.Holds (units ++ allRecords n_cpu region) ∧ e.save_measure page_size n_cpu d = some
      (if (allRecords n_cpu region).length > 0 then
        if !e.mmap then (-1, d) else if !e.munmap then (-EINVAL, d') else if !e.lseek then (-EINVAL, d') else (0, d')
      else if !e.lseek then (-EINVAL, d') else (0, d')) := by
  have hcount : countRegion n_cpu region = (allRecords n_cpu region).length := by
    rw [countRegion_eq, s32_of_range (by omega) (by unfold N_CHAR_LINE at hsmall; omega)]
  unfold SaveCall.save_measure
  rw [hread]
  dsimp only
  by_cases hpos : (allRecords n_cpu region).length > 0
  · obtain ⟨d', hwrite, hholds⟩ := writeRecords_small h hpage (by omega) (List.length_pos_iff.1 hpos) hsmall
    have hmaps : e.maps (sizeMap page_size (s32 (allRecords n_cpu region).length) d) = e.mmap := by
      have hmod := Nat.mod_lt d.offset_map hpage
      rw [SaveCall.maps, sizeMap_small hpage (by omega) hsmall]
      unfold N_CHAR_LINE at hsmall ⊢
      rw [decide_eq_true (by omega), decide_eq_true (by omega), Bool.and_true, Bool.and_true]
    refine ⟨d', hholds, ?_⟩
    rw [if_pos (by omega), if_pos hpos, countRegion_eq, hmaps, hwrite]
    cases e.mmap with
    | false => rfl
    | true => cases e.munmap <;> cases e.lseek <;> rfl
  · have hnil : allRecords n_cpu region = [] := List.eq_nil_of_length_eq_zero (by omega)
    refine ⟨d, ?_, ?_⟩
    · rwa [hnil, List.append_nil]
    · rw [if_neg (by omega), if_neg hpos]
      cases e.lseek <;> rfl

/-- A call that reports no error goes right exactly if the estimate for its records fits
an `int`. -/
theorem save_measure_holds_iff (h : d.Holds units) (hpage : 0 < page_size) (hpage' : page_size < 2 ^ 63) {e : SaveCall}
    (hok : ∀ r, e.save_measure page_size n_cpu d = some r → r.1 = 0) :
    (∃ d', e.save_measure page_size n_cpu d = some (0, d') ∧ d'.Holds (units ++ e.records n_cpu)) ↔ e.Small n_cpu := by
  obtain ⟨region, hread, hcall⟩ := save_measure_cases hok
  rw [SaveCall.Small, records_eq hread]
  rw [countRegion_eq] at hcall
  have hlines := lines_length (allRecords n_cpu region)
  rcases hcall with ⟨hcount, hcall⟩ | ⟨hcount, hlt, hcall⟩
  · rw [hcall]
    constructor
    · rintro ⟨d', hd', hholds⟩
      obtain rfl := (Prod.mk.inj (Option.some.inj hd')).2
      -- the file is what it was, so the lines are no characters at all
      have hlen := (holds_iff.1 h).2.symm.trans (holds_iff.1 hholds).2
      rw [contents_append, List.length_append] at hlen
      have hnone : (allRecords n_cpu region).length = 0 := by omega
      rw [hnone]
      decide
    · intro hsmall
      rw [s32_of_range (by omega) (by unfold N_CHAR_LINE at hsmall; omega)] at hcount
      have hnone : allRecords n_cpu region = [] := List.eq_nil_of_length_eq_zero (by omega)
      rw [hnone, List.append_nil]
      exact ⟨d, rfl, h⟩
  · have hne := ne_nil_of_count hcount
    rw [hcall]
    constructor
    · rintro ⟨d', hd', -⟩
      rcases writeRecords_eq (sizeMap page_size (s32 (allRecords n_cpu region).length) d) h (offsetToPage_le page_size d) hne
        with ⟨hnone, -⟩ | ⟨d'', -, -, hroom⟩
      · rw [hnone] at hd'
        cases hd'
      · rw [offset_sub_page] at hroom
        exact sizeMap_room hpage hpage' hlines.1 hlt hroom
    · intro hsmall
      obtain ⟨d', hwrite, hholds⟩ := writeRecords_small h hpage hpage' hne hsmall
      rw [hwrite]
      exact ⟨d', rfl, hholds⟩

/-! ## A session -/

/-- The header line in a file without text. -/
theorem sparse_first_row_eq {mmap munmap : Bool} {d : DaemonTrace} (hzero : d.sp = fun _ => NUL) :
    sparse_first_row mmap munmap d = if mmap then some (if munmap then 0 else -EINVAL,
      { d with sp := image FIRST_ROW, offset_map := FIRST_ROW.length }) else some (-EINVAL, d) := by
  obtain ⟨hlen, hnul⟩ := first_row
  have hcopy : strncpy d.sp 0 FIRST_ROW N_CHAR_LINE = image FIRST_ROW := by
    have hput := put_image [] FIRST_ROW (N_CHAR_LINE - FIRST_ROW.length)
    rw [List.length_nil, List.nil_append, image_nil] at hput
    rw [strncpy, hzero, List.take_of_length_le (by rw [hlen]; decide), hput]
  have hstrlen : strlen (image FIRST_ROW) 0 N_CHAR_LINE = some FIRST_ROW.length := by
    rw [strlen_image hnul (Nat.zero_le _), Nat.sub_zero, if_pos (by rw [hlen]; decide)]
  unfold sparse_first_row
  dsimp only
  rw [hcopy, hstrlen, Option.bind_eq_bind, Option.bind_some]
  cases mmap
  · rfl
  · cases munmap <;> rfl

theorem sparse_first_row_holds {mmap munmap : Bool} {d d' : DaemonTrace} (hzero : d.sp = fun _ => NUL)
    (h : sparse_first_row mmap munmap d = some (0, d')) : d'.Holds [] := by
  rw [sparse_first_row_eq hzero] at h
  rw [holds_iff, contents_nil]
  -- the text is 140 characters, which nothing here is to count
  generalize FIRST_ROW = text at h ⊢
  cases mmap with
  | false => exact absurd (Prod.mk.inj (Option.some.inj h)).1 (by decide)
  | true =>
    obtain rfl := (Prod.mk.inj (Option.some.inj h)).2
    exact ⟨rfl, rfl⟩

/-- A call that succeeds. -/
def saved (page_size n_cpu : Nat) (d : DaemonTrace) (e : SaveCall) : Option DaemonTrace :=
  match e.save_measure page_size n_cpu d with
  | some (ret, d') => if ret = 0 then some d' else none
  | none => none

theorem saved_eq {d' : DaemonTrace} {e : SaveCall} :
    saved page_size n_cpu d e = some d' ↔ e.save_measure page_size n_cpu d = some (0, d') := by
  unfold saved
  split
  next ret d'' hcall =>
    rw [hcall]
    simp only [Option.ite_none_right_eq_some, Option.some.injEq, Prod.mk.injEq]
  next hcall =>
    rw [hcall]
    simp only [reduceCtorEq]

theorem saved_holds (h : d.Holds units) (hpage : 0 < page_size) (hpage' : page_size < 2 ^ 63) {e : SaveCall}
    {d' : DaemonTrace} (hsmall : e.Small n_cpu) (hsave : saved page_size n_cpu d e = some d') : d'.Holds (units ++ e.records n_cpu) := by
  rw [saved_eq] at hsave
  have hok : ∀ r, e.save_measure page_size n_cpu d = some r → r.1 = 0 := by
    intro r hr
    rw [hsave] at hr
    rw [← Option.some.inj hr]
  obtain ⟨d'', hd'', hholds⟩ := (save_measure_holds_iff h hpage hpage' hok).2 hsmall
  rw [hsave] at hd''
  obtain rfl := (Prod.mk.inj (Option.some.inj hd'')).2
  exact hholds

theorem run_holds (hpage : 0 < page_size) (hpage' : page_size < 2 ^ 63) : ∀ {calls : List SaveCall} {d d' : DaemonTrace}
    {units : List UnitBuffUser}, d.Holds units → (∀ e ∈ calls, e.Small n_cpu) →
    exec (saved page_size n_cpu) d calls = some d' → d'.Holds (units ++ calls.flatMap fun e => e.records n_cpu) := by
  intro calls
  induction calls with
  | nil =>
    intro d d' units h _ hrun
    cases hrun
    rwa [List.flatMap_nil, List.append_nil]
  | cons e calls ih =>
    intro d d' units h hsmall hrun
    obtain ⟨d₁, hsave, hrun⟩ := exec_cons.1 hrun
    have h₁ := saved_holds h hpage hpage' (hsmall e List.mem_cons_self) hsave
    rw [List.flatMap_cons, ← List.append_assoc]
    exact ih h₁ (fun e he => hsmall e (List.mem_cons_of_mem _ he)) hrun

end

/-- After the header line and any calls for which the estimate fits an `int`, the file is
the header line and a line for each record, and `NUL`s behind them; and the next call
keeps inside its mapping and leaves it so exactly if the estimate for it does. The
file has no end here. -/
theorem sparse_file_iff {page_size n_cpu : Nat} (hpage : 0 < page_size) (hpage' : page_size < 2 ^ 63) {mmap munmap : Bool}
    {d₀ d₁ d : DaemonTrace} (hzero : d₀.sp = fun _ => NUL) (hfirst : sparse_first_row mmap munmap d₀ = some (0, d₁))
    {calls : List SaveCall} (hsmall : ∀ e ∈ calls, e.Small n_cpu)
    (hrun : exec (saved page_size n_cpu) d₁ calls = some d) :
    d.Holds (calls.flatMap fun e => e.records n_cpu) ∧
    ∀ e : SaveCall, (∀ r, e.save_measure page_size n_cpu d = some r → r.1 = 0) →
      ((∃ d', e.save_measure page_size n_cpu d = some (0, d') ∧
        d'.Holds ((calls.flatMap fun e => e.records n_cpu) ++ e.records n_cpu)) ↔ e.Small n_cpu) := by
  have h : d.Holds (calls.flatMap fun e => e.records n_cpu) :=
    run_holds hpage hpage' (sparse_first_row_holds hzero hfirst) hsmall hrun
  exact ⟨h, fun e hok => save_measure_holds_iff h hpage hpage' hok⟩

/-- `n` records for each CPU. -/
def fullRegion (n : Nat) : Nat → RegionMem UnitBuffUser :=
  fun i => ⟨n, fun j => ⟨i.toUInt16, j.toInt64, 4096, 512, OP_CPU, 0, 10, 20⟩⟩

theorem fullRegion_length (n_cpu n : Nat) : (allRecords n_cpu (fullRegion n)).length = n_cpu * n := by
  simp [allRecords, fullRegion, RegionMem.records]

def emptyFile : DaemonTrace := ⟨0, 0, fun _ => NUL⟩

theorem sparse_file_iff_sample : ∃ d₁ d, sparse_first_row true true emptyFile = some (0, d₁) ∧
    exec (saved 4096 2) d₁ [⟨some (fullRegion 1), true, true, true⟩] = some d ∧ d.Holds (allRecords 2 (fullRegion 1)) := by
  have hfirst := @sparse_first_row_eq true true emptyFile rfl
  have hsmall : N_CHAR_LINE * (allRecords 2 (fullRegion 1)).length < 2 ^ 31 := by decide
  obtain ⟨d, -, hcall⟩ := save_measure_small (e := ⟨some (fullRegion 1), true, true, true⟩)
    (sparse_first_row_holds rfl hfirst) (show 0 < 4096 by decide) (by decide) rfl hsmall
  have hrun : exec (saved 4096 2) _ [⟨some (fullRegion 1), true, true, true⟩] = some d :=
    exec_cons.2 ⟨d, saved_eq.2 hcall, rfl⟩
  exact ⟨_, d, hfirst, hrun, (sparse_file_iff (by decide) (by decide) rfl hfirst (by
    intro e he
    obtain rfl := List.mem_singleton.1 he
    exact hsmall) hrun).1⟩

/-- 200 times the 21475000 records of 42950 CPUs comes to 32704 in an `int`. -/
theorem estimate_wraps : ∃ d₁, sparse_first_row true true emptyFile = some (0, d₁) ∧ (∀ i, (fullRegion 500 i).count ≤ 500) ∧
    (SaveCall.mk (some (fullRegion 500)) true true true).save_measure 4096 42950 d₁ = none := by
  have hfirst := @sparse_first_row_eq true true emptyFile rfl
  refine ⟨_, hfirst, fun _ => Nat.le_refl 500, ?_⟩
  have hlen : (allRecords 42950 (fullRegion 500)).length = 21475000 := fullRegion_length 42950 500
  have hne : allRecords 42950 (fullRegion 500) ≠ [] := by
    intro hnil
    rw [hnil] at hlen
    cases hlen
  have hcount : countRegion 42950 (fullRegion 500) = 21475000 := by
    rw [countRegion_eq, hlen]
    decide
  have hlines := (lines_length (allRecords 42950 (fullRegion 500))).1
  have hsize : sizeMap 4096 21475000 { emptyFile with sp := image FIRST_ROW, offset_map := FIRST_ROW.length } = 32844 := by
    rw [sizeMap, first_row.1]
    decide
  have hmaps : (SaveCall.mk (some (fullRegion 500)) true true true).maps 32844 = true := by decide
  unfold SaveCall.save_measure
  dsimp only
  rw [hcount, hsize, if_pos (by decide), hmaps]
  rcases writeRecords_eq 32844 (sparse_first_row_holds rfl hfirst) (offsetToPage_le 4096 _) hne with
    ⟨hnone, -⟩ | ⟨d', -, -, hroom⟩
  · rw [hnone]
    rfl
  · omega

end Dmacftu.Trace
