import Dmacftu.DmaCopy
import Dmacftu.Lib.CDouble
import Dmacftu.Lib.Doubling
import Dmacftu.TraceDaemon
import Dmacftu.WriteLoop
/-!
# The daemon of the Msg benchmark

For each size, `record_measures` writes the header line to the measures file, has the driver
make its copies, and writes a line for each of them; and a line about all of them to the
synthesis file.

`measures_files_iff`: when it returns 0 each of the two files is what it should be exactly if
all of its lines took one write.
-/
open Lib.Borders Lib.CDouble Lib.CInt Lib.CText Lib.Transfers
open Dmacftu.Lines

namespace Dmacftu.MsgDaemon

/-! ## The code -/

def ID_MEASURE : Int := 0
def ID_SYNTH : Int := 1
def N_UNIT : Nat := 300

/-- `struct unit_buff_user`. -/
structure UnitBuffUser where
  index_cpu : UInt16
  size : UInt64
  clock_cpu_start : UInt64
  clock_cpu_end : UInt64

/-- `struct region_mem`. -/
structure RegionMem where
  count : Nat
  buffer : Nat → UnitBuffUser

def RegionMem.records (region : RegionMem) : List UnitBuffUser := (List.range region.count).map region.buffer

/-- `sizeof(struct region_mem)`. -/
def SIZEOF_REGION_MEM : Nat := 8 + 32 * N_UNIT

def diff_time (start end_ : Nat) : Nat := Trace.diff_time start end_

def MEASURE_ROW : List Char :=
  "#index_cpu    Byte Copiati     StartTime___(ns)       EndTime___(ns)         DiffTime(ns)\n".toList

def SYNTH_ROW : List Char :=
  ("#    Byte Copiati           Min           Max             Average              Variance              " ++
    "Median\n").toList

def firstRow (type : Int) : List Char :=
  if type = ID_SYNTH then SYNTH_ROW else if type = ID_MEASURE then MEASURE_ROW else []

def writeResult (ok : Bool) : Int := if ok then 0 else -EFAULT

def write_first_row (write : Nat → Transfer) (fuel : Nat) (type : Int) (fd : Out) : Option (Int × Out) :=
  (writeLine write fuel (firstRow type) fd).map fun (ok, fd) => (writeResult ok, fd)

def UnitBuffUser.time_op (unit : UnitBuffUser) : Nat := diff_time unit.clock_cpu_start.toNat unit.clock_cpu_end.toNat

/-- `" %9d%16lu%21llu%21llu%21llu\n"`. -/
def UnitBuffUser.text (unit : UnitBuffUser) : List Char :=
  ' ' :: (pad 9 (decimal unit.index_cpu.toNat) ++ pad 16 (decimal unit.size.toNat) ++
    pad 21 (decimal unit.clock_cpu_start.toNat) ++ pad 21 (decimal unit.clock_cpu_end.toNat) ++
    pad 21 (decimal unit.time_op)) ++ ['\n']

section

variable (dbl : Double)

def getAvg (arr : List Nat) (n : Nat) : dbl.Val :=
  let sum := arr.foldl (fun sum x => u64 (sum + x : Nat)) 0
  dbl.div (dbl.ofNat sum) (dbl.ofNat n)

def getVar (arr : List Nat) (n : Nat) (avg : dbl.Val) : dbl.Val :=
  arr.foldl (fun var x =>
    let tmp_diff := dbl.sub (dbl.ofNat x) avg
    dbl.add var (dbl.div (dbl.pow tmp_diff (dbl.ofNat 2)) (dbl.ofNat (u32 (n - 1))))) (dbl.ofNat 0)

/-- The line of the synthesis: `" %16lu%14llu%14llu%20.4f%22.4f%20.4f \n"`. The times are in order. -/
def synthText (count size : Nat) (time_op : List Nat) : List Char :=
  let at_ (i : Nat) := time_op[i]?.getD 0
  let avg := getAvg dbl time_op count
  let var := getVar dbl time_op count avg
  let median :=
    if count % 2 ≠ 0 then dbl.ofNat (at_ (count / 2))
    else dbl.div (dbl.ofNat (u64 (at_ (count / 2 - 1) + at_ (count / 2) : Nat))) (dbl.ofNat 2)
  ' ' :: (pad 16 (decimal size) ++ pad 14 (decimal (at_ 0)) ++ pad 14 (decimal (at_ (count - 1))) ++
    pad 20 (dbl.fixed 4 avg) ++ pad 22 (dbl.fixed 4 var) ++ pad 20 (dbl.fixed 4 median) ++ [' ']) ++ ['\n']

def data_synthesis (write : Nat → Transfer) (fuel count size : Nat) (time_op : List Nat) (fd : Out) : Option (Int × Out) :=
  (writeLine write fuel (synthText dbl count size (time_op.mergeSort (· ≤ ·))) fd).map fun (ok, fd) => (writeResult ok, fd)

/-- What a call of `save_measure` meets. -/
structure SaveEnv where
  buf_write : Bool
  write_dev : Int
  read_dev : Int
  region : RegionMem
  time_op : Bool
  lseek : Int

/-- The loop over the measures. -/
def writeMeasures (write : Nat → Transfer) (fuel : Nat) : List UnitBuffUser → Out → Option (Int × Out)
  | [], fd_fl => some (0, fd_fl)
  | unit :: units, fd_fl => do
    let (ok, fd_fl) ← writeLine write fuel unit.text fd_fl
    if ok then writeMeasures write fuel units fd_fl else return (-1, fd_fl)

def negative (ret : Int) : Int := if ret ≥ 0 then -EFAULT else ret

structure Files where
  fl : Out
  synth : Out

def save_measure (write_fl write_synth : Nat → Transfer) (fuel size : Nat) (e : SaveEnv) (fd : Files) :
    Option (Int × Files) :=
  if !e.buf_write then some (-ENOMEM, fd)
  else if u64 (s32 e.write_dev) ≠ size then some (negative (s32 e.write_dev), fd)
  else if u64 (s32 e.read_dev) ≠ SIZEOF_REGION_MEM then some (negative (s32 e.read_dev), fd)
  else if e.region.count = 0 then some (0, fd)
  else if !e.time_op then some (-ENOMEM, fd)
  else do
    let (ret, fl) ← writeMeasures write_fl fuel e.region.records fd.fl
    let fd := { fd with fl }
    if ret < 0 then return (ret, fd)
    if s32 e.lseek < 0 then return (s32 e.lseek, fd)
    let time_op := e.region.records.map UnitBuffUser.time_op
    let (ret, synth) ← data_synthesis dbl write_synth fuel e.region.count size time_op fd.synth
    let fd := { fd with synth }
    if ret < 0 then return (ret, fd)
    return (0, fd)

/-- What `record_measures` meets; `ret` is what its variable holds before it is assigned to. -/
structure RecordEnv where
  open_fl : Int
  open_synth : Int
  ret : Int
  region : Bool
  open_dev : Int
  write_fl : Nat → Transfer
  write_synth : Nat → Transfer
  save : Nat → SaveEnv

/-- The measures of a size. -/
def measureSize (env : RecordEnv) (fuel round i : Nat) (fd : Files) : Option (Files ⊕ Int × Files) := do
  let (ret, fl) ← write_first_row env.write_fl fuel ID_MEASURE fd.fl
  let fd := { fd with fl }
  if ret < 0 then return .inr (ret, fd)
  let (ret, fd) ← save_measure dbl env.write_fl env.write_synth fuel i (env.save round) fd
  if ret < 0 then return .inr (ret, fd) else return .inl fd

/-- The result, and the two files. -/
def record_measures (env : RecordEnv) (max_size fuel : Nat) : Option (Int × Files) :=
  let fd : Files := ⟨⟨0, []⟩, ⟨0, []⟩⟩
  if env.open_fl < 0 then some (env.open_fl, fd)
  else if env.open_synth < 0 then some (env.open_synth, fd)
  else if !env.region then some (env.ret, fd)
  else if env.open_dev < 0 then some (env.open_dev, fd)
  else do
    let (ret, synth) ← write_first_row env.write_synth fuel ID_SYNTH fd.synth
    let fd := { fd with synth }
    if ret < 0 then return (ret, fd)
    Lib.Doubling.loop (measureSize dbl env fuel) 1 max_size fuel fd

end

/-! ## Lines -/

section

variable {dbl : Double} {write : Nat → Transfer}

theorem unbordered_text (unit : UnitBuffUser) : Unbordered unit.text ∧ unit.text ≠ [] := by
  have hpad := printable_pad_decimal
  apply unbordered_line
  apply Printable.blank
  exact .append (.append (.append (.append (hpad _ _) (hpad _ _)) (hpad _ _)) (hpad _ _)) (hpad _ _)

theorem unbordered_synthText (count size : Nat) (time_op : List Nat) :
    Unbordered (synthText dbl count size time_op) ∧ synthText dbl count size time_op ≠ [] := by
  have hpad := printable_pad_decimal
  have hfixed : ∀ w x, Printable (pad w (dbl.fixed 4 x)) := fun w x => (dbl.printable 4 x).pad w
  apply unbordered_line
  apply Printable.blank
  refine .append (.append (.append (.append (.append (.append (hpad _ _) (hpad _ _)) (hpad _ _)) (hfixed _ _)) (hfixed _ _))
    (hfixed _ _)) ?_
  simp [Printable]

theorem unbordered_rows : (Unbordered MEASURE_ROW ∧ MEASURE_ROW ≠ []) ∧ Unbordered SYNTH_ROW ∧ SYNTH_ROW ≠ [] := by
  have hrow : ∀ s : List Char, s.dropLast ++ ['\n'] = s ∧ Printable s.dropLast → Unbordered s ∧ s ≠ [] := by
    rintro s ⟨hs, hprintable⟩
    rw [← hs]
    exact unbordered_line hprintable
  exact ⟨hrow MEASURE_ROW (by decide +kernel), hrow SYNTH_ROW (by decide +kernel)⟩

/-- The header line of a file of this type, if it is one of the two. -/
def rows (type : Int) : List (List Char) := [firstRow type].filter fun row => row ≠ []

theorem unbordered_of_mem_rows {type : Int} {row : List Char} (h : row ∈ rows type) : Unbordered row ∧ row ≠ [] := by
  simp only [rows, List.filter_cons, firstRow] at h
  obtain ⟨hmeasure, hsynth⟩ := unbordered_rows
  generalize MEASURE_ROW = measure at *
  generalize SYNTH_ROW = synth at *
  grind

theorem writeMeasures_eq (fuel : Nat) (units : List UnitBuffUser) (fd : Out) : writeMeasures write fuel units fd =
    (writeLines write fuel (units.map UnitBuffUser.text) fd).map fun (ok, fd) => (if ok then 0 else -1, fd) := by
  induction units generalizing fd with
  | nil => rfl
  | cons unit units ih =>
    rw [writeMeasures, List.map_cons, writeLines]
    cases hline : writeLine write fuel unit.text fd with
    | none => rfl
    | some r =>
      obtain ⟨ok, fd'⟩ := r
      cases ok with
      | false => rfl
      | true => exact ih fd'

theorem data_synthesis_eq (fuel count size : Nat) (time_op : List Nat) (fd : Out) :
    data_synthesis dbl write fuel count size time_op fd =
      (writeLines write fuel [synthText dbl count size (time_op.mergeSort (· ≤ ·))] fd).map
        fun (ok, fd) => (writeResult ok, fd) := by
  rw [data_synthesis, writeLine_eq]

theorem write_first_row_exactly_iff (type : Int) (fd : Out) :
    Exactly write fd (rows type) (fun fuel => (write_first_row write fuel type fd).map Prod.snd) ↔
      Fails write fd.writes (rows type) ∨ Whole write fd.writes (rows type) := by
  by_cases hrow : firstRow type = []
  · have hrows : rows type = [] := by simp [rows, hrow]
    rw [hrows]
    refine iff_of_true ⟨fd, fun _ => by simp, 1, fun fuel hfuel => ?_⟩ (.inr fun i line hline => by cases hline)
    simp [write_first_row, hrow, writeLine_nil hfuel]
  · have hrows : rows type = [firstRow type] := by simp [rows, hrow]
    have hborder : ∀ line ∈ rows type, Unbordered line ∧ line ≠ [] := fun _ => unbordered_of_mem_rows
    rw [hrows] at hborder ⊢
    rw [← exactly_iff hborder]
    simp only [write_first_row, writeLine_eq, Option.map_map, Function.comp_def]

theorem writeMeasures_exactly_iff (units : List UnitBuffUser) (fd : Out) :
    Exactly write fd (units.map UnitBuffUser.text) (fun fuel => (writeMeasures write fuel units fd).map Prod.snd) ↔
      Fails write fd.writes (units.map UnitBuffUser.text) ∨ Whole write fd.writes (units.map UnitBuffUser.text) := by
  rw [← exactly_iff]
  · simp only [writeMeasures_eq, Option.map_map, Function.comp_def]
  · intro line hline
    obtain ⟨unit, -, rfl⟩ := List.mem_map.1 hline
    exact unbordered_text unit

theorem data_synthesis_exactly_iff (count size : Nat) (time_op : List Nat) (fd : Out) :
    let line := synthText dbl count size (time_op.mergeSort (· ≤ ·))
    Exactly write fd [line] (fun fuel => (data_synthesis dbl write fuel count size time_op fd).map Prod.snd) ↔
      Fails write fd.writes [line] ∨ Whole write fd.writes [line] := by
  intro line
  rw [← exactly_iff]
  · simp only [data_synthesis_eq, Option.map_map, Function.comp_def, line]
  · intro l hl
    obtain rfl := List.mem_singleton.1 hl
    exact unbordered_synthText _ _ _

end

/-! ## The files -/

section

variable {dbl : Double} {write_fl write_synth : Nat → Transfer} {fuel : Nat}

/-- The line of the synthesis of a size, if there are measures. -/
def synthLines (dbl : Double) (size : Nat) (region : RegionMem) : List (List Char) :=
  if region.count = 0 then []
  else [synthText dbl region.count size ((region.records.map UnitBuffUser.time_op).mergeSort (· ≤ ·))]

/-- These lines have gone to the two files. -/
structure Wrote2 (write_fl write_synth : Nat → Transfer) (fl synth : List (List Char)) (fd fd' : Files) : Prop where
  fl : Wrote write_fl fl fd.fl fd'.fl
  synth : Wrote write_synth synth fd.synth fd'.synth

theorem writeMeasures_wrote {units : List UnitBuffUser} {fd fd' : Out} {ret : Int}
    (h : writeMeasures write_fl fuel units fd = some (ret, fd')) (hret : 0 ≤ ret) :
    Wrote write_fl (units.map UnitBuffUser.text) fd fd' := by
  rw [writeMeasures_eq] at h
  obtain ⟨⟨ok, fd''⟩, hlines, h⟩ := Option.map_eq_some_iff.1 h
  obtain ⟨rfl, rfl⟩ := Prod.mk.inj h
  cases ok with
  | false => simp at hret
  | true => exact ⟨fuel, hlines⟩

theorem wrote_of_result {line : List Char} {fd fd' : Out} {ret : Int} (hret : 0 ≤ ret)
    (h : ((writeLine write_fl fuel line fd).map fun (ok, fd) => (writeResult ok, fd)) = some (ret, fd')) :
    Wrote write_fl [line] fd fd' := by
  obtain ⟨⟨ok, fd''⟩, hline, h⟩ := Option.map_eq_some_iff.1 h
  obtain ⟨rfl, rfl⟩ := Prod.mk.inj h
  cases ok with
  | false => simp [writeResult, EFAULT] at hret
  | true => exact wrote_line hline

theorem negative_lt (ret : Int) : negative ret < 0 := by
  unfold negative EFAULT
  split <;> omega

/-- A result that is negative is an error. -/
theorem not_of_negative {ret ret' : Int} {fd fd' : Files} (h : some (ret', fd) = some (ret, fd')) (hret : 0 ≤ ret)
    (hneg : ret' < 0) : False := by
  obtain ⟨rfl, -⟩ := Prod.mk.inj (Option.some.inj h)
  omega

theorem save_measure_wrote {size : Nat} {e : SaveEnv} {fd fd' : Files} {ret : Int}
    (h : save_measure dbl write_fl write_synth fuel size e fd = some (ret, fd')) (hret : 0 ≤ ret) :
    Wrote2 write_fl write_synth (e.region.records.map UnitBuffUser.text) (synthLines dbl size e.region) fd fd' := by
  unfold save_measure at h
  split at h
  · exact (not_of_negative h hret (by simp [ENOMEM])).elim
  split at h
  · exact (not_of_negative h hret (negative_lt _)).elim
  split at h
  · exact (not_of_negative h hret (negative_lt _)).elim
  split at h
  next hcount =>
    -- without measures there is no line, and none about them
    obtain ⟨-, rfl⟩ := Prod.mk.inj (Option.some.inj h)
    rw [RegionMem.records, synthLines, hcount, if_pos rfl]
    exact ⟨wrote_nil _, wrote_nil _⟩
  next hcount =>
    split at h
    · exact (not_of_negative h hret (by simp [ENOMEM])).elim
    obtain ⟨⟨ret₁, fl⟩, hmeasures, h⟩ := Option.bind_eq_some_iff.1 h
    dsimp only at h
    split at h
    next hneg => exact (not_of_negative h hret hneg).elim
    next hok =>
      split at h
      next hneg => exact (not_of_negative h hret hneg).elim
      next =>
        obtain ⟨⟨ret₂, synth⟩, hsynth, h⟩ := Option.bind_eq_some_iff.1 h
        dsimp only at h
        split at h
        next hneg => exact (not_of_negative h hret hneg).elim
        next hok' =>
          obtain ⟨-, rfl⟩ := Prod.mk.inj (Option.some.inj h)
          refine ⟨writeMeasures_wrote hmeasures (by omega), ?_⟩
          rw [synthLines, if_neg hcount]
          exact wrote_of_result (by omega) hsynth

theorem Wrote2.append {fl synth fl' synth' : List (List Char)} {fd fd' fd'' : Files}
    (h : Wrote2 write_fl write_synth fl synth fd fd') (h' : Wrote2 write_fl write_synth fl' synth' fd' fd'') :
    Wrote2 write_fl write_synth (fl ++ fl') (synth ++ synth') fd fd'' :=
  ⟨h.fl.append h'.fl, h.synth.append h'.synth⟩

/-- The lines of a size in the measures file. -/
def flLines (region : RegionMem) : List (List Char) := MEASURE_ROW :: region.records.map UnitBuffUser.text

variable {env : RecordEnv}

theorem measureSize_wrote {round i : Nat} {fd fd' : Files} (h : measureSize dbl env fuel round i fd = some (.inl fd')) :
    Wrote2 env.write_fl env.write_synth (flLines (env.save round).region) (synthLines dbl i (env.save round).region) fd fd' := by
  obtain ⟨⟨ret, fl⟩, hrow, h⟩ := Option.bind_eq_some_iff.1 h
  dsimp only at h
  split at h
  next => cases h
  next hok =>
    obtain ⟨⟨ret', fd₁⟩, hsave, h⟩ := Option.bind_eq_some_iff.1 h
    dsimp only at h
    split at h
    next => cases h
    next hok' =>
      obtain rfl := Sum.inl.inj (Option.some.inj h)
      have hhead : Wrote env.write_fl [MEASURE_ROW] fd.fl fl := wrote_of_result (by omega) hrow
      have hbody := save_measure_wrote hsave (by omega)
      exact ⟨hhead.append hbody.fl, hbody.synth⟩

theorem measureSize_leaves {round i : Nat} {fd fd' : Files} {ret : Int}
    (h : measureSize dbl env fuel round i fd = some (.inr (ret, fd'))) : ret ≠ 0 := by
  obtain ⟨⟨ret₁, fl⟩, -, h⟩ := Option.bind_eq_some_iff.1 h
  dsimp only at h
  split at h
  next hneg =>
    obtain ⟨rfl, -⟩ := Prod.mk.inj (Sum.inr.inj (Option.some.inj h))
    exact Int.ne_of_lt hneg
  next =>
    obtain ⟨⟨ret₂, fd₁⟩, -, h⟩ := Option.bind_eq_some_iff.1 h
    dsimp only at h
    split at h
    next hneg =>
      obtain ⟨rfl, -⟩ := Prod.mk.inj (Sum.inr.inj (Option.some.inj h))
      exact Int.ne_of_lt hneg
    next => cases h

/-- A call that returns 0 has written the header lines and the lines of `K` sizes, which are all
up to the maximum. -/
theorem record_measures_wrote {max_size : Nat} {fd : Files} (hregion : env.region = true ∨ env.ret ≠ 0)
    (h : record_measures dbl env max_size fuel = some (0, fd)) : ∃ K, (∀ r < K, 2 ^ r ≤ max_size) ∧ max_size < 2 ^ K ∧
      Wrote2 env.write_fl env.write_synth ((List.range K).flatMap fun r => flLines (env.save r).region)
        (SYNTH_ROW :: (List.range K).flatMap fun r => synthLines dbl (2 ^ r) (env.save r).region)
        ⟨⟨0, []⟩, ⟨0, []⟩⟩ fd := by
  have hnot : ∀ {ret : Int} {fd' : Files}, some (ret, fd') = some (0, fd) → ¬ ret < 0 := fun h hneg =>
    not_of_negative h (Int.le_refl 0) hneg
  unfold record_measures at h
  dsimp only at h
  split at h
  next hneg => exact absurd hneg (hnot h)
  split at h
  next hneg => exact absurd hneg (hnot h)
  split at h
  next hmalloc =>
    obtain ⟨hret, -⟩ := Prod.mk.inj (Option.some.inj h)
    rcases hregion with hregion | hregion
    · simp [hregion] at hmalloc
    · exact absurd hret hregion
  split at h
  next hneg => exact absurd hneg (hnot h)
  obtain ⟨⟨ret, synth⟩, hrow, h⟩ := Option.bind_eq_some_iff.1 h
  dsimp only at h
  split at h
  next hneg => exact absurd hneg (hnot h)
  next hok =>
    have hhead : Wrote env.write_synth [SYNTH_ROW] ⟨0, []⟩ synth := wrote_of_result (by omega) hrow
    obtain ⟨K, hbelow, habove, hrounds⟩ := Lib.Doubling.loop_done
      (fun es fd fd' => Wrote2 env.write_fl env.write_synth (es.flatMap Prod.fst) (es.flatMap Prod.snd) fd fd')
      (fun r i => [(flLines (env.save r).region, synthLines dbl i (env.save r).region)]) 0 (by simp)
      (fun fd => ⟨wrote_nil _, wrote_nil _⟩)
      (fun h h' => by simpa only [List.flatMap_append] using h.append h')
      (fun _ _ _ _ _ => measureSize_leaves)
      (fun _ _ _ _ h => by simpa using measureSize_wrote h) h
    refine ⟨K, by simpa using hbelow, by simpa using habove, ?_, ?_⟩
    · simpa [List.flatMap_assoc] using hrounds.fl
    · simpa [List.flatMap_assoc] using hhead.append hrounds.synth

theorem unbordered_flLines {region : RegionMem} {line : List Char} (h : line ∈ flLines region) :
    Unbordered line ∧ line ≠ [] := by
  rcases List.mem_cons.1 h with hrow | h
  · rw [hrow]
    exact unbordered_rows.1
  · obtain ⟨unit, -, rfl⟩ := List.mem_map.1 h
    exact unbordered_text unit

theorem unbordered_synthLines {size : Nat} {region : RegionMem} {line : List Char} (h : line ∈ synthLines dbl size region) :
    Unbordered line ∧ line ≠ [] := by
  unfold synthLines at h
  split at h
  · cases h
  · obtain rfl := List.mem_singleton.1 h
    exact unbordered_synthText _ _ _

/-- After a call that returns 0, each of the files is its header lines and its other lines exactly
if every one of them took one write. -/
theorem measures_files_iff {max_size : Nat} {fd : Files} (hregion : env.region = true ∨ env.ret ≠ 0)
    (h : record_measures dbl env max_size fuel = some (0, fd)) : ∃ K, (∀ r < K, 2 ^ r ≤ max_size) ∧ max_size < 2 ^ K ∧
      let fl := (List.range K).flatMap fun r => flLines (env.save r).region
      let synth := SYNTH_ROW :: (List.range K).flatMap fun r => synthLines dbl (2 ^ r) (env.save r).region
      (fd.fl.text = fl.flatten ↔ Whole env.write_fl 0 fl) ∧ (fd.synth.text = synth.flatten ↔ Whole env.write_synth 0 synth) := by
  obtain ⟨K, hbelow, habove, hfl, hsynth⟩ := record_measures_wrote hregion h
  have hfl' := hfl.exact_iff fun line hline => ?_
  have hsynth' := hsynth.exact_iff fun line hline => ?_
  · simp only [List.nil_append] at hfl' hsynth'
    exact ⟨K, hbelow, habove, hfl', hsynth'⟩
  · rcases List.mem_cons.1 hline with hrow | hline
    · rw [hrow]
      exact unbordered_rows.2
    · obtain ⟨r, -, hline⟩ := List.mem_flatMap.1 hline
      exact unbordered_synthLines hline
  · obtain ⟨r, -, hline⟩ := List.mem_flatMap.1 hline
    exact unbordered_flLines hline

end

end Dmacftu.MsgDaemon
