import Dmacftu.Lib.Awk
import Dmacftu.Lib.Loop
import Dmacftu.SparseFile
/-!
# The summary of a trace

`ref_invocation.sh` is an awk script over the file that the daemon leaves. For each line but
the first it counts the size in its third field, and adds up the time in its seventh. At the
end an index runs up to the number of sizes, and a size that has been seen gets a line.
Looking at a size that has not been seen adds it to the array, so that the number
of sizes goes up on the way; what it is ahead by is the number of sizes still to come.

`ref_invocation_sizes`: that is enough to come to an end behind the last of them.
-/
open Lib.Awk Lib.CText Lib.Loop

namespace Dmacftu.Trace

/-! ## The script -/

structure Arrays where
  array_s : Arr (List Char) Nat
  array_t : Arr (List Char) Nat

def Arrays.empty : Arrays := ⟨.empty, .empty⟩

/-- `array_s[$3]++`, and the sum of the times. -/
def Arrays.add (a : Arrays) (line : List Char) : Arrays where
  array_s := a.array_s.set (field line 3) (a.array_s.value (field line 3) + 1)
  array_t := a.array_t.set (field line 3) (a.array_t.value (field line 3) + number (field line 7))

/-- The rule for a line and its number. -/
def Arrays.rule (a : Arrays) (record : List Char × Nat) : Arrays := if record.2 ≠ 1 then a.add record.1 else a

def Arrays.read (file : List Char) : Arrays := ((records file).zipIdx 1).foldl Arrays.rule .empty

def HEADING : List Char := "size   ref   time_avg(ns)".toList

/-- `print i"  " array_s[i]  "  " array_t[i]/array_s[i]`. -/
def summaryRow (convfmt : ℚ → List Char) (i ref time : Nat) : List Char :=
  decimal i ++ "  ".toList ++ decimal ref ++ "  ".toList ++ numberText convfmt (time / ref : ℚ)

/-- The loop of `END`, and what has been printed. -/
structure Summary where
  i : Nat
  arrays : Arrays
  out : List (List Char)

def Summary.pass (convfmt : ℚ → List Char) (s : Summary) : Summary ⊕ List (List Char) :=
  if s.i < s.arrays.array_s.length then
    let key := decimal s.i
    let array_s := s.arrays.array_s.touch key
    if array_s.value key ≠ 0 then
      let array_t := s.arrays.array_t.touch key
      .inl ⟨s.i + 1, ⟨array_s, array_t⟩, s.out.concat (summaryRow convfmt s.i (array_s.value key) (array_t.value key))⟩
    else .inl ⟨s.i + 1, ⟨array_s, s.arrays.array_t⟩, s.out⟩
  else .inr s.out

/-- The lines that are printed. -/
def ref_invocation (convfmt : ℚ → List Char) (file : List Char) (fuel : Nat) : Option (List (List Char)) :=
  run (Summary.pass convfmt) fuel ⟨0, .read file, [HEADING]⟩

/-! ## What is printed of a record -/

/-- The columns from the size on are wider than what stands in them. -/
structure Line.Apart (l : Line) : Prop where
  size : (decimal l.size).length < 17
  index_cpu : (decimal l.index_cpu).length < 10
  clock_cpu_start : (decimal l.clock_cpu_start).length < 21
  clock_cpu_end : (decimal l.clock_cpu_end).length < 21
  time_op : (decimal l.time_op).length < 15
  addr : (pointer l.addr).length < 24
  type_op : l.type_op.toList.length < 13

/-- No two columns run together. The operation is one field, or two. -/
theorem fields_row {l : Line} (h : l.Apart) : fields l.row =
    [decimal l.index_cpu_event, decimal l.count_event, decimal l.size, decimal l.index_cpu, decimal l.clock_cpu_start,
      decimal l.clock_cpu_end, decimal l.time_op, pointer l.addr] ++ fields l.type_op.toList := by
  have hcolumn : ∀ {w n} (t : List Char), (decimal n).length < w → fields (t ++ pad w (decimal n)) = fields t ++ [decimal n] :=
    fun t hw => fields_pad hw (graphic_decimal _) (decimal_ne_nil _) t
  have hlast : ∀ t, fields (t ++ pad 13 l.type_op.toList) = fields t ++ fields l.type_op.toList := by
    intro t
    simpa using fields_append_pad h.type_op t []
  -- the second column is as wide as it needs to be, and has four blanks before it
  have hblank : "    ".toList = List.replicate 4 ' ' := by simp
  rw [Line.row, hlast, fields_pad h.addr (graphic_pointer _) (pointer_ne_nil _), hcolumn _ h.time_op,
    hcolumn _ h.clock_cpu_end, hcolumn _ h.clock_cpu_start, hcolumn _ h.index_cpu, hcolumn _ h.size, hblank,
    List.append_assoc (decimal l.index_cpu_event), replicate_append_pad, hcolumn _ (by omega),
    fields_word (graphic_decimal _) (decimal_ne_nil _)]
  simp

/-- The difference of the times. -/
def UnitBuffUser.time (unit : UnitBuffUser) : Nat := diff_time unit.clock_cpu_start.toNat unit.clock_cpu_end.toNat

/-- The bounds that leave a blank before the size and the time. -/
structure UnitBuffUser.Fits (unit : UnitBuffUser) : Prop where
  size : unit.size.toNat < 2 ^ 53
  time : unit.time < 10 ^ 14

theorem UnitBuffUser.Fits.apart {unit : UnitBuffUser} (h : unit.Fits) : unit.line.Apart where
  size := Nat.lt_succ_of_le (decimal_length_le (by simp) (Nat.lt_of_lt_of_le h.size (by simp)))
  index_cpu := Nat.lt_of_le_of_lt (u16_decimal unit.index_cpu) (by simp)
  clock_cpu_start := Nat.lt_succ_of_le (u64_decimal unit.clock_cpu_start)
  clock_cpu_end := Nat.lt_succ_of_le (u64_decimal unit.clock_cpu_end)
  time_op := Nat.lt_succ_of_le (decimal_length_le (by simp) h.time)
  addr := by
    refine Nat.lt_of_le_of_lt (pointer_length_le (k := 16) (by simp) ?_) (show 18 < 24 by simp)
    exact Nat.lt_of_lt_of_le unit.addr.toNat_lt (by simp)
  type_op := Nat.lt_of_le_of_lt (type_op_text unit).1 (by simp)

/-- The size and the time are read as they were printed. -/
theorem add_row {unit : UnitBuffUser} (h : unit.Fits) (a : Arrays) : a.add unit.line.row =
    ⟨a.array_s.set (decimal unit.size.toNat) (a.array_s.value (decimal unit.size.toNat) + 1),
      a.array_t.set (decimal unit.size.toNat) (a.array_t.value (decimal unit.size.toNat) + unit.time)⟩ := by
  have hfields := fields_row h.apart
  have hsize : field unit.line.row 3 = decimal unit.size.toNat := by
    rw [field, hfields]
    rfl
  have htime : number (field unit.line.row 7) = unit.time := by
    rw [field, hfields]
    exact number_decimal unit.time
  rw [Arrays.add, hsize, htime]

/-! ## The arrays -/

/-- The number of records of a size, and the sum of their times. -/
def refs (units : List UnitBuffUser) (size : Nat) : Nat := (units.filter fun unit => unit.size.toNat = size).length

def times (units : List UnitBuffUser) (size : Nat) : Nat :=
  ((units.filter fun unit => unit.size.toNat = size).map UnitBuffUser.time).sum

def sizes (units : List UnitBuffUser) : Finset Nat := (units.map fun unit => unit.size.toNat).toFinset

theorem mem_sizes {units : List UnitBuffUser} {size : Nat} : size ∈ sizes units ↔ ∃ unit ∈ units, unit.size.toNat = size := by
  simp [sizes]

theorem refs_ne_zero {units : List UnitBuffUser} {size : Nat} : refs units size ≠ 0 ↔ size ∈ sizes units := by
  simp [refs, mem_sizes]

/-- The arrays count these records, and their keys are these sizes. -/
structure Arrays.Count (a : Arrays) (units : List UnitBuffUser) (keys : Finset Nat) : Prop where
  keys : ∀ k, k ∈ a.array_s.keys ↔ k ∈ keys.image decimal
  array_s : ∀ n, a.array_s.value (decimal n) = refs units n
  array_t : ∀ n, a.array_t.value (decimal n) = times units n

theorem Arrays.Count.add {a : Arrays} {units : List UnitBuffUser} (h : a.Count units (sizes units)) {unit : UnitBuffUser}
    (hunit : unit.Fits) : (a.add unit.line.row).Count (units ++ [unit]) (sizes (units ++ [unit])) := by
  rw [add_row hunit]
  refine ⟨fun k => ?_, fun n => ?_, fun n => ?_⟩
  · have hkeys := h.keys k
    simp only [Finset.mem_image, mem_sizes] at hkeys
    simp only [Arr.mem_set, hkeys, Finset.mem_image, mem_sizes]
    grind
  · rw [Arr.set_value]
    by_cases hn : unit.size.toNat = n
    · subst hn
      simp [refs, h.array_s]
    · rw [Function.update_of_ne fun heq => hn (decimal_inj heq).symm, h.array_s]
      simp [refs, hn]
  · rw [Arr.set_value]
    by_cases hn : unit.size.toNat = n
    · subst hn
      simp [times, h.array_t]
    · rw [Function.update_of_ne fun heq => hn (decimal_inj heq).symm, h.array_t]
      simp [times, hn]

theorem count_rows {units : List UnitBuffUser} (h : ∀ unit ∈ units, unit.Fits) :
    ((units.map fun unit => unit.line.row).foldl Arrays.add .empty).Count units (sizes units) := by
  induction units using List.reverseRecOn with
  | nil => exact ⟨by simp [Arrays.empty, Arr.empty, sizes], fun _ => rfl, fun _ => rfl⟩
  | append_singleton units unit ih =>
    rw [List.map_append, List.foldl_append]
    exact (ih fun u hu => h u (List.mem_append_left _ hu)).add (h unit (by simp))

/-- The lines after the first are all read. -/
theorem foldl_rule {lines : List (List Char)} {n : Nat} (hn : 1 < n) (a : Arrays) :
    (lines.zipIdx n).foldl Arrays.rule a = lines.foldl Arrays.add a := by
  induction lines generalizing n a with
  | nil => rfl
  | cons line lines ih =>
    rw [List.zipIdx_cons, List.foldl_cons, List.foldl_cons, ih (Nat.lt_succ_of_lt hn), Arrays.rule, if_pos (by simp; omega)]

theorem header_row : FIRST_ROW.dropLast ++ ['\n'] = FIRST_ROW ∧ '\n' ∉ FIRST_ROW.dropLast := by decide +kernel

theorem records_contents (units : List UnitBuffUser) :
    records (contents units) = FIRST_ROW.dropLast :: units.map fun unit => unit.line.row := by
  obtain ⟨hrow, hnewline⟩ := header_row
  rw [contents]
  -- the text is 140 characters, which nothing here is to count
  generalize FIRST_ROW.dropLast = row at hrow hnewline ⊢
  generalize FIRST_ROW = text at hrow ⊢
  have hlines : text ++ units.flatMap (fun unit => unit.line.text) =
      (row :: units.map fun unit => unit.line.row).flatMap fun l => l ++ ['\n'] := by
    rw [List.flatMap_cons, hrow, List.flatMap_map]
    simp only [← text_row]
  rw [hlines, records_lines]
  intro l hl
  rcases List.mem_cons.1 hl with rfl | hl
  · exact hnewline
  · obtain ⟨unit, -, rfl⟩ := List.mem_map.1 hl
    exact (printable_row unit).newline_not_mem

theorem read_contents {units : List UnitBuffUser} (h : ∀ unit ∈ units, unit.Fits) :
    (Arrays.read (contents units)).Count units (sizes units) := by
  rw [Arrays.read, records_contents, List.zipIdx_cons, List.foldl_cons, foldl_rule (by simp)]
  exact count_rows h

/-! ## The loop -/

section

variable {convfmt : ℚ → List Char} {units : List UnitBuffUser}

def rowOf (convfmt : ℚ → List Char) (units : List UnitBuffUser) (size : Nat) : List Char :=
  summaryRow convfmt size (refs units size) (times units size)

/-- The sizes below `i`, in order. -/
def sizesBelow (units : List UnitBuffUser) (i : Nat) : List Nat := (List.range i).filter fun n => n ∈ sizes units

theorem sizesBelow_succ (units : List UnitBuffUser) (i : Nat) :
    sizesBelow units (i + 1) = sizesBelow units i ++ if i ∈ sizes units then [i] else [] := by
  rw [sizesBelow, List.range_succ, List.filter_append, ← sizesBelow]
  by_cases h : i ∈ sizes units <;> simp [h]

theorem sizesBelow_sorted (units : List UnitBuffUser) (i : Nat) : (sizesBelow units i).Pairwise (· < ·) :=
  List.pairwise_lt_range.filter _

/-- All indices so far are keys by now, and the sizes among them have been printed. -/
structure Summary.Inv (convfmt : ℚ → List Char) (units : List UnitBuffUser) (s : Summary) : Prop where
  count : s.arrays.Count units (sizes units ∪ Finset.range s.i)
  out : s.out = HEADING :: (sizesBelow units s.i).map (rowOf convfmt units)

/-- The array is longer than the index by the sizes that are still to come. -/
theorem Summary.Inv.length {s : Summary} (h : s.Inv convfmt units) :
    s.arrays.array_s.length = s.i + ((sizes units).filter fun n => s.i ≤ n).card := by
  have hkeys : sizes units ∪ Finset.range s.i = Finset.range s.i ∪ (sizes units).filter fun n => s.i ≤ n := by
    ext n
    simp
    grind
  have hdisjoint : Disjoint (Finset.range s.i) ((sizes units).filter fun n => s.i ≤ n) := by
    rw [Finset.disjoint_left]
    simp
    grind
  rw [Arr.length_eq h.count.keys, Finset.card_image_of_injective _ fun _ _ => decimal_inj, hkeys,
    Finset.card_union_of_disjoint hdisjoint, Finset.card_range]

theorem Summary.Inv.lt_length {s : Summary} (h : s.Inv convfmt units) :
    s.i < s.arrays.array_s.length ↔ ∃ n ∈ sizes units, s.i ≤ n := by
  rw [h.length, Nat.lt_add_right_iff_pos, Finset.card_pos]
  simp [Finset.Nonempty]

theorem Summary.Inv.step {s : Summary} (h : s.Inv convfmt units) (hlt : s.i < s.arrays.array_s.length) :
    ∃ s', s.pass convfmt = .inl s' ∧ s'.i = s.i + 1 ∧ s'.Inv convfmt units := by
  have hkeys : ∀ k, k ∈ (s.arrays.array_s.touch (decimal s.i)).keys ↔
      k ∈ (sizes units ∪ Finset.range (s.i + 1)).image decimal := by
    intro k
    rw [Arr.mem_touch, h.count.keys, Finset.range_add_one, Finset.union_insert, Finset.image_insert, Finset.mem_insert]
  unfold Summary.pass
  rw [if_pos hlt]
  dsimp only
  rw [Arr.touch_value, h.count.array_s]
  split
  next href =>
    refine ⟨_, rfl, rfl, ⟨hkeys, ?_, ?_⟩, ?_⟩
    · simpa using h.count.array_s
    · simpa using h.count.array_t
    · simp [h.out, sizesBelow_succ, refs_ne_zero.1 href, rowOf, h.count.array_t]
  next href =>
    refine ⟨_, rfl, rfl, ⟨hkeys, ?_, h.count.array_t⟩, ?_⟩
    · simpa using h.count.array_s
    · have hnot := mt refs_ne_zero.2 href
      simp [h.out, sizesBelow_succ, hnot]

/-- The rows of the sizes, in order. -/
def Rows (convfmt : ℚ → List Char) (units : List UnitBuffUser) (out : List (List Char)) : Prop :=
  ∃ ns : List Nat, ns.Pairwise (· < ·) ∧ (∀ n, n ∈ ns ↔ n ∈ sizes units) ∧ out = HEADING :: ns.map (rowOf convfmt units)

theorem Summary.Inv.returns {bound : Nat} (hbound : ∀ n ∈ sizes units, n < bound) : ∀ {left : Nat} {s : Summary},
    s.Inv convfmt units → left = bound - s.i → Returns (Summary.pass convfmt) s (Rows convfmt units) := by
  intro left
  induction left using Nat.strongRecOn with
  | _ left ih =>
    intro s h hleft
    by_cases hlt : s.i < s.arrays.array_s.length
    · obtain ⟨s', hpass, hi, h'⟩ := h.step hlt
      obtain ⟨n, hn, hle⟩ := h.lt_length.1 hlt
      have hnext := hbound n hn
      exact .step hpass (ih (bound - s'.i) (by omega) h' rfl)
    · have hall : ∀ n ∈ sizes units, n < s.i := by
        intro n hn
        by_contra hge
        exact hlt (h.lt_length.2 ⟨n, hn, Nat.le_of_not_lt hge⟩)
      refine .done (if_neg hlt) ⟨sizesBelow units s.i, sizesBelow_sorted units s.i, fun n => ?_, h.out⟩
      simpa [sizesBelow] using hall n

/-- The script ends on a file of records that are read as they were printed. -/
theorem ref_invocation_returns (h : ∀ unit ∈ units, unit.Fits) :
    ∃ out, Rows convfmt units out ∧ ∃ N, ∀ fuel, N ≤ fuel → ref_invocation convfmt (contents units) fuel = some out := by
  have hstart : (Summary.mk 0 (.read (contents units)) [HEADING]).Inv convfmt units := by
    refine ⟨?_, rfl⟩
    simpa using read_contents h
  have hbound : ∀ n ∈ sizes units, n < (sizes units).sup id + 1 := fun n hn =>
    Nat.lt_succ_of_le (Finset.le_sup (f := id) hn)
  exact hstart.returns hbound rfl

end

end Dmacftu.Trace
