import Dmacftu.Lib.CInt
import Dmacftu.Lib.Ring
import Dmacftu.Lib.Runs
/-!
# The trace ring buffer

`kernel/circular_buffer.c` and `linux/circular_buffer.h`: the per-CPU ring the
traced copies write their records to. The operations are translated with the
types the source gives them (`uint` indices, `int` segment lengths), over any
element type. `contents` reads a ring as a queue and `run_refines_fifo` says
that every run of the operations is a run of the bounded queue of `Lib.Fifo`.
-/
open Lib.CInt Lib.Ring Lib.Runs

namespace Dmacftu

/-! ## The code -/

def CIRC_BUFF_SIZE : Nat := 1024

/-- The hardware that ran a traced operation. -/
inductive TypeOp where
  | OP_COPY_NO_DEF
  | OP_COPY_CPU
  | OP_COPY_DMA
  deriving DecidableEq, Repr

/-- `struct unit_buff`: one trace record. -/
structure UnitBuff where
  index_cpu_event : Nat
  count_event : Nat
  addr : Nat
  size : Nat
  type_op : TypeOp
  index_cpu : Nat
  clock_cpu_start : Nat
  clock_cpu_end : Nat
  deriving DecidableEq, Repr

/-- `struct CircularBuffer`. The array is what the pointer `array_element`
points to; only the first `size` slots are allocated. -/
structure CircularBuffer (α : Type) where
  count_event : Int
  start : Nat
  end_ : Nat
  size : Nat
  array_element : Nat → α

variable {α : Type}

/-- `kzalloc` fills the array with the element whose bytes are all zero. -/
def cbInit (zero : α) : CircularBuffer α where
  count_event := 0
  start := 0
  end_ := 0
  size := CIRC_BUFF_SIZE
  array_element := fun _ => zero

def cbIsFull (cb : CircularBuffer α) : Bool := u32 (cb.end_ + 1) % cb.size == cb.start

def cbIsEmpty (cb : CircularBuffer α) : Bool := cb.end_ == cb.start

/-- `++cb->count_event`, and its value. -/
def get_counter (cb : CircularBuffer α) : Int × CircularBuffer α :=
  (s64 (cb.count_event + 1), { cb with count_event := s64 (cb.count_event + 1) })

def cbWrite (cb : CircularBuffer α) (elem : α) : CircularBuffer α :=
  if !cbIsFull cb then
    { cb with
      array_element := Function.update cb.array_element cb.end_ elem
      end_ := u32 (cb.end_ + 1) % cb.size }
  else cb

def cbRead (cb : CircularBuffer α) : α × CircularBuffer α :=
  (cb.array_element cb.start, { cb with start := u32 (cb.start + 1) % cb.size })

/-- `memcpy` of `n` elements, to `dst + d` from `src + s`. -/
def memcpy (dst : Nat → α) (d : Nat) (src : Nat → α) (s n : Nat) : Nat → α :=
  fun i => if d ≤ i ∧ i < d + n then src (s + (i - d)) else dst i

/-- The lengths `segment_1` and `segment_2` that `cbRead_list` works out before
it copies anything, or `none` where it returns at once. -/
def cbSegments (start end_ cbsize : Nat) (size : Int) : Option (Int × Int) :=
  let segment_1 := s32 end_
  if u32 segment_1 = start then none
  else if u32 segment_1 < start then
    let segment_2 := segment_1
    let segment_1 := s32 (u32 ((cbsize : Int) - start))
    if s32 (segment_1 + segment_2) > size then
      if segment_1 > size then some (size, 0) else some (segment_1, s32 (size - segment_1))
    else some (segment_1, segment_2)
  else
    let segment_1 := s32 (u32 ((u32 segment_1 : Int) - start))
    if segment_1 > size then some (size, 0) else some (segment_1, 0)

/-- The number of elements read, the output array and the ring after the call. -/
def cbRead_list (cb : CircularBuffer α) (elem : Nat → α) (size : Int) : Int × (Nat → α) × CircularBuffer α :=
  match cbSegments cb.start cb.end_ cb.size size with
  | none => (0, elem, cb)
  | some (segment_1, segment_2) =>
    let elem := memcpy elem 0 cb.array_element cb.start (u64 segment_1)
    let cb := { cb with start := u32 (cb.start + segment_1) % cb.size }
    if segment_2 ≠ 0 then
      (s32 (segment_1 + segment_2),
        memcpy elem (u64 segment_1) cb.array_element cb.start (u64 segment_2),
        { cb with start := u32 (cb.start + segment_2) % cb.size })
    else (s32 (segment_1 + segment_2), elem, cb)

/-! ## The ring as a queue -/

namespace CircularBuffer

/-- The number of stored elements. -/
def stored (cb : CircularBuffer α) : Nat := (cb.end_ + cb.size - cb.start) % cb.size

/-- The stored elements, oldest first. -/
def contents (cb : CircularBuffer α) : List α := window cb.array_element cb.size cb.start cb.stored

/-- The indices are inside the array, and the array is small enough for its
indices and lengths to be `int` values. -/
structure Ok (cb : CircularBuffer α) : Prop where
  start_lt : cb.start < cb.size
  end_lt : cb.end_ < cb.size
  size_lt : cb.size < 2 ^ 31

variable {cb : CircularBuffer α}

theorem stored_eq (h : cb.Ok) :
    cb.stored = if cb.start ≤ cb.end_ then cb.end_ - cb.start else cb.end_ + cb.size - cb.start := by
  obtain ⟨hs, he, -⟩ := h
  unfold stored
  split
  · rw [show cb.end_ + cb.size - cb.start = cb.end_ - cb.start + cb.size by omega, Nat.add_mod_right,
      Nat.mod_eq_of_lt (by omega)]
  · rw [Nat.mod_eq_of_lt (by omega)]

theorem stored_lt (h : cb.Ok) : cb.stored < cb.size := Nat.mod_lt _ (by have := h.start_lt; omega)

theorem end_eq (h : cb.Ok) : cb.end_ = (cb.start + cb.stored) % cb.size := by
  have hst := stored_eq h
  obtain ⟨hs, he, -⟩ := h
  split at hst
  · rw [Nat.mod_eq_of_lt (by omega)]; omega
  · rw [Nat.mod_eq_sub_mod (by omega), Nat.mod_eq_of_lt (by omega)]; omega

@[simp] theorem length_contents (cb : CircularBuffer α) : cb.contents.length = cb.stored := by simp [contents]

/-- Moving `start` forward by `m` stored elements drops them. -/
theorem stored_advance (h : cb.Ok) {m : Nat} (hm : m ≤ cb.stored) (s : Nat) (hs : s = (cb.start + m) % cb.size) :
    ({ cb with start := s } : CircularBuffer α).Ok ∧
      ({ cb with start := s } : CircularBuffer α).stored = cb.stored - m := by
  have hlt := stored_lt h
  have hst := stored_eq h
  have hok : ({ cb with start := s } : CircularBuffer α).Ok :=
    ⟨hs ▸ Nat.mod_lt _ (by omega), h.end_lt, h.size_lt⟩
  have hsv : s = if cb.start + m < cb.size then cb.start + m else cb.start + m - cb.size := by
    have := h.start_lt
    split
    · rw [hs, Nat.mod_eq_of_lt ‹_›]
    · rw [hs, Nat.mod_eq_sub_mod (by omega), Nat.mod_eq_of_lt (by omega)]
  refine ⟨hok, ?_⟩
  rw [stored_eq hok]
  have := h.end_lt
  have := h.start_lt
  dsimp only
  split at hst <;> split at hsv <;> split <;> omega

theorem contents_advance (h : cb.Ok) {m : Nat} (hm : m ≤ cb.stored) (s : Nat) (hs : s = (cb.start + m) % cb.size) :
    ({ cb with start := s } : CircularBuffer α).contents = cb.contents.drop m := by
  rw [contents, (stored_advance h hm s hs).2, contents, window_drop, hs]

end CircularBuffer

open CircularBuffer

/-- The successor of an index of the array, as the code computes it. -/
theorem next_index {cb : CircularBuffer α} (h : cb.Ok) {i : Nat} (hi : i < cb.size) :
    u32 (i + 1) % cb.size = (i + 1) % cb.size := by
  have := h.size_lt
  rw [show ((i : Int) + 1) = ((i + 1 : Nat) : Int) by norm_cast, u32_of_lt (by omega)]

theorem cbIsEmpty_iff {cb : CircularBuffer α} (h : cb.Ok) : cbIsEmpty cb = true ↔ cb.stored = 0 := by
  have hst := stored_eq h
  obtain ⟨hs, he, -⟩ := h
  simp only [cbIsEmpty, beq_iff_eq]
  split at hst <;> omega

theorem cbIsFull_iff {cb : CircularBuffer α} (h : cb.Ok) : cbIsFull cb = true ↔ cb.stored = cb.size - 1 := by
  have hst := stored_eq h
  simp only [cbIsFull, beq_iff_eq]
  rw [next_index h h.end_lt]
  obtain ⟨hs, he, -⟩ := h
  rcases Nat.lt_or_ge (cb.end_ + 1) cb.size with hw | hw
  · rw [Nat.mod_eq_of_lt hw]
    split at hst <;> omega
  · rw [show cb.end_ + 1 = cb.size by omega, Nat.mod_self]
    split at hst <;> omega

theorem cbWrite_full {cb : CircularBuffer α} (h : cb.Ok) (hf : cb.stored = cb.size - 1) (e : α) :
    cbWrite cb e = cb := by
  simp [cbWrite, (cbIsFull_iff h).2 hf]

theorem cbWrite_room {cb : CircularBuffer α} (h : cb.Ok) (hr : cb.stored < cb.size - 1) (e : α) :
    (cbWrite cb e).Ok ∧ (cbWrite cb e).contents = cb.contents ++ [e] := by
  have hf : cbIsFull cb = false := by
    rw [← Bool.not_eq_true, cbIsFull_iff h]; omega
  have hend := next_index h h.end_lt
  have hok : (cbWrite cb e).Ok := by
    simp only [cbWrite, hf, Bool.not_false, if_true]
    exact ⟨h.start_lt, Nat.mod_lt _ (by omega), h.size_lt⟩
  have hst : (cbWrite cb e).stored = cb.stored + 1 := by
    have h1 := stored_eq h
    rw [stored_eq hok]
    simp only [cbWrite, hf, Bool.not_false, if_true, hend]
    have := h.end_lt
    have := h.start_lt
    -- the new `end` wraps or it does not
    rcases Nat.lt_or_ge (cb.end_ + 1) cb.size with hw | hw
    · rw [Nat.mod_eq_of_lt hw]
      split at h1 <;> split <;> omega
    · rw [show cb.end_ + 1 = cb.size by omega, Nat.mod_self]
      split at h1 <;> split <;> omega
  refine ⟨hok, ?_⟩
  rw [contents, hst]
  simp only [cbWrite, hf, Bool.not_false, if_true, end_eq h]
  exact window_store _ (by omega) e

theorem cbRead_spec {cb : CircularBuffer α} (h : cb.Ok) (hne : cb.stored ≠ 0) :
    (cbRead cb).2.Ok ∧ cb.contents = (cbRead cb).1 :: (cbRead cb).2.contents := by
  have hs : u32 (cb.start + 1) % cb.size = (cb.start + 1) % cb.size := next_index h h.start_lt
  refine ⟨(stored_advance h (by omega) _ hs).1, ?_⟩
  have hd := contents_advance h (m := 1) (by omega) _ hs
  have hhead : cb.contents[0]? = some (cbRead cb).1 := by
    rw [contents, getElem?_window, if_pos (by omega), Nat.add_zero, Nat.mod_eq_of_lt h.start_lt]; rfl
  cases hc : cb.contents with
  | nil => rw [hc] at hhead; cases hhead
  | cons x xs =>
    rw [hc] at hhead hd
    simp only [List.getElem?_cons_zero, Option.some.injEq] at hhead
    rw [hhead]
    simp only [List.drop_one, List.tail_cons] at hd
    exact congrArg _ hd.symm

/-- What the two segments are: together the `min size stored` oldest elements,
the first one ending at the latest where the array ends, and a second one only
after a first that ends there. -/
theorem cbSegments_spec {cb : CircularBuffer α} (h : cb.Ok) {n : Int} (h0 : 0 ≤ n) (hn : n < 2 ^ 31) :
    (cbSegments cb.start cb.end_ cb.size n = none ∧ cb.stored = 0) ∨
    ∃ a b : Nat, cbSegments cb.start cb.end_ cb.size n = some ((a : Int), (b : Int)) ∧ a + b = min n.toNat cb.stored ∧
      cb.start + a ≤ cb.size ∧ (b ≠ 0 → cb.start + a = cb.size) := by
  have hst := stored_eq h
  obtain ⟨hs, he, hle⟩ := h
  unfold cbSegments
  simp only [s32_of_range (x := (cb.end_ : Int)) (by omega) (by omega), u32_of_lt (n := cb.end_) (by omega)]
  rcases Nat.lt_trichotomy cb.end_ cb.start with hlt | heq | hgt
  · -- the elements run past the end of the array
    right
    rw [if_neg (by omega), if_pos hlt, u32_of_range (by omega) (by omega), Int.toNat_sub,
      s32_of_range (x := ((cb.size - cb.start : Nat) : Int)) (by omega) (by omega)]
    rw [if_neg (by omega)] at hst
    rw [s32_of_range (by omega) (by omega)]
    split
    · split
      · exact ⟨n.toNat, 0, by simp; omega, by omega, by omega, by omega⟩
      · refine ⟨cb.size - cb.start, n.toNat - (cb.size - cb.start), ?_, by omega, by omega, by omega⟩
        rw [s32_of_range (by omega) (by omega)]
        exact congrArg some (Prod.ext rfl (by dsimp only; omega))
    · exact ⟨cb.size - cb.start, cb.end_, rfl, by omega, by omega, by omega⟩
  · left
    rw [if_pos heq]
    exact ⟨rfl, by rw [if_pos (by omega)] at hst; omega⟩
  · -- one run of slots
    right
    rw [if_neg (by omega), if_neg (by omega), u32_of_range (by omega) (by omega), Int.toNat_sub,
      s32_of_range (by omega) (by omega)]
    rw [if_pos (by omega)] at hst
    split
    · exact ⟨n.toNat, 0, by simp; omega, by omega, by omega, by omega⟩
    · exact ⟨cb.end_ - cb.start, 0, rfl, by omega, by omega, by omega⟩

theorem contents_getElem? {cb : CircularBuffer α} {i : Nat} (hi : i < cb.stored) :
    cb.contents[i]? = some (cb.array_element ((cb.start + i) % cb.size)) := by
  rw [contents, getElem?_window, if_pos hi]

/-- `cbRead_list` moves the `min size stored` oldest elements to the front of
its output, leaves the rest of the output alone, and removes them. -/
theorem cbRead_list_spec {cb : CircularBuffer α} (h : cb.Ok) (elem : Nat → α) {n : Int} (h0 : 0 ≤ n)
    (hn : n < 2 ^ 31) {m : Nat} (hm : m = min n.toNat cb.stored) :
    (cbRead_list cb elem n).1 = m ∧
      (∀ i < m, cb.contents[i]? = some ((cbRead_list cb elem n).2.1 i)) ∧
      (∀ i, m ≤ i → (cbRead_list cb elem n).2.1 i = elem i) ∧
      (cbRead_list cb elem n).2.2.Ok ∧ (cbRead_list cb elem n).2.2.contents = cb.contents.drop m := by
  have hlt := stored_lt h
  have hs := h.start_lt
  have hle := h.size_lt
  rcases cbSegments_spec h h0 hn with ⟨hseg, hz⟩ | ⟨a, b, hseg, hab, ha, hb⟩
  · -- nothing is stored
    have : m = 0 := by omega
    subst this
    simp only [cbRead_list, hseg, Int.natCast_zero, implies_true, true_and, and_true, List.drop_zero]
    exact ⟨fun i hi => absurd hi (Nat.not_lt_zero i), h⟩
  · have hmab : m = a + b := by omega
    have hst : u32 ((cb.start : Int) + a) % cb.size = (cb.start + a) % cb.size := by
      rw [show (cb.start : Int) + a = ((cb.start + a : Nat) : Int) by norm_cast, u32_of_lt (by omega)]
    have hsum : s32 ((a : Int) + b) = (m : Int) := by rw [s32_of_range (by omega) (by omega)]; omega
    have hslot : ∀ i < a, cb.contents[i]? = some (cb.array_element (cb.start + i)) := by
      intro i hi
      rw [contents_getElem? (by omega), Nat.mod_eq_of_lt (by omega)]
    simp only [cbRead_list, hseg, u64_of_lt (n := a) (by omega), u64_of_lt (n := b) (by omega), hsum]
    by_cases hb0 : b = 0
    · -- one segment
      subst hb0
      simp only [Int.natCast_zero, ne_eq, not_true_eq_false, if_false, true_and]
      have hma : m = a := by omega
      subst hma
      refine ⟨fun i hi => ?_, fun i hi => ?_, (stored_advance h (by omega) _ hst).1,
        contents_advance h (by omega) _ hst⟩
      · rw [hslot i hi, memcpy, if_pos (by omega), Nat.sub_zero]
      · rw [memcpy, if_neg (by omega)]
    · -- the second segment starts at slot 0
      have hwrap : (cb.start + a) % cb.size = 0 := by rw [hb hb0, Nat.mod_self]
      have hst2 : u32 ((u32 ((cb.start : Int) + a) % cb.size : Nat) + (b : Int)) % cb.size = (cb.start + m) % cb.size := by
        rw [hst, hwrap, Int.natCast_zero, Int.zero_add, u32_of_lt (by omega), hmab, ← Nat.add_assoc, hb hb0,
          Nat.add_mod_left]
      have hb0' : (b : Int) ≠ 0 := by omega
      simp only [ne_eq, hb0', not_false_eq_true, if_true, true_and]
      refine ⟨fun i hi => ?_, fun i hi => ?_, (stored_advance h (by omega) _ hst2).1,
        contents_advance h (by omega) _ hst2⟩
      · rw [memcpy, hst, hwrap]
        split
        · have hb1 := hb hb0
          rw [contents_getElem? (by omega), Nat.mod_eq_sub_mod (by omega), Nat.mod_eq_of_lt (by omega)]
          exact congrArg (some ∘ cb.array_element) (by omega)
        · rw [hslot i (by omega), memcpy, if_pos (by omega), Nat.sub_zero]
      · rw [memcpy, if_neg (by omega), memcpy, if_neg (by omega)]

/-! ## Runs -/

/-- A call on the ring. `cbRead_list` gets the output array it writes to. -/
inductive CbOp (α : Type) where
  | write (elem : α)
  | read
  | read_list (elem : Nat → α) (size : Int)

/-- The queue operation a call stands for. -/
def CbOp.fifo : CbOp α → Lib.Fifo.Op α
  | .write e => .push e
  | .read => .pop
  | .read_list _ n => .popUpTo n.toNat

/-- One call, and the elements handed out so far. The comment of `cbRead` makes
its caller check `cbIsEmpty` first; a `size` is an `int`, and not negative. -/
def cbStep (s : List α × CircularBuffer α) : CbOp α → Option (List α × CircularBuffer α)
  | .write e => some (s.1, cbWrite s.2 e)
  | .read => if cbIsEmpty s.2 then none else some (s.1 ++ [(cbRead s.2).1], (cbRead s.2).2)
  | .read_list elem n =>
    if 0 ≤ n ∧ n < 2 ^ 31 then
      let r := cbRead_list s.2 elem n
      some (s.1 ++ (List.range r.1.toNat).map r.2.1, r.2.2)
    else none

/-- The calls keep the indices in range and never change the capacity. -/
def Sized (cb : CircularBuffer α) : Prop := cb.Ok ∧ cb.size = CIRC_BUFF_SIZE

theorem sized_init (zero : α) : Sized (cbInit zero) :=
  ⟨⟨by simp [cbInit, CIRC_BUFF_SIZE], by simp [cbInit, CIRC_BUFF_SIZE], by simp [cbInit, CIRC_BUFF_SIZE]⟩, rfl⟩

theorem cbWrite_size (cb : CircularBuffer α) (e : α) : (cbWrite cb e).size = cb.size := by
  unfold cbWrite; split <;> rfl

theorem cbRead_list_size (cb : CircularBuffer α) (elem : Nat → α) (n : Int) :
    (cbRead_list cb elem n).2.2.size = cb.size := by
  unfold cbRead_list
  split
  · rfl
  · dsimp only; split <;> rfl

theorem map_range_eq_take {l : List α} {f : Nat → α} {m : Nat} (h : ∀ i < m, l[i]? = some (f i)) :
    (List.range m).map f = l.take m := by
  refine List.ext_getElem? fun i => ?_
  rw [List.getElem?_map, List.getElem?_take]
  split
  · rw [h i ‹_›, List.getElem?_range ‹_›, Option.map_some]
  · rw [List.getElem?_eq_none (by rw [List.length_range]; omega), Option.map_none]

/-- A call on the ring is the queue operation on its contents. -/
theorem cbStep_refines {s s' : List α × CircularBuffer α} {op : CbOp α} (hi : Sized s.2)
    (h : cbStep s op = some s') :
    Sized s'.2 ∧ Lib.Fifo.next (CIRC_BUFF_SIZE - 1) (s.1, s.2.contents) op.fifo = some (s'.1, s'.2.contents) := by
  obtain ⟨hok, hsz⟩ := hi
  have hlt := stored_lt hok
  cases op with
  | write e =>
    simp only [cbStep, Option.some.injEq] at h
    subst h
    simp only [CbOp.fifo, Lib.Fifo.next, Lib.Fifo.step, Option.map_some, length_contents, List.append_nil]
    rcases Nat.lt_or_ge s.2.stored (s.2.size - 1) with hr | hr
    · obtain ⟨ho, hc⟩ := cbWrite_room hok hr e
      refine ⟨⟨ho, (cbWrite_size _ _).trans hsz⟩, ?_⟩
      rw [if_pos (by omega), hc]
    · rw [cbWrite_full hok (by omega), if_neg (by omega)]
      exact ⟨⟨hok, hsz⟩, rfl⟩
  | read =>
    simp only [cbStep] at h
    split at h
    · cases h
    · rename_i hne
      rw [cbIsEmpty_iff hok] at hne
      simp only [Option.some.injEq] at h
      subst h
      obtain ⟨ho, hc⟩ := cbRead_spec hok hne
      refine ⟨⟨ho, hsz⟩, ?_⟩
      simp only [CbOp.fifo, Lib.Fifo.next, Lib.Fifo.step, hc, Option.map_some]
  | read_list elem n =>
    simp only [cbStep] at h
    split at h
    · rename_i hn
      simp only [Option.some.injEq] at h
      subst h
      obtain ⟨hm, hout, -, ho, hc⟩ := cbRead_list_spec hok elem hn.1 hn.2 rfl
      refine ⟨⟨ho, (cbRead_list_size _ _ _).trans hsz⟩, ?_⟩
      simp only [CbOp.fifo, Lib.Fifo.next, Lib.Fifo.step, Option.map_some, hc, hm, Int.toNat_natCast,
        map_range_eq_take hout]
      rw [← length_contents, ← List.take_eq_take_min, ← List.drop_eq_drop_min]
    · cases h

/-- What the calls on a ring do, in terms of the queue it holds. -/
structure QueueCalls (cb : CircularBuffer α) : Prop where
  start_lt : cb.start < cb.size
  end_lt : cb.end_ < cb.size
  write : ∀ e, cb.contents.length ≠ cb.size - 1 → (cbWrite cb e).contents = cb.contents ++ [e]
  write_full : ∀ e, cb.contents.length = cb.size - 1 → cbWrite cb e = cb
  read : cbIsEmpty cb = false → cb.contents = (cbRead cb).1 :: (cbRead cb).2.contents
  read_list : ∀ (elem : Nat → α) (n : Int) (m : Nat), 0 ≤ n → n < 2 ^ 31 → m = min n.toNat cb.contents.length →
    (cbRead_list cb elem n).1 = m ∧
      (∀ i < m, cb.contents[i]? = some ((cbRead_list cb elem n).2.1 i)) ∧
      (∀ i, m ≤ i → (cbRead_list cb elem n).2.1 i = elem i) ∧
      (cbRead_list cb elem n).2.2.contents = cb.contents.drop m
  empty_iff : cbIsEmpty cb = true ↔ cb.contents.length = 0
  full_iff : cbIsFull cb = true ↔ cb.contents.length = cb.size - 1

theorem queueCalls {cb : CircularBuffer α} (h : cb.Ok) : QueueCalls cb := by
  have hlt := stored_lt h
  refine ⟨h.start_lt, h.end_lt, fun e hne => ?_, fun e hf => ?_, fun hne => ?_, ?_, ?_, ?_⟩
  · rw [length_contents] at hne
    exact (cbWrite_room h (by omega) e).2
  · exact cbWrite_full h ((length_contents cb).symm.trans hf) e
  · refine (cbRead_spec h fun hz => ?_).2
    rw [(cbIsEmpty_iff h).2 hz] at hne
    cases hne
  · intro elem n m h0 hn hm
    rw [length_contents] at hm
    obtain ⟨h1, h2, h3, -, h5⟩ := cbRead_list_spec h elem h0 hn hm
    exact ⟨h1, h2, h3, h5⟩
  · rw [length_contents, cbIsEmpty_iff h]
  · rw [length_contents, cbIsFull_iff h]

/-- In every run of calls from `cbInit`, each call does to the stored elements
what the bounded queue's operation does, and the elements handed out are those
the queue hands out. -/
theorem run_refines_fifo (zero : α) {ops : List (CbOp α)} {s : List α × CircularBuffer α}
    (h : exec cbStep ([], cbInit zero) ops = some s) :
    s.2.size = CIRC_BUFF_SIZE ∧ QueueCalls s.2 ∧
      exec (Lib.Fifo.next (CIRC_BUFF_SIZE - 1)) ([], []) (ops.map CbOp.fifo) = some (s.1, s.2.contents) := by
  have hi : Sized s.2 := exec_inv (fun s => Sized s.2) (fun _ _ _ hi hs => (cbStep_refines hi hs).1) (sized_init zero) h
  have h0 : (cbInit zero).contents = [] := by simp [contents, stored, cbInit]
  refine ⟨hi.2, queueCalls hi.1, ?_⟩
  have hsim := exec_sim (fun s => Sized s.2) (fun s => (s.1, s.2.contents)) CbOp.fifo
    (fun _ _ _ hi hs => cbStep_refines hi hs) (sized_init zero) h
  rwa [h0] at hsim

/-- Five calls that store three elements and hand all of them out. -/
def sampleCalls : List (CbOp Nat) := [.write 5, .write 6, .write 7, .read, .read_list (fun _ => 0) 9]

theorem run_refines_fifo_sample :
    ∃ s, exec cbStep ([], cbInit 0) sampleCalls = some s ∧ s.1 = [5, 6, 7] ∧
      s.2.size = CIRC_BUFF_SIZE ∧ QueueCalls s.2 ∧
      exec (Lib.Fifo.next (CIRC_BUFF_SIZE - 1)) ([], []) (sampleCalls.map CbOp.fifo) = some (s.1, s.2.contents) :=
  ⟨_, rfl, by decide, run_refines_fifo 0 rfl⟩

end Dmacftu
