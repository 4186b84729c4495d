import Dmacftu.RingConcurrent
import Dmacftu.Uaccess
/-!
# What the trace loses

The traced copies that end on one CPU, each taking the ring's counter and
calling `cbWrite`, beside the trace driver's `cbRead_list`: the machine of
`RingConcurrent` over the words of a record. The counter advances for a dropped
record too, so a gap in the counts of the records delivered is the number of
records dropped there, and `losses_are_gaps` says that it is nothing else.
-/
open Lib.CInt Lib.Runs

namespace Dmacftu.TraceLoss

open Spsc (Elem State Write Writer letIn)

/-! ## Records as words -/

def typeOpCode : TypeOp → Nat
  | .OP_COPY_NO_DEF => 0
  | .OP_COPY_CPU => 1
  | .OP_COPY_DMA => 2

def typeOpOf : Nat → TypeOp
  | 1 => .OP_COPY_CPU
  | 2 => .OP_COPY_DMA
  | _ => .OP_COPY_NO_DEF

/-- A record in memory, field by field. -/
def words (u : UnitBuff) : Elem 8 Nat :=
  ![u.index_cpu_event, u.count_event, u.addr, u.size, typeOpCode u.type_op, u.index_cpu, u.clock_cpu_start,
    u.clock_cpu_end]

/-- What a reader makes of the words of a record. -/
def record (e : Elem 8 Nat) : UnitBuff := ⟨e 0, e 1, e 2, e 3, typeOpOf (e 4), e 5, e 6, e 7⟩

theorem record_words (u : UnitBuff) : record (words u) = u := by
  obtain ⟨a, b, c, d, op, f, g, h⟩ := u
  cases op <;> rfl

/-! ## The machine -/

/-- A copy that ends on the CPU, with the record it made so far, or a step of
`cbWrite` or `cbRead_list`. -/
inductive Act where
  | copy (tr : TraceEnv) (unit : UnitBuff)
  | ring (a : Spsc.Act 8 Nat)

def Act.isCopy : Act → Bool
  | .copy _ _ => true
  | .ring _ => false

def step (cpu : Nat) (s : State 8 Nat) : Act → Option (State 8 Nat)
  | .copy tr unit =>
    if u16 tr.get_cpu = cpu then
      let r := stamp cpu s.cb unit
      Spsc.step { s with cb := r.2 } (.w_call (words r.1))
    else none
  -- only the traced copies call `cbWrite`
  | .ring (.w_call _) => none
  | .ring a => Spsc.step s a

/-! ## The records issued -/

/-- The element of a call that has yet to make its fullness test. -/
def pending : Writer 8 Nat → Option (Elem 8 Nat)
  | .called elem => some elem
  | .loaded_end elem _ => some elem
  | _ => none

/-- The elements `cbWrite` was called with, in order. -/
def issued (s : State 8 Nat) : List (Elem 8 Nat) := s.history.map (·.elem) ++ (pending s.writer).toList

def numbers (es : List (Elem 8 Nat)) : List Nat := es.map fun e => (record e).count_event

/-- Below `2 ^ 63` copies the counter is the number of copies, and they are
numbered from 1 on. -/
structure Inv (cpu : Nat) (s : State 8 Nat) : Prop where
  ring : Spsc.Inv s
  counter : (issued s).length < 2 ^ 63 → s.cb.count_event = (issued s).length
  counts : (issued s).length < 2 ^ 63 → numbers (issued s) = List.range' 1 (issued s).length
  cpu : ∀ e ∈ issued s, (record e).index_cpu_event = cpu

variable {cpu : Nat} {s s' : State 8 Nat}

/-- A step inside `cbWrite` or `cbRead_list` issues nothing and leaves the
counter alone. -/
theorem step_ring {a : Spsc.Act 8 Nat} (ha : ∀ elem, a ≠ .w_call elem) (h : Spsc.step s a = some s') :
    issued s' = issued s ∧ s'.cb.count_event = s.cb.count_event := by
  cases a with
  | w_call elem => exact absurd rfl (ha elem)
  | w_load_end =>
    cases hw : s.writer <;> simp only [Spsc.step, hw] at h <;> cases h
    simp [issued, pending, hw]
  | w_load_start =>
    cases hw : s.writer with
    | loaded_end elem e =>
      simp only [Spsc.step, hw] at h
      split at h <;> cases h <;> simp [issued, pending, hw]
    | _ => simp [Spsc.step, hw] at h
  | w_copy _ | w_store_end =>
    cases hw : s.writer with
    | copying elem done =>
      simp only [Spsc.step, hw] at h
      split at h <;> cases h
      simp [issued, pending, hw]
    | _ => simp [Spsc.step, hw] at h
  | r_call elem n =>
    cases hr : s.reader with
    | idle =>
      simp only [Spsc.step, hr] at h
      split at h
      · split at h <;> cases h <;> exact ⟨rfl, rfl⟩
      · cases h
    | _ => simp [Spsc.step, hr] at h
  | r_copy i j =>
    cases hr : s.reader with
    | idle => simp [Spsc.step, hr] at h
    | copying_1 s1 s2 elem done | copying_2 s1 s2 elem done =>
      simp only [Spsc.step, hr] at h
      split at h <;> cases h
      exact ⟨rfl, rfl⟩
  | r_store_start =>
    cases hr : s.reader with
    | idle => simp [Spsc.step, hr] at h
    | copying_1 s1 s2 elem done =>
      simp only [Spsc.step, hr] at h
      split at h
      · split at h <;> cases h <;> exact ⟨rfl, rfl⟩
      · cases h
    | copying_2 s1 s2 elem done =>
      simp only [Spsc.step, hr] at h
      split at h <;> cases h
      exact ⟨rfl, rfl⟩

/-- A copy takes the next number and issues its record. -/
theorem step_copy {tr : TraceEnv} {unit : UnitBuff} (h : step cpu s (.copy tr unit) = some s') :
    issued s' = issued s ++ [words (stamp cpu s.cb unit).1] ∧ s'.cb = (stamp cpu s.cb unit).2 := by
  simp only [step] at h
  split at h
  · cases hw : s.writer <;> simp only [Spsc.step, hw] at h <;> cases h
    simp [issued, pending, hw]
  · cases h

/-- The ring's invariant does not read the counter. -/
theorem ring_of_count (h : Spsc.Inv s) (c : Int) : Spsc.Inv { s with cb := { s.cb with count_event := c } } :=
  ⟨h.size_pos, h.size_lt, h.end_eq, h.start_eq, h.freed_le, h.room, h.slots, by
    have := h.writer
    cases hw : s.writer <;> rw [hw] at this <;> exact this, h.reader, h.dropped⟩

theorem init_inv (cpu : Nat) (zero : Elem 8 Nat) : Inv cpu (Spsc.init zero) where
  ring := Spsc.init_inv zero
  counter _ := rfl
  counts _ := rfl
  cpu _ h := absurd h List.not_mem_nil

theorem inv_copy {tr : TraceEnv} {unit : UnitBuff} (hi : Inv cpu s) (h : step cpu s (.copy tr unit) = some s') :
    Inv cpu s' := by
  obtain ⟨hissued, hcb⟩ := step_copy h
  have hlen : (issued s').length = (issued s).length + 1 := by rw [hissued]; simp
  have hnext : (issued s').length < 2 ^ 63 → s64 (s.cb.count_event + 1) = (issued s).length + 1 := by
    intro hlt
    rw [hi.counter (by omega)]
    apply s64_of_range <;> omega
  refine ⟨?_, fun hlt => ?_, fun hlt => ?_, fun e he => ?_⟩
  · simp only [step] at h
    split at h
    · exact Spsc.step_inv (ring_of_count hi.ring _) h
    · cases h
  · rw [hcb, hlen]
    exact hnext hlt
  · have hnum : (record (words (stamp cpu s.cb unit).1)).count_event = (issued s).length + 1 := by
      rw [record_words]
      show u64 (s64 (s.cb.count_event + 1)) = _
      rw [hnext hlt, u64_of_range (by omega) (by omega)]
      omega
    rw [hlen, hissued, List.range'_1_concat, ← hi.counts (by omega)]
    unfold numbers
    rw [List.map_append, List.map_singleton, hnum, Nat.add_comm]
  · rw [hissued, List.mem_append, List.mem_singleton] at he
    rcases he with he | rfl
    · exact hi.cpu e he
    · rw [record_words]
      rfl

theorem step_ring_eq {a : Spsc.Act 8 Nat} (h : step cpu s (.ring a) = some s') :
    (∀ elem, a ≠ .w_call elem) ∧ Spsc.step s a = some s' := by
  cases a with
  | w_call elem => cases h
  | _ => exact ⟨by simp, h⟩

theorem step_inv {a : Act} (hi : Inv cpu s) (h : step cpu s a = some s') : Inv cpu s' := by
  cases a with
  | copy tr unit => exact inv_copy hi h
  | ring a =>
    obtain ⟨ha, hs⟩ := step_ring_eq h
    obtain ⟨hissued, hcount⟩ := step_ring ha hs
    refine ⟨Spsc.step_inv hi.ring hs, ?_, ?_, ?_⟩
    · rw [hissued, hcount]
      exact hi.counter
    · rw [hissued]
      exact hi.counts
    · rw [hissued]
      exact hi.cpu

theorem run_inv {zero : Elem 8 Nat} {acts : List Act} (h : exec (step cpu) (Spsc.init zero) acts = some s) :
    Inv cpu s := exec_inv (Inv cpu) (fun _ _ _ => step_inv) (init_inv cpu zero) h

/-- As many records are issued as copies are made. -/
theorem run_issued {acts : List Act} (h : exec (step cpu) s acts = some s') :
    (issued s').length = (issued s).length + acts.countP Act.isCopy := by
  induction acts generalizing s with
  | nil => cases h; rfl
  | cons a acts ih =>
    obtain ⟨t, ht, h⟩ := exec_cons.1 h
    rw [ih h, List.countP_cons]
    cases a with
    | copy tr unit =>
      rw [(step_copy ht).1]
      simp [Act.isCopy]
      omega
    | ring a =>
      obtain ⟨ha, hs⟩ := step_ring_eq ht
      rw [(step_ring ha hs).1]
      simp [Act.isCopy]

/-! ## Calls one after the other -/

/-- A copy that ends on CPU 3, up to its fullness test. -/
def sampleCall : List Act :=
  [.copy ⟨64, 3, 10, 20, 3⟩ ⟨0, 0, 64, 5, .OP_COPY_DMA, 3, 10, 20⟩, .ring .w_load_end, .ring .w_load_start]

/-- What follows the test if the record was let in. -/
def sampleStore : List Act := (List.finRange 8).map (fun j => .ring (.w_copy j)) ++ [.ring .w_store_end]

/-- A read of one record. -/
def sampleRead : List Act :=
  .ring (.r_call (fun _ _ => 0) 1) :: ((List.finRange 8).map (fun j => .ring (.r_copy 0 j)) ++ [.ring .r_store_start])

/-- The record of copy number `n`. -/
def sampleRecord (n : Nat) : UnitBuff := ⟨3, n, 64, 5, .OP_COPY_DMA, 3, 10, 20⟩

/-- No call is under way on CPU 3: the records `es` were let in, `f` of them are read, `n` copies were made. -/
structure Between (s : State 8 Nat) (es : List UnitBuff) (f n : Nat) : Prop where
  inv : Inv 3 s
  writer : s.writer = .idle
  reader : s.reader = .idle
  size : s.cb.size = CIRC_BUFF_SIZE
  accepted : s.accepted = es.map words
  freed : s.freed = f
  count : s.cb.count_event = n

variable {es : List UnitBuff} {f n : Nat}

theorem Between.published (h : Between s es f n) : s.published = es.length := by
  have hw := h.inv.ring.writer
  rw [h.writer, h.accepted] at hw
  simpa [Spsc.WriterOk] using hw.symm

theorem Between.delivered (h : Between s es f n) : s.delivered = (es.take f).map words := by
  have hr := h.inv.ring.reader
  rw [h.reader, h.accepted, h.freed] at hr
  rw [List.map_take]
  exact hr

theorem Between.full_iff (h : Between s es f n) :
    u32 (s.cb.end_ + 1) % s.cb.size = s.cb.start ↔ es.length + 1 = f + CIRC_BUFF_SIZE := by
  have hfull := cbIsFull_iff h.inv.ring.ok
  simp only [cbIsFull, beq_iff_eq] at hfull
  have hle := h.inv.ring.freed_le
  rw [h.published, h.freed] at hle
  rw [hfull, h.inv.ring.stored_eq, h.published, h.freed, h.size]
  unfold CIRC_BUFF_SIZE
  omega

/-- Words stored one after the other. -/
theorem store_words (elem : Elem 8 Nat) : ∀ (js : List (Fin 8)) (s : State 8 Nat) (done : Finset (Fin 8)),
    s.writer = .copying elem done → js.Nodup → (∀ j ∈ js, j ∉ done) →
    ∃ arr, exec (step 3) s (js.map fun j => .ring (.w_copy j)) =
      some { s with writer := .copying elem (done ∪ js.toFinset), cb := { s.cb with array_element := arr } }
  | [], s, done, hw, _, _ => ⟨s.cb.array_element, by simp [exec, ← hw]⟩
  | j :: js, s, done, hw, hnd, hnew => by
    rw [List.nodup_cons] at hnd
    obtain ⟨arr, h⟩ := store_words elem js
      { s with
        writer := .copying elem (insert j done)
        cb := { s.cb with array_element := Spsc.put s.cb.array_element s.cb.end_ j (elem j) } }
      (insert j done) rfl hnd.2 (by grind)
    refine ⟨arr, exec_cons.2 ⟨_, ?_, h.trans ?_⟩⟩
    · simp [step, Spsc.step, hw, hnew j List.mem_cons_self]
    · simp [Finset.insert_union]

/-- Words of the first record loaded one after the other. -/
theorem load_words (s1 s2 : Int) (h1 : 0 < u64 s1) : ∀ (js : List (Fin 8)) (s : State 8 Nat)
    (elem : Nat → Elem 8 Nat) (done : Finset (Nat × Fin 8)),
    s.reader = .copying_1 s1 s2 elem done → js.Nodup → (∀ j ∈ js, (0, j) ∉ done) →
    ∃ elem', exec (step 3) s (js.map fun j => .ring (.r_copy 0 j)) =
      some { s with reader := .copying_1 s1 s2 elem' (done ∪ (js.map fun j => (0, j)).toFinset) }
  | [], s, elem, done, hr, _, _ => ⟨elem, by simp [exec, ← hr]⟩
  | j :: js, s, elem, done, hr, hnd, hnew => by
    rw [List.nodup_cons] at hnd
    obtain ⟨elem', h⟩ := load_words s1 s2 h1 js
      { s with reader := .copying_1 s1 s2 (Spsc.put elem 0 j (s.cb.array_element (s.cb.start + 0) j)) (insert (0, j) done) }
      _ (insert (0, j) done) rfl hnd.2 (by grind)
    refine ⟨elem', exec_cons.2 ⟨_, ?_, h.trans ?_⟩⟩
    · simp [step, Spsc.step, hr, hnew j List.mem_cons_self, h1]
    · simp [Finset.insert_union]

/-- All words stored, the record is published. -/
theorem store_record {elem : Elem 8 Nat} (hw : s.writer = .copying elem ∅) :
    ∃ arr, exec (step 3) s sampleStore = some { s with
      writer := .idle
      cb := { s.cb with array_element := arr, end_ := u32 (s.cb.end_ + 1) % s.cb.size }
      published := s.published + 1 } := by
  obtain ⟨arr, h⟩ := store_words elem (List.finRange 8) s ∅ hw (List.nodup_finRange 8) (by simp)
  refine ⟨arr, exec_concat.2 ⟨_, h, ?_⟩⟩
  simp [step, Spsc.step]

/-- All words loaded, the slot is given back. -/
theorem load_record {elem : Nat → Elem 8 Nat} (hr : s.reader = .copying_1 1 0 elem ∅) :
    ∃ elem', exec (step 3) s ((List.finRange 8).map (fun j => .ring (.r_copy 0 j)) ++ [.ring .r_store_start]) =
      some { s with
      cb := { s.cb with start := u32 (s.cb.start + 1) % s.cb.size }
      freed := s.freed + 1
      reader := .idle
      delivered := s.delivered ++ Spsc.returned 1 0 elem' } := by
  obtain ⟨elem', h⟩ := load_words 1 0 (by decide) (List.finRange 8) s elem ∅ hr (List.nodup_finRange 8) (by simp)
  refine ⟨elem', exec_concat.2 ⟨_, h, ?_⟩⟩
  have hone : u64 1 = 1 := rfl
  simp [step, Spsc.step, Spsc.Copied, hone]

/-- The copy takes its number and makes its test. -/
theorem Between.call (h : Between s es f n) (hn : n < 2 ^ 62) :
    ∃ w, exec (step 3) s sampleCall = some { s with
        cb := { s.cb with count_event := n + 1 }
        writer := if es.length + 1 = f + CIRC_BUFF_SIZE then .idle else .copying (words (sampleRecord (n + 1))) ∅
        history := s.history ++ [w] } ∧
      w.elem = words (sampleRecord (n + 1)) ∧ w.accepted = !decide (es.length + 1 = f + CIRC_BUFF_SIZE) := by
  have hcount : s64 (s.cb.count_event + 1) = n + 1 := by
    rw [h.count]
    apply s64_of_range <;> omega
  have hstamp : stamp 3 s.cb ⟨0, 0, 64, 5, .OP_COPY_DMA, 3, 10, 20⟩ =
      (sampleRecord (n + 1), { s.cb with count_event := n + 1 }) := by
    have hu : u64 ((n : Int) + 1) = n + 1 := by rw [u64_of_range (by omega) (by omega)]; omega
    simp [stamp, get_counter, hcount, sampleRecord, hu]
  have hcpu : u16 3 = 3 := rfl
  have hfull := h.full_iff
  by_cases he : es.length + 1 = f + CIRC_BUFF_SIZE
  · refine ⟨⟨words (sampleRecord (n + 1)), false, s.cb.stored⟩, ?_, rfl, by simp [he]⟩
    simp [sampleCall, exec, step, Spsc.step, h.writer, hcpu, hstamp, hfull.2 he, he, CircularBuffer.stored]
  · refine ⟨⟨words (sampleRecord (n + 1)), true, s.cb.stored⟩, ?_, rfl, by simp [he]⟩
    simp [sampleCall, exec, step, Spsc.step, h.writer, hcpu, hstamp, mt hfull.1 he, he, CircularBuffer.stored]

theorem Between.lost (h : Between s es f n) (hn : n < 2 ^ 62) (hfull : es.length + 1 = f + CIRC_BUFF_SIZE) :
    ∃ s', exec (step 3) s sampleCall = some s' ∧ Between s' es f (n + 1) := by
  obtain ⟨w, hrun, helem, hacc⟩ := h.call hn
  rw [if_pos hfull] at hrun
  refine ⟨_, hrun, exec_inv (Inv 3) (fun _ _ _ => step_inv) h.inv hrun, rfl, h.reader, h.size, ?_, h.freed, rfl⟩
  have ha := h.accepted
  unfold State.accepted at ha ⊢
  rw [Spsc.letIn_append, ha, hacc]
  simp [hfull]

theorem Between.kept (h : Between s es f n) (hn : n < 2 ^ 62) (hroom : es.length + 1 < f + CIRC_BUFF_SIZE) :
    ∃ s', exec (step 3) s (sampleCall ++ sampleStore) = some s' ∧ Between s' (es ++ [sampleRecord (n + 1)]) f (n + 1) := by
  obtain ⟨w, hcall, helem, hacc⟩ := h.call hn
  rw [if_neg (by omega)] at hcall
  obtain ⟨arr, hstore⟩ := store_record (s := { s with
    cb := { s.cb with count_event := n + 1 }
    writer := .copying (words (sampleRecord (n + 1))) ∅
    history := s.history ++ [w] }) rfl
  have hrun := exec_append.2 ⟨_, hcall, hstore⟩
  refine ⟨_, hrun, exec_inv (Inv 3) (fun _ _ _ => step_inv) h.inv hrun, rfl, h.reader, h.size, ?_, h.freed, rfl⟩
  have ha := h.accepted
  unfold State.accepted at ha ⊢
  rw [Spsc.letIn_append, ha, hacc, helem, decide_eq_false (by omega)]
  simp

theorem Between.read (h : Between s es f n) (hlt : f < es.length) :
    ∃ s', exec (step 3) s sampleRead = some s' ∧ Between s' es (f + 1) n := by
  have hst := h.inv.ring.stored_eq
  rw [h.published, h.freed] at hst
  have hseg : cbSegments s.cb.start s.cb.end_ s.cb.size 1 = some (1, 0) := by
    rcases cbSegments_spec h.inv.ring.ok (n := 1) (by decide) (by decide) with ⟨-, hz⟩ | ⟨a, b, hseg, hab, -, hb⟩
    · omega
    · rw [show min (Int.toNat 1) s.cb.stored = 1 by omega] at hab
      have hstart := h.inv.ring.ok.start_lt
      obtain ⟨rfl, rfl⟩ : a = 1 ∧ b = 0 := by omega
      exact hseg
  obtain ⟨elem, hload⟩ := load_record (s := { s with reader := .copying_1 1 0 (fun _ _ => 0) ∅ }) rfl
  have hcall : step 3 s (.ring (.r_call (fun _ _ => 0) 1)) = some { s with reader := .copying_1 1 0 (fun _ _ => 0) ∅ } := by
    simp [step, Spsc.step, h.reader, hseg]
  have hrun := exec_cons.2 ⟨_, hcall, hload⟩
  refine ⟨_, hrun, exec_inv (Inv 3) (fun _ _ _ => step_inv) h.inv hrun, h.writer, rfl, h.size, h.accepted, ?_, h.count⟩
  exact congrArg (· + 1) h.freed

theorem Between.kept_all (h : Between s es f n) (k : Nat) (hn : n + k < 2 ^ 62)
    (hroom : es.length + k < f + CIRC_BUFF_SIZE) :
    ∃ s', exec (step 3) s (List.replicate k (sampleCall ++ sampleStore)).flatten = some s' ∧
      Between s' (es ++ (List.range' (n + 1) k).map sampleRecord) f (n + k) := by
  induction k with
  | zero => exact ⟨s, rfl, by simpa using h⟩
  | succ k ih =>
    obtain ⟨t, ht, hb⟩ := ih (by omega) (by omega)
    obtain ⟨s', hs', hb'⟩ := hb.kept (by omega) (by rw [List.length_append, List.length_map, List.length_range']; omega)
    refine ⟨s', ?_, ?_⟩
    · rw [List.replicate_succ', List.flatten_concat]
      exact exec_append.2 ⟨t, ht, hs'⟩
    · rw [List.range'_concat, List.map_append, ← List.append_assoc, ← Nat.add_assoc]
      simpa [Nat.add_right_comm] using hb'

theorem Between.read_all (h : Between s es f n) (k : Nat) (hle : f + k ≤ es.length) :
    ∃ s', exec (step 3) s (List.replicate k sampleRead).flatten = some s' ∧ Between s' es (f + k) n := by
  induction k with
  | zero => exact ⟨s, rfl, h⟩
  | succ k ih =>
    obtain ⟨t, ht, hb⟩ := ih (by omega)
    obtain ⟨s', hs', hb'⟩ := hb.read (by omega)
    refine ⟨s', ?_, hb'⟩
    rw [List.replicate_succ', List.flatten_concat]
    exact exec_append.2 ⟨t, ht, hs'⟩

/-- 1023 copies fill the ring, the next one finds it full; one record is read, one more copy is made, and the reader
takes all there is. -/
def sampleActs : List Act :=
  (List.replicate 1023 (sampleCall ++ sampleStore)).flatten ++ (sampleCall ++ (sampleRead ++ ((sampleCall ++ sampleStore) ++
    (List.replicate 1023 sampleRead).flatten)))

theorem sample_losses : ∃ s, exec (step 3) (Spsc.init fun _ => 0) sampleActs = some s ∧
    Between s ((List.range' 1 1023).map sampleRecord ++ [sampleRecord 1025]) 1024 1025 := by
  have h₀ : Between (Spsc.init fun _ => 0) [] 0 0 := ⟨init_inv 3 _, rfl, rfl, rfl, rfl, rfl, rfl⟩
  obtain ⟨s₁, hs₁, h₁⟩ := h₀.kept_all 1023 (by decide) (by decide)
  obtain ⟨s₂, hs₂, h₂⟩ := h₁.lost (by decide) (by simp [CIRC_BUFF_SIZE])
  obtain ⟨s₃, hs₃, h₃⟩ := h₂.read (by simp)
  obtain ⟨s₄, hs₄, h₄⟩ := h₃.kept (by decide) (by simp [CIRC_BUFF_SIZE])
  obtain ⟨s₅, hs₅, h₅⟩ := h₄.read_all 1023 (by simp)
  exact ⟨s₅, exec_append.2 ⟨_, hs₁, exec_append.2 ⟨_, hs₂, exec_append.2 ⟨_, hs₃, exec_append.2 ⟨_, hs₄, hs₅⟩⟩⟩⟩, h₅⟩

/-! ## Gaps -/

/-- The call found the ring full: it dropped its record. -/
def Dropped (size : Nat) (w : Write 8 Nat) : Prop := w.accepted = false ∧ w.stored = size - 1

/-- The number of a call in the history is its place. -/
theorem Inv.count_eq (hi : Inv cpu s) (hlt : (issued s).length < 2 ^ 63) (pre : List (Write 8 Nat))
    {post : List (Write 8 Nat)} {w : Write 8 Nat} (h : s.history = pre ++ w :: post) :
    (record w.elem).count_event = pre.length + 1 := by
  have hget : (numbers (issued s))[pre.length]? = some (record w.elem).count_event := by
    simp [numbers, issued, h]
  have hlen : pre.length < (issued s).length := by simp [issued, h]
  rw [hi.counts hlt, List.getElem?_range' hlen, Option.some.injEq] at hget
  omega

/-- Calls that were not let in were dropped. -/
theorem Inv.dropped (hi : Inv cpu s) (pre : List (Write 8 Nat)) {gap post : List (Write 8 Nat)}
    (h : s.history = pre ++ (gap ++ post))
    (hgap : ∀ w ∈ gap, ¬ w.accepted = true) : ∀ w ∈ gap, Dropped s.cb.size w := by
  intro w hw
  have hacc : w.accepted = false := by simpa using hgap w hw
  exact ⟨hacc, hi.ring.dropped w (by simp [h, hw]) hacc⟩

/-- Between two neighbours of a filtered list the list has nothing else that
passes the filter. -/
theorem filter_gap {α : Type} {p : α → Bool} {l as bs : List α} {x y : α} (h : l.filter p = as ++ x :: y :: bs) :
    ∃ pre gap post, l = pre ++ x :: (gap ++ y :: post) ∧ ∀ w ∈ gap, ¬ p w = true := by
  obtain ⟨l₁, l₂, rfl, -, h₂⟩ := List.filter_eq_append_iff.1 h
  obtain ⟨l₃, l₄, rfl, -, -, h₄⟩ := List.filter_eq_cons_iff.1 h₂
  obtain ⟨gap, post, rfl, hgap, -, -⟩ := List.filter_eq_cons_iff.1 h₄
  exact ⟨l₁ ++ l₃, gap, post, by simp, hgap⟩

/-- The calls whose records were delivered are the first that were let in. -/
theorem Inv.delivered_eq (hi : Inv cpu s) :
    ∃ ds rest, s.history.filter (·.accepted) = ds ++ rest ∧ s.delivered.map record = ds.map fun w => record w.elem := by
  obtain ⟨rest, hrest⟩ := hi.ring.delivered_prefix
  obtain ⟨ds, ts, hsplit, hd, -⟩ := List.map_eq_append_iff.1 hrest.symm
  exact ⟨ds, ts, hsplit, by rw [← hd, List.map_map]; rfl⟩

theorem Inv.history_counts (hi : Inv cpu s) (hlt : (issued s).length < 2 ^ 63) :
    (s.history.map fun w => (record w.elem).count_event).Pairwise (· < ·) := by
  have hsub : List.Sublist (s.history.map fun w => (record w.elem).count_event) (numbers (issued s)) := by
    simp [numbers, issued, Function.comp_def]
  rw [hi.counts hlt] at hsub
  exact List.Pairwise.sublist hsub List.pairwise_lt_range'

/-- The records delivered are those of copies that ended on the CPU, in
increasing order of their counts. A gap between the counts of two neighbours is
the run of copies between them, every one of which found the ring full; so is
what precedes the first count. -/
theorem losses_are_gaps {cpu : Nat} {zero : Elem 8 Nat} {acts : List Act} {s : State 8 Nat}
    (h : exec (step cpu) (Spsc.init zero) acts = some s) (hn : acts.countP Act.isCopy < 2 ^ 63) :
    (∀ u ∈ s.delivered.map record, u.index_cpu_event = cpu) ∧
    (s.delivered.map record).Pairwise (fun u v => u.count_event < v.count_event) ∧
    (∀ u us, s.delivered.map record = u :: us → ∃ gap w post, s.history = gap ++ w :: post ∧ record w.elem = u ∧
      gap.length = u.count_event - 1 ∧ ∀ w ∈ gap, Dropped s.cb.size w) ∧
    ∀ us u v vs, s.delivered.map record = us ++ u :: v :: vs → ∃ pre w gap w' post,
      s.history = pre ++ w :: (gap ++ w' :: post) ∧ record w.elem = u ∧ record w'.elem = v ∧
      gap.length = v.count_event - u.count_event - 1 ∧ ∀ w ∈ gap, Dropped s.cb.size w := by
  have hi := run_inv h
  have hlt : (issued s).length < 2 ^ 63 := by
    rw [run_issued h]
    simpa [issued, pending, Spsc.init] using hn
  obtain ⟨ds, rest, hfilter, hdel⟩ := hi.delivered_eq
  rw [hdel]
  have hsub : List.Sublist ds s.history := by
    have := List.filter_sublist (p := fun w : Write 8 Nat => w.accepted) (l := s.history)
    rw [hfilter] at this
    exact (List.sublist_append_left ds rest).trans this
  refine ⟨fun u hu => ?_, ?_, fun u us hus => ?_, fun us u v vs hus => ?_⟩
  · obtain ⟨w, hw, rfl⟩ := List.mem_map.1 hu
    refine hi.cpu _ (List.mem_append_left _ (List.mem_map_of_mem (hsub.subset hw)))
  · rw [List.pairwise_map]
    exact ((List.pairwise_map.1 (hi.history_counts hlt)).sublist hsub)
  · obtain ⟨w, ds', rfl, rfl, -⟩ := List.map_eq_cons_iff.1 hus
    obtain ⟨gap, post, heq, hgap, -, -⟩ := List.filter_eq_cons_iff.1 hfilter
    refine ⟨gap, w, post, heq, rfl, ?_, hi.dropped [] heq hgap⟩
    rw [hi.count_eq hlt gap heq]
    omega
  · obtain ⟨ds₁, ds₂, rfl, -, hus₂⟩ := List.map_eq_append_iff.1 hus
    obtain ⟨w, ds₃, rfl, rfl, hus₃⟩ := List.map_eq_cons_iff.1 hus₂
    obtain ⟨w', ds₄, rfl, rfl, -⟩ := List.map_eq_cons_iff.1 hus₃
    have hnext : s.history.filter (·.accepted) = ds₁ ++ w :: w' :: (ds₄ ++ rest) := by rw [hfilter]; simp
    obtain ⟨pre, gap, post, heq, hgap⟩ := filter_gap hnext
    refine ⟨pre, w, gap, w', post, heq, rfl, rfl, ?_, hi.dropped (pre ++ [w]) (by simpa using heq) hgap⟩
    have h₁ := hi.count_eq hlt pre heq
    have h₂ : (record w'.elem).count_event = _ := hi.count_eq hlt (pre ++ w :: gap) (by simpa using heq)
    rw [List.length_append, List.length_cons] at h₂
    omega

theorem losses_are_gaps_sample : ∃ s, exec (step 3) (Spsc.init fun _ => 0) sampleActs = some s ∧
    s.delivered.map record = (List.range' 1 1023).map sampleRecord ++ [sampleRecord 1025] ∧
    (s.delivered.map record).Pairwise (fun u v => u.count_event < v.count_event) ∧
    ∃ pre w gap w' post, s.history = pre ++ w :: (gap ++ w' :: post) ∧ record w.elem = sampleRecord 1023 ∧
      record w'.elem = sampleRecord 1025 ∧ gap.length = 1 ∧ ∀ w ∈ gap, Dropped CIRC_BUFF_SIZE w := by
  obtain ⟨s, hs, h⟩ := sample_losses
  have hdel : s.delivered.map record = (List.range' 1 1023).map sampleRecord ++ [sampleRecord 1025] := by
    rw [h.delivered, List.take_of_length_le (by simp), List.map_map,
      show record ∘ words = id from funext record_words, List.map_id]
  have hcopies : sampleActs.countP Act.isCopy < 2 ^ 63 := by
    have hcall : sampleCall.countP Act.isCopy = 1 := by decide
    have hstore : sampleStore.countP Act.isCopy = 0 := by decide
    have hread : sampleRead.countP Act.isCopy = 0 := by decide
    simp only [sampleActs, List.countP_append, List.countP_flatten, List.map_replicate, List.sum_replicate, hcall,
      hstore, hread]
    decide
  obtain ⟨-, hsorted, -, hgaps⟩ := losses_are_gaps hs hcopies
  obtain ⟨pre, w, gap, w', post, hhist, hw, hw', hlen, hdropped⟩ :=
    hgaps ((List.range' 1 1022).map sampleRecord) (sampleRecord 1023) (sampleRecord 1025) [] (by
      rw [hdel, List.range'_concat (n := 1022)]
      simp)
  exact ⟨s, hs, hdel, hsorted, pre, w, gap, w', post, hhist, hw, hw', hlen, h.size ▸ hdropped⟩

end Dmacftu.TraceLoss
