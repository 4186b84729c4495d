import Dmacftu.CircularBuffer
import Mathlib.Data.Fin.VecNotation
import Mathlib.Data.Fintype.Basic
/-!
# One writer and one reader on the ring

`cbWrite` on one CPU and `cbRead_list` on another, one load or store at a time
under sequential consistency. An element is `W` words: each `memcpy` stores or
loads them one by one in any order, so a torn element is a state like any other.

The ghost fields count the elements whose store of `end` is done (`published`)
and the slots given back by stores of `start` (`freed`), and keep the outcome
of every fullness test (`history`) and what completed reads returned
(`delivered`). The invariant `Inv` places the ring's indices at these counts
and says, for each point of either call, which slots hold complete elements.
-/
open Lib.CInt Lib.Ring Lib.Runs

namespace Dmacftu.Spsc

/-- An element of the ring, word by word. -/
abbrev Elem (W : Nat) (V : Type) := Fin W → V

/-- Where the writer stands in `cbWrite(cb, elem)`. -/
inductive Writer (W : Nat) (V : Type) where
  | idle
  | called (elem : Elem W V)
  /-- `cbIsFull` has loaded `cb->end`. -/
  | loaded_end (elem : Elem W V) (end_ : Nat)
  /-- Inside `memcpy`; the words of `done` are stored. -/
  | copying (elem : Elem W V) (done : Finset (Fin W))

/-- Where the reader stands in `cbRead_list(cb, elem, size)`; each `memcpy` has
copied the words of `done`. -/
inductive Reader (W : Nat) (V : Type) where
  | idle
  | copying_1 (segment_1 segment_2 : Int) (elem : Nat → Elem W V) (done : Finset (Nat × Fin W))
  | copying_2 (segment_1 segment_2 : Int) (elem : Nat → Elem W V) (done : Finset (Nat × Fin W))

/-- A call of `cbWrite` that made its fullness test: whether the test let the
element in, and how many elements were stored when it loaded `cb->start`. -/
structure Write (W : Nat) (V : Type) where
  elem : Elem W V
  accepted : Bool
  stored : Nat

structure State (W : Nat) (V : Type) where
  cb : CircularBuffer (Elem W V)
  writer : Writer W V
  reader : Reader W V
  history : List (Write W V)
  published : Nat
  freed : Nat
  delivered : List (Elem W V)

variable {W : Nat} {V : Type}

/-- The elements of the writes of `h` that were let in. -/
def letIn (h : List (Write W V)) : List (Elem W V) := (h.filter (·.accepted)).map (·.elem)

/-- The elements the writer accepted so far. -/
def State.accepted (s : State W V) : List (Elem W V) := letIn s.history

/-- The state `cbInit` leaves, with no call begun. -/
def init (zero : Elem W V) : State W V where
  cb := cbInit zero
  writer := .idle
  reader := .idle
  history := []
  published := 0
  freed := 0
  delivered := []

/-- The atomic steps. `r_call` is the load of `cb->end`, once a call: `cb->start`
is only ever stored by the reader itself. -/
inductive Act (W : Nat) (V : Type) where
  | w_call (elem : Elem W V)
  | w_load_end
  | w_load_start
  | w_copy (j : Fin W)
  | w_store_end
  | r_call (elem : Nat → Elem W V) (size : Int)
  | r_copy (i : Nat) (j : Fin W)
  | r_store_start

/-- The first `n` elements of a segment are copied. -/
def Copied (n : Nat) (done : Finset (Nat × Fin W)) : Prop := ∀ i < n, ∀ j, (i, j) ∈ done

instance (n : Nat) (done : Finset (Nat × Fin W)) : Decidable (Copied n done) :=
  inferInstanceAs (Decidable (∀ i < n, ∀ j, (i, j) ∈ done))

/-- Store word `j` of slot `i`. -/
def put (arr : Nat → Elem W V) (i : Nat) (j : Fin W) (v : V) : Nat → Elem W V :=
  Function.update arr i (Function.update (arr i) j v)

/-- `return (segment_1 + segment_2)`. -/
def returned (segment_1 segment_2 : Int) (elem : Nat → Elem W V) : List (Elem W V) :=
  (List.range (s32 (segment_1 + segment_2)).toNat).map elem

def step (s : State W V) : Act W V → Option (State W V)
  | .w_call elem => match s.writer with
    | .idle => some { s with writer := .called elem }
    | _ => none
  | .w_load_end => match s.writer with
    | .called elem => some { s with writer := .loaded_end elem s.cb.end_ }
    | _ => none
  | .w_load_start => match s.writer with
    | .loaded_end elem end_ =>
      if u32 (end_ + 1) % s.cb.size = s.cb.start then
        some { s with writer := .idle, history := s.history ++ [⟨elem, false, s.cb.stored⟩] }
      else some { s with writer := .copying elem ∅, history := s.history ++ [⟨elem, true, s.cb.stored⟩] }
    | _ => none
  | .w_copy j => match s.writer with
    | .copying elem done =>
      if j ∈ done then none
      else some { s with
        writer := .copying elem (insert j done)
        cb := { s.cb with array_element := put s.cb.array_element s.cb.end_ j (elem j) } }
    | _ => none
  | .w_store_end => match s.writer with
    | .copying _ done =>
      if ∀ j, j ∈ done then
        some { s with
          writer := .idle
          cb := { s.cb with end_ := u32 (s.cb.end_ + 1) % s.cb.size }
          published := s.published + 1 }
      else none
    | _ => none
  | .r_call elem size => match s.reader with
    | .idle =>
      if 0 ≤ size ∧ size < 2 ^ 31 then
        match cbSegments s.cb.start s.cb.end_ s.cb.size size with
        | none => some s
        | some (segment_1, segment_2) => some { s with reader := .copying_1 segment_1 segment_2 elem ∅ }
      else none
    | _ => none
  | .r_copy i j => match s.reader with
    | .idle => none
    | .copying_1 segment_1 segment_2 elem done =>
      if i < u64 segment_1 ∧ (i, j) ∉ done then
        let elem := put elem i j (s.cb.array_element (s.cb.start + i) j)
        some { s with reader := .copying_1 segment_1 segment_2 elem (insert (i, j) done) }
      else none
    | .copying_2 segment_1 segment_2 elem done =>
      if i < u64 segment_2 ∧ (i, j) ∉ done then
        let elem := put elem (u64 segment_1 + i) j (s.cb.array_element (s.cb.start + i) j)
        some { s with reader := .copying_2 segment_1 segment_2 elem (insert (i, j) done) }
      else none
  | .r_store_start => match s.reader with
    | .idle => none
    | .copying_1 segment_1 segment_2 elem done =>
      if Copied (u64 segment_1) done then
        let cb := { s.cb with start := u32 (s.cb.start + segment_1) % s.cb.size }
        if segment_2 ≠ 0 then
          some { s with
            cb := cb
            freed := s.freed + u64 segment_1
            reader := .copying_2 segment_1 segment_2 elem ∅ }
        else
          some { s with
            cb := cb
            freed := s.freed + u64 segment_1
            reader := .idle
            delivered := s.delivered ++ returned segment_1 segment_2 elem }
      else none
    | .copying_2 segment_1 segment_2 elem done =>
      if Copied (u64 segment_2) done then
        some { s with
          cb := { s.cb with start := u32 (s.cb.start + segment_2) % s.cb.size }
          freed := s.freed + u64 segment_2
          reader := .idle
          delivered := s.delivered ++ returned segment_1 segment_2 elem }
      else none

/-! ## The invariant -/

/-- The writer's side: `acc` are the accepted elements. While it copies, the
slot at `end` is free and is filled word by word. -/
def WriterOk (acc : List (Elem W V)) (cb : CircularBuffer (Elem W V)) (published freed : Nat) : Writer W V → Prop
  | .idle | .called _ => acc.length = published
  | .loaded_end _ end_ => acc.length = published ∧ end_ = cb.end_
  | .copying elem done => acc.length = published + 1 ∧ acc[published]? = some elem ∧
      published + 1 < freed + cb.size ∧ ∀ j ∈ done, cb.array_element cb.end_ j = elem j

/-- The words copied so far to `elem + d` are those of the elements from `f` on. -/
def Loaded (acc : List (Elem W V)) (f n d : Nat) (elem : Nat → Elem W V) (done : Finset (Nat × Fin W)) : Prop :=
  ∀ i j, (i, j) ∈ done → i < n ∧ ∃ e, acc[f + i]? = some e ∧ elem (d + i) j = e j

/-- The reader's side: both segments lie before the published end. -/
def ReaderOk (acc : List (Elem W V)) (start size published freed : Nat) (delivered : List (Elem W V)) :
    Reader W V → Prop
  | .idle => delivered = acc.take freed
  | .copying_1 s1 s2 elem done => ∃ a b : Nat, s1 = a ∧ s2 = b ∧ freed + a + b ≤ published ∧
      start + a ≤ size ∧ (b ≠ 0 → start + a = size) ∧ Loaded acc freed a 0 elem done ∧
      delivered = acc.take freed
  | .copying_2 s1 s2 elem done => ∃ a b : Nat, s1 = a ∧ s2 = b ∧ a ≤ freed ∧ freed + b ≤ published ∧
      start = 0 ∧ a + b < size ∧ (∀ i < a, acc[freed - a + i]? = some (elem i)) ∧ Loaded acc freed b a elem done ∧
      delivered = acc.take (freed - a)

structure Inv (s : State W V) : Prop where
  size_pos : 0 < s.cb.size
  size_lt : s.cb.size < 2 ^ 31
  end_eq : s.cb.end_ = s.published % s.cb.size
  start_eq : s.cb.start = s.freed % s.cb.size
  freed_le : s.freed ≤ s.published
  room : s.published < s.freed + s.cb.size
  /-- The published elements still in the ring are complete. -/
  slots : ∀ k, s.freed ≤ k → k < s.published → s.accepted[k]? = some (s.cb.array_element (k % s.cb.size))
  writer : WriterOk s.accepted s.cb s.published s.freed s.writer
  reader : ReaderOk s.accepted s.cb.start s.cb.size s.published s.freed s.delivered s.reader
  dropped : ∀ w ∈ s.history, w.accepted = false → w.stored = s.cb.size - 1

variable {s s' : State W V}

theorem Inv.ok (h : Inv s) : s.cb.Ok :=
  ⟨h.start_eq ▸ Nat.mod_lt _ h.size_pos, h.end_eq ▸ Nat.mod_lt _ h.size_pos, h.size_lt⟩

theorem Inv.stored_eq (h : Inv s) : s.cb.stored = s.published - s.freed := by
  have hfp := h.freed_le
  have hroom := h.room
  have he : (s.cb.start + s.cb.stored) % s.cb.size = (s.cb.start + (s.published - s.freed)) % s.cb.size := by
    rw [← CircularBuffer.end_eq h.ok, h.end_eq, h.start_eq, Nat.mod_add_mod, Nat.add_sub_cancel' hfp]
  have hm : s.cb.stored ≡ s.published - s.freed [MOD s.cb.size] := Nat.ModEq.add_left_cancel' _ he
  exact hm.eq_of_lt_of_lt (CircularBuffer.stored_lt h.ok) (by omega)

theorem Inv.published_le (h : Inv s) : s.published ≤ s.accepted.length := by
  have hw := h.writer
  cases hwr : s.writer <;> rw [hwr] at hw <;> simp only [WriterOk] at hw <;> omega

/-- A slot counted from `freed` without passing the end of the array. -/
theorem Inv.slot (h : Inv s) {i : Nat} (hi : s.cb.start + i < s.cb.size) :
    (s.freed + i) % s.cb.size = s.cb.start + i := by
  rw [← Nat.mod_add_mod, ← h.start_eq, Nat.mod_eq_of_lt hi]

/-- The writer's slot holds none of the published elements. -/
theorem Inv.slot_ne (h : Inv s) {k : Nat} (hk : s.freed ≤ k) (hp : k < s.published) :
    k % s.cb.size ≠ s.cb.end_ := by
  have := h.room
  have hne := @Lib.Ring.slot_ne s.cb.size s.freed (s.published - s.freed) (k - s.freed) (by omega) (by omega)
  rwa [Nat.add_sub_cancel' hk, Nat.add_sub_cancel' h.freed_le, ← h.end_eq] at hne

theorem put_self (arr : Nat → Elem W V) (i : Nat) (j : Fin W) (v : V) : put arr i j v i j = v := by
  simp [put]

theorem put_ne (arr : Nat → Elem W V) {i i' : Nat} {j j' : Fin W} (v : V) (h : ¬ (i' = i ∧ j' = j)) :
    put arr i j v i' j' = arr i' j' := by
  by_cases hi : i' = i
  · subst hi
    have hj : j' ≠ j := fun hj => h ⟨rfl, hj⟩
    simp [put, hj]
  · simp [put, hi]

/-! ### What a step of one party leaves to the other -/

theorem getElem?_grow {acc xs : List (Elem W V)} {k : Nat} {e : Elem W V} (h : acc[k]? = some e) :
    (acc ++ xs)[k]? = some e := by
  obtain ⟨hk, -⟩ := List.getElem?_eq_some_iff.1 h
  rw [List.getElem?_append_left hk, h]

theorem Loaded.grow {acc xs : List (Elem W V)} {f n d : Nat} {elem : Nat → Elem W V} {done : Finset (Nat × Fin W)}
    (h : Loaded acc f n d elem done) : Loaded (acc ++ xs) f n d elem done := by
  intro i j hij
  obtain ⟨hi, e, he, hv⟩ := h i j hij
  exact ⟨hi, e, getElem?_grow he, hv⟩

/-- The writer accepts and publishes; the reader's elements stay where they are. -/
theorem ReaderOk.grow {acc delivered : List (Elem W V)} {start size p p' f : Nat} {r : Reader W V}
    (h : ReaderOk acc start size p f delivered r) (xs : List (Elem W V)) (hf : f ≤ acc.length) (hp : p ≤ p') :
    ReaderOk (acc ++ xs) start size p' f delivered r := by
  cases r with
  | idle =>
    simp only [ReaderOk] at h ⊢
    rw [List.take_append_of_le_length hf, h]
  | copying_1 s1 s2 elem done =>
    obtain ⟨a, b, h1, h2, hab, ha, hb, hl, hd⟩ := h
    exact ⟨a, b, h1, h2, by omega, ha, hb, hl.grow, by rw [List.take_append_of_le_length hf, hd]⟩
  | copying_2 s1 s2 elem done =>
    obtain ⟨a, b, h1, h2, ha, hb, hst, hab, hel, hl, hd⟩ := h
    exact ⟨a, b, h1, h2, ha, by omega, hst, hab, fun i hi => getElem?_grow (hel i hi), hl.grow,
      by rw [List.take_append_of_le_length (by omega), hd]⟩

/-- The reader gives slots back; the writer only gains room. -/
theorem WriterOk.free {acc : List (Elem W V)} {cb : CircularBuffer (Elem W V)} {p f f' start : Nat} {w : Writer W V}
    (h : WriterOk acc cb p f w) (hf : f ≤ f') : WriterOk acc { cb with start := start } p f' w := by
  cases w with
  | idle | called | loaded_end => exact h
  | copying elem done =>
    obtain ⟨hl, he, hr, hd⟩ := h
    exact ⟨hl, he, by dsimp only; omega, hd⟩

/-! ### The writer's steps -/

theorem letIn_append (h : List (Write W V)) (w : Write W V) :
    letIn (h ++ [w]) = letIn h ++ if w.accepted then [w.elem] else [] := by
  cases hw : w.accepted <;> simp [letIn, hw]

theorem inv_w_load_start (h : Inv s) {elem : Elem W V} {e : Nat} (hw : s.writer = .loaded_end elem e)
    (hs : step s .w_load_start = some s') : Inv s' := by
  have hwr := h.writer
  rw [hw] at hwr
  obtain ⟨hlen, rfl⟩ := hwr
  have hfull := cbIsFull_iff h.ok
  simp only [cbIsFull, beq_iff_eq] at hfull
  have hst := h.stored_eq
  have hroom := h.room
  have hfp := h.freed_le
  simp only [step, hw] at hs
  split at hs
  · -- full: the element is dropped
    rename_i ht
    cases hs
    have hacc : letIn (s.history ++ [⟨elem, false, s.cb.stored⟩]) = letIn s.history := by
      simp [letIn_append]
    refine ⟨h.size_pos, h.size_lt, h.end_eq, h.start_eq, hfp, hroom, ?_, ?_, ?_, ?_⟩
    · simpa only [State.accepted, hacc] using h.slots
    · simpa only [State.accepted, hacc, WriterOk] using hlen
    · simpa only [State.accepted, hacc] using h.reader
    · intro w hwm
      rcases List.mem_append.1 hwm with hwm | hwm
      · exact h.dropped w hwm
      · rw [List.mem_singleton] at hwm
        subst hwm
        exact fun _ => hfull.1 ht
  · -- let in: the reader may free more slots from here on, never take the one at `end`
    rename_i ht
    cases hs
    have hacc : letIn (s.history ++ [⟨elem, true, s.cb.stored⟩]) = letIn s.history ++ [elem] := by
      simp [letIn_append]
    rw [hfull] at ht
    refine ⟨h.size_pos, h.size_lt, h.end_eq, h.start_eq, hfp, hroom, ?_, ?_, ?_, ?_⟩
    · intro k hk hkp
      simp only [State.accepted, hacc]
      exact getElem?_grow (h.slots k hk hkp)
    · simp only [State.accepted, hacc]
      refine ⟨by rw [List.length_append, List.length_singleton, ← hlen]; rfl, ?_, by omega, by simp⟩
      rw [← hlen]
      exact List.getElem?_concat_length
    · simp only [State.accepted, hacc]
      exact h.reader.grow _ (by have := h.published_le; simp only [State.accepted] at this; omega) le_rfl
    · intro w hwm
      rcases List.mem_append.1 hwm with hwm | hwm
      · exact h.dropped w hwm
      · rw [List.mem_singleton] at hwm
        subst hwm
        exact fun hf => by cases hf

theorem inv_w_copy (h : Inv s) {elem : Elem W V} {done : Finset (Fin W)} {j : Fin W}
    (hw : s.writer = .copying elem done) (hs : step s (.w_copy j) = some s') : Inv s' := by
  have hwr := h.writer
  rw [hw] at hwr
  obtain ⟨hlen, he, hr, hd⟩ := hwr
  simp only [step, hw] at hs
  split at hs
  · cases hs
  · cases hs
    refine ⟨h.size_pos, h.size_lt, h.end_eq, h.start_eq, h.freed_le, h.room, ?_, ⟨hlen, he, hr, ?_⟩, h.reader, h.dropped⟩
    · -- only the writer's slot changes
      intro k hk hkp
      refine (h.slots k hk hkp).trans (congrArg some (funext fun j' => ?_))
      exact (put_ne _ _ fun hkj => h.slot_ne hk hkp hkj.1).symm
    · intro j' hj'
      by_cases hjj : j' = j
      · subst hjj; exact put_self _ _ _ _
      · exact (put_ne _ _ fun hkj => hjj hkj.2).trans (hd j' ((Finset.mem_insert.1 hj').resolve_left hjj))

theorem inv_w_store_end (h : Inv s) {elem : Elem W V} {done : Finset (Fin W)}
    (hw : s.writer = .copying elem done) (hs : step s .w_store_end = some s') : Inv s' := by
  have hwr := h.writer
  rw [hw] at hwr
  obtain ⟨hlen, he, hr, hd⟩ := hwr
  have hfp := h.freed_le
  simp only [step, hw] at hs
  split at hs
  · rename_i hall
    cases hs
    refine ⟨h.size_pos, h.size_lt, ?_, h.start_eq, by dsimp only; omega, hr, ?_, hlen, ?_, h.dropped⟩
    · dsimp only
      rw [next_index h.ok h.ok.end_lt, h.end_eq, Nat.mod_add_mod]
    · intro k hk hkp
      dsimp only at hk hkp ⊢
      rcases Nat.lt_succ_iff_lt_or_eq.1 hkp with hkp | rfl
      · exact h.slots k hk hkp
      · -- the element published now is whole: every word is stored
        refine he.trans (congrArg some (funext fun j => ?_))
        rw [← h.end_eq, hd j (hall j)]
    · have := h.reader.grow [] (by have := h.published_le; omega) (Nat.le_succ _)
      rwa [List.append_nil] at this
  · cases hs

/-! ### The reader's steps -/

/-- One more word copied. -/
theorem Loaded.insert {acc : List (Elem W V)} {f n d i : Nat} {elem : Nat → Elem W V} {j : Fin W}
    {done : Finset (Nat × Fin W)} {e : Elem W V} (h : Loaded acc f n d elem done) (hi : i < n)
    (he : acc[f + i]? = some e) : Loaded acc f n d (put elem (d + i) j (e j)) (insert (i, j) done) := by
  intro i' j' hij
  by_cases hnew : i' = i ∧ j' = j
  · obtain ⟨rfl, rfl⟩ := hnew
    exact ⟨hi, e, he, put_self _ _ _ _⟩
  · have hold : (i', j') ∈ done := (Finset.mem_insert.1 hij).resolve_left fun heq => hnew (by simpa using heq)
    obtain ⟨hi', e', he', hv⟩ := h i' j' hold
    refine ⟨hi', e', he', ?_⟩
    rw [put_ne _ _ fun hkj => hnew ⟨by omega, hkj.2⟩, hv]

/-- All words copied: the output holds the elements. -/
theorem Loaded.all {acc : List (Elem W V)} {f n d : Nat} {elem : Nat → Elem W V} {done : Finset (Nat × Fin W)}
    (h : Loaded acc f n d elem done) (hc : Copied n done) (hlen : f + n ≤ acc.length) :
    ∀ i < n, acc[f + i]? = some (elem (d + i)) := by
  intro i hi
  rw [List.getElem?_eq_getElem (by omega)]
  refine congrArg some (funext fun j => ?_)
  obtain ⟨-, e, he, hv⟩ := h i j (hc i hi j)
  rw [List.getElem?_eq_getElem (by omega), Option.some.injEq] at he
  rw [hv, he]

/-- A completed call hands out the elements after those handed out before. -/
theorem take_returned {acc : List (Elem W V)} {f n : Nat} {elem : Nat → Elem W V}
    (h : ∀ i < n, acc[f + i]? = some (elem i)) : acc.take f ++ (List.range n).map elem = acc.take (f + n) := by
  rw [List.take_add]
  congr 1
  apply map_range_eq_take
  intro i hi
  rw [List.getElem?_drop, h i hi]

theorem returned_eq {a b : Nat} (h : a + b < 2 ^ 31) (elem : Nat → Elem W V) :
    returned (a : Int) (b : Int) elem = (List.range (a + b)).map elem := by
  rw [returned, s32_of_range (by omega) (by omega), show ((a : Int) + b).toNat = a + b by omega]

/-- Where `start` goes when `n` more elements are read. -/
theorem Inv.start_next (h : Inv s) {n : Nat} (hn : s.cb.start + n ≤ s.cb.size) :
    u32 (s.cb.start + (n : Int)) % s.cb.size = (s.freed + n) % s.cb.size := by
  have := h.size_lt
  rw [show (s.cb.start : Int) + n = ((s.cb.start + n : Nat) : Int) by norm_cast, u32_of_lt (by omega), h.start_eq,
    Nat.mod_add_mod]

theorem inv_r_call (h : Inv s) {elem : Nat → Elem W V} {n : Int} (hr : s.reader = .idle)
    (hs : step s (.r_call elem n) = some s') : Inv s' := by
  have hrd := h.reader
  rw [hr] at hrd
  simp only [step, hr] at hs
  split at hs
  · rename_i hn
    rcases cbSegments_spec h.ok hn.1 hn.2 with ⟨hseg, -⟩ | ⟨a, b, hseg, hab, ha, hb⟩
    · rw [hseg] at hs; cases hs; exact h
    · rw [hseg] at hs
      cases hs
      -- the segments come from this one load of `end`: what is published later stays outside them
      rw [h.stored_eq] at hab
      have hfp := h.freed_le
      exact { h with
        reader := ⟨a, b, rfl, rfl, by dsimp only; omega, ha, hb, fun i j hij => absurd hij (Finset.notMem_empty _), hrd⟩ }
  · cases hs

theorem inv_r_copy_1 (h : Inv s) {s1 s2 : Int} {elem : Nat → Elem W V} {done : Finset (Nat × Fin W)} {i : Nat}
    {j : Fin W} (hr : s.reader = .copying_1 s1 s2 elem done) (hs : step s (.r_copy i j) = some s') : Inv s' := by
  have hrd := h.reader
  rw [hr] at hrd
  obtain ⟨a, b, rfl, rfl, hab, ha, hb, hl, hd⟩ := hrd
  have hsz := h.size_lt
  simp only [step, hr] at hs
  split at hs
  · rename_i hi
    rw [u64_of_lt (by omega)] at hi
    cases hs
    have he := h.slots (s.freed + i) (by omega) (by omega)
    rw [h.slot (by omega)] at he
    refine { h with reader := ⟨a, b, rfl, rfl, hab, ha, hb, ?_, hd⟩ }
    have hnew := hl.insert (j := j) hi.1 he
    rwa [Nat.zero_add] at hnew
  · cases hs

theorem inv_r_copy_2 (h : Inv s) {s1 s2 : Int} {elem : Nat → Elem W V} {done : Finset (Nat × Fin W)} {i : Nat}
    {j : Fin W} (hr : s.reader = .copying_2 s1 s2 elem done) (hs : step s (.r_copy i j) = some s') : Inv s' := by
  have hrd := h.reader
  rw [hr] at hrd
  obtain ⟨a, b, rfl, rfl, ha, hb, hst, hab, hel, hl, hd⟩ := hrd
  have hsz := h.size_lt
  simp only [step, hr] at hs
  split at hs
  · rename_i hi
    rw [u64_of_lt (by omega)] at hi
    rw [u64_of_lt (by omega)] at hs
    cases hs
    have he := h.slots (s.freed + i) (by omega) (by omega)
    rw [h.slot (by omega)] at he
    refine { h with reader := ⟨a, b, rfl, rfl, ha, hb, hst, hab, fun i' hi' => ?_, hl.insert hi.1 he, hd⟩ }
    exact (hel i' hi').trans (congrArg some (funext fun j' => (put_ne _ _ fun hkj => by omega).symm))
  · cases hs

theorem inv_r_store_1 (h : Inv s) {s1 s2 : Int} {elem : Nat → Elem W V} {done : Finset (Nat × Fin W)}
    (hr : s.reader = .copying_1 s1 s2 elem done) (hs : step s .r_store_start = some s') : Inv s' := by
  have hrd := h.reader
  rw [hr] at hrd
  obtain ⟨a, b, rfl, rfl, hab, ha, hb, hl, hd⟩ := hrd
  have hsz := h.size_lt
  have hroom := h.room
  have hpub := h.published_le
  have hst := h.start_next ha
  simp only [step, hr, u64_of_lt (n := a) (show a < 2 ^ 64 by omega)] at hs
  split at hs
  · rename_i hc
    -- every word of the first segment is copied, so its elements are those accepted
    have hall := hl.all hc (by omega)
    simp only [Nat.zero_add] at hall
    split at hs
    · -- a second segment follows, from slot 0
      rename_i hb0
      cases hs
      have hwrap : (s.freed + a) % s.cb.size = 0 := by
        rw [← Nat.mod_add_mod, ← h.start_eq, hb (by omega), Nat.mod_self]
      refine ⟨h.size_pos, hsz, h.end_eq, hst, by dsimp only; omega, by dsimp only; omega, ?_, h.writer.free (Nat.le_add_right _ _), ?_,
        h.dropped⟩
      · exact fun k hk hkp => h.slots k (by dsimp only at hk; omega) hkp
      · refine ⟨a, b, rfl, rfl, Nat.le_add_left _ _, hab, hst.trans hwrap, by dsimp only; omega, ?_, ?_, ?_⟩
        · intro i hi
          rw [Nat.add_sub_cancel]
          exact hall i hi
        · exact fun i j hij => absurd hij (Finset.notMem_empty _)
        · rw [Nat.add_sub_cancel]
          exact hd
    · rename_i hb0
      cases hs
      have hb1 : b = 0 := by omega
      subst hb1
      refine ⟨h.size_pos, hsz, h.end_eq, hst, by dsimp only; omega, by dsimp only; omega, ?_, h.writer.free (Nat.le_add_right _ _), ?_,
        h.dropped⟩
      · exact fun k hk hkp => h.slots k (by dsimp only at hk; omega) hkp
      · simp only [ReaderOk]
        rw [returned_eq (by omega), hd]
        exact take_returned hall
  · cases hs

theorem inv_r_store_2 (h : Inv s) {s1 s2 : Int} {elem : Nat → Elem W V} {done : Finset (Nat × Fin W)}
    (hr : s.reader = .copying_2 s1 s2 elem done) (hs : step s .r_store_start = some s') : Inv s' := by
  have hrd := h.reader
  rw [hr] at hrd
  obtain ⟨a, b, rfl, rfl, ha, hb, hst, hab, hel, hl, hd⟩ := hrd
  have hsz := h.size_lt
  have hroom := h.room
  have hpub := h.published_le
  have hnext := h.start_next (n := b) (by omega)
  simp only [step, hr, u64_of_lt (n := b) (show b < 2 ^ 64 by omega)] at hs
  split at hs
  · rename_i hc
    have hall := hl.all hc (by omega)
    cases hs
    refine ⟨h.size_pos, hsz, h.end_eq, hnext, by dsimp only; omega, by dsimp only; omega, ?_, h.writer.free (Nat.le_add_right _ _), ?_,
      h.dropped⟩
    · exact fun k hk hkp => h.slots k (by dsimp only at hk; omega) hkp
    · simp only [ReaderOk]
      rw [returned_eq (by omega), hd, show s.freed + b = s.freed - a + (a + b) by omega]
      apply take_returned
      intro i hi
      -- the first segment fills the output up to `a`, the second one goes on from there
      rcases Nat.lt_or_ge i a with hia | hia
      · exact hel i hia
      · have := hall (i - a) (by omega)
        rwa [show s.freed + (i - a) = s.freed - a + i by omega, Nat.add_sub_cancel' hia] at this
  · cases hs

/-! ### Every run -/

theorem init_inv (zero : Elem W V) : Inv (init zero) where
  size_pos := by simp [init, cbInit, CIRC_BUFF_SIZE]
  size_lt := by simp [init, cbInit, CIRC_BUFF_SIZE]
  end_eq := by simp [init, cbInit]
  start_eq := by simp [init, cbInit]
  freed_le := le_rfl
  room := by simp [init, cbInit, CIRC_BUFF_SIZE]
  slots := by simp [init]
  writer := rfl
  reader := rfl
  dropped := by simp [init]

theorem step_inv {a : Act W V} (h : Inv s) (hs : step s a = some s') : Inv s' := by
  cases a with
  | w_call elem =>
    cases hw : s.writer <;> simp only [step, hw] at hs <;> cases hs
    exact { h with writer := by have := h.writer; rwa [hw] at this }
  | w_load_end =>
    cases hw : s.writer <;> simp only [step, hw] at hs <;> cases hs
    exact { h with writer := ⟨by have := h.writer; rwa [hw] at this, rfl⟩ }
  | w_load_start =>
    cases hw : s.writer with
    | loaded_end elem e => exact inv_w_load_start h hw hs
    | _ => simp [step, hw] at hs
  | w_copy j =>
    cases hw : s.writer with
    | copying elem done => exact inv_w_copy h hw hs
    | _ => simp [step, hw] at hs
  | w_store_end =>
    cases hw : s.writer with
    | copying elem done => exact inv_w_store_end h hw hs
    | _ => simp [step, hw] at hs
  | r_call elem n =>
    cases hr : s.reader with
    | idle => exact inv_r_call h hr hs
    | _ => simp [step, hr] at hs
  | r_copy i j =>
    cases hr : s.reader with
    | idle => simp [step, hr] at hs
    | copying_1 s1 s2 elem done => exact inv_r_copy_1 h hr hs
    | copying_2 s1 s2 elem done => exact inv_r_copy_2 h hr hs
  | r_store_start =>
    cases hr : s.reader with
    | idle => simp [step, hr] at hs
    | copying_1 s1 s2 elem done => exact inv_r_store_1 h hr hs
    | copying_2 s1 s2 elem done => exact inv_r_store_2 h hr hs

theorem run_inv {zero : Elem W V} {acts : List (Act W V)} (h : exec step (init zero) acts = some s) : Inv s :=
  exec_inv Inv (fun _ _ _ => step_inv) (init_inv zero) h

/-- The slots of which the reader's current call has yet to copy a word. -/
def Unread (s : State W V) (slot : Nat) : Prop :=
  match s.reader with
  | .idle => False
  | .copying_1 segment_1 segment_2 _ done =>
    (∃ i < u64 segment_1, slot = s.cb.start + i ∧ ∃ j, (i, j) ∉ done) ∨
      ∃ i < u64 segment_2, slot = u32 (s.cb.start + segment_1) % s.cb.size + i
  | .copying_2 _ segment_2 _ done => ∃ i < u64 segment_2, slot = s.cb.start + i ∧ ∃ j, (i, j) ∉ done

/-- A slot the reader has yet to copy holds a published element. -/
theorem Inv.unread (h : Inv s) {slot : Nat} (hu : Unread s slot) :
    ∃ k, s.freed ≤ k ∧ k < s.published ∧ slot = k % s.cb.size := by
  have hrd := h.reader
  have hsz := h.size_lt
  have hroom := h.room
  cases hr : s.reader with
  | idle => simp [Unread, hr] at hu
  | copying_1 s1 s2 elem done =>
    rw [hr] at hrd
    obtain ⟨a, b, rfl, rfl, hab, ha, hb, -, -⟩ := hrd
    simp only [Unread, hr, u64_of_lt (n := a) (show a < 2 ^ 64 by omega),
      u64_of_lt (n := b) (show b < 2 ^ 64 by omega)] at hu
    rcases hu with ⟨i, hi, rfl, -⟩ | ⟨i, hi, rfl⟩
    · exact ⟨s.freed + i, by omega, by omega, (h.slot (by omega)).symm⟩
    · refine ⟨s.freed + a + i, by omega, by omega, ?_⟩
      have hwrap : (s.freed + a) % s.cb.size = 0 := by
        rw [← Nat.mod_add_mod, ← h.start_eq, hb (by omega), Nat.mod_self]
      rw [h.start_next ha, hwrap, Nat.zero_add, ← Nat.mod_add_mod, hwrap, Nat.zero_add, Nat.mod_eq_of_lt (by omega)]
  | copying_2 s1 s2 elem done =>
    rw [hr] at hrd
    obtain ⟨a, b, rfl, rfl, -, hb, hst, hab, -, -, -⟩ := hrd
    simp only [Unread, hr, u64_of_lt (n := b) (show b < 2 ^ 64 by omega)] at hu
    obtain ⟨i, hi, rfl, -⟩ := hu
    exact ⟨s.freed + i, by omega, by omega, (h.slot (by omega)).symm⟩

theorem Inv.delivered_prefix (h : Inv s) : s.delivered <+: s.accepted := by
  have hrd := h.reader
  cases hr : s.reader with
  | idle => rw [hr] at hrd; exact hrd ▸ List.take_prefix _ _
  | copying_1 s1 s2 elem done =>
    rw [hr] at hrd
    obtain ⟨a, b, -, -, -, -, -, -, hd⟩ := hrd
    exact hd ▸ List.take_prefix _ _
  | copying_2 s1 s2 elem done =>
    rw [hr] at hrd
    obtain ⟨a, b, -, -, -, -, -, -, -, -, hd⟩ := hrd
    exact hd ▸ List.take_prefix _ _

/-- In every interleaving of calls by one writer and one reader: the writer
stores into no slot the reader has yet to copy; every slot the reader has yet
to copy holds a published element, whole; and what the completed reads returned
is a prefix of what the writer accepted. -/
theorem interleaving_safe (zero : Elem W V) {acts : List (Act W V)} {s : State W V}
    (h : exec step (init zero) acts = some s) :
    (∀ elem done, s.writer = .copying elem done → ¬ Unread s s.cb.end_) ∧
      (∀ slot, Unread s slot →
        ∃ k < s.published, slot = k % s.cb.size ∧ s.accepted[k]? = some (s.cb.array_element slot)) ∧
      s.delivered <+: s.accepted := by
  have hi := run_inv h
  refine ⟨fun elem done _ hu => ?_, fun slot hu => ?_, hi.delivered_prefix⟩
  · obtain ⟨k, hk, hp, he⟩ := hi.unread hu
    exact hi.slot_ne hk hp he.symm
  · obtain ⟨k, hk, hp, rfl⟩ := hi.unread hu
    exact ⟨k, hp, rfl, hi.slots k hk hp⟩

/-- A write of a two-word element, a read of it, and a second write between the
two words of that read. -/
def sampleActs : List (Act 2 Nat) :=
  [.w_call ![1, 2], .w_load_end, .w_load_start, .w_copy 1, .w_copy 0, .w_store_end, .r_call (fun _ _ => 0) 5,
    .r_copy 0 0, .w_call ![3, 4], .w_load_end, .w_load_start, .w_copy 0, .r_copy 0 1, .r_store_start]

theorem interleaving_safe_sample :
    ∃ s, exec step (init fun _ => 0) sampleActs = some s ∧ s.delivered = [![1, 2]] ∧
      s.accepted = [![1, 2], ![3, 4]] ∧
      (∀ elem done, s.writer = .copying elem done → ¬ Unread s s.cb.end_) ∧
      (∀ slot, Unread s slot →
        ∃ k < s.published, slot = k % s.cb.size ∧ s.accepted[k]? = some (s.cb.array_element slot)) ∧
      s.delivered <+: s.accepted := by
  have hrun : (exec step (init fun _ => 0) sampleActs).map (fun s => (s.delivered, s.accepted)) =
      some ([![1, 2]], [![1, 2], ![3, 4]]) := by decide
  obtain ⟨s, hs, hv⟩ := Option.map_eq_some_iff.1 hrun
  rw [Prod.mk.injEq] at hv
  exact ⟨s, hs, hv.1, hv.2, interleaving_safe _ hs⟩

end Dmacftu.Spsc
