import Dmacftu.Lib.CInt
import Dmacftu.Lib.Loop
import Dmacftu.Lib.Transfers
import Mathlib.Data.List.Basic
/-!
# The copy of the sparse file

`copy_normal_file` copies the text of the sparse file to the regular one, a page at a time.
What is left to copy goes down by what is written, while the sparse file is read on from
where the last read ended. After a write that moves less than was read the two are out of
step: the bytes in between are in neither file, and the end of the text may never come.

`copies_exactly_iff`: the copy is right, whatever the file contains, exactly if each write
moves all that was read, or a call fails before the text is written.
-/
open Lib.CInt Lib.Loop Lib.Transfers

namespace Dmacftu.Trace

/-! ## The code -/

/-- What `copy_normal_file` meets: the outcome of `malloc`, what its `ret` holds before it is
assigned to, and the calls of each pass. -/
structure CopyEnv where
  malloc : Bool
  ret : Int
  read : Nat → Transfer
  write : Nat → Transfer

/-- `pos` is the offset of `fd_sp`, and `fl` is what the regular file holds. -/
structure CopyState where
  pass : Nat
  offset_map : Nat
  pos : Nat
  fl : List Char
  deriving DecidableEq

/-- A read of `n` bytes, and the write of what it gave. -/
def copyChunk (env : CopyEnv) (sp : List Char) (n : Nat) (s : CopyState) : CopyState ⊕ (Int × CopyState) :=
  match (env.read s.pass).moved (min n (sp.length - s.pos)) with
  | none => .inr (-1, s)
  | some r =>
    let buffer_file := (sp.drop s.pos).take r
    let s := { s with pos := s.pos + r }
    if s32 r < 0 then .inr (s32 r, s)
    else
      match (env.write s.pass).moved (s32 r).toNat with
      | none => .inr (-1, s)
      | some w => .inl { s with pass := s.pass + 1, offset_map := s.offset_map - w, fl := s.fl ++ buffer_file.take w }

def copyPass (page_size : Nat) (env : CopyEnv) (sp : List Char) (s : CopyState) : CopyState ⊕ (Int × CopyState) :=
  if s.offset_map > 0 then
    if s.offset_map ≥ page_size then copyChunk env sp page_size s else copyChunk env sp s.offset_map s
  else .inr (0, s)

/-- Both files are at their start, and the regular one is empty. -/
def CopyState.start (offset_map : Nat) : CopyState := ⟨0, offset_map, 0, []⟩

def copy_normal_file (page_size : Nat) (env : CopyEnv) (sp : List Char) (offset_map fuel : Nat) :
    Option (Int × CopyState) :=
  if !env.malloc then some (env.ret, .start offset_map)
  else run (copyPass page_size env sp) fuel (.start offset_map)

/-- The call returns, and if it returns 0 the text has been copied. -/
def CopiesExactly (page_size : Nat) (env : CopyEnv) (sp : List Char) (L : Nat) : Prop :=
  ∃ ret s, (ret = 0 → s.fl = sp.take L ∧ s.offset_map = 0) ∧
    ∃ N, ∀ fuel, N ≤ fuel → copy_normal_file page_size env sp L fuel = some (ret, s)

/-! ## The numbers of bytes -/

/-- What the read and the write of pass `i` move when so many bytes are asked for and so many
are left in the file; `none` if one of them fails, or what is read is negative as an `int`. -/
def CopyEnv.moves (env : CopyEnv) (i n avail : Nat) : Option (Nat × Nat) := do
  let r ← (env.read i).moved (min n avail)
  if s32 r < 0 then none
  else
    let w ← (env.write i).moved (s32 r).toNat
    return (r, w)

/-- What is read and written in all before pass `i`, unless a call fails before it. -/
def CopyEnv.before (env : CopyEnv) (page_size length L : Nat) : Nat → Option (Nat × Nat)
  | 0 => some (0, 0)
  | i + 1 => do
    let (c, w) ← env.before page_size length L i
    let (r, m) ← env.moves i (min page_size (L - w)) (length - c)
    return (c + r, w + m)

/-- A call fails while there is text to write. -/
def CopyEnv.Fails (env : CopyEnv) (page_size length L : Nat) : Prop :=
  ∃ i c w, env.before page_size length L i = some (c, w) ∧ w < L ∧
    env.moves i (min page_size (L - w)) (length - c) = none

/-- Until the text is written, each write moves what has been read. -/
def CopyEnv.Complete (env : CopyEnv) (page_size length L : Nat) : Prop :=
  ∀ i c w r m, env.before page_size length L i = some (c, w) → w < L →
    env.moves i (min page_size (L - w)) (length - c) = some (r, m) → m = r

theorem moves_spec {env : CopyEnv} {i n avail r m : Nat} (h : env.moves i n avail = some (r, m)) :
    r ≤ min n avail ∧ m ≤ r ∧ (m = r → 0 < min n avail → 0 < m) := by
  obtain ⟨r', hr, h⟩ := Option.bind_eq_some_iff.1 h
  split at h
  next => cases h
  next hneg =>
    obtain ⟨w, hw, h⟩ := Option.bind_eq_some_iff.1 h
    cases h
    have hle := s32_le (x := r) (by omega)
    have hm := (env.write i).le hw
    refine ⟨(env.read i).le hr, by omega, fun hall hpos => ?_⟩
    rw [hall]
    exact (env.read i).pos hr hpos

/-- The `int` is no limit to transfers below 2^31. -/
theorem moves_whole {env : CopyEnv} {i n avail r m : Nat} (hwrite : env.write i = whole) (hn : n < 2 ^ 31)
    (h : env.moves i n avail = some (r, m)) : m = r := by
  obtain ⟨r', hr, h⟩ := Option.bind_eq_some_iff.1 h
  have hle := (env.read i).le hr
  rw [s32_of_range (by omega) (by omega), if_neg (by omega), hwrite] at h
  cases h
  rfl

section

variable {page_size length L : Nat} {env : CopyEnv} {sp : List Char}

theorem before_succ {i c w r m : Nat} (h : env.before page_size length L i = some (c, w))
    (hmoves : env.moves i (min page_size (L - w)) (length - c) = some (r, m)) :
    env.before page_size length L (i + 1) = some (c + r, w + m) := by
  rw [CopyEnv.before, h, Option.bind_eq_bind, Option.bind_some]
  dsimp only
  rw [hmoves]
  rfl

/-- No more is written than read. -/
theorem before_le {i : Nat} : ∀ {c w : Nat}, env.before page_size length L i = some (c, w) → w ≤ c := by
  induction i with
  | zero =>
    intro c w h
    cases h
    exact Nat.le_refl 0
  | succ i ih =>
    intro c w h
    obtain ⟨⟨c, w⟩, hbefore, h⟩ := Option.bind_eq_some_iff.1 h
    obtain ⟨⟨r, m⟩, hmoves, h⟩ := Option.bind_eq_some_iff.1 h
    cases h
    exact Nat.add_le_add (ih hbefore) (moves_spec hmoves).2.1

/-! ## A pass -/

theorem copyChunk_fails {n : Nat} {s : CopyState} (h : env.moves s.pass n (sp.length - s.pos) = none) :
    ∃ ret s', ret < 0 ∧ copyChunk env sp n s = .inr (ret, s') := by
  unfold copyChunk
  unfold CopyEnv.moves at h
  split
  next => exact ⟨-1, s, by decide, rfl⟩
  next r hr =>
    simp only [hr, Option.bind_eq_bind, Option.bind_some] at h
    dsimp only
    split
    next hneg => exact ⟨s32 r, _, hneg, rfl⟩
    next hneg =>
      rw [if_neg hneg] at h
      split
      next => exact ⟨-1, _, by decide, rfl⟩
      next w hw =>
        rw [hw] at h
        cases h

theorem copyChunk_moves {n r m : Nat} {s : CopyState} (h : env.moves s.pass n (sp.length - s.pos) = some (r, m)) :
    copyChunk env sp n s =
      .inl ⟨s.pass + 1, s.offset_map - m, s.pos + r, s.fl ++ ((sp.drop s.pos).take r).take m⟩ := by
  obtain ⟨r', hr, h⟩ := Option.bind_eq_some_iff.1 h
  split at h
  next => cases h
  next hneg =>
    obtain ⟨w, hw, h⟩ := Option.bind_eq_some_iff.1 h
    cases h
    unfold copyChunk
    simp only [hr, if_neg hneg, hw]

theorem copyPass_eq {s : CopyState} (h : 0 < s.offset_map) :
    copyPass page_size env sp s = copyChunk env sp (min page_size s.offset_map) s := by
  unfold copyPass
  rw [if_pos h]
  split
  next hle => rw [Nat.min_eq_left hle]
  next hlt => rw [Nat.min_eq_right (by omega)]

theorem copyPass_done {s : CopyState} (h : s.offset_map = 0) : copyPass page_size env sp s = .inr (0, s) := by
  simp [copyPass, h]

/-- The state has read and written so much before pass `i`. -/
structure CopyState.At (s : CopyState) (L i c w : Nat) : Prop where
  pass : s.pass = i
  pos : s.pos = c
  left : s.offset_map = L - w
  written : s.fl.length = w

theorem CopyState.At.moves {s : CopyState} {i c w r m : Nat} (h : s.At L i c w)
    (hmoves : env.moves i (min page_size (L - w)) (sp.length - c) = some (r, m)) (hw : w < L) :
    ∃ s', copyPass page_size env sp s = .inl s' ∧ s'.At L (i + 1) (c + r) (w + m) ∧
      s'.fl = s.fl ++ ((sp.drop c).take r).take m := by
  obtain ⟨hr, hm, -⟩ := moves_spec hmoves
  obtain ⟨rfl, rfl, hleft, rfl⟩ := h
  rw [← hleft] at hmoves
  rw [copyPass_eq (by omega), copyChunk_moves hmoves]
  refine ⟨_, rfl, ⟨rfl, rfl, ?_, ?_⟩, rfl⟩
  · dsimp only
    omega
  · simp only [List.length_append, List.length_take, List.length_drop]
    omega

theorem CopyState.At.fails {s : CopyState} {i c w : Nat} (h : s.At L i c w)
    (hmoves : env.moves i (min page_size (L - w)) (sp.length - c) = none) (hw : w < L) :
    ∃ ret s', ret < 0 ∧ copyPass page_size env sp s = .inr (ret, s') := by
  obtain ⟨rfl, rfl, hleft, -⟩ := h
  rw [← hleft] at hmoves
  rw [copyPass_eq (by omega)]
  exact copyChunk_fails hmoves

/-- The passes there are, are made. -/
theorem before_reached {i : Nat} : ∀ {c w : Nat}, env.before page_size sp.length L i = some (c, w) → w < L →
    ∃ s, after (copyPass page_size env sp) i (.start L) = some s ∧ s.At L i c w := by
  induction i with
  | zero =>
    intro c w h _
    cases h
    exact ⟨.start L, rfl, rfl, rfl, rfl, rfl⟩
  | succ i ih =>
    intro c w h hw
    obtain ⟨⟨c, w⟩, hbefore, h⟩ := Option.bind_eq_some_iff.1 h
    obtain ⟨⟨r, m⟩, hmoves, h⟩ := Option.bind_eq_some_iff.1 h
    cases h
    obtain ⟨s, hs, hat⟩ := ih hbefore (by omega)
    obtain ⟨s', hpass, hat', -⟩ := hat.moves hmoves (by omega)
    exact ⟨s', after_succ hs hpass, hat'⟩

/-! ## In step -/

/-- Whatever is left of the text is copied, as long as the files are in step. -/
theorem complete_returns (hpage : 0 < page_size) (hL : L ≤ sp.length) (h : env.Complete page_size sp.length L) :
    ∀ {left i w : Nat} {s : CopyState}, left = L - w → w ≤ L → env.before page_size sp.length L i = some (w, w) →
      s.At L i w w → s.fl = sp.take w →
      Returns (copyPass page_size env sp) s fun r => r.1 = 0 → r.2.fl = sp.take L ∧ r.2.offset_map = 0 := by
  intro left
  induction left using Nat.strongRecOn with
  | _ left ih =>
    intro i w s hleft hw hbefore hat hfl
    rcases Nat.eq_or_lt_of_le hw with rfl | hlt
    · have hdone : s.offset_map = 0 := by rw [hat.left, Nat.sub_self]
      exact .done (copyPass_done hdone) fun _ => ⟨hfl, hdone⟩
    · cases hmoves : env.moves i (min page_size (L - w)) (sp.length - w) with
      | none =>
        obtain ⟨ret, s', hneg, hpass⟩ := hat.fails hmoves hlt
        exact .done hpass fun hret => absurd hret (by dsimp only; omega)
      | some rm =>
        obtain ⟨r, m⟩ := rm
        obtain rfl := h i w w r m hbefore hlt hmoves
        obtain ⟨hr, -, hpos⟩ := moves_spec hmoves
        have hprogress := hpos rfl (by omega)
        obtain ⟨s', hpass, hat', hfl'⟩ := hat.moves hmoves hlt
        refine .step hpass (ih (L - (w + m)) (by omega) rfl (by omega) ?_ hat' ?_)
        · exact before_succ hbefore hmoves
        · rw [hfl', hfl, List.take_take, Nat.min_self, ← List.take_add]

/-! ## Out of step -/

/-- The state is one that the passes come to. -/
def Reached (page_size : Nat) (env : CopyEnv) (sp : List Char) (L : Nat) (s : CopyState) : Prop :=
  ∃ i c w, env.before page_size sp.length L i = some (c, w) ∧ s.At L i c w ∧ w ≤ L

theorem reached_start : Reached page_size env sp L (.start L) := ⟨0, 0, 0, rfl, ⟨rfl, rfl, rfl, rfl⟩, Nat.zero_le L⟩

/-- What is written is read from where the last read ended. -/
theorem Reached.step {s s' : CopyState} (h : Reached page_size env sp L s) (hpass : copyPass page_size env sp s = .inl s') :
    Reached page_size env sp L s' ∧ ∃ r m, s'.pos = s.pos + r ∧ s'.fl = s.fl ++ ((sp.drop s.pos).take r).take m := by
  obtain ⟨i, c, w, hbefore, hat, hw⟩ := h
  rcases Nat.eq_or_lt_of_le hw with rfl | hlt
  · rw [copyPass_done (by rw [hat.left, Nat.sub_self])] at hpass
    cases hpass
  cases hmoves : env.moves i (min page_size (L - w)) (sp.length - c) with
  | none =>
    obtain ⟨ret, t, -, hend⟩ := hat.fails hmoves hlt
    rw [hend] at hpass
    cases hpass
  | some rm =>
    obtain ⟨r, m⟩ := rm
    obtain ⟨hr, hm, -⟩ := moves_spec hmoves
    obtain ⟨t, hnext, hat', hfl⟩ := hat.moves hmoves hlt
    obtain rfl := Sum.inl.inj (hnext.symm.trans hpass)
    refine ⟨⟨i + 1, c + r, w + m, before_succ hbefore hmoves, hat', by omega⟩, r, m, ?_, ?_⟩
    · rw [hat'.pos, hat.pos]
    · rw [hfl, hat.pos]

/-- Where the loop ends it has come to the end of the text, unless a call fails. -/
theorem Reached.done {s : CopyState} {r : Int × CopyState} (h : Reached page_size env sp L s)
    (hok : ¬ env.Fails page_size sp.length L) (hpass : copyPass page_size env sp s = .inr r) : r = (0, s) := by
  obtain ⟨i, c, w, hbefore, hat, hw⟩ := h
  rcases Nat.eq_or_lt_of_le hw with rfl | hlt
  · rw [copyPass_done (by rw [hat.left, Nat.sub_self])] at hpass
    exact (Sum.inr.inj hpass).symm
  cases hmoves : env.moves i (min page_size (L - w)) (sp.length - c) with
  | none => exact absurd ⟨i, c, w, hbefore, hlt, hmoves⟩ hok
  | some rm =>
    obtain ⟨t, hnext, -, -⟩ := hat.moves hmoves hlt
    rw [hnext] at hpass
    cases hpass

/-- The byte that stands where the next one is to be written is behind the reader, and
nothing like it is ahead. -/
structure Lost (page_size : Nat) (env : CopyEnv) (sp : List Char) (L at_ : Nat) (mark : Char) (s : CopyState) : Prop where
  state : ∃ i c w, env.before page_size sp.length L i = some (c, w) ∧ s.At L i c w ∧ w ≤ L
  behind : at_ < s.pos
  absent : mark ∉ s.fl.drop at_

theorem Lost.step {at_ : Nat} {mark : Char} (hmark : ∀ k, at_ < k → sp[k]? ≠ some mark) {s s' : CopyState}
    (h : Lost page_size env sp L at_ mark s) (hpass : copyPass page_size env sp s = .inl s') :
    Lost page_size env sp L at_ mark s' := by
  have hbehind := h.behind
  obtain ⟨hstate, r, m, hpos, hfl⟩ := Reached.step h.state hpass
  refine ⟨hstate, by omega, fun hmem => ?_⟩
  rw [hfl, List.drop_append, List.mem_append] at hmem
  rcases hmem with hmem | hmem
  · exact h.absent hmem
  · -- what is written has been read from behind the place
    have hread := List.mem_of_mem_take (List.mem_of_mem_take (List.mem_of_mem_drop hmem))
    obtain ⟨k, hk⟩ := List.mem_iff_getElem?.1 hread
    rw [List.getElem?_drop] at hk
    exact hmark (s.pos + k) (by omega) hk

/-- Where the loop ends it has copied, unless a call fails, and without that byte. -/
theorem Lost.done {at_ : Nat} {mark : Char} (hok : ¬ env.Fails page_size sp.length L) {s : CopyState}
    {r : Int × CopyState} (h : Lost page_size env sp L at_ mark s) (hpass : copyPass page_size env sp s = .inr r) :
    r.1 = 0 ∧ mark ∉ r.2.fl.drop at_ := by
  obtain rfl := Reached.done h.state hok hpass
  exact ⟨rfl, h.absent⟩

/-- One character that is different from the others. -/
def markedText (length at_ : Nat) : List Char := (List.range length).map fun k => if k = at_ then 'x' else '-'

theorem markedText_length (length at_ : Nat) : (markedText length at_).length = length := by simp [markedText]

theorem markedText_mark (length at_ k : Nat) (h : at_ < k) : (markedText length at_)[k]? ≠ some 'x' := by
  intro hk
  simp only [markedText, List.getElem?_map, Option.map_eq_some_iff] at hk
  obtain ⟨j, hj, hmark⟩ := hk
  obtain ⟨_, rfl⟩ := List.getElem?_eq_some_iff.1 hj
  rw [List.getElem_range, if_neg (by omega)] at hmark
  exact absurd hmark (by decide)

theorem markedText_mem {at_ : Nat} (hat : at_ < L) (hL : L ≤ length) :
    'x' ∈ ((markedText length at_).take L).drop at_ := by
  refine List.mem_iff_getElem?.2 ⟨0, ?_⟩
  rw [List.getElem?_drop, Nat.add_zero, List.getElem?_take, if_pos hat, markedText, List.getElem?_map,
    List.getElem?_range (by omega)]
  simp

theorem incomplete_loses (hmalloc : env.malloc = true) (hL : L ≤ length) (hok : ¬ env.Fails page_size length L)
    (h : ¬ env.Complete page_size length L) :
    ∃ sp : List Char, sp.length = length ∧ ¬ CopiesExactly page_size env sp L := by
  simp only [CopyEnv.Complete, not_forall] at h
  obtain ⟨i, c, w, r, m, hbefore, hlt, hmoves, hshort⟩ := h
  obtain ⟨hr, hm, -⟩ := moves_spec hmoves
  have hle := before_le hbefore
  have hlen := markedText_length length (w + m)
  refine ⟨markedText length (w + m), hlen, ?_⟩
  rintro ⟨ret, t, hcopied, N, hN⟩
  rw [← hlen] at hok hbefore hmoves
  obtain ⟨s, hs, hat⟩ := before_reached hbefore hlt
  obtain ⟨s', hpass, hat', -⟩ := hat.moves hmoves hlt
  -- all that follows the short write is read from behind the bytes that it left
  have hlost : Lost page_size env (markedText length (w + m)) L (w + m) 'x' s' := by
    refine ⟨⟨i + 1, c + r, w + m, before_succ hbefore hmoves, hat', by omega⟩, ?_, ?_⟩
    · rw [hat'.pos]
      omega
    · rw [List.drop_eq_nil_of_le (by rw [hat'.written])]
      exact List.not_mem_nil
  have hrun := hN (i + 1 + N) (by omega)
  rw [copy_normal_file, hmalloc, if_neg (by decide), run_after (after_succ hs hpass)] at hrun
  obtain ⟨hret, habsent⟩ := run_inv (fun _ _ => Lost.step (markedText_mark length (w + m)))
    (fun _ _ => Lost.done hok) hlost hrun
  rw [(hcopied hret).1] at habsent
  exact habsent (markedText_mem (by omega) hL)

/-! ## Exactly when it copies -/

theorem copy_of_le {L fuel fuel' : Nat} {r : Int × CopyState} (h : copy_normal_file page_size env sp L fuel = some r)
    (hle : fuel ≤ fuel') : copy_normal_file page_size env sp L fuel' = some r := by
  unfold copy_normal_file at h ⊢
  split
  next hmalloc => rwa [if_pos hmalloc] at h
  next hmalloc =>
    rw [if_neg hmalloc] at h
    exact run_of_le h hle

/-- With its buffer, the call returns 0 or something negative. -/
theorem copy_ret (hmalloc : env.malloc = true) {fuel : Nat} {ret : Int} {s : CopyState}
    (h : copy_normal_file page_size env sp L fuel = some (ret, s)) : ret ≤ 0 := by
  rw [copy_normal_file, hmalloc, if_neg (by decide)] at h
  refine run_inv (I := fun _ => True) (P := fun r => r.1 ≤ 0) (fun _ _ _ _ => trivial) ?_ trivial h
  intro s r _ hpass
  rcases Nat.eq_zero_or_pos s.offset_map with hzero | hpos
  · rw [copyPass_done hzero] at hpass
    cases hpass
    exact Int.le_refl 0
  · rw [copyPass_eq hpos] at hpass
    cases hmoves : env.moves s.pass (min page_size s.offset_map) (sp.length - s.pos) with
    | none =>
      obtain ⟨ret, s', hneg, hchunk⟩ := copyChunk_fails hmoves
      rw [hchunk] at hpass
      cases hpass
      exact Int.le_of_lt hneg
    | some rm =>
      rw [copyChunk_moves (r := rm.1) (m := rm.2) hmoves] at hpass
      cases hpass

theorem copiesExactly_iff_returns (hmalloc : env.malloc = true) :
    CopiesExactly page_size env sp L ↔ Returns (copyPass page_size env sp) (.start L) fun r =>
      r.1 = 0 → r.2.fl = sp.take L ∧ r.2.offset_map = 0 := by
  simp only [CopiesExactly, copy_normal_file, hmalloc, Bool.not_true, Bool.false_eq_true, if_false, Returns, Prod.exists]

theorem fails_copies (hmalloc : env.malloc = true) (h : env.Fails page_size sp.length L) :
    CopiesExactly page_size env sp L := by
  obtain ⟨i, c, w, hbefore, hlt, hmoves⟩ := h
  obtain ⟨s, hs, hat⟩ := before_reached hbefore hlt
  obtain ⟨ret, s', hneg, hpass⟩ := hat.fails hmoves hlt
  rw [copiesExactly_iff_returns hmalloc]
  exact .after hs (.done hpass fun hret => absurd hret (by dsimp only; omega))

theorem complete_copies (hmalloc : env.malloc = true) (hpage : 0 < page_size) (hL : L ≤ sp.length)
    (h : env.Complete page_size sp.length L) : CopiesExactly page_size env sp L := by
  rw [copiesExactly_iff_returns hmalloc]
  exact complete_returns hpage hL h rfl (Nat.zero_le L) rfl ⟨rfl, rfl, rfl, rfl⟩ rfl

/-- A result that is not negative is 0, unless there is no buffer. -/
theorem copy_zero_iff {fuel : Nat} {ret : Int} {s : CopyState} (h : copy_normal_file page_size env sp L fuel = some (ret, s))
    (hret : 0 ≤ ret) : ret = 0 ↔ env.malloc = true ∨ env.ret ≤ 0 := by
  cases hmalloc : env.malloc with
  | true => exact iff_of_true (Int.le_antisymm (copy_ret hmalloc h) hret) (.inl rfl)
  | false =>
    rw [copy_normal_file, hmalloc] at h
    obtain ⟨rfl, -⟩ := Prod.mk.inj (Option.some.inj h)
    simp only [Bool.false_eq_true, false_or]
    omega

/-- When no call fails the copy comes to its end. -/
theorem copy_zero (hmalloc : env.malloc = true) (hok : ¬ env.Fails page_size sp.length L) {fuel : Nat} {ret : Int}
    {s : CopyState} (h : copy_normal_file page_size env sp L fuel = some (ret, s)) : ret = 0 := by
  rw [copy_normal_file, hmalloc, if_neg (by decide)] at h
  refine run_inv (I := Reached page_size env sp L) (P := fun r => r.1 = 0) (fun _ _ hs hpass => (hs.step hpass).1) ?_
    reached_start h
  intro s r hs hpass
  rw [hs.done hok hpass]

/-- Without its buffer the call returns what `ret` happens to hold. -/
theorem no_buffer_iff (hmalloc : env.malloc = false) (hL : L ≤ sp.length) :
    CopiesExactly page_size env sp L ↔ env.ret ≠ 0 ∨ L = 0 := by
  simp only [CopiesExactly, copy_normal_file, hmalloc, Bool.not_false, if_true]
  constructor
  · rintro ⟨ret, s, hcopied, N, hN⟩
    obtain ⟨rfl, rfl⟩ := Prod.mk.inj (Option.some.inj (hN N (Nat.le_refl N)))
    by_cases hret : env.ret = 0
    · exact .inr (hcopied hret).2
    · exact .inl hret
  · intro h
    refine ⟨env.ret, .start L, fun hret => ?_, 0, fun _ _ => rfl⟩
    obtain rfl := h.resolve_left (not_not.2 hret)
    exact ⟨rfl, rfl⟩

/-- The calls a copy can do with: there is a buffer, and a call fails or all writes are
complete. Or there is none, and `ret` is not 0 all the same. -/
def CopyEnv.Sound (env : CopyEnv) (page_size length L : Nat) : Prop :=
  if env.malloc then env.Fails page_size length L ∨ env.Complete page_size length L else env.ret ≠ 0 ∨ L = 0

/-- The files of this length are copied right with exactly these calls. -/
theorem copies_exactly_iff (hpage : 0 < page_size) (hL : L ≤ length) (env : CopyEnv) :
    (∀ sp : List Char, sp.length = length → CopiesExactly page_size env sp L) ↔ env.Sound page_size length L := by
  unfold CopyEnv.Sound
  cases hmalloc : env.malloc with
  | false =>
    rw [if_neg (by decide)]
    constructor
    · intro h
      have hlen := markedText_length length 0
      exact (no_buffer_iff hmalloc (by rwa [hlen])).1 (h _ hlen)
    · rintro h sp rfl
      exact (no_buffer_iff hmalloc hL).2 h
  | true =>
    rw [if_pos rfl]
    constructor
    · intro h
      by_contra hnot
      obtain ⟨hok, hshort⟩ := not_or.1 hnot
      obtain ⟨sp, hlen, hlost⟩ := incomplete_loses hmalloc hL hok hshort
      exact hlost (h sp hlen)
    · rintro (h | h) sp rfl
      · exact fails_copies hmalloc h
      · exact complete_copies hmalloc hpage hL h

end

/-- Reads of two bytes at most, and whole writes. -/
def shortReads : CopyEnv := ⟨true, 0, fun _ => upTo 1, fun _ => whole⟩

theorem copies_exactly_iff_sample : CopiesExactly 4096 shortReads "text and NULs".toList 4 := by
  refine (@copies_exactly_iff 4096 13 4 (by decide) (by decide) shortReads).2 ?_ _ (by decide)
  rw [CopyEnv.Sound, if_pos (by decide)]
  right
  intro i c w r m _ _ hmoves
  exact moves_whole rfl (by omega) hmoves

/-- The first write moves 2 of the 4 bytes that were read: the text loses its end. -/
def shortWrite : CopyEnv := ⟨true, 0, fun _ => whole, fun i => if i = 0 then upTo 1 else whole⟩

theorem short_write_loses : ¬ CopiesExactly 4096 shortWrite "text and NULs".toList 4 := by
  have hrun : run (copyPass 4096 shortWrite "text and NULs".toList) 3 (.start 4) =
      some (0, ⟨2, 0, 6, "te a".toList⟩) := by
    decide
  rw [copiesExactly_iff_returns rfl]
  rintro ⟨r, hcopied, N, hN⟩
  obtain rfl := Option.some.inj ((hN _ (Nat.le_max_left N 3)).symm.trans (run_of_le hrun (Nat.le_max_right N 3)))
  exact absurd (hcopied rfl).1 (by decide)

end Dmacftu.Trace
