import Dmacftu.Lib.Borders
import Dmacftu.Lib.CText
import Dmacftu.Lib.Loop
import Dmacftu.Lib.Transfers
/-!
# The loop that writes a line

The daemons of the Msg and the Band benchmark write their lines with one loop, in five copies.
`len` goes down by what each `write` moves, but the next one begins at the start of
`line_buf` again. After a first write that moves less than the line, what follows in
the file is the beginning of the line once more, and the end is missing.

`exactly_iff`: lines without borders are written exactly if each takes one write,
or if one fails.
-/
open Lib.Borders Lib.CText Lib.Loop Lib.Transfers

namespace Dmacftu.Lines

/-! ## The code -/

/-- A file, and how often `write` has been called on it. -/
structure Out where
  writes : Nat
  text : List Char
  deriving DecidableEq

/-- One pass of `while(len != 0)`. -/
def linePass (write : Nat → Transfer) (line_buf : List Char) (s : Nat × Out) : (Nat × Out) ⊕ (Bool × Out) :=
  let (len, fd) := s
  if len ≠ 0 then
    match (write fd.writes).moved len with
    | none => .inr (false, { fd with writes := fd.writes + 1 })
    | some ret => .inl (len - ret, ⟨fd.writes + 1, fd.text ++ line_buf.take ret⟩)
  else .inr (true, fd)

/-- Whether all writes succeed, and the file; it is `none` without fuel. -/
def writeLine (write : Nat → Transfer) (fuel : Nat) (line_buf : List Char) (fd : Out) : Option (Bool × Out) :=
  run (linePass write line_buf) fuel (line_buf.length, fd)

/-- Line after line, up to a write that fails. -/
def writeLines (write : Nat → Transfer) (fuel : Nat) : List (List Char) → Out → Option (Bool × Out)
  | [], fd => some (true, fd)
  | line :: lines, fd => do
    let (ok, fd) ← writeLine write fuel line fd
    if ok then writeLines write fuel lines fd else return (false, fd)

/-! ## A line -/

section

variable {write : Nat → Transfer} {line : List Char} {fd : Out}

/-- What `n` bytes of a line come to: pieces of its beginning, the last of which is all of it
exactly if the first write is whole. -/
structure Pieces (write : Nat → Transfer) (line : List Char) (n : Nat) (fd fd' : Out) (front : List Char) (b : Nat) : Prop where
  text : fd'.text = fd.text ++ (front ++ line.take b)
  length : front.length + b = n
  pos : 0 < n → 0 < b
  whole : 0 < n → (b = n ↔ (write fd.writes).moved n = some n)

theorem linePass_returns : ∀ (n : Nat) (fd : Out), n ≤ line.length → Returns (linePass write line) (n, fd) fun r =>
    match moves write fd.writes n with
    | none => r.1 = false
    | some c => r.1 = true ∧ r.2.writes = c ∧ ∃ front b, Pieces write line n fd r.2 front b := by
  intro n
  induction n using Nat.strongRecOn with
  | _ n ih =>
    intro fd hle
    rcases Nat.eq_zero_or_pos n with rfl | hpos
    · refine .done (r := (true, fd)) (by simp [linePass]) ?_
      rw [moves_zero]
      exact ⟨rfl, rfl, [], 0, by simp, rfl, fun h => h, fun h => absurd h (Nat.lt_irrefl 0)⟩
    · cases hmoved : (write fd.writes).moved n with
      | none =>
        refine .done (r := (false, { fd with writes := fd.writes + 1 })) ?_ ?_
        · simp [linePass, hmoved, Nat.ne_of_gt hpos]
        · rw [moves_fails hpos hmoved]
      | some m =>
        have hm := (write fd.writes).pos hmoved hpos
        have hmn := (write fd.writes).le hmoved
        have hnext : linePass write line (n, fd) = .inl (n - m, ⟨fd.writes + 1, fd.text ++ line.take m⟩) := by
          simp [linePass, hmoved, Nat.ne_of_gt hpos]
        obtain ⟨r, hr, hrun⟩ := ih (n - m) (by omega) ⟨fd.writes + 1, fd.text ++ line.take m⟩ (by omega)
        refine .step hnext ⟨r, ?_, hrun⟩
        rw [moves_some hpos hmoved]
        cases hmoves : moves write (fd.writes + 1) (n - m) with
        | none =>
          rw [hmoves] at hr
          exact hr
        | some c =>
          rw [hmoves] at hr
          obtain ⟨hok, hwrites, front, b, hpieces⟩ := hr
          refine ⟨hok, hwrites, ?_⟩
          have hlength := hpieces.length
          rcases Nat.eq_or_lt_of_le hmn with rfl | hlt
          · -- nothing is left, and what was written is the last piece
            refine ⟨[], m, ?_, by simp, fun _ => hm, fun _ => by simp [hmoved]⟩
            obtain ⟨rfl, rfl⟩ : front = [] ∧ b = 0 := by
              rw [Nat.sub_self] at hlength
              exact ⟨List.length_eq_zero_iff.1 (by omega), by omega⟩
            simpa using hpieces.text
          · refine ⟨line.take m ++ front, b, ?_, ?_, fun _ => hpieces.pos (by omega), fun _ => ?_⟩
            · simpa using hpieces.text
            · rw [List.length_append, List.length_take]
              omega
            · rw [hmoved, Option.some.injEq]
              omega

/-- The line itself is appended exactly if the first write moves all of it. -/
theorem Pieces.exact_iff (hborder : Unbordered line) (hne : line ≠ []) {fd' : Out} {front : List Char} {b : Nat}
    (h : Pieces write line line.length fd fd' front b) :
    front ++ line.take b = line ↔ (write fd.writes).moved line.length = some line.length := by
  have hpos := List.length_pos_iff.2 hne
  have hlength := h.length
  rw [← h.whole hpos]
  constructor
  · intro heq
    by_contra hb
    exact hborder.append_take_ne (h.pos hpos) (by omega) heq
  · rintro rfl
    rw [List.length_eq_zero_iff.1 (by omega : front.length = 0), List.take_length, List.nil_append]

end

theorem unbordered_line {s : List Char} (h : Printable s) : Unbordered (s ++ ['\n']) ∧ s ++ ['\n'] ≠ [] :=
  ⟨unbordered_end h.newline_not_mem, by simp⟩

/-! ## Several lines -/

/-- One of the writes fails before the lines are written. -/
def Fails (write : Nat → Transfer) (c : Nat) (lines : List (List Char)) : Prop :=
  lines.foldlM (fun c line => moves write c line.length) c = none

/-- Each line is moved by one write. -/
def Whole (write : Nat → Transfer) (c : Nat) (lines : List (List Char)) : Prop :=
  ∀ i line, lines[i]? = some line → (write (c + i)).moved line.length = some line.length

/-- The call returns, and if no write fails it appends these lines. -/
def Exactly (write : Nat → Transfer) (fd : Out) (lines : List (List Char)) (call : Nat → Option Out) : Prop :=
  ∃ fd', (¬ Fails write fd.writes lines → fd'.text = fd.text ++ lines.flatten) ∧ ∃ N, ∀ fuel, N ≤ fuel → call fuel = some fd'

section

variable {write : Nat → Transfer} {line : List Char} {lines : List (List Char)}

theorem whole_cons {c : Nat} : Whole write c (line :: lines) ↔
    (write c).moved line.length = some line.length ∧ Whole write (c + 1) lines := by
  constructor
  · intro h
    refine ⟨h 0 line rfl, fun i l hl => ?_⟩
    rw [Nat.add_right_comm]
    exact h (i + 1) l hl
  · rintro ⟨hline, hlines⟩ i l hl
    cases i with
    | zero =>
      cases hl
      exact hline
    | succ i =>
      rw [← Nat.add_assoc, Nat.add_right_comm]
      exact hlines i l hl

theorem fails_cons {c : Nat} : Fails write c (line :: lines) ↔
    moves write c line.length = none ∨ ∃ c', moves write c line.length = some c' ∧ Fails write c' lines := by
  rw [Fails, List.foldlM_cons]
  cases moves write c line.length with
  | none => simp
  | some c' => simp [Fails]

/-- One line is a series of one. -/
theorem writeLine_eq (fuel : Nat) (line : List Char) (fd : Out) :
    writeLine write fuel line fd = writeLines write fuel [line] fd := by
  rw [writeLines]
  cases writeLine write fuel line fd with
  | none => rfl
  | some r =>
    obtain ⟨ok, fd'⟩ := r
    cases ok <;> rfl

theorem writeLine_nil {fuel : Nat} (hfuel : 1 ≤ fuel) (fd : Out) : writeLine write fuel [] fd = some (true, fd) := by
  obtain ⟨fuel, rfl⟩ := Nat.exists_eq_add_of_le' hfuel
  rfl

/-- What a call comes to that writes these lines. -/
structure Written (write : Nat → Transfer) (lines : List (List Char)) (fd : Out) (r : Bool × Out) : Prop where
  ok : r.1 = true ↔ ¬ Fails write fd.writes lines
  text : r.1 = true → ∃ s, r.2.text = fd.text ++ s ∧ s.length = lines.flatten.length ∧
    (s = lines.flatten ↔ Whole write fd.writes lines)

theorem writeLine_of_le {fuel fuel' : Nat} {fd : Out} {r : Bool × Out} (h : writeLine write fuel line fd = some r)
    (hle : fuel ≤ fuel') : writeLine write fuel' line fd = some r :=
  run_of_le h hle

theorem writeLines_of_le {fuel fuel' : Nat} {fd : Out} {r : Bool × Out} (h : writeLines write fuel lines fd = some r)
    (hle : fuel ≤ fuel') : writeLines write fuel' lines fd = some r := by
  induction lines generalizing fd with
  | nil => exact h
  | cons line lines ih =>
    obtain ⟨⟨ok, fd₁⟩, hline, h⟩ := Option.bind_eq_some_iff.1 h
    refine Option.bind_eq_some_iff.2 ⟨(ok, fd₁), writeLine_of_le hline hle, ?_⟩
    cases ok with
    | false => exact h
    | true => exact ih h

theorem writeLines_returns (hborder : ∀ line ∈ lines, Unbordered line ∧ line ≠ []) : ∀ fd : Out,
    ∃ r, Written write lines fd r ∧ ∃ N, ∀ fuel, N ≤ fuel → writeLines write fuel lines fd = some r := by
  induction lines with
  | nil =>
    intro fd
    refine ⟨(true, fd), ⟨?_, fun _ => ⟨[], by simp, rfl, ?_⟩⟩, 0, fun _ _ => rfl⟩
    · simp [Fails]
    · simp [Whole]
  | cons line lines ih =>
    intro fd
    obtain ⟨hline, hne⟩ := hborder line List.mem_cons_self
    have hpass : Returns (linePass write line) (line.length, fd) _ := linePass_returns _ fd (Nat.le_refl _)
    obtain ⟨⟨ok, fd₁⟩, hr, N, hN⟩ := hpass
    dsimp only at hr
    cases hmoves : moves write fd.writes line.length with
    | none =>
      rw [hmoves] at hr
      obtain rfl : ok = false := hr
      have hfails : Fails write fd.writes (line :: lines) := fails_cons.2 (.inl hmoves)
      refine ⟨(false, fd₁), ⟨by simpa using hfails, fun h => by cases h⟩, N, fun fuel hfuel => ?_⟩
      rw [writeLines, writeLine, hN fuel hfuel]
      rfl
    | some c =>
      rw [hmoves] at hr
      obtain ⟨rfl, rfl, front, b, hpieces⟩ := hr
      -- the line is out, in whatever pieces
      obtain ⟨r, hwritten, M, hM⟩ := ih (fun l hl => hborder l (List.mem_cons_of_mem _ hl)) fd₁
      refine ⟨r, ⟨?_, fun hok => ?_⟩, max N M, fun fuel hfuel => ?_⟩
      · rw [hwritten.ok, fails_cons, hmoves]
        simp
      · obtain ⟨s, htext, hlength, hexact⟩ := hwritten.text hok
        have hpiece : (front ++ line.take b).length = line.length := by
          have := hpieces.length
          rw [List.length_append, List.length_take]
          omega
        refine ⟨front ++ line.take b ++ s, ?_, ?_, ?_⟩
        · rw [htext, hpieces.text, List.append_assoc]
        · rw [List.length_append, hpiece, hlength, List.flatten_cons, List.length_append]
        · -- a line in one write is followed by the next call
          have hnext : (write fd.writes).moved line.length = some line.length → fd₁.writes = fd.writes + 1 := by
            intro hall
            rw [moves_all (List.length_pos_iff.2 hne) hall] at hmoves
            exact (Option.some.inj hmoves).symm
          rw [List.flatten_cons, whole_cons]
          constructor
          · intro heq
            obtain ⟨hfront, hs⟩ := List.append_inj heq hpiece
            have hall := (hpieces.exact_iff hline hne).1 hfront
            exact ⟨hall, hnext hall ▸ hexact.1 hs⟩
          · rintro ⟨hall, hwhole⟩
            rw [(hpieces.exact_iff hline hne).2 hall, hexact.2 (hnext hall ▸ hwhole)]
      · rw [writeLines, writeLine, hN fuel (by omega)]
        exact hM fuel (by omega)

/-- Whatever the writes move, a loop over lines without borders ends, and it is exact if and only if
a write fails or each line takes one. -/
theorem exactly_iff (hborder : ∀ line ∈ lines, Unbordered line ∧ line ≠ []) (fd : Out) :
    Exactly write fd lines (fun fuel => (writeLines write fuel lines fd).map Prod.snd) ↔
      Fails write fd.writes lines ∨ Whole write fd.writes lines := by
  obtain ⟨⟨ok, fd'⟩, hwritten, N, hN⟩ := writeLines_returns hborder fd
  have hcall : ∀ fuel, N ≤ fuel → (writeLines write fuel lines fd).map Prod.snd = some fd' := by
    intro fuel hfuel
    rw [hN fuel hfuel]
    rfl
  constructor
  · rintro ⟨fd'', hexact, M, hM⟩
    by_cases hfails : Fails write fd.writes lines
    · exact .inl hfails
    · right
      obtain ⟨s, htext, -, hwhole⟩ := hwritten.text (hwritten.ok.2 hfails)
      have heq := (hcall _ (Nat.le_max_left N M)).symm.trans (hM _ (Nat.le_max_right N M))
      obtain rfl := Option.some.inj heq
      exact hwhole.1 (List.append_cancel_left (htext.symm.trans (hexact hfails)))
  · intro h
    refine ⟨fd', fun hfails => ?_, N, hcall⟩
    obtain ⟨s, htext, -, hwhole⟩ := hwritten.text (hwritten.ok.2 hfails)
    rw [htext, hwhole.2 (h.resolve_left hfails)]

end

/-! ## What a program writes -/

/-- From one state of a file to another, these lines are written without a failure. -/
def Wrote (write : Nat → Transfer) (lines : List (List Char)) (fd fd' : Out) : Prop :=
  ∃ fuel, writeLines write fuel lines fd = some (true, fd')

section

variable {write : Nat → Transfer} {line : List Char} {lines lines' : List (List Char)} {fd fd' fd'' : Out}

theorem wrote_nil (fd : Out) : Wrote write [] fd fd := ⟨0, rfl⟩

theorem wrote_line {fuel : Nat} (h : writeLine write fuel line fd = some (true, fd')) : Wrote write [line] fd fd' :=
  ⟨fuel, (writeLine_eq fuel line fd).symm.trans h⟩

theorem Wrote.append (h : Wrote write lines fd fd') (h' : Wrote write lines' fd' fd'') :
    Wrote write (lines ++ lines') fd fd'' := by
  obtain ⟨N, h⟩ := h
  obtain ⟨M, h'⟩ := h'
  refine ⟨max N M, ?_⟩
  replace h := writeLines_of_le h (Nat.le_max_left N M)
  replace h' := writeLines_of_le h' (Nat.le_max_right N M)
  induction lines generalizing fd with
  | nil =>
    obtain ⟨-, rfl⟩ := Prod.mk.inj (Option.some.inj h)
    exact h'
  | cons line lines ih =>
    obtain ⟨⟨ok, fd₁⟩, hline, h⟩ := Option.bind_eq_some_iff.1 h
    cases ok with
    | false => cases h
    | true => exact Option.bind_eq_some_iff.2 ⟨(true, fd₁), hline, ih h⟩

/-- The file is right exactly if each of the lines took one write. -/
theorem Wrote.exact_iff (hborder : ∀ line ∈ lines, Unbordered line ∧ line ≠ []) (h : Wrote write lines fd fd') :
    fd'.text = fd.text ++ lines.flatten ↔ Whole write fd.writes lines := by
  obtain ⟨fuel, h⟩ := h
  obtain ⟨r, hwritten, N, hN⟩ := writeLines_returns hborder fd
  have heq := (writeLines_of_le h (Nat.le_max_left fuel N)).symm.trans (hN _ (Nat.le_max_right fuel N))
  obtain rfl := Option.some.inj heq
  obtain ⟨s, htext, -, hwhole⟩ := hwritten.text rfl
  rw [htext, List.append_cancel_left_eq, hwhole]

end

end Dmacftu.Lines
