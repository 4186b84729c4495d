import Dmacftu.BenchDaemons
import Dmacftu.MsgDaemon
/-!
# The measures files

The lines that the Band benchmark writes, and when they are the measures file.

`lines_exact_iff` is about all five loops of the two daemons, and about their files: each line has to
take one write.
-/
open Lib.Borders Lib.CDouble Lib.CInt Lib.CText Lib.Transfers
open Dmacftu.Bench Dmacftu.Lines

namespace Dmacftu.BandDaemon

section

variable {dbl : Double} {N_CHAN : Nat} {type : Int} {env : Env} {fuel : Nat}

/-! ## Lines -/

theorem unbordered_first_row : Unbordered FIRST_ROW ∧ FIRST_ROW ≠ [] := by
  have hbody : ∀ s : List Char, ∀ n, s.take n ++ ['\n', '#', '\n'] = s ∧ '\n' ∉ s.take n ∧ 2 ≤ (s.take n).length →
      Unbordered s ∧ s ≠ [] := by
    rintro s n ⟨hs, hbody, hlen⟩
    rw [← hs]
    exact ⟨unbordered_end_line hbody (by simp) hlen, by simp⟩
  exact hbody FIRST_ROW 123 (by decide +kernel)

theorem printable_columns (round size j : Nat) : Printable (threadColumns dbl type env round size j) := by
  have hpad := printable_pad_decimal
  apply Printable.blank
  refine .append (.append (.append (.append (.append (.append ?_ (hpad _ _)) (hpad _ _)) (hpad _ _)) (hpad _ _)) (hpad _ _)) ?_
  · exact (graphic_signed _).printable.pad 8
  · exact (dbl.printable 6 _).pad 21

theorem unbordered_threadText (round size j : Nat) (tot_band : dbl.Val) :
    Unbordered (threadText dbl N_CHAN type env round size j tot_band) ∧
      threadText dbl N_CHAN type env round size j tot_band ≠ [] := by
  have hcolumns : Printable (threadColumns dbl type env round size j) := printable_columns round size j
  unfold threadText
  dsimp only
  split
  · exact unbordered_line hcolumns
  · have htotal : Printable (" -> total_band = ".toList) := by simp [Printable]
    have hline := (hcolumns.append htotal).append ((dbl.printable 6 tot_band).pad 15)
    refine ⟨unbordered_end_line hline.newline_not_mem (by simp) ?_, by simp⟩
    simp only [List.length_append]
    have : 2 ≤ " -> total_band = ".toList.length := by simp
    omega

/-- The lines of these threads, one after the other. -/
def threadLines (dbl : Double) (N_CHAN : Nat) (type : Int) (env : Env) (round size : Nat) : List Nat → dbl.Val → List (List Char)
  | [], _ => []
  | j :: js, tot_band =>
    let tot_band := dbl.add tot_band (bandwidth dbl type env round size j)
    threadText dbl N_CHAN type env round size j tot_band :: threadLines dbl N_CHAN type env round size js tot_band

theorem unbordered_threadLines {round size : Nat} {js : List Nat} : ∀ {tot_band : dbl.Val} {line : List Char},
    line ∈ threadLines dbl N_CHAN type env round size js tot_band → Unbordered line ∧ line ≠ [] := by
  induction js with
  | nil => exact fun h => by cases h
  | cons j js ih =>
    intro tot_band line h
    rcases List.mem_cons.1 h with rfl | h
    · exact unbordered_threadText round size j _
    · exact ih h

/-! ## The loops -/

/-- The thread has ended as it should. -/
def RoundEnv.ok (env : RoundEnv) (j : Nat) : Bool := env.join j = 0 && env.state_thread j = TH_STATE_OK

/-- The file, however the loop is left. -/
def fileOf : State ⊕ Int × State → Out
  | .inl s => s.fd
  | .inr (_, s) => s.fd

/-- The loop writes the lines of the threads up to the first that has failed. -/
theorem measureThreads_file {round size : Nat} {js : List Nat} : ∀ {tot_band : dbl.Val} {s : State},
    (measureThreads dbl N_CHAN type env fuel round size js tot_band s).map fileOf =
      (writeLines env.write fuel (threadLines dbl N_CHAN type env round size (js.takeWhile (RoundEnv.ok (env.round round)))
        tot_band) s.fd).map Prod.snd := by
  induction js with
  | nil => exact fun {_ _} => rfl
  | cons j js ih =>
    intro tot_band s
    rw [measureThreads]
    dsimp only
    by_cases hok : (env.round round).join j = 0 ∧ (env.round round).state_thread j = TH_STATE_OK
    · have htake : (j :: js).takeWhile (RoundEnv.ok (env.round round)) = j :: js.takeWhile (RoundEnv.ok (env.round round)) :=
        List.takeWhile_cons_of_pos (by simp [RoundEnv.ok, hok])
      rw [if_pos hok, htake, threadLines, writeLines]
      dsimp only
      cases hline : writeLine env.write fuel (threadText dbl N_CHAN type env round size j
          (dbl.add tot_band (bandwidth dbl type env round size j))) s.fd with
      | none => rfl
      | some r =>
        obtain ⟨ok, fd⟩ := r
        cases ok with
        | false => rfl
        | true => exact ih
    · have htake : (j :: js).takeWhile (RoundEnv.ok (env.round round)) = [] :=
        List.takeWhile_cons_of_neg (by simpa [RoundEnv.ok] using hok)
      rw [if_neg hok, htake]
      rfl

theorem write_first_row_exactly_iff (write : Nat → Transfer) (fd : Out) :
    Exactly write fd [FIRST_ROW] (fun fuel => (write_first_row write fuel fd).map Prod.snd) ↔
      Fails write fd.writes [FIRST_ROW] ∨ Whole write fd.writes [FIRST_ROW] := by
  rw [← exactly_iff]
  · simp only [write_first_row, writeLine_eq, Option.map_map, Function.comp_def]
  · intro line hline
    rw [List.mem_singleton.1 hline]
    exact unbordered_first_row

theorem measureThreads_exactly_iff (round size : Nat) (js : List Nat) (tot_band : dbl.Val) (s : State) :
    let lines := threadLines dbl N_CHAN type env round size (js.takeWhile (RoundEnv.ok (env.round round))) tot_band
    Exactly env.write s.fd lines
        (fun fuel => (measureThreads dbl N_CHAN type env fuel round size js tot_band s).map fileOf) ↔
      Fails env.write s.fd.writes lines ∨ Whole env.write s.fd.writes lines := by
  intro lines
  rw [← exactly_iff fun line hline => unbordered_threadLines hline]
  simp only [measureThreads_file, lines]

/-! ## The file -/

/-- A loop over threads that all are joined and end as they should writes the lines of them all. -/
theorem measureThreads_wrote {round size : Nat} {js : List Nat} : ∀ {tot_band : dbl.Val} {s s' : State},
    measureThreads dbl N_CHAN type env fuel round size js tot_band s = some (.inl s') →
      Wrote env.write (threadLines dbl N_CHAN type env round size js tot_band) s.fd s'.fd := by
  induction js with
  | nil =>
    intro tot_band s s' h
    obtain rfl := Sum.inl.inj (Option.some.inj h)
    exact wrote_nil _
  | cons j js ih =>
    intro tot_band s s' h
    rw [measureThreads] at h
    dsimp only at h
    split at h
    next =>
      obtain ⟨⟨ok, fd⟩, hline, h⟩ := Option.bind_eq_some_iff.1 h
      cases ok with
      | false => simp at h
      | true => exact (wrote_line hline).append (ih h)
    next => simp at h

/-- The lines of a round. -/
def roundLines (dbl : Double) (N_CHAN : Nat) (type : Int) (env : Env) (round size : Nat) : List (List Char) :=
  threadLines dbl N_CHAN type env round size (List.range N_CHAN) (dbl.ofNat 0)

theorem measureSize_wrote {round i : Nat} {s s' : State} (h : measureSize dbl N_CHAN type env fuel round i s = some (.inl s')) :
    Wrote env.write (roundLines dbl N_CHAN type env round i) s.fd s'.fd := by
  obtain ⟨⟨ret, log⟩, -, h⟩ := Option.bind_eq_some_iff.1 h
  dsimp only at h
  split at h
  · simp at h
  · exact measureThreads_wrote (s := { s with log }) h

theorem measureThreads_leaves {round size : Nat} {js : List Nat} : ∀ {tot_band : dbl.Val} {s s' : State} {ret : Int},
    measureThreads dbl N_CHAN type env fuel round size js tot_band s = some (.inr (ret, s')) → ret ≠ 0 := by
  induction js with
  | nil => exact fun h => by simp [measureThreads] at h
  | cons j js ih =>
    intro tot_band s s' ret h
    rw [measureThreads] at h
    dsimp only at h
    split at h
    next =>
      obtain ⟨⟨ok, fd⟩, -, h⟩ := Option.bind_eq_some_iff.1 h
      cases ok with
      | true => exact ih h
      | false =>
        obtain ⟨rfl, -⟩ := Prod.mk.inj (Sum.inr.inj (Option.some.inj h))
        simp
    next =>
      obtain ⟨rfl, -⟩ := Prod.mk.inj (Sum.inr.inj (Option.some.inj h))
      exact joinResult_ne_zero _ j

theorem measureSize_leaves {round i : Nat} {s s' : State} {ret : Int}
    (h : measureSize dbl N_CHAN type env fuel round i s = some (.inr (ret, s'))) : ret ≠ 0 := by
  obtain ⟨⟨ret₁, log⟩, -, h⟩ := Option.bind_eq_some_iff.1 h
  dsimp only at h
  split at h
  next hne =>
    obtain ⟨rfl, -⟩ := Prod.mk.inj (Sum.inr.inj (Option.some.inj h))
    exact hne
  next => exact measureThreads_leaves h

/-- A result other than 0 is not the one of a call that returns 0. -/
theorem ne_zero_result {ret : Int} {s t : State} (hne : ret ≠ 0) : some (ret, t) ≠ some (0, s) := fun heq =>
  hne (Prod.mk.inj (Option.some.inj heq)).1

theorem runRounds_wrote {max_size : Nat} {s s' : State}
    (h : runRounds dbl N_CHAN type env max_size fuel s = some (0, s')) :
    ∃ K, (∀ r < K, 2 ^ (10 + r) ≤ max_size) ∧ max_size < 2 ^ (10 + K) ∧
      Wrote env.write ((List.range K).flatMap fun r => roundLines dbl N_CHAN type env r (2 ^ (10 + r))) s.fd s'.fd := by
  obtain ⟨⟨ret₁, log⟩, -, h⟩ := Option.bind_eq_some_iff.1 h
  dsimp only at h
  split at h
  next hne => exact absurd h (ne_zero_result hne)
  split at h
  next hne => exact absurd h (ne_zero_result hne)
  obtain ⟨⟨ret₂, t⟩, hloop, h⟩ := Option.bind_eq_some_iff.1 h
  obtain ⟨rfl, rfl⟩ := Prod.mk.inj (Option.some.inj h)
  exact Lib.Doubling.loop_done (fun lines s s' => Wrote env.write lines s.fd s'.fd) (roundLines dbl N_CHAN type env) 10
    (by simp) (fun s => wrote_nil s.fd) (fun h h' => h.append h') (fun _ _ _ _ _ => measureSize_leaves)
    (fun _ _ _ _ => measureSize_wrote) hloop

theorem start_micro_benchmark_wrote {max_size : Nat} {s : State}
    (h : start_micro_benchmark dbl N_CHAN type env max_size fuel = some (0, s)) :
    ∃ K, (∀ r < K, 2 ^ (10 + r) ≤ max_size) ∧ max_size < 2 ^ (10 + K) ∧
      Wrote env.write (FIRST_ROW :: (List.range K).flatMap fun r => roundLines dbl N_CHAN type env r (2 ^ (10 + r)))
        ⟨0, []⟩ s.fd := by
  unfold start_micro_benchmark at h
  dsimp only at h
  split at h
  next hneg => exact absurd h (ne_zero_result (Int.ne_of_lt hneg))
  obtain ⟨⟨ret₁, fd⟩, hrow, h⟩ := Option.bind_eq_some_iff.1 h
  dsimp only at h
  split at h
  next hneg => exact absurd h (ne_zero_result (Int.ne_of_lt hneg))
  next hok =>
    have hhead : Wrote env.write [FIRST_ROW] ⟨0, []⟩ fd := MsgDaemon.wrote_of_result (by omega) hrow
    split at h
    next hne => exact absurd h (ne_zero_result hne)
    split at h
    next hne => exact absurd h (ne_zero_result hne)
    split at h
    next hne => exact absurd h (ne_zero_result hne)
    split at h
    next hne => exact absurd h (ne_zero_result hne)
    split at h
    · exact absurd h (ne_zero_result (by simp [ENOMEM]))
    obtain ⟨K, hbelow, habove, hrounds⟩ := runRounds_wrote h
    exact ⟨K, hbelow, habove, hhead.append hrounds⟩

/-- After a call that returns 0, the measures file is its header line and the lines of the threads
exactly if every one of them took one write. -/
theorem measures_file_iff {max_size : Nat} {s : State}
    (h : start_micro_benchmark dbl N_CHAN type env max_size fuel = some (0, s)) :
    ∃ K, (∀ r < K, 2 ^ (10 + r) ≤ max_size) ∧ max_size < 2 ^ (10 + K) ∧
      let lines := FIRST_ROW :: (List.range K).flatMap fun r => roundLines dbl N_CHAN type env r (2 ^ (10 + r))
      s.fd.text = lines.flatten ↔ Whole env.write 0 lines := by
  obtain ⟨K, hbelow, habove, hwrote⟩ := start_micro_benchmark_wrote h
  refine ⟨K, hbelow, habove, ?_⟩
  have hexact := hwrote.exact_iff fun line hline => ?_
  · simpa only [List.nil_append] using hexact
  · rcases List.mem_cons.1 hline with hrow | hline
    · rw [hrow]
      exact unbordered_first_row
    · obtain ⟨r, -, hline⟩ := List.mem_flatMap.1 hline
      exact unbordered_threadLines hline

end

end Dmacftu.BandDaemon

namespace Dmacftu.Lines

open BandDaemon

/-- The five loops end, and what they append is their lines, each once, if and only if a write fails or
each of the lines takes one write. And so it is with the files of the Msg benchmark and that of the
Band benchmark, when the daemon returns 0. -/
theorem lines_exact_iff (write : Nat → Transfer) (dbl : Double) (fd : Out) :
    (∀ type : Int, Exactly write fd (MsgDaemon.rows type)
        (fun fuel => (MsgDaemon.write_first_row write fuel type fd).map Prod.snd) ↔
      Fails write fd.writes (MsgDaemon.rows type) ∨ Whole write fd.writes (MsgDaemon.rows type)) ∧
    (∀ units : List MsgDaemon.UnitBuffUser, Exactly write fd (units.map MsgDaemon.UnitBuffUser.text)
        (fun fuel => (MsgDaemon.writeMeasures write fuel units fd).map Prod.snd) ↔
      Fails write fd.writes (units.map MsgDaemon.UnitBuffUser.text) ∨
        Whole write fd.writes (units.map MsgDaemon.UnitBuffUser.text)) ∧
    (∀ (count size : Nat) (time_op : List Nat),
      let line := MsgDaemon.synthText dbl count size (time_op.mergeSort (· ≤ ·))
      Exactly write fd [line] (fun fuel => (MsgDaemon.data_synthesis dbl write fuel count size time_op fd).map Prod.snd) ↔
        Fails write fd.writes [line] ∨ Whole write fd.writes [line]) ∧
    (Exactly write fd [FIRST_ROW] (fun fuel => (BandDaemon.write_first_row write fuel fd).map Prod.snd) ↔
      Fails write fd.writes [FIRST_ROW] ∨ Whole write fd.writes [FIRST_ROW]) ∧
    (∀ (N_CHAN : Nat) (type : Int) (env : Env) (round size : Nat) (js : List Nat) (tot_band : dbl.Val) (s : State),
      let lines := threadLines dbl N_CHAN type env round size (js.takeWhile (RoundEnv.ok (env.round round))) tot_band
      Exactly env.write s.fd lines
          (fun fuel => (measureThreads dbl N_CHAN type env fuel round size js tot_band s).map fileOf) ↔
        Fails env.write s.fd.writes lines ∨ Whole env.write s.fd.writes lines) ∧
    (∀ (env : MsgDaemon.RecordEnv) (max_size fuel : Nat) (files : MsgDaemon.Files), (env.region = true ∨ env.ret ≠ 0) →
      MsgDaemon.record_measures dbl env max_size fuel = some (0, files) →
      ∃ K, (∀ r < K, 2 ^ r ≤ max_size) ∧ max_size < 2 ^ K ∧
        let fl := (List.range K).flatMap fun r => MsgDaemon.flLines (env.save r).region
        let synth := MsgDaemon.SYNTH_ROW :: (List.range K).flatMap fun r =>
          MsgDaemon.synthLines dbl (2 ^ r) (env.save r).region
        (files.fl.text = fl.flatten ↔ Whole env.write_fl 0 fl) ∧
          (files.synth.text = synth.flatten ↔ Whole env.write_synth 0 synth)) ∧
    ∀ (N_CHAN : Nat) (type : Int) (env : Env) (max_size fuel : Nat) (s : State),
      start_micro_benchmark dbl N_CHAN type env max_size fuel = some (0, s) →
      ∃ K, (∀ r < K, 2 ^ (10 + r) ≤ max_size) ∧ max_size < 2 ^ (10 + K) ∧
        let lines := FIRST_ROW :: (List.range K).flatMap fun r => roundLines dbl N_CHAN type env r (2 ^ (10 + r))
        s.fd.text = lines.flatten ↔ Whole env.write 0 lines :=
  ⟨fun type => MsgDaemon.write_first_row_exactly_iff type fd, fun units => MsgDaemon.writeMeasures_exactly_iff units fd,
    fun count size time_op => MsgDaemon.data_synthesis_exactly_iff count size time_op fd, write_first_row_exactly_iff write fd,
    fun _ _ _ round size js tot_band s => measureThreads_exactly_iff round size js tot_band s,
    fun _ _ _ _ hregion h => MsgDaemon.measures_files_iff hregion h, fun _ _ _ _ _ _ h => measures_file_iff h⟩

theorem lines_exact_iff_sample : ∃ s, start_micro_benchmark wholeNumbers 1 0 (bandEnv allFour allFour) 1024 3 = some (0, s) ∧
    s.fd.text = (FIRST_ROW :: roundLines wholeNumbers 1 0 (bandEnv allFour allFour) 0 1024).flatten := by
  have hrun : ((start_micro_benchmark wholeNumbers 1 0 (bandEnv allFour allFour) 1024 3).map Prod.fst) = some 0 := by
    decide +kernel
  obtain ⟨⟨ret, s⟩, hs, rfl⟩ := Option.map_eq_some_iff.1 hrun
  obtain ⟨-, -, -, -, -, -, hfile⟩ := lines_exact_iff (fun _ => whole) wholeNumbers ⟨0, []⟩
  obtain ⟨K, hbelow, habove, hexact⟩ := hfile 1 0 (bandEnv allFour allFour) 1024 3 s hs
  obtain rfl : K = 1 := by
    have hpos : K ≠ 0 := by
      rintro rfl
      simp at habove
    have hle : ¬ 1 < K := fun hlt => absurd (hbelow 1 hlt) (by simp)
    omega
  refine ⟨s, hs, ?_⟩
  simpa using hexact.2 fun _ _ _ => rfl

/-- The first write moves one byte. -/
def oneByte (i : Nat) : Transfer := if i = 0 then upTo 0 else whole

/-- The header line of the Msg benchmark after a write of one byte: it begins twice and has no end. -/
theorem short_write_repeats : (∀ fuel, 3 ≤ fuel → MsgDaemon.write_first_row oneByte fuel MsgDaemon.ID_MEASURE ⟨0, []⟩ =
      some (0, ⟨2, '#' :: MsgDaemon.MEASURE_ROW.dropLast⟩)) ∧
    '#' :: MsgDaemon.MEASURE_ROW.dropLast ≠ MsgDaemon.MEASURE_ROW := by
  refine ⟨fun fuel hfuel => ?_, by decide +kernel⟩
  have hline : writeLine oneByte 3 (MsgDaemon.firstRow MsgDaemon.ID_MEASURE) ⟨0, []⟩ =
      some (true, ⟨2, '#' :: MsgDaemon.MEASURE_ROW.dropLast⟩) := by
    decide +kernel
  rw [MsgDaemon.write_first_row, writeLine_of_le hline hfuel]
  rfl

end Dmacftu.Lines
