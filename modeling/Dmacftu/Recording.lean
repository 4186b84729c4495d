import Dmacftu.RecordMeasures
import Dmacftu.Summary
/-!
# From the device to the summary

The driver's records go through three stages of the tracer: `save_measure` prints them to the sparse
file, `copy_normal_file` copies its text to the regular file, and the script reads that and sums it up.

`recorded_text`: where a recording reports success and nothing of the text is lost on the way, the regular
file is the header line and the records of all reads, in order. `recorded_summary`: the script prints a
row for each size among them. `recording_succeeds`: without a call that fails there is such a recording.
-/
open Lib.CInt Lib.CText Lib.Loop Lib.Runs

namespace Dmacftu.Trace

/-- The records of all reads, in order. -/
def RecordEnv.units (e : RecordEnv) (n_cpu : Nat) (n_read : UInt64) : List UnitBuffUser :=
  (List.range n_read.toNat).flatMap fun i => (e.saves i).records n_cpu

/-- Nothing of the text is lost: the records of a read are not too many for the estimate of its mapping,
the sparse file is long enough, and each write of the copy moves what has been read. -/
structure RecordEnv.Carries (e : RecordEnv) (page_size n_cpu : Nat) (n_read : UInt64) (daemon_ptr : DaemonTrace) : Prop where
  small : ∀ i < n_read.toNat, (e.saves i).Small n_cpu
  room : (contents (e.units n_cpu n_read)).length ≤ sparseLength daemon_ptr
  buffer : e.copy.malloc = true
  complete : e.copy.Complete page_size (sparseLength daemon_ptr) (contents (e.units n_cpu n_read)).length

section

variable {page_size n_cpu fuel : Nat} {e : RecordEnv} {n_read : UInt64} {daemon_ptr : DaemonTrace} {r : RecordState}

/-! ## A call that reports success -/

/-- What is in the regular file is what the copy has written. -/
theorem recordFile_fl {s : RecordState} (hrun : recordFile page_size e fuel s = some r) (hret : 0 ≤ r.ret) :
    e.open_fl = true ∧ e.lseek_set = true ∧ ∃ ret c, copy_normal_file page_size e.copy
      ((List.range s.length).map s.daemon.sp) s.daemon.offset_map fuel = some (ret, c) ∧ 0 ≤ ret ∧ r.fl = c.fl := by
  unfold recordFile at hrun
  split at hrun
  next =>
    obtain rfl := Option.some.inj hrun
    exact absurd (show (0 : Int) ≤ -EINVAL from hret) (by decide)
  next hopen =>
    dsimp only at hrun
    split at hrun
    next =>
      obtain rfl := Option.some.inj hrun
      exact absurd (show (0 : Int) ≤ -1 from hret) (by decide)
    next hlseek =>
      obtain ⟨⟨ret, c⟩, hcopy, hrun⟩ := Option.bind_eq_some_iff.1 hrun
      refine ⟨by simpa using hopen, by simpa using hlseek, ret, c, hcopy, ?_⟩
      dsimp only at hrun
      split at hrun
      next hneg =>
        obtain rfl := Option.some.inj hrun
        exact absurd hneg (Int.not_lt.2 hret)
      next hok =>
        obtain rfl := Option.some.inj hrun
        exact ⟨Int.not_lt.1 hok, rfl⟩

/-- All of its steps have succeeded. -/
theorem record_measures_ok (hcareful : e.Careful page_size n_cpu n_read daemon_ptr)
    (hrun : record_measures page_size n_cpu e n_read fuel daemon_ptr = some r) (hret : 0 ≤ r.ret) :
    n_read.toNat ≤ 2 ^ 31 ∧ ∃ d ret c, e.Measures page_size n_cpu n_read daemon_ptr d ∧ copy_normal_file page_size e.copy
      ((List.range (sparseLength daemon_ptr)).map d.sp) d.offset_map fuel = some (ret, c) ∧ 0 ≤ ret ∧ r.fl = c.fl := by
  by_cases hheads : e.Heads daemon_ptr
  · have hregion := hcareful.region hheads
    have hdev := hcareful.device hheads hregion
    rw [record_measures_headed hheads] at hrun
    rcases recordDevice_some hregion hdev hrun with ⟨hneg, -⟩ | ⟨d, hd, hfile⟩
    · exact absurd hneg (Int.not_lt.2 hret)
    · obtain ⟨hopen, hlseek, ret, c, hcopy, hret', hfl⟩ := recordFile_fl hfile hret
      have hcopied := hcareful.copied hheads hregion hdev d hd hopen hlseek fuel ret c hcopy hret'
      exact ⟨hcopied.1, d, ret, c, hd, hcopy, hret', hfl⟩
  · exact absurd (not_headed_fails hheads hrun).1 (Int.not_lt.2 hret)

/-! ## The text -/

theorem headed_holds (daemon_ptr : DaemonTrace) : (headed daemon_ptr).Holds [] := by
  rw [holds_iff, contents_nil, headed]
  simp only [and_self]

/-- The calls of `save_measure` have left the text of their records. -/
theorem RecordEnv.Measures.holds (hpage : 0 < page_size) (hpage' : page_size < 2 ^ 63) {d : DaemonTrace}
    (h : e.Measures page_size n_cpu n_read daemon_ptr d) (hread : n_read.toNat ≤ 2 ^ 31)
    (hcarries : e.Carries page_size n_cpu n_read daemon_ptr) : d.Holds (e.units n_cpu n_read) := by
  have hsaved := h.saved
  rw [(passes_eq_iff n_read).2 hread] at hsaved
  have hholds := run_holds hpage hpage' (headed_holds daemon_ptr) (fun c hc => ?_) hsaved
  · rwa [List.nil_append, List.flatMap_map] at hholds
  · obtain ⟨i, hi, rfl⟩ := List.mem_map.1 hc
    exact hcarries.small i (List.mem_range.1 hi)

/-- The text is the beginning of the file. -/
theorem take_sparse {d : DaemonTrace} {units : List UnitBuffUser} (h : d.Holds units) {length : Nat}
    (hlength : d.offset_map ≤ length) : ((List.range length).map d.sp).take d.offset_map = contents units := by
  rw [← List.map_take, List.take_range, Nat.min_eq_left hlength]
  exact h.text

/-- The copy of such a file is the text. -/
theorem RecordEnv.Carries.copied (h : e.Carries page_size n_cpu n_read daemon_ptr) (hpage : 0 < page_size) {d : DaemonTrace}
    (hholds : d.Holds (e.units n_cpu n_read)) {ret : Int} {c : CopyState} (hcopy : copy_normal_file page_size e.copy
      ((List.range (sparseLength daemon_ptr)).map d.sp) d.offset_map fuel = some (ret, c)) (hret : 0 ≤ ret) :
    c.fl = contents (e.units n_cpu n_read) := by
  obtain ⟨hsmall, hroom, hmalloc, hcomplete⟩ := h
  rw [← (holds_iff.1 hholds).2] at hroom hcomplete
  have hcopies : CopiesExactly page_size e.copy ((List.range (sparseLength daemon_ptr)).map d.sp) d.offset_map :=
    complete_copies hmalloc hpage (by simpa using hroom) (by simpa using hcomplete)
  obtain ⟨ret', c', hcopied, N, hN⟩ := hcopies
  -- the copy of this run is the one that ends with enough fuel
  have hsame := (copy_of_le hcopy (Nat.le_max_left fuel N)).symm.trans (hN _ (Nat.le_max_right fuel N))
  obtain ⟨rfl, rfl⟩ := Prod.mk.inj (Option.some.inj hsame)
  have hzero : ret = 0 := Int.le_antisymm (copy_ret hmalloc hcopy) hret
  rw [(hcopied hzero).1, take_sparse hholds hroom]

/-- A recording that reports success has the records of all reads in the regular file. -/
theorem recorded_text (hpage : 0 < page_size) (hpage' : page_size < 2 ^ 63)
    (hcareful : e.Careful page_size n_cpu n_read daemon_ptr) (hcarries : e.Carries page_size n_cpu n_read daemon_ptr)
    (hrun : record_measures page_size n_cpu e n_read fuel daemon_ptr = some r) (hret : 0 ≤ r.ret) :
    r.fl = contents (e.units n_cpu n_read) := by
  obtain ⟨hread, d, ret, c, hd, hcopy, hret', hfl⟩ := record_measures_ok hcareful hrun hret
  rw [hfl]
  exact hcarries.copied hpage (hd.holds hpage hpage' hread hcarries) hcopy hret'

/-- The script then prints a row for each size among the records. -/
theorem recorded_summary (convfmt : ℚ → List Char) (hpage : 0 < page_size) (hpage' : page_size < 2 ^ 63)
    (hcareful : e.Careful page_size n_cpu n_read daemon_ptr) (hcarries : e.Carries page_size n_cpu n_read daemon_ptr)
    (hrun : record_measures page_size n_cpu e n_read fuel daemon_ptr = some r) (hret : 0 ≤ r.ret)
    (hfits : ∀ unit ∈ e.units n_cpu n_read, unit.Fits) :
    ∃ out, Rows convfmt (e.units n_cpu n_read) out ∧ ∃ N, ∀ fuel, N ≤ fuel → ref_invocation convfmt r.fl fuel = some out := by
  rw [recorded_text hpage hpage' hcareful hcarries hrun hret]
  exact ref_invocation_returns hfits

/-! ## A file that is long enough -/

theorem units_length_le (hbounded : ∀ i < n_read.toNat, (e.saves i).Bounded n_cpu) :
    (e.units n_cpu n_read).length ≤ n_read.toNat * (n_cpu * N_UNIT) := by
  unfold RecordEnv.units
  generalize n_read.toNat = n at hbounded ⊢
  induction n with
  | zero => simp
  | succ n ih =>
    have hrest := ih fun i hi => hbounded i (Nat.lt_succ_of_lt hi)
    have hlast := records_length_le (hbounded n (Nat.lt_succ_self n))
    rw [List.range_succ, List.flatMap_append, List.flatMap_singleton, List.length_append, Nat.succ_mul]
    exact Nat.add_le_add hrest hlast

/-- The text has its room in the file that `init_daemon` asks for, where its estimate is right. -/
theorem room_of_fits {d : DaemonTrace} (hfits : SizeFits n_cpu n_read.toNat)
    (hheads : e.Heads (init_daemon d n_cpu n_read.toNat)) (hbounded : ∀ i < n_read.toNat, (e.saves i).Bounded n_cpu) :
    (contents (e.units n_cpu n_read)).length ≤ sparseLength (init_daemon d n_cpu n_read.toNat) := by
  have hsize := (size_max_iff n_cpu n_read.toNat d).2 hfits
  have hunits := units_length_le hbounded
  have htext := contents_length_le (e.units n_cpu n_read)
  have hneed : N_CHAR_LINE * (n_read.toNat * (n_cpu * N_UNIT)) = needed n_read.toNat n_cpu := by
    rw [needed, Nat.mul_comm, ← Nat.mul_assoc]
  have hrange := MAX_SIZE_SP_range n_read.toNat n_cpu
  have hlseek := lseekEnd_size (size_max_eq n_cpu n_read.toNat d) hrange
  have hpos : ¬ MAX_SIZE_SP n_read.toNat n_cpu < 0 := fun hneg => by
    have := hheads.size
    rw [hlseek, if_pos hneg] at this
    exact absurd this (by decide)
  have hlength : sparseLength (init_daemon d n_cpu n_read.toNat) = (init_daemon d n_cpu n_read.toNat).size_max + 1 := by
    rw [sparseLength, hlseek, if_neg hpos, size_max_eq, u64_of_range (Int.not_lt.1 hpos) (by omega)]
  unfold N_CHAR_LINE at hneed
  omega

/-! ## A call that succeeds -/

/-- No call fails. -/
structure RecordEnv.Calm (e : RecordEnv) (page_size n_cpu : Nat) (n_read : UInt64) (daemon_ptr : DaemonTrace) : Prop where
  heads : e.Heads daemon_ptr
  region : e.region = true
  open_dev : e.open_dev = true
  cleaned : ∀ i < n_read_clean, e.cleans i = REGION_SIZE * n_cpu
  saves : ∀ i < n_read.toNat, (∃ region, (e.saves i).read = some region) ∧ (e.saves i).mmap ∧ (e.saves i).munmap ∧
    (e.saves i).lseek
  open_fl : e.open_fl = true
  lseek_set : e.lseek_set = true
  copy : ¬ e.copy.Fails page_size (sparseLength daemon_ptr) (contents (e.units n_cpu n_read)).length

/-- Calls that all succeed save all of their records. -/
theorem saved_all (hpage : 0 < page_size) (hpage' : page_size ≤ 2 ^ 62) {calls : List SaveCall} :
    (∀ c ∈ calls, ((∃ region, c.read = some region) ∧ c.mmap ∧ c.munmap ∧ c.lseek) ∧ c.Small n_cpu) →
    ∀ {d : DaemonTrace} {units : List UnitBuffUser}, d.Holds units → ∃ d', exec (saved page_size n_cpu) d calls = some d' := by
  induction calls with
  | nil => exact fun _ d _ _ => ⟨d, rfl⟩
  | cons c calls ih =>
    intro hcalls d units h
    obtain ⟨⟨⟨region, hread⟩, hmmap, hmunmap, hlseek⟩, hsmall⟩ := hcalls c List.mem_cons_self
    rw [SaveCall.Small, SaveCall.records, hread] at hsmall
    obtain ⟨d₁, hholds, hcall⟩ := save_measure_small h hpage hpage' hread hsmall
    have hsaved : saved page_size n_cpu d c = some d₁ := by
      rw [saved_eq, hcall, hmmap, hmunmap, hlseek]
      simp
    obtain ⟨d', hexec⟩ := ih (fun c' hc' => hcalls c' (List.mem_cons_of_mem _ hc')) hholds
    exact ⟨d', exec_cons.2 ⟨d₁, hsaved, hexec⟩⟩

/-- A recording in which no call fails and nothing is lost ends, reports success, and has all of the
records in the regular file. -/
theorem recording_succeeds (hpage : 0 < page_size) (hpage' : page_size ≤ 2 ^ 62) (hread : n_read.toNat ≤ 2 ^ 31)
    (hcalm : e.Calm page_size n_cpu n_read daemon_ptr) (hcarries : e.Carries page_size n_cpu n_read daemon_ptr) :
    ∃ fuel r, record_measures page_size n_cpu e n_read fuel daemon_ptr = some r ∧ 0 ≤ r.ret ∧
      r.fl = contents (e.units n_cpu n_read) := by
  have hcalls : ∀ c ∈ (List.range n_read.toNat).map e.saves,
      ((∃ region, c.read = some region) ∧ c.mmap ∧ c.munmap ∧ c.lseek) ∧ c.Small n_cpu := by
    intro c hc
    obtain ⟨i, hi, rfl⟩ := List.mem_map.1 hc
    exact ⟨hcalm.saves i (List.mem_range.1 hi), hcarries.small i (List.mem_range.1 hi)⟩
  obtain ⟨d, hexec⟩ := saved_all hpage hpage' hcalls (headed_holds daemon_ptr)
  rw [← (passes_eq_iff n_read).2 hread] at hexec
  have hd : e.Measures page_size n_cpu n_read daemon_ptr d := ⟨hcalm.cleaned, hexec⟩
  have hholds := hd.holds hpage (by omega) hread hcarries
  have hlen := (holds_iff.1 hholds).2
  -- the copy ends, and with 0
  have hcopies : CopiesExactly page_size e.copy ((List.range (sparseLength daemon_ptr)).map d.sp) d.offset_map := by
    refine complete_copies hcarries.buffer hpage ?_ ?_
    · simpa [hlen] using hcarries.room
    · simpa [hlen] using hcarries.complete
  obtain ⟨ret, c, -, N, hN⟩ := hcopies
  have hcopy := hN N (Nat.le_refl N)
  obtain rfl : ret = 0 := copy_zero hcarries.buffer (by simpa [hlen] using hcalm.copy) hcopy
  obtain ⟨r, hfile, hret, -, -, hfl, -⟩ := recordFile_copied (s := (openState daemon_ptr).measured d (passes n_read))
    hcalm.open_fl hcalm.lseek_set hcopy
  obtain ⟨fuel, hrun⟩ := recordDevice_reaches hcalm.region hcalm.open_dev hd hfile
  refine ⟨fuel, r, ?_, hret.2 (Int.le_refl 0), ?_⟩
  · rw [record_measures_headed hcalm.heads, hrun]
  · rw [hfl]
    exact hcarries.copied hpage hholds hcopy (Int.le_refl 0)

end

theorem shortReads_never_fails (page_size length L : Nat) : ¬ shortReads.Fails page_size length L := by
  rintro ⟨i, c, w, -, -, hmoves⟩
  simp [CopyEnv.moves, shortReads, Lib.Transfers.upTo, Lib.Transfers.whole] at hmoves
  rw [s32_of_range (by omega) (by omega)] at hmoves
  omega

/-- One read of one record. -/
theorem recording_succeeds_sample : ∃ fuel r, record_measures 4096 1 calm 1 fuel (init_daemon emptyFile 1 1) = some r ∧
    0 ≤ r.ret ∧ r.fl = contents (calm.units 1 1) := by
  have hheads : calm.Heads (init_daemon emptyFile 1 1) := ⟨rfl, rfl, by decide, rfl, rfl, rfl⟩
  have hfits : SizeFits 1 1 := by
    refine .inl ⟨by decide, ?_⟩
    rw [first_row.1]
    decide
  have hbounded : ∀ i < 1, (calm.saves i).Bounded 1 := by
    rintro i - region hregion j -
    obtain rfl := Option.some.inj hregion
    simp [fullRegion, N_UNIT]
  refine recording_succeeds (by simp) (by simp) (by decide)
    ⟨hheads, rfl, rfl, fun _ _ => by simp [calm], fun _ _ => ⟨⟨_, rfl⟩, rfl, rfl, rfl⟩, rfl, rfl, ?_⟩ ⟨?_, ?_, rfl, ?_⟩
  · exact shortReads_never_fails _ _ _
  · intro i _
    exact (by decide : (calm.saves 0).Small 1)
  · exact room_of_fits hfits hheads hbounded
  · intro i c w r m _ _ hmoves
    exact moves_whole rfl (by omega) hmoves

end Dmacftu.Trace
