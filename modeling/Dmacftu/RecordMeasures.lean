import Dmacftu.CopyFile
import Dmacftu.SparseSize
/-!
# What `record_measures` reports

`record_measures` makes the sparse file, reads the device `n_read` times, and copies the
text to the regular file. One `ret` serves all of its steps, and five labels undo what has
been done. `main` reports success unless the result is negative.

The steps that fail without an assignment to `ret` leave it at 0, and one step leaves the
regular file open. `reports_iff` says on which outcomes of the system calls a result that is
not negative means that all was recorded, and all that was opened has been closed.
-/
open Lib.CInt Lib.CText Lib.Loop Lib.Runs

namespace Dmacftu.Trace

/-! ## The code -/

/-- What is opened and allocated, and has to be given back. -/
inductive Res
  | fd_sp
  | fd_dev
  | fd_fl
  | region
  | buffer_file
  deriving DecidableEq

inductive ResEvent
  | get (res : Res)
  | put (res : Res)
  deriving DecidableEq

def ResEvent.res : ResEvent → Res
  | .get res => res
  | .put res => res

/-- The outcomes of the system calls, in their order. `cleans` are the results of the reads
of `clean_kernel_buffer`. -/
structure RecordEnv where
  open_sp : Bool
  lseek_end : Bool
  write_sp : Bool
  mmap : Bool
  munmap : Bool
  region : Bool
  open_dev : Bool
  cleans : Nat → Int
  saves : Nat → SaveCall
  open_fl : Bool
  lseek_set : Bool
  copy : CopyEnv

/-- `length` is that of the sparse file. `log`, `saves` and `copied` are an account: what was
opened and closed, and the results of `save_measure` and `copy_normal_file`. -/
structure RecordState where
  ret : Int
  daemon : DaemonTrace
  length : Nat
  fl : List Char
  log : List ResEvent
  saves : List Int
  copied : Option Int

def RecordState.get (s : RecordState) (res : Res) : RecordState := { s with log := s.log ++ [.get res] }

def RecordState.put (s : RecordState) (res : Res) : RecordState := { s with log := s.log ++ [.put res] }

def RecordState.start (daemon_ptr : DaemonTrace) : RecordState := ⟨0, daemon_ptr, 0, [], [], [], none⟩

def RecordState.daemon_create_sparse_file (s : RecordState) (e : RecordEnv) : RecordState :=
  if !e.open_sp then { s with ret := -1 }
  else
    let s := { s.get .fd_sp with daemon := { s.daemon with sp := fun _ => NUL }, length := 0 }
    let offset := if e.lseek_end then lseekEnd 0 (s64 s.daemon.size_max) else -1
    if s32 offset < 0 then { s.put .fd_sp with ret := s32 offset }
    else if !e.write_sp then { s.put .fd_sp with ret := -1 }
    else { s with
      ret := 0
      daemon := { s.daemon with sp := Lib.CText.put s.daemon.sp offset.toNat [NUL] }
      length := offset.toNat + 1 }

/-- The rounds of `clean_kernel_buffer` from `i` on. -/
def cleanReads (cleans : Nat → Int) (size_r : Int) : (i n : Nat) → Int
  | _, 0 => 0
  | i, n + 1 => if cleans i ≠ size_r then -EFAULT else cleanReads cleans size_r (i + 1) n

def err_rec1 (s : RecordState) : RecordState := s
def err_rec2 (s : RecordState) : RecordState := err_rec1 (s.put .fd_sp)
def err_rec3 (s : RecordState) : RecordState := err_rec2 (s.put .region)
def err_rec4 (s : RecordState) : RecordState := err_rec3 (s.put .fd_dev)
def err_rec5 (s : RecordState) : RecordState := err_rec4 (s.put .fd_fl)

/-- A pass of the loop. The result says whether it is left for `err_rec4`; there is none if
`save_measure` leaves its mapping. -/
def measurePass (page_size n_cpu : Nat) (e : RecordEnv) (n_read : UInt64) (p : Int × RecordState) :
    (Int × RecordState) ⊕ Option (Bool × RecordState) :=
  let (i, s) := p
  -- `i` is an `int`, and the comparison is one of `unsigned long`
  if u64 i < n_read.toNat then
    match (e.saves s.saves.length).save_measure page_size n_cpu s.daemon with
    | none => .inr none
    | some (ret, daemon) =>
      let s := { s with ret, daemon, saves := s.saves ++ [ret] }
      if ret < 0 then .inr (some (true, s)) else .inl (s32 (i + 1), s)
  else .inr (some (false, s))

/-- From the `open` of the regular file on. -/
def recordFile (page_size : Nat) (e : RecordEnv) (fuel : Nat) (s : RecordState) : Option RecordState :=
  if !e.open_fl then some (err_rec4 { s with ret := -EINVAL })
  else
    let s := s.get .fd_fl
    if !e.lseek_set then some (err_rec4 { s with ret := -1 })
    else do
      let (ret, c) ← copy_normal_file page_size e.copy ((List.range s.length).map s.daemon.sp) s.daemon.offset_map fuel
      let s := if e.copy.malloc then (s.get .buffer_file).put .buffer_file else s
      let s := { s with ret, copied := some ret, fl := c.fl, daemon := { s.daemon with offset_map := c.offset_map } }
      if ret < 0 then return err_rec5 s
      else return { (((s.put .fd_fl).put .fd_dev).put .region).put .fd_sp with ret := 0 }

/-- From `init_region` on. -/
def recordDevice (page_size n_cpu : Nat) (e : RecordEnv) (n_read : UInt64) (fuel : Nat) (s : RecordState) :
    Option RecordState :=
  if !e.region then some (err_rec2 s)
  else
    let s := s.get .region
    if !e.open_dev then some (err_rec3 s)
    else
      let s := { s.get .fd_dev with ret := cleanReads e.cleans (REGION_SIZE * n_cpu) 0 n_read_clean }
      if s.ret < 0 then some (err_rec4 s)
      else do
        let (failed, s) ← (← run (measurePass page_size n_cpu e n_read) fuel (0, s))
        if failed then return err_rec4 s else recordFile page_size e fuel s

def record_measures (page_size n_cpu : Nat) (e : RecordEnv) (n_read : UInt64) (fuel : Nat) (daemon_ptr : DaemonTrace) :
    Option RecordState :=
  let s := (RecordState.start daemon_ptr).daemon_create_sparse_file e
  if s.ret < 0 then some (err_rec1 s)
  else do
    let (ret, daemon) ← sparse_first_row e.mmap e.munmap s.daemon
    let s := { s with ret, daemon }
    if s.ret < 0 then return err_rec2 s else recordDevice page_size n_cpu e n_read fuel s

/-- What has been opened or allocated is given back once, and nothing else is. -/
def Balanced (log : List ResEvent) : Prop :=
  ∀ res, log.filter (fun ev => ev.res = res) = [] ∨ log.filter (fun ev => ev.res = res) = [.get res, .put res]

/-- `main` makes EXIT_SUCCESS of a result that is not negative. -/
structure Reports (n_read : UInt64) (r : RecordState) : Prop where
  recorded : 0 ≤ r.ret → r.saves = List.replicate n_read.toNat 0 ∧ r.copied = some 0
  released : Balanced r.log

/-! ## What has to go right -/

/-- How often the loop is passed: an `int` is no more than 2^31 - 1, and after that negative. -/
def passes (n_read : UInt64) : Nat :=
  if n_read.toNat ≤ 2 ^ 31 then n_read.toNat
  else if n_read.toNat ≤ 2 ^ 64 - 2 ^ 31 then 2 ^ 31
  else n_read.toNat + 2 ^ 32 - 2 ^ 64

/-- The sparse file is made, and has its header line. -/
structure RecordEnv.Heads (e : RecordEnv) (daemon_ptr : DaemonTrace) : Prop where
  opened : e.open_sp = true
  lseek : e.lseek_end = true
  size : 0 ≤ s32 (lseekEnd 0 (s64 daemon_ptr.size_max))
  written : e.write_sp = true
  mapped : e.mmap = true
  unmapped : e.munmap = true

def headed (daemon_ptr : DaemonTrace) : DaemonTrace :=
  { daemon_ptr with sp := image FIRST_ROW, offset_map := FIRST_ROW.length }

def sparseLength (daemon_ptr : DaemonTrace) : Nat := (lseekEnd 0 (s64 daemon_ptr.size_max)).toNat + 1

/-- The buffers of the driver are read empty, and all calls of `save_measure` succeed. -/
structure RecordEnv.Measures (e : RecordEnv) (page_size n_cpu : Nat) (n_read : UInt64) (daemon_ptr d : DaemonTrace) : Prop where
  cleaned : ∀ i < n_read_clean, e.cleans i = REGION_SIZE * n_cpu
  saved : exec (saved page_size n_cpu) (headed daemon_ptr) ((List.range (passes n_read)).map e.saves) = some d

/-- What must not go wrong, where the steps before it have gone right. -/
structure RecordEnv.Careful (e : RecordEnv) (page_size n_cpu : Nat) (n_read : UInt64) (daemon_ptr : DaemonTrace) : Prop where
  region : e.Heads daemon_ptr → e.region = true
  device : e.Heads daemon_ptr → e.region = true → e.open_dev = true
  lseek : e.Heads daemon_ptr → e.region = true → e.open_dev = true → ∀ d, e.Measures page_size n_cpu n_read daemon_ptr d →
    e.open_fl = true → e.lseek_set = true
  copied : e.Heads daemon_ptr → e.region = true → e.open_dev = true → ∀ d, e.Measures page_size n_cpu n_read daemon_ptr d →
    e.open_fl = true → e.lseek_set = true → ∀ fuel ret c, copy_normal_file page_size e.copy
      ((List.range (sparseLength daemon_ptr)).map d.sp) d.offset_map fuel = some (ret, c) → 0 ≤ ret →
    n_read.toNat ≤ 2 ^ 31 ∧ (e.copy.malloc = true ∨ e.copy.ret ≤ 0)

/-! ## The loop -/

section

variable {page_size n_cpu : Nat} {e : RecordEnv} {n_read : UInt64}

theorem passes_cases (n_read : UInt64) : (n_read.toNat ≤ 2 ^ 31 ∧ passes n_read = n_read.toNat) ∨
    (2 ^ 31 < n_read.toNat ∧ n_read.toNat ≤ 2 ^ 64 - 2 ^ 31 ∧ passes n_read = 2 ^ 31) ∨
    (2 ^ 64 - 2 ^ 31 < n_read.toNat ∧ passes n_read = n_read.toNat + 2 ^ 32 - 2 ^ 64) := by
  unfold passes
  by_cases hint : n_read.toNat ≤ 2 ^ 31
  · exact .inl ⟨hint, if_pos hint⟩
  · rw [if_neg hint]
    by_cases hlong : n_read.toNat ≤ 2 ^ 64 - 2 ^ 31
    · exact .inr (.inl ⟨by omega, hlong, if_pos hlong⟩)
    · exact .inr (.inr ⟨by omega, if_neg hlong⟩)

theorem passes_eq_iff (n_read : UInt64) : passes n_read = n_read.toNat ↔ n_read.toNat ≤ 2 ^ 31 := by
  have hlt := n_read.toNat_lt
  rcases passes_cases n_read with ⟨hle, heq⟩ | ⟨hgt, -, heq⟩ | ⟨hgt, heq⟩ <;> omega

/-- An `int` that was incremented so often, as an `unsigned long`. -/
theorem u64_s32_eq {j : Nat} (hj : j < 2 ^ 32) : u64 (s32 j) = if j < 2 ^ 31 then j else j + 2 ^ 64 - 2 ^ 32 := by
  have hint : s32 j = if j < 2 ^ 31 then (j : Int) else j - 2 ^ 32 := by
    rw [s32, u32_of_lt hj]
  rw [hint]
  unfold u64
  split <;> omega

/-- The comparison holds for the first passes, and not for the one after them. -/
theorem guard_iff {j : Nat} (hj : j ≤ passes n_read) : u64 (s32 j) < n_read.toNat ↔ j < passes n_read := by
  have hlt := n_read.toNat_lt
  rcases passes_cases n_read with ⟨hle, heq⟩ | ⟨hgt, hle, heq⟩ | ⟨hgt, heq⟩
  all_goals
    rw [heq] at hj ⊢
    rw [u64_s32_eq (by omega)]
    split <;> omega

theorem save_measure_ret {c : SaveCall} {d d' : DaemonTrace} {ret : Int}
    (h : c.save_measure page_size n_cpu d = some (ret, d')) (hret : ¬ ret < 0) : ret = 0 := by
  have hnone : ∀ {x : Int}, x < 0 → x ≠ ret := fun hx heq => hret (heq ▸ hx)
  have hfault := hnone (x := -EFAULT) (by decide)
  have hinval := hnone (x := -EINVAL) (by decide)
  have hmap := hnone (x := -1) (by decide)
  unfold SaveCall.save_measure at h
  split at h
  · simp [hfault] at h
  · dsimp only at h
    split at h
    · split at h
      · simp [hmap] at h
      · obtain ⟨d'', -, h⟩ := Option.map_eq_some_iff.1 h
        split at h
        · simp [hinval] at h
        · split at h <;> simp_all
    · split at h <;> simp_all

/-- The state after `j` calls that succeed. -/
def RecordState.measured (s : RecordState) (d : DaemonTrace) (j : Nat) : RecordState :=
  { s with daemon := d, saves := List.replicate j 0 }

/-- What the loop is left with, as far as it is not cut short by its fuel. -/
def LoopEnd (page_size n_cpu : Nat) (e : RecordEnv) (n_read : UInt64) (s : RecordState) (r : Option (Bool × RecordState)) : Prop :=
  r = none ∨ (∃ s', r = some (true, s') ∧ s'.ret < 0 ∧ s'.log = s.log) ∨
    ∃ d, exec (saved page_size n_cpu) s.daemon ((List.range (passes n_read)).map e.saves) = some d ∧
      r = some (false, s.measured d (passes n_read))

/-- The loop has been passed `j` times, and all calls have succeeded. -/
def LoopAt (page_size n_cpu : Nat) (e : RecordEnv) (n_read : UInt64) (s : RecordState) (j : Nat) (p : Int × RecordState) : Prop :=
  j ≤ passes n_read ∧ ∃ d, exec (saved page_size n_cpu) s.daemon ((List.range j).map e.saves) = some d ∧
    p = (s32 j, s.measured d j)

variable {s : RecordState}

theorem measurePass_call {d : DaemonTrace} {j : Nat} (hj : j < passes n_read) :
    measurePass page_size n_cpu e n_read (s32 j, s.measured d j) =
      match (e.saves j).save_measure page_size n_cpu d with
      | none => .inr none
      | some (ret, daemon) =>
        if ret < 0 then .inr (some (true, { s.measured daemon j with ret, saves := List.replicate j 0 ++ [ret] }))
        else .inl (s32 (j + 1 : Nat), { s.measured daemon j with ret, saves := List.replicate j 0 ++ [ret] }) := by
  have hnext : s32 (s32 j + 1) = s32 (j + 1 : Nat) := by rw [s32_add, Int.natCast_add, Int.natCast_one]
  unfold measurePass
  simp only [if_pos ((guard_iff (Nat.le_of_lt hj)).2 hj), RecordState.measured, List.length_replicate, hnext]

theorem measurePass_end (s : RecordState) :
    measurePass page_size n_cpu e n_read (s32 (passes n_read), s) = .inr (some (false, s)) := by
  have hguard : ¬ u64 (s32 (passes n_read)) < n_read.toNat := fun hu =>
    Nat.lt_irrefl _ ((guard_iff (Nat.le_refl _)).1 hu)
  simp only [measurePass, if_neg hguard]

theorem LoopAt.step (hs : s.ret = 0) {j : Nat} {p p' : Int × RecordState} (h : LoopAt page_size n_cpu e n_read s j p)
    (hpass : measurePass page_size n_cpu e n_read p = .inl p') : LoopAt page_size n_cpu e n_read s (j + 1) p' := by
  obtain ⟨hj, d, hexec, rfl⟩ := h
  rcases Nat.eq_or_lt_of_le hj with rfl | hlt
  · rw [measurePass_end] at hpass
    cases hpass
  · rw [measurePass_call hlt] at hpass
    split at hpass
    next => cases hpass
    next ret daemon hcall =>
      split at hpass
      next => cases hpass
      next hret =>
        obtain rfl := Sum.inl.inj hpass
        obtain rfl := save_measure_ret hcall hret
        refine ⟨hlt, daemon, ?_, ?_⟩
        · rw [List.range_succ, List.map_append, List.map_singleton]
          exact exec_concat.2 ⟨d, hexec, saved_eq.2 hcall⟩
        · simp [RecordState.measured, List.replicate_succ', hs]

theorem LoopAt.done {j : Nat} {p : Int × RecordState} {r : Option (Bool × RecordState)}
    (h : LoopAt page_size n_cpu e n_read s j p) (hpass : measurePass page_size n_cpu e n_read p = .inr r) :
    LoopEnd page_size n_cpu e n_read s r := by
  obtain ⟨hj, d, hexec, rfl⟩ := h
  rcases Nat.eq_or_lt_of_le hj with rfl | hlt
  · rw [measurePass_end] at hpass
    exact .inr (.inr ⟨d, hexec, (Sum.inr.inj hpass).symm⟩)
  · rw [measurePass_call hlt] at hpass
    split at hpass
    next => exact .inl (Sum.inr.inj hpass).symm
    next ret daemon hcall =>
      split at hpass
      next hret => exact .inr (.inl ⟨_, (Sum.inr.inj hpass).symm, hret, rfl⟩)
      next => cases hpass

theorem measured_zero (hs : s.saves = []) : s.measured s.daemon 0 = s := by
  obtain ⟨_, _, _, _, _, _, _⟩ := s
  obtain rfl : _ = [] := hs
  rfl

theorem loop_ends (hs : s.ret = 0) (hsaves : s.saves = []) {fuel : Nat} {r : Option (Bool × RecordState)}
    (h : run (measurePass page_size n_cpu e n_read) fuel (0, s) = some r) : LoopEnd page_size n_cpu e n_read s r := by
  refine run_inv (I := fun p => ∃ j, LoopAt page_size n_cpu e n_read s j p) ?_ ?_ ?_ h
  · rintro p p' ⟨j, hj⟩ hpass
    exact ⟨j + 1, hj.step hs hpass⟩
  · rintro p r ⟨j, hj⟩ hpass
    exact hj.done hpass
  · exact ⟨0, Nat.zero_le _, s.daemon, rfl, by rw [measured_zero hsaves]; rfl⟩

theorem loop_reaches (hs : s.ret = 0) (hsaves : s.saves = []) : ∀ {j : Nat} {d : DaemonTrace}, j ≤ passes n_read →
    exec (saved page_size n_cpu) s.daemon ((List.range j).map e.saves) = some d →
    after (measurePass page_size n_cpu e n_read) j (0, s) = some (s32 j, s.measured d j) := by
  intro j
  induction j with
  | zero =>
    intro d _ hexec
    cases hexec
    rw [measured_zero hsaves]
    rfl
  | succ j ih =>
    intro d hj hexec
    rw [List.range_succ, List.map_append, List.map_singleton] at hexec
    obtain ⟨t, ht, hcall⟩ := exec_concat.1 hexec
    rw [saved_eq] at hcall
    refine after_succ (ih (Nat.le_of_succ_le hj) ht) ?_
    rw [measurePass_call hj, hcall]
    simp [RecordState.measured, List.replicate_succ', hs]

theorem loop_returns (hs : s.ret = 0) (hsaves : s.saves = []) {d : DaemonTrace}
    (hexec : exec (saved page_size n_cpu) s.daemon ((List.range (passes n_read)).map e.saves) = some d) :
    ∃ fuel, run (measurePass page_size n_cpu e n_read) fuel (0, s) = some (some (false, s.measured d (passes n_read))) := by
  refine ⟨passes n_read + 1, ?_⟩
  rw [run_after (loop_reaches hs hsaves (Nat.le_refl _) hexec), run, measurePass_end]

/-! ## The steps behind the loop -/

theorem recordFile_of_le {fuel fuel' : Nat} {r : RecordState} (h : recordFile page_size e fuel s = some r)
    (hle : fuel ≤ fuel') : recordFile page_size e fuel' s = some r := by
  unfold recordFile at h ⊢
  split
  next hopen => rwa [if_pos hopen] at h
  next hopen =>
    rw [if_neg hopen] at h
    dsimp only at h ⊢
    split
    next hlseek => rwa [if_pos hlseek] at h
    next hlseek =>
      rw [if_neg hlseek] at h
      obtain ⟨⟨ret, c⟩, hcopy, h⟩ := Option.bind_eq_some_iff.1 h
      exact Option.bind_eq_some_iff.2 ⟨(ret, c), copy_of_le hcopy hle, h⟩

/-- The log of a call that has come to its loop. -/
def openLog : List ResEvent := [.get .fd_sp, .get .region, .get .fd_dev]

theorem balanced_nil : Balanced [] := fun _ => .inl rfl

theorem balanced_err_rec2 : Balanced [.get .fd_sp, .put .fd_sp] := by
  rintro (_ | _ | _ | _ | _) <;> decide

/-- From the label `err_rec4` on, all that the loop works with is given back. -/
theorem balanced_err_rec4 (hlog : s.log = openLog) : Balanced (err_rec4 s).log := by
  have heq : (err_rec4 s).log = openLog ++ [.put .fd_dev, .put .region, .put .fd_sp] := by
    simp [err_rec4, err_rec3, err_rec2, err_rec1, RecordState.put, hlog]
  rw [heq]
  rintro (_ | _ | _ | _ | _) <;> decide

/-- The events of the buffer of `copy_normal_file`. -/
def bufferLog (malloc : Bool) : List ResEvent := if malloc then [.get .buffer_file, .put .buffer_file] else []

theorem balanced_copied (malloc : Bool) :
    Balanced (openLog ++ [.get .fd_fl] ++ bufferLog malloc ++ [.put .fd_fl, .put .fd_dev, .put .region, .put .fd_sp]) := by
  cases malloc <;> rintro (_ | _ | _ | _ | _) <;> decide

/-- What `recordFile` returns after a copy. -/
theorem recordFile_copied (hopen : e.open_fl = true) (hlseek : e.lseek_set = true) {fuel : Nat} {ret : Int} {c : CopyState}
    (hcopy : copy_normal_file page_size e.copy ((List.range s.length).map s.daemon.sp) s.daemon.offset_map fuel =
      some (ret, c)) : ∃ r, recordFile page_size e fuel s = some r ∧ (0 ≤ r.ret ↔ 0 ≤ ret) ∧ r.saves = s.saves ∧
        r.copied = some ret ∧ r.fl = c.fl ∧ r.log = s.log ++ [.get .fd_fl] ++ bufferLog e.copy.malloc ++
          [.put .fd_fl, .put .fd_dev, .put .region, .put .fd_sp] := by
  have hbuffer : (if e.copy.malloc then ((s.get .fd_fl).get .buffer_file).put .buffer_file else s.get .fd_fl) =
      { s with log := s.log ++ [.get .fd_fl] ++ bufferLog e.copy.malloc } := by
    cases e.copy.malloc <;> simp [RecordState.get, RecordState.put, bufferLog]
  unfold recordFile
  rw [hopen, hlseek, if_neg (by decide)]
  dsimp only
  rw [if_neg (by decide), hbuffer]
  simp only [RecordState.get, hcopy, Option.bind_eq_bind, Option.bind_some]
  by_cases hret : ret < 0
  · rw [if_pos hret]
    refine ⟨_, rfl, Iff.rfl, rfl, rfl, rfl, ?_⟩
    simp [err_rec5, err_rec4, err_rec3, err_rec2, err_rec1, RecordState.put]
  · rw [if_neg hret]
    refine ⟨_, rfl, by simpa using hret, rfl, rfl, rfl, ?_⟩
    simp [RecordState.put]

/-- Where the loop has come to its end, the rest reports right exactly if the descriptor can
be set back, and a copy that is taken for one is one of all the calls. -/
theorem recordFile_reports_iff {k : Nat} (hlog : s.log = openLog) (hsaves : s.saves = List.replicate k 0) :
    (∀ fuel r, recordFile page_size e fuel s = some r → Reports n_read r) ↔
      (e.open_fl = true → e.lseek_set = true ∧ ∀ fuel ret c, copy_normal_file page_size e.copy
        ((List.range s.length).map s.daemon.sp) s.daemon.offset_map fuel = some (ret, c) → 0 ≤ ret →
        k = n_read.toNat ∧ ret = 0) := by
  constructor
  · intro h hopen
    cases hlseek : e.lseek_set with
    | false =>
      -- `err_rec4` does not close the regular file
      have hleak := (h 0 _ (by simp only [recordFile, hopen, hlseek]; rfl)).released .fd_fl
      simp [RecordState.get, RecordState.put, err_rec4, err_rec3, err_rec2, err_rec1, hlog, openLog, ResEvent.res] at hleak
    | true =>
      refine ⟨rfl, fun fuel ret c hcopy hret => ?_⟩
      obtain ⟨r, hrun, hok, hkept, hcopied, -⟩ := recordFile_copied hopen hlseek hcopy
      obtain ⟨hall, hzero⟩ := (h fuel r hrun).recorded (hok.2 hret)
      rw [hkept, hsaves] at hall
      rw [hcopied] at hzero
      exact ⟨by simpa using congrArg List.length hall, Option.some.inj hzero⟩
  · intro h fuel r hrun
    cases hopen : e.open_fl with
    | false =>
      simp only [recordFile, hopen, Bool.not_false, if_true, Option.some.injEq] at hrun
      subst hrun
      exact ⟨fun hret => absurd (show (0 : Int) ≤ -EINVAL from hret) (by decide), balanced_err_rec4 hlog⟩
    | true =>
      obtain ⟨hlseek, hall⟩ := h hopen
      simp only [recordFile, hopen, hlseek, Bool.not_true, Bool.false_eq_true, if_false] at hrun
      obtain ⟨⟨ret, c⟩, hcopy, -⟩ := Option.bind_eq_some_iff.1 hrun
      obtain ⟨r', hrun', hok, hkept, hcopied, -, hlog'⟩ := recordFile_copied hopen hlseek (s := s) hcopy
      have hsame : r = r' := by
        simp only [recordFile, hopen, hlseek, Bool.not_true, Bool.false_eq_true, if_false] at hrun'
        exact Option.some.inj (hrun.symm.trans hrun')
      subst hsame
      refine ⟨fun hret => ?_, ?_⟩
      · obtain ⟨rfl, rfl⟩ := hall fuel ret c hcopy (hok.1 hret)
        exact ⟨hkept.trans hsaves, hcopied⟩
      · rw [hlog', hlog]
        exact balanced_copied _

/-! ## The steps before the loop -/

variable {daemon_ptr : DaemonTrace}

/-- When no call of `lseek` fails, the function is the one of `SparseSize`. -/
theorem create_eq (hlseek : e.lseek_end = true) (s : RecordState) :
    ((s.daemon_create_sparse_file e).ret, (s.daemon_create_sparse_file e).daemon) =
      ((daemon_create_sparse_file e.open_sp e.write_sp s.daemon).1,
        (daemon_create_sparse_file e.open_sp e.write_sp s.daemon).2.1) := by
  unfold RecordState.daemon_create_sparse_file Trace.daemon_create_sparse_file
  rw [hlseek]
  cases e.open_sp with
  | false => rfl
  | true =>
    simp only [Bool.not_true, Bool.false_eq_true, if_false, if_true]
    split
    · rfl
    · cases e.write_sp <;> rfl

/-- The sparse file is made, or closed again if it was opened. -/
theorem create_cases (e : RecordEnv) (daemon_ptr : DaemonTrace) :
    (((RecordState.start daemon_ptr).daemon_create_sparse_file e).ret < 0 ∧
      Balanced ((RecordState.start daemon_ptr).daemon_create_sparse_file e).log ∧ ¬ e.Heads daemon_ptr) ∨
    (e.open_sp = true ∧ e.lseek_end = true ∧ 0 ≤ s32 (lseekEnd 0 (s64 daemon_ptr.size_max)) ∧ e.write_sp = true ∧
      (RecordState.start daemon_ptr).daemon_create_sparse_file e =
        ⟨0, { daemon_ptr with sp := fun _ => NUL }, sparseLength daemon_ptr, [], [.get .fd_sp], [], none⟩) := by
  have hneg : s32 (-1) < 0 := by decide
  unfold RecordState.daemon_create_sparse_file
  cases hopen : e.open_sp with
  | false =>
    refine .inl ⟨(by decide : (-1 : Int) < 0), balanced_nil, fun h => ?_⟩
    rw [h.opened] at hopen
    cases hopen
  | true =>
    simp only [Bool.not_true, Bool.false_eq_true, if_false]
    cases hlseek : e.lseek_end with
    | false =>
      simp only [Bool.false_eq_true, if_false]
      rw [if_pos hneg]
      refine .inl ⟨hneg, balanced_err_rec2, fun h => ?_⟩
      rw [h.lseek] at hlseek
      cases hlseek
    | true =>
      simp only [if_true]
      by_cases hsize : s32 (lseekEnd 0 (s64 daemon_ptr.size_max)) < 0
      · rw [if_pos (by exact hsize)]
        exact .inl ⟨hsize, balanced_err_rec2, fun h => absurd h.size (Int.not_le.2 hsize)⟩
      · rw [if_neg (by exact hsize)]
        cases hwrite : e.write_sp with
        | false =>
          refine .inl ⟨(by decide : (-1 : Int) < 0), balanced_err_rec2, fun h => ?_⟩
          rw [h.written] at hwrite
          cases hwrite
        | true =>
          refine .inr ⟨trivial, trivial, Int.not_lt.1 hsize, rfl, ?_⟩
          simp only [RecordState.start, RecordState.get, put_nul, sparseLength]
          rfl

theorem cleanReads_spec (cleans : Nat → Int) (size_r : Int) : ∀ n i : Nat,
    (cleanReads cleans size_r i n = 0 ∧ ∀ k < n, cleans (i + k) = size_r) ∨
      (cleanReads cleans size_r i n = -EFAULT ∧ ∃ k < n, cleans (i + k) ≠ size_r) := by
  intro n
  induction n with
  | zero => exact fun i => .inl ⟨rfl, fun k hk => absurd hk (Nat.not_lt_zero k)⟩
  | succ n ih =>
    intro i
    unfold cleanReads
    split
    next hfail => exact .inr ⟨rfl, 0, Nat.zero_lt_succ n, hfail⟩
    next hok =>
      rcases ih (i + 1) with ⟨hret, hall⟩ | ⟨hret, k, hk, hfail⟩
      · refine .inl ⟨hret, fun k hk => ?_⟩
        cases k with
        | zero => exact not_not.1 hok
        | succ k =>
          have := hall k (by omega)
          rwa [Nat.add_right_comm] at this
      · refine .inr ⟨hret, k + 1, by omega, ?_⟩
        rwa [Nat.add_right_comm] at hfail

/-- Where the header line is written. -/
def headedState (daemon_ptr : DaemonTrace) : RecordState :=
  ⟨0, headed daemon_ptr, sparseLength daemon_ptr, [], [.get .fd_sp], [], none⟩

/-- Where the loop begins. -/
def openState (daemon_ptr : DaemonTrace) : RecordState :=
  ⟨0, headed daemon_ptr, sparseLength daemon_ptr, [], openLog, [], none⟩

/-- With its memory and the device, a call fails and gives back what it has, or comes to the
regular file. -/
theorem recordDevice_some (hregion : e.region = true) (hdev : e.open_dev = true) {fuel : Nat} {r : RecordState}
    (hrun : recordDevice page_size n_cpu e n_read fuel (headedState daemon_ptr) = some r) :
    (r.ret < 0 ∧ Balanced r.log) ∨ ∃ d, e.Measures page_size n_cpu n_read daemon_ptr d ∧
      recordFile page_size e fuel ((openState daemon_ptr).measured d (passes n_read)) = some r := by
  unfold recordDevice at hrun
  simp only [hregion, hdev, Bool.not_true, Bool.false_eq_true, if_false] at hrun
  rcases cleanReads_spec e.cleans (REGION_SIZE * n_cpu) n_read_clean 0 with ⟨hret, hall⟩ | ⟨hret, -⟩
  · have hopen : { ((headedState daemon_ptr).get .region).get .fd_dev with ret := 0 } = openState daemon_ptr := rfl
    simp only [hret, hopen, Int.lt_irrefl, if_false] at hrun
    obtain ⟨res, hloop, hrun⟩ := Option.bind_eq_some_iff.1 hrun
    obtain ⟨⟨failed, s⟩, hres, hrun⟩ := Option.bind_eq_some_iff.1 hrun
    rcases loop_ends rfl rfl hloop with rfl | ⟨s', rfl, hneg, hlog⟩ | ⟨d, hd, rfl⟩
    · cases hres
    · cases hres
      obtain rfl := Option.some.inj hrun
      exact .inl ⟨hneg, balanced_err_rec4 hlog⟩
    · cases hres
      exact .inr ⟨d, ⟨fun k hk => by simpa using hall k hk, hd⟩, hrun⟩
  · -- a clean that fails is reported
    rw [hret, if_pos (by decide)] at hrun
    obtain rfl := Option.some.inj hrun
    exact .inl ⟨(by decide : -EFAULT < 0), balanced_err_rec4 rfl⟩

theorem recordDevice_reaches (hregion : e.region = true) (hdev : e.open_dev = true) {d : DaemonTrace}
    (hd : e.Measures page_size n_cpu n_read daemon_ptr d) {fuel : Nat} {r : RecordState}
    (hrun : recordFile page_size e fuel ((openState daemon_ptr).measured d (passes n_read)) = some r) :
    ∃ fuel', recordDevice page_size n_cpu e n_read fuel' (headedState daemon_ptr) = some r := by
  obtain ⟨fuel', hloop⟩ := loop_returns (s := openState daemon_ptr) rfl rfl hd.saved
  refine ⟨max fuel' fuel, ?_⟩
  have hclean : cleanReads e.cleans (REGION_SIZE * n_cpu) 0 n_read_clean = 0 := by
    rcases cleanReads_spec e.cleans (REGION_SIZE * n_cpu) n_read_clean 0 with ⟨hret, -⟩ | ⟨-, k, hk, hfail⟩
    · exact hret
    · rw [Nat.zero_add] at hfail
      exact absurd (hd.cleaned k hk) hfail
  have hopen : { ((headedState daemon_ptr).get .region).get .fd_dev with ret := 0 } = openState daemon_ptr := rfl
  unfold recordDevice
  simp only [hregion, hdev, hclean, hopen, Bool.not_true, Bool.false_eq_true, if_false, Int.lt_irrefl]
  rw [run_of_le hloop (Nat.le_max_left fuel' fuel)]
  exact recordFile_of_le hrun (Nat.le_max_right fuel' fuel)

theorem headed_reports_iff (page_size n_cpu : Nat) (e : RecordEnv) (n_read : UInt64) (daemon_ptr : DaemonTrace) :
    (∀ fuel r, recordDevice page_size n_cpu e n_read fuel (headedState daemon_ptr) = some r → Reports n_read r) ↔
      e.region = true ∧ e.open_dev = true ∧ ∀ d, e.Measures page_size n_cpu n_read daemon_ptr d → e.open_fl = true →
        e.lseek_set = true ∧ ∀ fuel ret c, copy_normal_file page_size e.copy
          ((List.range (sparseLength daemon_ptr)).map d.sp) d.offset_map fuel = some (ret, c) → 0 ≤ ret →
          passes n_read = n_read.toNat ∧ ret = 0 := by
  cases hregion : e.region with
  | false =>
    -- `ret` is 0 here, and nothing has been copied
    refine iff_of_false (fun h => ?_) (fun h => absurd h.1 (by decide))
    have hrun : recordDevice page_size n_cpu e n_read 0 (headedState daemon_ptr) =
        some (err_rec2 (headedState daemon_ptr)) := by
      rw [recordDevice, hregion]
      rfl
    exact absurd ((h 0 _ hrun).recorded (Int.le_refl 0)).2 (by simp [headedState, err_rec2, err_rec1, RecordState.put])
  | true =>
    cases hdev : e.open_dev with
    | false =>
      refine iff_of_false (fun h => ?_) (fun h => absurd h.2.1 (by decide))
      have hrun : recordDevice page_size n_cpu e n_read 0 (headedState daemon_ptr) =
          some (err_rec3 ((headedState daemon_ptr).get .region)) := by
        rw [recordDevice, hregion, hdev]
        rfl
      exact absurd ((h 0 _ hrun).recorded (Int.le_refl 0)).2
        (by simp [headedState, err_rec3, err_rec2, err_rec1, RecordState.put, RecordState.get])
    | true =>
      simp only [true_and]
      constructor
      · intro h d hd
        refine (recordFile_reports_iff (s := (openState daemon_ptr).measured d (passes n_read)) rfl rfl).1 ?_
        intro fuel r hrun
        obtain ⟨fuel', hrun'⟩ := recordDevice_reaches hregion hdev hd hrun
        exact h fuel' r hrun'
      · intro h fuel r hrun
        rcases recordDevice_some hregion hdev hrun with ⟨hneg, hbalanced⟩ | ⟨d, hd, hfile⟩
        · exact ⟨fun hret => absurd hneg (Int.not_lt.2 hret), hbalanced⟩
        · exact (recordFile_reports_iff (s := (openState daemon_ptr).measured d (passes n_read)) rfl rfl).2 (h d hd)
            fuel r hfile

theorem careful_iff (hheads : e.Heads daemon_ptr) : e.Careful page_size n_cpu n_read daemon_ptr ↔
    e.region = true ∧ e.open_dev = true ∧ ∀ d, e.Measures page_size n_cpu n_read daemon_ptr d → e.open_fl = true →
      e.lseek_set = true ∧ ∀ fuel ret c, copy_normal_file page_size e.copy
        ((List.range (sparseLength daemon_ptr)).map d.sp) d.offset_map fuel = some (ret, c) → 0 ≤ ret →
        passes n_read = n_read.toNat ∧ ret = 0 := by
  constructor
  · intro h
    have hregion := h.region hheads
    have hdev := h.device hheads hregion
    refine ⟨hregion, hdev, fun d hd hopen => ?_⟩
    have hlseek := h.lseek hheads hregion hdev d hd hopen
    refine ⟨hlseek, fun fuel ret c hcopy hret => ?_⟩
    rw [passes_eq_iff, copy_zero_iff hcopy hret]
    exact h.copied hheads hregion hdev d hd hopen hlseek fuel ret c hcopy hret
  · rintro ⟨hregion, hdev, hall⟩
    refine ⟨fun _ => hregion, fun _ _ => hdev, fun _ _ _ d hd hopen => (hall d hd hopen).1, ?_⟩
    intro _ _ _ d hd hopen _ fuel ret c hcopy hret
    rw [← passes_eq_iff, ← copy_zero_iff hcopy hret]
    exact (hall d hd hopen).2 fuel ret c hcopy hret

theorem sparse_first_row_maps {mmap munmap : Bool} {d d' : DaemonTrace} (hzero : d.sp = fun _ => NUL) {ret : Int}
    (h : sparse_first_row mmap munmap d = some (ret, d')) (hret : ¬ ret < 0) : mmap = true ∧ munmap = true := by
  have hinval : (-EINVAL : Int) < 0 := by decide
  rw [sparse_first_row_eq hzero] at h
  cases mmap with
  | false => exact absurd ((Prod.mk.inj (Option.some.inj h)).1 ▸ hinval) hret
  | true =>
    cases munmap with
    | false => exact absurd ((Prod.mk.inj (Option.some.inj h)).1 ▸ hinval) hret
    | true => exact ⟨rfl, rfl⟩

theorem record_measures_headed (hheads : e.Heads daemon_ptr) (fuel : Nat) :
    record_measures page_size n_cpu e n_read fuel daemon_ptr =
      recordDevice page_size n_cpu e n_read fuel (headedState daemon_ptr) := by
  rcases create_cases e daemon_ptr with ⟨-, -, hnot⟩ | ⟨-, -, -, -, hs⟩
  · exact absurd hheads hnot
  unfold record_measures headedState headed
  rw [hs]
  dsimp only
  rw [if_neg (Int.lt_irrefl 0), sparse_first_row_eq rfl, hheads.mapped, hheads.unmapped]
  simp only [if_true, Option.bind_eq_bind, Option.bind_some, Int.lt_irrefl, if_false]

/-- Without the header line, a call fails and gives back what it has. -/
theorem not_headed_fails (hheads : ¬ e.Heads daemon_ptr) {fuel : Nat} {r : RecordState}
    (hrun : record_measures page_size n_cpu e n_read fuel daemon_ptr = some r) : r.ret < 0 ∧ Balanced r.log := by
  unfold record_measures at hrun
  rcases create_cases e daemon_ptr with ⟨hneg, hbalanced, -⟩ | ⟨hopen, hlseek, hsize, hwrite, hs⟩
  · dsimp only at hrun
    rw [if_pos hneg] at hrun
    obtain rfl := Option.some.inj hrun
    exact ⟨hneg, hbalanced⟩
  · rw [hs] at hrun
    dsimp only at hrun
    rw [if_neg (Int.lt_irrefl 0)] at hrun
    obtain ⟨⟨ret, d⟩, hret, hrun⟩ := Option.bind_eq_some_iff.1 hrun
    have hneg : ret < 0 := by
      by_contra hzero
      obtain ⟨hmap, hunmap⟩ := sparse_first_row_maps rfl hret hzero
      exact hheads ⟨hopen, hlseek, hsize, hwrite, hmap, hunmap⟩
    dsimp only at hrun
    rw [if_pos hneg] at hrun
    obtain rfl := Option.some.inj hrun
    exact ⟨hneg, balanced_err_rec2⟩

/-- A result that is not negative means that all calls of `save_measure` and the copy have
succeeded, and what was opened has been closed, exactly on these outcomes. -/
theorem reports_iff (page_size n_cpu : Nat) (e : RecordEnv) (n_read : UInt64) (daemon_ptr : DaemonTrace) :
    (∀ fuel r, record_measures page_size n_cpu e n_read fuel daemon_ptr = some r → Reports n_read r) ↔
      e.Careful page_size n_cpu n_read daemon_ptr := by
  by_cases hheads : e.Heads daemon_ptr
  · simp only [record_measures_headed hheads]
    exact (headed_reports_iff page_size n_cpu e n_read daemon_ptr).trans (careful_iff hheads).symm
  · refine iff_of_true (fun fuel r hrun => ?_)
      ⟨fun h => absurd h hheads, fun h => absurd h hheads, fun h => absurd h hheads, fun h => absurd h hheads⟩
    obtain ⟨hneg, hbalanced⟩ := not_headed_fails hheads hrun
    exact ⟨fun hret => absurd hneg (Int.not_lt.2 hret), hbalanced⟩

end

/-- No call fails. -/
def calm : RecordEnv where
  open_sp := true
  lseek_end := true
  write_sp := true
  mmap := true
  munmap := true
  region := true
  open_dev := true
  cleans _ := REGION_SIZE
  saves _ := ⟨some (fullRegion 1), true, true, true⟩
  open_fl := true
  lseek_set := true
  copy := shortReads

/-- Without memory for the regions a measurement of one read comes to nothing, and is
reported as a success. When the sparse file cannot be set back, the regular one is left open. -/
theorem failures_slip_through :
    (∃ r, record_measures 4096 1 { calm with region := false } 1 0 emptyFile = some r ∧ r.ret = 0 ∧ r.saves = [] ∧
      ¬ Reports 1 r) ∧
    ∃ r, record_measures 4096 1 { calm with lseek_set := false } 0 1 emptyFile = some r ∧
      r.log.filter (fun ev => ev.res = .fd_fl) = [.get .fd_fl] ∧ ¬ Reports 0 r := by
  constructor
  · refine ⟨_, record_measures_headed ⟨rfl, rfl, by decide, rfl, rfl, rfl⟩ 0, rfl, rfl, fun h => ?_⟩
    exact absurd (h.recorded (Int.le_refl 0)).2 (by decide)
  · refine ⟨_, record_measures_headed ⟨rfl, rfl, by decide, rfl, rfl, rfl⟩ 1, rfl, fun h => ?_⟩
    exact absurd (h.released .fd_fl) (by decide)

end Dmacftu.Trace
