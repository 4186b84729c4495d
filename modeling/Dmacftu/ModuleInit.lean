import Dmacftu.Band
import Dmacftu.Cache
import Dmacftu.FreshStart
import Dmacftu.Lib.Ledger
import Dmacftu.Msg
/-!
# Loading the benchmark modules

`micro_benchmark_init` of the three modules: it starts the policy that is
measured, looks at the boot memory, allocates the data of each minor and
registers the driver. Each function undoes what it did itself when a later one of
its steps fails, and `micro_benchmark_init` frees the data, but no failure stops
the policy. `load_clean_iff` says when a failed load therefore leaves something
behind.

Cache and Band start the policy before they look at the boot memory, Msg after
it. Cache fills the boot memory in between, which neither takes nor gives
anything back.
-/
open Lib.CInt Lib.Ledger Lib.Runs

namespace Dmacftu.ModuleInit

open Dmaengine Policy

def NANOSEC_HIGH : Int := 30000
def NANOSEC_LOW : Int := 60000

/-- What a module takes for itself, under the variables that keep it; `data i` is
what `init_micro_bench` allocates. -/
inductive Res where
  | data (i : Nat)
  | base_dev
  | micro_bench_class
  | c_dev (i : Nat)
  | device (i : Nat)
deriving DecidableEq, Repr

/-- The outcomes of the steps: a negative number is an error. -/
structure Steps where
  boot_mem_microBenchmark : Nat
  size_boot_mem_mb : Nat
  kzalloc : Nat → Bool
  alloc_chrdev_region : Int
  class_create : Int
  cdev_add : Nat → Int
  device_create : Nat → Int

/-! ## The data of the minors -/

def init_micro_bench (e : Steps) (i : Nat) : Int := if e.kzalloc i then 0 else -ENOMEM

/-- As it is written, for `MB_MINOR` minors. -/
def init_all_micro_bench (e : Steps) (held : List Res) : Option (Int × List Res) :=
  if init_micro_bench e 0 < 0 then some (-ENOMEM, held)
  else
    let held := .data 0 :: held
    if init_micro_bench e 1 < 0 then (putAll [.data 0] held).map (-ENOMEM, ·)
    else
      let held := .data 1 :: held
      if init_micro_bench e 2 < 0 then (putAll [.data 1, .data 0] held).map (-ENOMEM, ·)
      else
        let held := .data 2 :: held
        if init_micro_bench e 3 < 0 then (putAll [.data 2, .data 1, .data 0] held).map (-ENOMEM, ·)
        else some (0, .data 3 :: held)

/-- The same for any number of minors. -/
def initMinors (minors : Nat) (e : Steps) (held : List Res) : Option (Int × List Res) :=
  getAll .data (init_micro_bench e) 0 minors 0 held

theorem init_all_micro_bench_eq (e : Steps) (held : List Res) :
    init_all_micro_bench e held = initMinors Band.MB_MINOR e held := by
  have hcode : ∀ i, init_micro_bench e i < 0 → init_micro_bench e i = -ENOMEM := by
    intro i hi
    unfold init_micro_bench at hi ⊢
    split at hi
    · cases hi
    next h => rw [if_neg h]
  have hlast : ¬ init_micro_bench e 3 < 0 → init_micro_bench e 3 = 0 := by
    intro hi
    unfold init_micro_bench at hi ⊢
    split at hi
    next h => rw [if_pos h]
    · exact absurd (by decide) hi
  unfold init_all_micro_bench initMinors Band.MB_MINOR
  by_cases h0 : init_micro_bench e 0 < 0
  · rw [if_pos h0, getAll, if_pos h0, hcode 0 h0]
    rfl
  rw [if_neg h0, getAll, if_neg h0]
  dsimp only
  by_cases h1 : init_micro_bench e 1 < 0
  · rw [if_pos h1, getAll, if_pos h1, hcode 1 h1]
    rfl
  rw [if_neg h1, getAll, if_neg h1]
  by_cases h2 : init_micro_bench e 2 < 0
  · rw [if_pos h2, getAll, if_pos h2, hcode 2 h2]
    rfl
  rw [if_neg h2, getAll, if_neg h2]
  by_cases h3 : init_micro_bench e 3 < 0
  · rw [if_pos h3, getAll, if_pos h3, hcode 3 h3]
    rfl
  rw [if_neg h3, getAll, if_neg h3, getAll, hlast h3]

/-! ## The driver -/

def mb_driver_add_chardev (size : Nat) (e : Steps) (held : List Res) : Option (Int × List Res) :=
  getAll .c_dev e.cdev_add 0 size 0 held

def mb_device_create (size : Nat) (e : Steps) (held : List Res) : Option (Int × List Res) :=
  getAll .device e.device_create 0 size 0 held

def all_mb_driver_del_chardev (size : Nat) (held : List Res) : Option (List Res) :=
  putAll ((List.range size).map .c_dev) held

def micro_bench_register_driver (minors : Nat) (e : Steps) (held : List Res) : Option (Int × List Res) :=
  if e.alloc_chrdev_region < 0 then some (e.alloc_chrdev_region, held)
  else
    let held := .base_dev :: held
    if e.class_create < 0 then (put .base_dev held).map (e.class_create, ·)
    else do
      let (ret, held) ← mb_driver_add_chardev minors e (.micro_bench_class :: held)
      if ret < 0 then (putAll [.micro_bench_class, .base_dev] held).map (ret, ·)
      else
        let (ret, held) ← mb_device_create minors e held
        if ret < 0 then
          let held ← all_mb_driver_del_chardev minors held
          (putAll [.micro_bench_class, .base_dev] held).map (ret, ·)
        else some (0, held)

/-- `clean_mb_data` of each minor, in Msg `clean_mb_results`. -/
def cleanMinors (minors : Nat) (held : List Res) : Option (List Res) := putAll ((List.range minors).map .data) held

/-- What the three modules end with. -/
def initDriver (minors : Nat) (e : Steps) (held : List Res) : Option (Int × List Res) := do
  let (ret, held) ← initMinors minors e held
  if ret ≠ 0 then some (-ENOMEM, held)
  else
    let (ret, held) ← micro_bench_register_driver minors e held
    if ret = 0 then some (0, held) else (cleanMinors minors held).map (ret, ·)

def RegisterFails (minors : Nat) (e : Steps) : Prop :=
  e.alloc_chrdev_region < 0 ∨ e.class_create < 0 ∨ (∃ i < minors, e.cdev_add i < 0) ∨
    ∃ i < minors, e.device_create i < 0

/-- The registration takes the driver's resources, or fails and gives back what it took. -/
theorem micro_bench_register_driver_spec (minors : Nat) (e : Steps) (held : List Res) : ∃ ret held',
    micro_bench_register_driver minors e held = some (ret, held') ∧
      (ret < 0 ∧ RegisterFails minors e ∧ held'.Perm held ∨ ret = 0 ∧ ¬ RegisterFails minors e) := by
  unfold micro_bench_register_driver
  by_cases hregion : e.alloc_chrdev_region < 0
  · exact ⟨_, held, if_pos hregion, .inl ⟨hregion, .inl hregion, .refl _⟩⟩
  rw [if_neg hregion]
  by_cases hclass : e.class_create < 0
  · refine ⟨_, held, ?_, .inl ⟨hclass, .inr (.inl hclass), .refl _⟩⟩
    simp [hclass, put]
  simp only [if_neg hclass]
  obtain ⟨ret, h₁, hadd, -, hcase⟩ := @getAll_spec Res _ .c_dev e.cdev_add
    (.micro_bench_class :: .base_dev :: held) minors 0 0 _ (.refl _) (Int.le_refl 0)
  rw [Nat.zero_add] at hcase
  have hadd : mb_driver_add_chardev minors e (.micro_bench_class :: .base_dev :: held) = some (ret, h₁) := hadd
  -- a device that is refused: the ones before it were taken back by the loop itself
  rcases hcase with ⟨hlt, hfail, hperm₁⟩ | ⟨hge, hall, hperm₁⟩
  · obtain ⟨held', hput, hperm⟩ := @putAll_perm Res _ [.micro_bench_class, .base_dev] h₁ held hperm₁
    exact ⟨ret, held', by simp [hadd, hlt, hput], .inl ⟨hlt, .inr (.inr (.inl hfail)), hperm⟩⟩
  obtain ⟨ret₂, h₂, hcreate, -, hcase₂⟩ := @getAll_spec Res _ .device e.device_create h₁ minors 0 0 _ (.refl _)
    (Int.le_refl 0)
  rw [Nat.zero_add] at hcase₂
  have hcreate : mb_device_create minors e h₁ = some (ret₂, h₂) := hcreate
  rcases hcase₂ with ⟨hlt₂, hfail₂, hperm₂⟩ | ⟨hge₂, hall₂, -⟩
  · obtain ⟨h₃, hdel, hperm₃⟩ := putAll_perm (hperm₂.trans hperm₁)
    obtain ⟨held', hput, hperm⟩ := @putAll_perm Res _ [.micro_bench_class, .base_dev] h₃ held hperm₃
    have hdel : all_mb_driver_del_chardev minors h₂ = some h₃ := hdel
    exact ⟨ret₂, held', by simp [hadd, Int.not_lt.2 hge, hcreate, hlt₂, hdel, hput],
      .inl ⟨hlt₂, .inr (.inr (.inr hfail₂)), hperm⟩⟩
  · refine ⟨0, h₂, by simp [hadd, Int.not_lt.2 hge, hcreate, Int.not_lt.2 hge₂], .inr ⟨rfl, ?_⟩⟩
    rintro (h | h | ⟨i, hi, h⟩ | ⟨i, hi, h⟩)
    · exact hregion h
    · exact hclass h
    · exact absurd (hall i hi (Nat.zero_le i)) (Int.not_le.2 h)
    · exact absurd (hall₂ i hi (Nat.zero_le i)) (Int.not_le.2 h)

/-- A step behind the start of the policy and the look at the boot memory fails. -/
def DriverFails (minors : Nat) (e : Steps) : Prop := (∃ i < minors, e.kzalloc i = false) ∨ RegisterFails minors e

/-- A module that fails to load holds nothing for itself. -/
theorem initDriver_spec (minors : Nat) (e : Steps) : ∃ ret held, initDriver minors e [] = some (ret, held) ∧
    (ret < 0 ↔ DriverFails minors e) ∧ (ret < 0 → held = []) := by
  have hcode : ∀ i, init_micro_bench e i < 0 ↔ e.kzalloc i = false := by
    intro i
    unfold init_micro_bench
    cases e.kzalloc i <;> decide
  obtain ⟨ret, h₁, hinit, hfrom, hcase⟩ := @getAll_spec Res _ .data (init_micro_bench e) [] minors 0 0 [] (.refl _)
    (Int.le_refl 0)
  rw [Nat.zero_add] at hcase
  have hinit : initMinors minors e [] = some (ret, h₁) := hinit
  rcases hcase with ⟨hlt, ⟨i, hi, hfail⟩, hperm⟩ | ⟨hge, hall, hperm₁⟩
  · refine ⟨-ENOMEM, h₁, by simp [initDriver, hinit, Int.ne_of_lt hlt], ?_, fun _ => hperm.eq_nil⟩
    exact iff_of_true (by decide) (.inl ⟨i, hi, (hcode i).1 hfail⟩)
  have hret : ret = 0 := by
    rcases hfrom with rfl | ⟨j, rfl⟩
    · rfl
    · have hj : ¬ e.kzalloc j = false := fun h => absurd ((hcode j).2 h) (Int.not_lt.2 hge)
      simp [init_micro_bench, hj]
  have hdata : ¬ ∃ i < minors, e.kzalloc i = false := by
    rintro ⟨i, hi, h⟩
    exact absurd (hall i hi (Nat.zero_le i)) (Int.not_le.2 ((hcode i).2 h))
  obtain ⟨ret₂, h₂, hreg, ⟨hlt, hfails, hperm₂⟩ | ⟨rfl, hok⟩⟩ := micro_bench_register_driver_spec minors e h₁
  · obtain ⟨h₃, hclean, hperm₃⟩ := putAll_perm (hperm₂.trans hperm₁)
    have hclean : cleanMinors minors h₂ = some h₃ := hclean
    refine ⟨ret₂, h₃, by simp [initDriver, hinit, hret, hreg, Int.ne_of_lt hlt, hclean], ?_, fun _ => hperm₃.eq_nil⟩
    exact iff_of_true hlt (.inr hfails)
  · refine ⟨0, h₂, by simp [initDriver, hinit, hret, hreg], ?_, fun h => absurd h (Int.lt_irrefl 0)⟩
    exact iff_of_false (Int.lt_irrefl 0) (not_or.2 ⟨hdata, hok⟩)

/-! ## The policy -/

/-- What `type_measure` selects. -/
inductive TypeMeasure where
  | cpu
  | exclusive
  | shared
  | priority
  | error
deriving DecidableEq, Repr

/-- The switch over `type_measure`. -/
def startMeasure (b : Board) (minors : Nat) : TypeMeasure → Policy.State → Option (Int × Policy.State)
  | .cpu, s => some (0, s)
  | .exclusive, s => (start_policy_excl b s).map fun (s, ret) => (if ret < 0 then -EPERM else 0, s)
  | .shared, s => some (0, start_policy_sh b s)
  | .priority, s =>
    (start_policy_prio2 b NANOSEC_HIGH NANOSEC_LOW s).map fun (s, ret) => (if ret < minors then - EIO else 0, s)
  | .error, s => some (-EPERM, s)

/-- The start of the policy takes channels, or counts as one. -/
def Starts (b : Board) (s : Policy.State) : TypeMeasure → Prop
  | .exclusive => (start_policy_excl b s).map Prod.snd = some 0 ∧ b.present ≠ []
  | .shared => True
  | .priority => (start_policy_prio2 b NANOSEC_HIGH NANOSEC_LOW s).map Prod.snd = some ( DMA_MAX_CHAN_PRIO : Int)
  | _ => False

/-- There are more minors than the priority policy has channels. -/
def FewChannels (minors : Nat) (m : TypeMeasure) : Prop := m = .priority ∧ DMA_MAX_CHAN_PRIO < minors

variable {b : Board} {n : Int} {s : Policy.State}

/-- A start that fails leaves the policy as it was, except that the priority policy
stays started if it has fewer channels than there are minors. -/
theorem startMeasure_spec (hnd : b.present.Nodup) (hb : Books b n (fun _ => False) s) (hs : NotStarted b n s)
    (minors : Nat) (m : TypeMeasure) : ∃ ret s', startMeasure b minors m s = some (ret, s') ∧
      (NotStarted b n s' ↔ ¬ Starts b s m) ∧ (Starts b s m → (ret < 0 ↔ FewChannels minors m)) := by
  cases m with
  | cpu => exact ⟨0, s, rfl, iff_of_true hs id, False.elim⟩
  | error => exact ⟨-EPERM, s, rfl, iff_of_true hs id, False.elim⟩
  | shared =>
    refine ⟨0, start_policy_sh b s, rfl, iff_of_false ?_ (by simp [Starts]), fun _ => by simp [FewChannels]⟩
    -- the start took a reference
    intro hs'
    obtain ⟨held, hcore⟩ := hb.core
    have hrefs := (hcore.owns.get False.elim).refs_eq.symm.trans hs'.refs
    have := congrArg Prod.fst hrefs
    simp at this
  | exclusive =>
    obtain ⟨s', ret, hr, hret, hiff⟩ := start_policy_excl_notStarted hnd hb hs
    refine ⟨_, s', by rw [startMeasure, hr, Option.map_some], ?_, ?_⟩
    · rw [hiff, Starts, hr]
      rcases hret with rfl | rfl <;> simp
    · rintro ⟨h0, -⟩
      have h0 : ret = 0 := by simpa [hr] using h0
      simp [h0, FewChannels]
  | priority =>
    obtain ⟨s', ret, hr, hret, hiff⟩ := start_policy_prio2_notStarted hb hs NANOSEC_HIGH NANOSEC_LOW
    refine ⟨_, s', by rw [startMeasure, hr, Option.map_some], ?_, ?_⟩
    · rw [hiff, Starts, hr]
      rcases hret with rfl | rfl <;> simp [ DMA_MAX_CHAN_PRIO]
    · intro h4
      have h4 : ret = DMA_MAX_CHAN_PRIO := by simpa [Starts, hr] using h4
      rw [h4, FewChannels]
      split <;> simp_all [ EIO]

/-! ## The modules -/

def NoBootMem (e : Steps) : Prop := e.boot_mem_microBenchmark = 0 ∨ e.size_boot_mem_mb ≤ 0

instance (e : Steps) : Decidable (NoBootMem e) := inferInstanceAs (Decidable (_ ∨ _))

/-- The policy is started before the look at the boot memory. -/
def policyFirst (minors : Nat) (print_info : Policy.State → Option (Int × Policy.State)) (e : Steps)
    (s : Policy.State) : Option (Int × Policy.State × List Res) := do
  let (ret, s) ← print_info s
  if ret < 0 then some (-EINVAL, s, [])
  else if NoBootMem e then some (-ENOMEM, s, [])
  else (initDriver minors e []).map fun (ret, held) => (ret, s, held)

/-- Init comes back, having released nothing twice, and if it failed, the policy is
not started and nothing is held. -/
def FailsClean (b : Board) (n : Int) (r : Option (Int × Policy.State × List Res)) : Prop :=
  ∃ ret s held, r = some (ret, s, held) ∧ (ret < 0 → NotStarted b n s ∧ held = [])

theorem failsClean_some {ret : Int} {held : List Res} :
    FailsClean b n (some (ret, s, held)) ↔ (ret < 0 → NotStarted b n s ∧ held = []) := by
  constructor
  · rintro ⟨_, _, _, h, hclean⟩
    cases h
    exact hclean
  · intro hclean
    exact ⟨ret, s, held, rfl, hclean⟩

/-- What comes behind the start leaves the policy started when it fails. -/
theorem initDriver_clean_iff (minors : Nat) (e : Steps) :
    FailsClean b n ((initDriver minors e []).map fun (ret, held) => (ret, s, held)) ↔
      (DriverFails minors e → NotStarted b n s) := by
  obtain ⟨ret, held, hrun, hfail, hheld⟩ := initDriver_spec minors e
  rw [hrun, Option.map_some, failsClean_some, ← hfail]
  exact forall_congr' fun hlt => and_iff_left (hheld hlt)

theorem policyFirst_clean_iff (hnd : b.present.Nodup) (hb : Books b n (fun _ => False) s) (hs : NotStarted b n s)
    (minors : Nat) (m : TypeMeasure) (e : Steps) :
    FailsClean b n (policyFirst minors (startMeasure b minors m) e s) ↔
      ¬ (Starts b s m ∧ (FewChannels minors m ∨ NoBootMem e ∨ DriverFails minors e)) := by
  obtain ⟨ret, s', hstart, hkept, hret⟩ := startMeasure_spec hnd hb hs minors m
  rw [policyFirst, hstart, Option.bind_eq_bind, Option.bind_some]
  dsimp only
  by_cases hlt : ret < 0
  · have hinval : -EINVAL < 0 := by decide
    rw [if_pos hlt, failsClean_some, hkept]
    constructor
    · rintro h ⟨hm, -⟩
      exact (h hinval).1 hm
    · intro h _
      exact ⟨fun hm => h ⟨hm, .inl ((hret hm).1 hlt)⟩, rfl⟩
  -- from here on nothing stops a policy that was started
  have hfew : Starts b s m → ¬ FewChannels minors m := fun hm hfew => hlt ((hret hm).2 hfew)
  rw [if_neg hlt]
  by_cases hmem : NoBootMem e
  · have hnomem : -ENOMEM < 0 := by decide
    rw [if_pos hmem, failsClean_some, hkept]
    constructor
    · rintro h ⟨hm, -⟩
      exact (h hnomem).1 hm
    · intro h _
      exact ⟨fun hm => h ⟨hm, .inr (.inl hmem)⟩, rfl⟩
  · rw [if_neg hmem, initDriver_clean_iff, hkept]
    constructor
    · rintro h ⟨hm, hfew' | hmem' | hfail⟩
      · exact hfew hm hfew'
      · exact hmem hmem'
      · exact h hfail hm
    · intro h hfail hm
      exact h ⟨hm, .inr (.inr hfail)⟩

end Dmacftu.ModuleInit

namespace Dmacftu

open Dmaengine ModuleInit Policy

def Band.typeMeasure (type_measure : Int) : TypeMeasure :=
  if type_measure = Band.CPU_MEASURE then .cpu
  else if type_measure = Band.EXCLUSIVE_MEASURE then .exclusive
  else if type_measure = Band.SHARED_MEASURE then .shared
  else if type_measure = Band.PRIORITY_MEASURE then .priority
  else .error

def Cache.typeMeasure (type_measure : Int) : TypeMeasure :=
  if type_measure = Cache.CPU_MEASURE then .cpu
  else if type_measure = Cache.DMA_MEASURE then .shared
  else .error

def Msg.typeMeasure (type_measure : Int) : TypeMeasure :=
  if type_measure = Msg.CPU_MEASURE then .cpu
  else if type_measure = Msg.EXCLUSIVE_MEASURE then .exclusive
  else if type_measure = Msg.SHARED_MEASURE then .shared
  else .error

def Band.micro_bench_print_info (b : Board) (minors : Nat) (type_measure : Int) :
    Policy.State → Option (Int × Policy.State) :=
  startMeasure b minors (Band.typeMeasure type_measure)

def Band.micro_benchmark_init (b : Board) (minors : Nat) (type_measure : Int) (e : Steps) (s : Policy.State) :
    Option (Int × Policy.State × List Res) :=
  policyFirst minors (Band.micro_bench_print_info b minors type_measure) e s

def Cache.micro_bench_print_info (b : Board) (minors : Nat) (type_measure : Int) :
    Policy.State → Option (Int × Policy.State) :=
  startMeasure b minors (Cache.typeMeasure type_measure)

def Cache.micro_benchmark_init (b : Board) (minors : Nat) (type_measure : Int) (e : Steps) (s : Policy.State) :
    Option (Int × Policy.State × List Res) :=
  policyFirst minors (Cache.micro_bench_print_info b minors type_measure) e s

def Msg.micro_benchmark_init (b : Board) (minors : Nat) (type_measure : Int) (e : Steps) (s : Policy.State) :
    Option (Int × Policy.State × List Res) :=
  if NoBootMem e then some (-ENOMEM, s, [])
  else do
    let (ret, s) ← startMeasure b minors (Msg.typeMeasure type_measure) s
    if ret < 0 then some (ret, s, [])
    else (initDriver minors e []).map fun (ret, held) => (ret, s, held)

/-! ## Failed loads -/

variable {b : Board} {n : Int} {s : Policy.State}

theorem msg_clean_iff (hnd : b.present.Nodup) (hb : Books b n (fun _ => False) s) (hs : NotStarted b n s)
    (minors : Nat) (type_measure : Int) (e : Steps) :
    FailsClean b n (Msg.micro_benchmark_init b minors type_measure e s) ↔
      ¬ (Starts b s (Msg.typeMeasure type_measure) ∧ ¬ NoBootMem e ∧ DriverFails minors e) := by
  have hfew : ¬ FewChannels minors (Msg.typeMeasure type_measure) := by
    unfold Msg.typeMeasure FewChannels
    split <;> [simp; split <;> [simp; split <;> simp]]
  obtain ⟨ret, s', hstart, hkept, hret⟩ := startMeasure_spec hnd hb hs minors (Msg.typeMeasure type_measure)
  unfold Msg.micro_benchmark_init
  by_cases hmem : NoBootMem e
  · rw [if_pos hmem, failsClean_some]
    exact iff_of_true (fun _ => ⟨hs, rfl⟩) fun h => h.2.1 hmem
  rw [if_neg hmem, hstart, Option.bind_eq_bind, Option.bind_some]
  dsimp only
  by_cases hlt : ret < 0
  · have hno : ¬ Starts b s (Msg.typeMeasure type_measure) := fun hm => hfew ((hret hm).1 hlt)
    rw [if_pos hlt, failsClean_some, hkept]
    exact iff_of_true (fun _ => ⟨hno, rfl⟩) fun h => hno h.1
  · rw [if_neg hlt, initDriver_clean_iff, hkept]
    constructor
    · rintro h ⟨hm, -, hfail⟩
      exact h hfail hm
    · intro h hfail hm
      exact h ⟨hm, hmem, hfail⟩

/-- A failed load leaves nothing behind, unless its policy was started and what failed
came after it: the boot memory, the allocations, the registration, or the comparison
of the priority policy's channels with the minors. The state is one that a run of
policy calls reaches, with no policy but the shared one started. -/
theorem load_clean_iff (b : Board) (hnd : b.present.Nodup) (s₀ : Policy.State) (h₀ : NoPolicy b s₀)
    (calls : List Policy.Call) (hcalls : Balanced 0 calls) (s : Policy.State)
    (hrun : exec (Policy.call b) s₀ calls = some s) (n : Int) (hs : NotStarted b n s) (minors : Nat)
    (type_measure : Int) (e : Steps) :
    (FailsClean b n (Band.micro_benchmark_init b minors type_measure e s) ↔
      ¬ (Starts b s (Band.typeMeasure type_measure) ∧
        (FewChannels minors (Band.typeMeasure type_measure) ∨ NoBootMem e ∨ DriverFails minors e))) ∧
    (FailsClean b n (Cache.micro_benchmark_init b minors type_measure e s) ↔
      ¬ (Starts b s (Cache.typeMeasure type_measure) ∧ (NoBootMem e ∨ DriverFails minors e))) ∧
    (FailsClean b n (Msg.micro_benchmark_init b minors type_measure e s) ↔
      ¬ (Starts b s (Msg.typeMeasure type_measure) ∧ ¬ NoBootMem e ∧ DriverFails minors e)) := by
  have hbooks := reached_books hnd h₀ hcalls hrun hs
  refine ⟨policyFirst_clean_iff hnd hbooks hs minors _ e, ?_, ?_⟩
  · have hcache : ¬ FewChannels minors (Cache.typeMeasure type_measure) := by
      unfold Cache.typeMeasure FewChannels
      split <;> [simp; split <;> simp]
    have := policyFirst_clean_iff hnd hbooks hs minors (Cache.typeMeasure type_measure) e
    rwa [or_iff_right hcache] at this
  · exact msg_clean_iff hnd hbooks hs minors type_measure e

/-- `device_create` fails for the last of the four minors. -/
def sampleSteps : Steps where
  boot_mem_microBenchmark := 4096
  size_boot_mem_mb := 33554432
  kzalloc _ := true
  alloc_chrdev_region := 0
  class_create := 0
  cdev_add _ := 0
  device_create i := if i = 3 then -ENOMEM else 0

theorem sample_not_started : NotStarted sampleBoard 0 sampleState := by
  refine ⟨rfl, ?_, ?_, rfl⟩
  · rintro chan ⟨-, -, hpos⟩
    exact absurd hpos (Int.lt_irrefl 0)
  · intro i
    cases i with
    | percpu i => rfl
    | prio i => rfl

/-- All three loads fail; Msg's had the exclusive policy started. -/
theorem load_clean_iff_sample :
    ((Band.micro_benchmark_init sampleBoard 4 1 sampleSteps sampleState).map Prod.fst = some (-ENOMEM) ∧
      FailsClean sampleBoard 0 (Band.micro_benchmark_init sampleBoard 4 1 sampleSteps sampleState)) ∧
    ((Cache.micro_benchmark_init sampleBoard 4 1 sampleSteps sampleState).map Prod.fst = some (-ENOMEM) ∧
      FailsClean sampleBoard 0 (Cache.micro_benchmark_init sampleBoard 4 1 sampleSteps sampleState)) ∧
    ((Msg.micro_benchmark_init sampleBoard 4 1 sampleSteps sampleState).map Prod.fst = some (-ENOMEM) ∧
      ¬ FailsClean sampleBoard 0 (Msg.micro_benchmark_init sampleBoard 4 1 sampleSteps sampleState)) := by
  obtain ⟨hband, hcache, hmsg⟩ := load_clean_iff sampleBoard (by decide) sampleState sample_no_policy [] trivial
    sampleState rfl 0 sample_not_started 4 1 sampleSteps
  refine ⟨⟨by decide, hband.2 fun h => h.1⟩, ⟨by decide, hcache.2 fun h => h.1⟩,
    ⟨by decide, fun h => hmsg.1 h ⟨?_, ?_, ?_⟩⟩⟩
  · exact ⟨by decide, by decide⟩
  · decide
  · exact .inr (.inr (.inr (.inr ⟨3, by decide, by decide⟩)))

/-- The resources are all given back, and the shared policy stays started for good. -/
theorem failed_load_leaks :
    ((Band.micro_benchmark_init sampleBoard 4 3 sampleSteps sampleState).map fun r =>
        (r.1, refs r.2.1.engine, r.2.2)) = some (-ENOMEM, (1, 1), []) ∧
    ¬ FailsClean sampleBoard 0 (Band.micro_benchmark_init sampleBoard 4 3 sampleSteps sampleState) ∧
    ¬ FailsClean sampleBoard 0 (Cache.micro_benchmark_init sampleBoard 4 2 sampleSteps sampleState) ∧
    ¬ FailsClean sampleBoard 0 (Msg.micro_benchmark_init sampleBoard 4 2 sampleSteps sampleState) := by
  have hfails : DriverFails 4 sampleSteps :=
    .inr (.inr (.inr (.inr ⟨3, by decide, by decide⟩)))
  have hfirst : ¬ FailsClean sampleBoard 0 (policyFirst 4 (startMeasure sampleBoard 4 .shared) sampleSteps sampleState) := by
    rw [policyFirst_clean_iff (by decide) sample_no_policy.books sample_not_started]
    exact fun h => h ⟨trivial, .inr (.inr hfails)⟩
  refine ⟨by decide, hfirst, hfirst, ?_⟩
  rw [msg_clean_iff (by decide) sample_no_policy.books sample_not_started]
  exact fun h => h ⟨trivial, by decide, hfails⟩

end Dmacftu
