import Dmacftu.BandRuns
/-!
# The slices of the Band benchmark

Each device has a slice of the boot memory. A call stays in its device's slice as
long as no `MB_LOAD` asks for more than the slice, no array is freed twice and no
read copies to the pages of a freed one (`devices_isolated`): `MB_LOAD` does not compare its length with
anything, and what `read` and `write` compare is not the length they transfer.
-/
open Lib.CInt Lib.Runs

namespace Dmacftu

/-- What an event does to kernel memory is done from `base` on, to `size` bytes at
most. A copy to the pages of a freed array may write anything. -/
def Event.Within (base size : Nat) : Event → Prop
  | .filled addr nbytes => 0 ≤ nbytes ∧ base ≤ addr ∧ addr + nbytes ≤ base + size
  | .copied _ addr len => base ≤ addr ∧ addr + len ≤ base + size
  | .submitted dir _ live sub =>
    base ≤ sub.kdata ∧ sub.kdata + sub.len ≤ base + size ∧ (dir = .to_user → live = true)
  | _ => True

namespace Band

def BootMem.base (m : BootMem) (k : Fin MB_MINOR) : Nat := m.boot_mem_microBenchmark + m.temp_size * k

/-- The step condition: a load fits into the slice, and an unload and a copy to user
space have an array that is not freed. -/
def Bounded (type_measure : Nat) (st : State) (c : Call) : Prop :=
  (∀ q, c.op = .ioctl (.MB_LOAD (some q)) → q.len ≤ (st.vector_mb c.dev).kernel_size) ∧
    UnloadsLive type_measure st c ∧ ∀ w p, c.op.Submits c.env (st.vector_mb c.dev) w p → p.dir = .to_user →
      ∀ a, ((st.vector_mb c.dev).req w).pages = some a → a.id ∉ st.mm.freed

/-- A device that keeps to its slice. -/
structure BenchmarkData.Sliced (b_data : BenchmarkData) (base size : Nat) : Prop where
  kernel_buf : b_data.kernel_buf = base
  kernel_size : b_data.kernel_size = size
  user_size : b_data.user_size ≤ size
  req : ∀ w, (b_data.req w).len = 0 ∨ (b_data.req w).kernel_base = base ∧ (b_data.req w).len ≤ size

theorem BootMem.temp_size_le (m : BootMem) : m.temp_size ≤ 2 ^ 28 := by
  have hsize : ∀ n ∈ bootSizes, n ≤ 2 ^ 30 := by decide
  have hle := hsize _ m.size_mem
  unfold temp_size MB_MINOR
  omega

theorem BootMem.temp_size_pos (m : BootMem) : 0 < m.temp_size := by
  have hsize : ∀ n ∈ bootSizes, 4 ≤ n := by decide
  have hle := hsize _ m.size_mem
  unfold temp_size MB_MINOR
  omega

theorem BootMem.slice_fits (m : BootMem) (k : Fin MB_MINOR) : m.base k + m.temp_size ≤ 2 ^ 64 := by
  have hfits := m.fits
  have hk : m.temp_size * (k + 1) ≤ m.temp_size * MB_MINOR := Nat.mul_le_mul_left _ k.isLt
  have hdiv : m.temp_size * MB_MINOR ≤ m.size_boot_mem_mb := Nat.div_mul_le_self _ _
  rw [Nat.mul_succ] at hk
  unfold base
  omega

/-- The descriptors of a request stay inside the slice that the request is for. -/
theorem submitEvents_within {mm : Mm} {dir : Direction} {env : DmaEnv} {fuel : Nat} {req : RequestCopy} {hw : Hw}
    {base size : Nat} (hbase : req.kernel_base = base) (hlen : req.len ≤ size) (hpos : 0 < req.len)
    (hsize : size ≤ 2 ^ 28) (hfits : base + size ≤ 2 ^ 64)
    (hlive : dir = .to_user → ∀ a, req.pages = some a → a.id ∉ mm.freed) :
    ∀ ev ∈ Session.submitEvents mm dir env fuel req hw, ev.Within base size := by
  intro ev hev
  obtain ⟨a, ha, sub, hsub, rfl⟩ := Session.mem_submitEvents.1 hev
  obtain ⟨m, hm, -, -, -, hkdata, hsublen⟩ := subs_chunks (by omega) hpos (by omega) sub hsub
  obtain ⟨-, hchunk, -⟩ := RequestCopy.chunkLen_pos hm
  have hu : u64 (req.kernel_base + m : Nat) = req.kernel_base + m := by
    unfold u64
    omega
  refine ⟨?_, ?_, ?_⟩
  · rw [hkdata, hu]
    omega
  · rw [hkdata, hu, hsublen]
    omega
  · intro hdir
    exact decide_eq_true (hlive hdir a ha)

theorem copyEvents_within {mm : Mm} {p : PolicyCopy} {env : DmaEnv} {fuel : Nat} {req : RequestCopy} {hw : Hw}
    {base size : Nat} (hbase : req.len = 0 ∨ req.kernel_base = base ∧ req.len ≤ size)
    (hsize : size ≤ 2 ^ 28) (hfits : base + size ≤ 2 ^ 64)
    (hlive : 0 < req.len → p.chan ≠ none → p.dir = .to_user → ∀ a, req.pages = some a → a.id ∉ mm.freed) :
    ∀ ev ∈ Session.copyEvents mm p env fuel req hw, ev.Within base size := by
  intro ev hev
  unfold Session.copyEvents at hev
  split at hev
  next hcopy =>
    obtain ⟨hpos, hchan⟩ := hcopy
    obtain ⟨hkernel, hlen⟩ := hbase.resolve_left (by omega)
    exact submitEvents_within hkernel hlen hpos hsize hfits (hlive hpos hchan) ev hev
  · cases hev

/-- A pin, an unpin and a return touch no kernel memory of the device. -/
theorem pinEvents_within {write : Int} {res : PinResult} {req : RequestCopy} (base size : Nat) :
    ∀ ev ∈ Session.pinEvents write res req, ev.Within base size := by
  intro ev hev
  cases res with
  | PIN_NO_USER => cases hev
  | PIN_SUCCESSFUL =>
    obtain ⟨a, -, rfl⟩ := Session.mem_pinEvents_successful.1 hev
    trivial
  | PIN_FAILED =>
    rcases List.mem_append.1 hev with hev | hev
    · obtain ⟨a, -, rfl⟩ := Session.mem_pinEvents_successful.1 hev
      trivial
    · obtain ⟨a, -, rfl⟩ := Session.mem_unpinEvents.1 hev
      trivial

theorem filled_within {addr base len size : Nat} (haddr : addr = base) (hlen : len ≤ size) (hsize : size ≤ 2 ^ 28) :
    (Event.filled addr (s32 len)).Within base size := by
  have hs : s32 len = len := by
    apply s32_of_range <;> omega
  rw [haddr, hs]
  exact ⟨Int.natCast_nonneg len, Nat.le_refl base, by omega⟩

/-- The devices keep to their slices, and so did all calls. -/
def Isolated (m : BootMem) (st : State) : Prop :=
  (∀ k, (st.vector_mb k).Sliced (m.base k) m.temp_size) ∧ ∀ x ∈ st.log, x.2.Within (m.base x.1) m.temp_size

theorem Sliced.stored {b_data b_data' : BenchmarkData} {w : Which} {req : RequestCopy} {base size : Nat}
    (h : b_data.Sliced base size) (hstored : Stored w b_data req b_data') (huser : b_data'.user_size ≤ size)
    (hreq : req.len = 0 ∨ req.kernel_base = base ∧ req.len ≤ size) : b_data'.Sliced base size := by
  refine ⟨hstored.frame.kernel_buf.trans h.kernel_buf, hstored.frame.kernel_size.trans h.kernel_size, huser, ?_⟩
  intro w'
  by_cases hw : w' = w
  · rw [hw, hstored.req]
    exact hreq
  · rw [hstored.other w' hw]
    exact h.req w'

/-- The copy of a call, also one that does not come back. -/
theorem copy_within {e : Env} {b_data : BenchmarkData} {mm : Mm} {op : Op} {w : Which} {p : PolicyCopy}
    {base size : Nat} (h : b_data.Sliced base size) (hsize : size ≤ 2 ^ 28) (hfits : base + size ≤ 2 ^ 64)
    (hpolicy : op.policy e b_data = some (w, p))
    (hlive : ∀ w p, op.Submits e b_data w p → p.dir = .to_user →
      ∀ a, (b_data.req w).pages = some a → a.id ∉ mm.freed) :
    ∀ ev ∈ Session.copyEvents mm p e.env e.fuel (refresh mm e.stale (b_data.req w)) e.hw, ev.Within base size := by
  have hreq : (refresh mm e.stale (b_data.req w)).len = 0 ∨ (refresh mm e.stale (b_data.req w)).kernel_base = base ∧
      (refresh mm e.stale (b_data.req w)).len ≤ size := h.req w
  apply copyEvents_within hreq hsize hfits
  intro hpos hchan hdir a ha
  obtain ⟨a', ha', rfl⟩ := Option.map_eq_some_iff.1 ha
  have hfreed := hlive w p ⟨hpolicy, hpos, hchan⟩ hdir a' ha'
  rwa [if_neg hfreed]

/-- One call on a device that keeps to its slice. -/
theorem Effect.within {type_measure : Nat} {e : Env} {b_data b_data' : BenchmarkData} {mm : Mm} {op : Op} {s : Session}
    {base size : Nat} (heff : Effect type_measure e b_data mm op b_data' s) (h : b_data.Sliced base size)
    (hsize : size ≤ 2 ^ 28) (hfits : base + size ≤ 2 ^ 64)
    (hload : ∀ q, op = .ioctl (.MB_LOAD (some q)) → q.len ≤ size)
    (hlive : ∀ w p, op.Submits e b_data w p → p.dir = .to_user →
      ∀ a, (b_data.req w).pages = some a → a.id ∉ mm.freed) :
    b_data'.Sliced base size ∧ ∀ ev ∈ s.log, ev.Within base size := by
  cases heff with
  | refused => exact ⟨h, by simp⟩
  | cpu =>
    refine ⟨h, ?_⟩
    intro ev hev
    obtain rfl := List.mem_singleton.1 hev
    exact ⟨Nat.le_of_eq h.kernel_buf.symm, Nat.add_le_add (Nat.le_of_eq h.kernel_buf) h.user_size⟩
  | @copied _ w p ret req hw _ hpolicy hrun hstored huser =>
    obtain ⟨chan, cookie, status, hreq⟩ := PolicyCopy.run_req hrun
    dsimp only at hreq
    refine ⟨Sliced.stored h hstored (huser ▸ h.user_size) ?_, ?_⟩
    · rw [hreq]
      exact h.req w
    · intro ev hev
      rcases List.mem_append.1 hev with hev | hev
      · exact copy_within h hsize hfits hpolicy hlive ev hev
      · obtain rfl := List.mem_singleton.1 hev
        trivial
  | @filled q =>
    refine ⟨Sliced.stored h (stored_loading b_data q.len q.buf_user) (hload q rfl) (h.req _), ?_⟩
    intro ev hev
    obtain rfl := List.mem_singleton.1 hev
    exact filled_within h.kernel_buf (hload q rfl) hsize
  | @loaded q w r _ _ _ _ hreq hstored huser =>
    obtain ⟨-, hkernel, hlen⟩ := hreq
    refine ⟨Sliced.stored h hstored (huser ▸ hload q rfl) ?_, ?_⟩
    · exact .inr ⟨hkernel.trans h.kernel_buf, hlen ▸ hload q rfl⟩
    · intro ev hev
      rcases List.mem_cons.1 hev with rfl | hev
      · exact filled_within h.kernel_buf (hload q rfl) hsize
      · exact pinEvents_within base size ev hev
  | unloaded =>
    refine ⟨h, ?_⟩
    intro ev hev
    obtain ⟨a, -, rfl⟩ := Session.mem_unpinEvents.1 hev
    trivial

theorem call_isolated {m : BootMem} {type_measure : Nat} {st st' : State} {c : Call} (h : Isolated m st)
    (hb : Bounded type_measure st c) (hc : call type_measure st c = some st') : Isolated m st' := by
  obtain ⟨hslices, hlog⟩ := h
  obtain ⟨dev, e, op⟩ := c
  obtain ⟨⟨ret, b_data', s⟩, hrun, rfl⟩ := Option.map_eq_some_iff.1 hc
  dsimp only at hrun hb ⊢
  have hdev := hslices dev
  obtain ⟨hdev', hevs⟩ := (Op.run_effect hrun).within hdev m.temp_size_le (m.slice_fits dev)
    (fun q hq => hdev.kernel_size ▸ hb.1 q hq) hb.2.2
  constructor
  · intro k
    by_cases hk : k = dev
    · subst hk
      simpa using hdev'
    · simpa [hk] using hslices k
  · intro x hx
    rcases List.mem_append.1 hx with hx | hx
    · exact hlog x hx
    · obtain ⟨ev, hev, rfl⟩ := List.mem_map.1 hx
      exact hevs ev hev

theorem init_isolated (m : BootMem) (type_id : Nat) (mm : Mm) : Isolated m (init_all_micro_bench m type_id mm) := by
  refine ⟨fun k => ⟨rfl, rfl, Nat.zero_le _, ?_⟩, ?_⟩
  · intro w
    left
    cases w <;> rfl
  · intro x hx
    cases hx

/-- In a run whose loads fit and whose unloads and reads have their pages, every call keeps to
its device's slice, and so does a call that is under way after it. -/
theorem devices_isolated (m : BootMem) (type_id type_measure : Nat) {mm : Mm} {calls : List Call} {st : State}
    (hcalls : along (call type_measure) (Bounded type_measure) (init_all_micro_bench m type_id mm) calls)
    (h : exec (call type_measure) (init_all_micro_bench m type_id mm) calls = some st) :
    (∀ x ∈ st.log, x.2.Within (m.base x.1) m.temp_size) ∧
      ∀ c, Bounded type_measure st c → ∀ ev ∈ c.underway st, ev.Within (m.base c.dev) m.temp_size := by
  obtain ⟨hslices, hlog⟩ := exec_inv_along (Isolated m) (fun _ _ _ => call_isolated) (init_isolated m type_id mm)
    hcalls h
  refine ⟨hlog, ?_⟩
  intro c hc ev hev
  unfold Call.underway at hev
  split at hev
  · cases hev
  next hpolicy => exact copy_within (hslices c.dev) m.temp_size_le (m.slice_fits c.dev) hpolicy hc.2.2 ev hev

theorem devices_isolated_sample : ∃ st, exec (call EXCLUSIVE_MEASURE)
      (init_all_micro_bench sampleBoot EXCLUSIVE_MEASURE bootMm) [loadCall 1 8 (by decide)] = some st ∧
    (∀ x ∈ st.log, x.2.Within (sampleBoot.base x.1) sampleBoot.temp_size) ∧
      ∀ c, Bounded EXCLUSIVE_MEASURE st c → ∀ ev ∈ c.underway st, ev.Within (sampleBoot.base c.dev) sampleBoot.temp_size := by
  have hsome : (exec (call EXCLUSIVE_MEASURE) (init_all_micro_bench sampleBoot EXCLUSIVE_MEASURE bootMm)
      [loadCall 1 8 (by decide)]).isSome = true := by
    decide
  obtain ⟨st, hst⟩ := Option.isSome_iff_exists.1 hsome
  refine ⟨st, hst, devices_isolated sampleBoot EXCLUSIVE_MEASURE EXCLUSIVE_MEASURE ?_ hst⟩
  unfold along
  refine ⟨⟨?_, ?_, ?_⟩, ?_⟩
  · intro q hq
    cases hq
    decide
  · intro q hq
    cases hq
  · rintro w p ⟨hpolicy, -⟩
    cases hpolicy
  · exact fun _ _ => trivial

/-- One byte more than device 0's slice: device 1's first byte is overwritten. -/
theorem load_overruns :
    ∃ st, exec (call EXCLUSIVE_MEASURE) (init_all_micro_bench sampleBoot EXCLUSIVE_MEASURE bootMm)
      [loadCall 1 (sampleBoot.temp_size + 1) (by decide)] = some st ∧
    ¬ ∀ x ∈ st.log, x.2.Within (sampleBoot.base x.1) sampleBoot.temp_size := by
  have hhead : (exec (call EXCLUSIVE_MEASURE) (init_all_micro_bench sampleBoot EXCLUSIVE_MEASURE bootMm)
      [loadCall 1 (sampleBoot.temp_size + 1) (by decide)]).map (fun st => st.log.head?) =
      some (some (⟨0, by decide⟩, .filled sampleBuf 8388609)) := by
    decide
  obtain ⟨st, hst, he⟩ := Option.map_eq_some_iff.1 hhead
  refine ⟨st, hst, fun h => ?_⟩
  obtain ⟨-, -, hend⟩ := h _ (List.mem_of_mem_head? he)
  exact absurd hend (by decide)

end Band

end Dmacftu
