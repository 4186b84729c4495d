import Dmacftu.IoatRuns
/-!
# What a report is worth

`reports_in_order`: in every run the transactions are reported in the order of
their submission, each once and with the mappings of its own request.

`reported_is_carried_out`: as long as the channel is not restarted after a reset,
the device carries out the pieces of all requests in order, each once, and a
transaction is reported only after its last piece. A restart breaks the second
half and nothing else: see `restart_skips`.
-/
open Lib.CopyEngine Lib.Links Lib.Runs Lib.Script

namespace Dmacftu.Ioat

variable {P : Params} {s s' s₀ : State} {v : View} {as : List Act}

/-! ## In order -/

theorem Books.past_prefix (h : Books s v) : v.past <+: plan s.xfercap s.submitted := ⟨_, h.script⟩

theorem Books.reported (h : Books s v) : ∃ n ≤ s.submitted.length, s.reports = (s.submitted.take n).map Tx.report ∧
    (s.submitted.take n).flatMap (fun t => t.req.chunks s.xfercap) <+: worked v.past ∧
    s.active = BitVec.ofNat 16 ((s.submitted.drop n).map fun t => t.req.count s.xfercap).sum := by
  obtain ⟨n, hn, hnoticed, hwork⟩ := noticed_of_prefix h.past_prefix
  refine ⟨n, hn, ?_, hwork, ?_⟩
  · rw [h.reports, hnoticed, List.map_map]
    rfl
  · have ha := h.active
    have hsum : (s.submitted.map fun t => t.req.count s.xfercap).sum
        = ((s.submitted.drop n).map fun t => t.req.count s.xfercap).sum
          + ((s.submitted.take n).map fun t => t.req.count s.xfercap).sum := by
      rw [Nat.add_comm, ← List.sum_append, ← List.map_append, List.take_append_drop]
    have hsnd : (noticed v.past).map Prod.snd = (s.submitted.take n).map fun t => t.req.count s.xfercap := by
      rw [hnoticed, List.map_map]
      rfl
    rw [hsnd, hsum, BitVec.ofNat_add] at ha
    simpa using ha

theorem Books.reports_length (h : Books s v) : s.reports.length ≤ s.submitted.length := by
  obtain ⟨n, hn, hr, -⟩ := h.reported
  rw [hr, List.length_map]
  exact List.length_take_le' n _

theorem reports_in_order (h : Opened s₀) (hs : exec (step P) s₀ as = some s) :
    ∃ n ≤ s.submitted.length, s.reports = (s.submitted.take n).map Tx.report ∧
      s.active = BitVec.ofNat 16 ((s.submitted.drop n).map fun t => t.req.count s.xfercap).sum := by
  obtain ⟨v, hi⟩ := run_inv h hs
  obtain ⟨n, hn, hr, -, ha⟩ := hi.books.reported
  exact ⟨n, hn, hr, ha⟩

theorem reports_in_order_sample : ∃ s, exec (step sampleParams) sampleChan sampleRun = some s ∧ s.reports.length = 1 ∧
    ∃ n ≤ s.submitted.length, s.reports = (s.submitted.take n).map Tx.report ∧
      s.active = BitVec.ofNat 16 ((s.submitted.drop n).map fun t => t.req.count s.xfercap).sum := by
  obtain ⟨s, hs⟩ := run_ends (show (exec (step sampleParams) sampleChan sampleRun).isSome = true from rfl)
  exact ⟨s, hs, run_value (·.reports.length) hs rfl, reports_in_order sampleChan_opened hs⟩

/-! ## Carried out -/

/-- The timer goes off after a reset. -/
def Restarts (s : State) (a : Act) : Prop := a = .timer ∧ s.reset_pending = true

/-- The device is right after place `x`. -/
def EngineAfter (places : List Phys) (x : Nat) : Engine → Prop
  | .stopped => True
  | .busy p _ => places[x + 1]? = some p
  | .idle p => places[x]? = some p

/-- The device has carried out everything up to place `x` of the line, once and in order. -/
structure CarriedAt (s : State) (v : View) (x : Nat) : Prop where
  chansts : (line s v)[x]? = some s.chansts
  engine : EngineAfter (line s v) x s.engine
  copies : s.copies = worked v.past ++ (v.rest.take x).flatMap fun p => (s.desc p).hw.copy

def Carried (s : State) (v : View) : Prop := ∃ x, CarriedAt s v x

theorem Lists.line_nodup (h : Lists s v) : (line s v).Nodup := List.nodup_cons.2 ⟨h.last_not_mem, h.rest_nodup⟩

/-- A descriptor is at one place only. -/
theorem Lists.place_unique (h : Lists s v) {i j : Nat} {p : Phys} (hi : (line s v)[i]? = some p)
    (hj : (line s v)[j]? = some p) : i = j := by
  obtain ⟨hlt, hi⟩ := List.getElem?_eq_some_iff.1 hi
  obtain ⟨hlt', hj⟩ := List.getElem?_eq_some_iff.1 hj
  exact (h.line_nodup.getElem_inj_iff).1 (hi.trans hj.symm)

/-- What is on the line is in use. -/
theorem Lists.line_used (h : Lists s v) {p : Phys} (hp : p ∈ line s v) (hne : p ≠ 0) : p ∈ s.used_desc := by
  rw [h.used]
  rcases List.mem_cons.1 hp with rfl | hrest
  · have hlast := h.last
    rcases hs : v.settled.getLast? with _ | t
    · rw [hs] at hlast
      exact absurd hlast.symm hne
    · rw [hs] at hlast
      exact List.mem_append_left _ (List.mem_of_getLast? (hs.trans (congrArg some hlast)))
  · exact List.mem_append_right _ hrest

theorem worked_outs (d : DescSw) : worked d.outs = d.hw.copy := by
  rw [DescSw.outs, worked_append, worked_inl]
  split
  · rw [worked_inr, List.append_nil]
  · exact List.append_nil _

theorem worked_flatMap (desc : Phys → DescSw) (l : List Phys) :
    worked (l.flatMap fun p => (desc p).outs) = l.flatMap fun p => (desc p).hw.copy := by
  induction l with
  | nil => rfl
  | cons p l ih => rw [List.flatMap_cons, worked_append, worked_outs, ih, List.flatMap_cons]

/-- A step that keeps the line, the device and what the descriptors copy. -/
theorem Carried.same (h : Carried s v) (hline : line s' v = line s v) (hsts : s'.chansts = s.chansts)
    (hengine : s'.engine = s.engine) (hcopies : s'.copies = s.copies)
    (hcopy : ∀ p ∈ v.rest, (s'.desc p).hw.copy = (s.desc p).hw.copy) : Carried s' v := by
  obtain ⟨x, h⟩ := h
  refine ⟨x, ?_, ?_, ?_⟩
  · rw [hline, hsts]; exact h.chansts
  · rw [hline, hengine]; exact h.engine
  · rw [hcopies, h.copies, List.flatMap_congr fun p hp => (hcopy p (List.mem_of_mem_take hp)).symm]

theorem Carried.submit (h : Carried s v) (hi : Inv s v) {tx : Phys × Request} {callback : Option Nat} {tail : Phys}
    (htail : s.used_desc.getLast? = some tail) (htx : tx ∈ s.prepared) :
    Carried (afterSubmit P s tx callback tail) (v.extend s tx) := by
  obtain ⟨x, h⟩ := h
  have hget : ∀ {i : Nat} {p : Phys}, (line s v)[i]? = some p → (line s v ++ (s.desc tx.1).tx_list)[i]? = some p :=
    fun hp => (List.getElem?_append_left (List.getElem?_eq_some_iff.1 hp).1).trans hp
  have hx : x ≤ v.rest.length := Nat.le_of_lt_succ (List.getElem?_eq_some_iff.1 h.chansts).1
  refine ⟨x, hget h.chansts, ?_, ?_⟩
  · have he := h.engine
    show EngineAfter (line s v ++ _) x s.engine
    cases hse : s.engine with
    | stopped => trivial
    | busy p next =>
      rw [hse] at he
      exact hget he
    | idle p =>
      rw [hse] at he
      exact hget he
  · show s.copies = worked v.past ++ ((v.rest ++ (s.desc tx.1).tx_list).take x).flatMap _
    rw [List.take_append_of_le_length hx, h.copies]
    exact congrArg _ (List.flatMap_congr fun p _ => (afterSubmit_copy (hi.lists.tail_ne htail htx) p).symm)

theorem EngineAfter.drop {l : List Phys} {x k : Nat} {e : Engine} (h : EngineAfter l x e) (hk : k ≤ x) :
    EngineAfter (l.drop k) (x - k) e := by
  cases e with
  | stopped => trivial
  | busy p next =>
    show (l.drop k)[x - k + 1]? = _
    rw [List.getElem?_drop, show k + (x - k + 1) = x + 1 by omega]
    exact h
  | idle p =>
    show (l.drop k)[x - k]? = _
    rw [List.getElem?_drop, Nat.add_sub_cancel' hk]
    exact h

theorem Carried.cleanup (h : Carried s v) (hi : Inv s v) {c x k : Nat} {pc : Phys} (hpl : PlacedAt s v c x)
    (hk : v.rest[k]? = some pc) (hc : k + 1 ≤ c) : Carried (cleanupTo P s pc) (v.advance s k pc) := by
  obtain ⟨y, h⟩ := h
  obtain rfl : y = x := hi.lists.place_unique h.chansts hpl.chansts
  have hky : k + 1 ≤ y := hc.trans hpl.le
  obtain ⟨-, hsts, hengine, -, hcopies⟩ := cleanupTo_device (P := P) hi.lists hk
  have hline := line_cleanup (P := P) hi.lists hk
  refine ⟨y - (k + 1), ?_, ?_, ?_⟩
  · rw [hline, List.getElem?_drop, Nat.add_sub_cancel' hky, hsts]
    exact h.chansts
  · rw [hline, hengine]
    exact h.engine.drop hky
  · have hsplit : v.rest.take y = v.rest.take (k + 1) ++ (v.rest.drop (k + 1)).take (y - (k + 1)) := by
      rw [← List.take_add, Nat.add_sub_cancel' hky]
    rw [hcopies, h.copies, hsplit, List.flatMap_append, ← List.append_assoc]
    refine congr (congrArg _ ?_) (List.flatMap_congr fun p _ => ?_)
    · rw [View.advance, worked_append, worked_flatMap]
    · rw [(cleanupTo_hw hi.lists hk p).1]

/-- The device has carried out the next descriptor of the line. -/
theorem CarriedAt.next {x j : Nat} {p next : Phys} (h : CarriedAt s v x) (hi : Inv s v) (hbusy : s.engine = .busy p next)
    (hj : (line s v)[j]? = some p) : j = x + 1 ∧ (carriedOut s p).copies
      = worked v.past ++ (v.rest.take j).flatMap fun p => (s.desc p).hw.copy := by
  have he := h.engine
  rw [hbusy] at he
  obtain rfl : j = x + 1 := hi.lists.place_unique hj he
  refine ⟨rfl, ?_⟩
  rw [take_succ_eq (show v.rest[x]? = some p from hj), List.flatMap_append, List.flatMap_singleton, ← List.append_assoc,
    ← h.copies]
  rfl

/-- Only a restart makes the device leave out something. -/
theorem Moved.carried {a : Act} {v' : View} (hm : Moved P s v a s' v') (hi : Inv s v) (h : Carried s v)
    (ha : ¬ Restarts s a) : Carried s' v' := by
  obtain ⟨x, hx⟩ := h
  cases hm with
  | prep hp hpool hfresh hchain hnew =>
    refine Carried.same ⟨x, hx⟩ ?_ ?_ ?_ ?_ fun p hpr => congrArg (·.hw.copy) (hp.rest_kept hi.lists hfresh hpr)
    all_goals rw [hp.state_eq]
    rfl
  | submit htail htx => exact Carried.submit ⟨x, hx⟩ hi htail htx
  | ack hd => exact Carried.same ⟨x, hx⟩ rfl rfl rfl rfl fun p _ => congrArg HwDesc.copy (hd p).hw
  | cleanup hpl hk hc hlock htimer =>
    obtain ⟨y, hy⟩ := Carried.cleanup ⟨x, hx⟩ hi hpl hk hc
    exact ⟨y, { hy with }⟩
  | restart hr htail => exact absurd ⟨rfl, hr⟩ ha
  | reset hr hc => exact ⟨x, hx.chansts, trivial, hx.copies⟩
  | idle hpl hbusy hxj hj hne =>
    obtain ⟨rfl, hcopies⟩ := hx.next hi hbusy hj
    exact ⟨x + 1, hj, hj, hcopies⟩
  | next hpl hbusy hxj hj hn =>
    obtain ⟨rfl, hcopies⟩ := hx.next hi hbusy hj
    exact ⟨x + 1, hj, hn, hcopies⟩
  | more hpl hidle hxj hj hn =>
    have he := hx.engine
    rw [hidle] at he
    obtain rfl := hi.lists.place_unique hj he
    exact ⟨_, hx.chansts, hn, hx.copies⟩
  | halt => exact ⟨x, hx.chansts, trivial, hx.copies⟩
  | _ => exact Carried.same ⟨x, hx⟩ rfl rfl rfl rfl fun p _ => rfl

/-- The channel is never restarted. -/
def Unbroken (P : Params) (s₀ : State) (as : List Act) : Prop := along (step P) (fun s a => ¬ Restarts s a) s₀ as

theorem Fresh.carried {p : Phys} (h : Fresh s p) : Carried s ⟨[], [p], []⟩ := by
  refine ⟨0, ?_, ?_, h.copies⟩
  · rw [h.chansts]
    exact congrArg some h.last_completion
  · rw [h.engine]
    rfl

/-- Of everything submitted the device has done a first part, what is reported included. -/
theorem Carried.reported (h : Carried s v) (hi : Inv s v) :
    ∃ n ≤ s.submitted.length, s.reports = (s.submitted.take n).map Tx.report ∧
      (s.submitted.take n).flatMap (fun t => t.req.chunks s.xfercap) <+: s.copies ∧
      s.copies <+: s.submitted.flatMap fun t => t.req.chunks s.xfercap := by
  obtain ⟨x, hx⟩ := h
  obtain ⟨n, hn, hr, hw, -⟩ := hi.books.reported
  refine ⟨n, hn, hr, ?_, ?_⟩
  · rw [hx.copies]
    exact hw.trans (List.prefix_append _ _)
  · rw [hx.copies, ← worked_flatMap, ← worked_append]
    have hscript := hi.books.script
    rw [← List.take_append_drop x v.rest, List.flatMap_append, ← List.append_assoc] at hscript
    have hfirst : _ <+: plan s.xfercap s.submitted := ⟨_, hscript⟩
    exact worked_prefix hfirst

theorem run_carried (h : Opened s₀) (hu : Unbroken P s₀ as) (hs : exec (step P) s₀ as = some s) :
    ∃ v, Inv s v ∧ Carried s v := by
  obtain ⟨p, hf⟩ := h.fresh
  exact run_rule (fun _ _ _ _ _ hi hc ha hm => hm.carried hi hc ha) hf.inv hf.carried hu hs

/-- Until a restart, what is reported has been carried out. -/
theorem reported_is_carried_out (h : Opened s₀) (hu : Unbroken P s₀ as) (hs : exec (step P) s₀ as = some s) :
    ∃ n ≤ s.submitted.length, s.reports = (s.submitted.take n).map Tx.report ∧
      (s.submitted.take n).flatMap (fun t => t.req.chunks s.xfercap) <+: s.copies ∧
      s.copies <+: s.submitted.flatMap fun t => t.req.chunks s.xfercap := by
  obtain ⟨v, hi, hc⟩ := run_carried h hu hs
  exact hc.reported hi

/-- A run without timer events. -/
theorem unbroken_of_timeless (P : Params) (s : State) (as : List Act) (h : Act.timer ∉ as) : Unbroken P s as := by
  apply along_of_mem
  rintro s a ha ⟨rfl, -⟩
  exact h ha

theorem reported_is_carried_out_sample : ∃ s, exec (step sampleParams) sampleChan sampleRun = some s ∧ s.copies.length = 3 ∧
    ∃ n ≤ s.submitted.length, s.reports = (s.submitted.take n).map Tx.report ∧
      (s.submitted.take n).flatMap (fun t => t.req.chunks s.xfercap) <+: s.copies ∧
      s.copies <+: s.submitted.flatMap fun t => t.req.chunks s.xfercap := by
  obtain ⟨s, hs⟩ := run_ends (show (exec (step sampleParams) sampleChan sampleRun).isSome = true from rfl)
  exact ⟨s, hs, run_value (·.copies.length) hs rfl,
    reported_is_carried_out sampleChan_opened (unbroken_of_timeless _ _ _ (by decide)) hs⟩

end Dmacftu.Ioat
