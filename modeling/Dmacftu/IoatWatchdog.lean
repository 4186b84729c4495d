import Dmacftu.IoatRestart
/-!
# The watchdog

While a transaction is unreported the timer is armed, or about to be
(`watchdog_armed`), and whatever the device does, halting included, the timer's
events, with at most one descriptor carried out, lead to the point where everything
is reported (`watchdog_recovers`).

They get there by a reset and a restart of the channel, and `restart_skips` says
what that costs: the device starts at the last descriptor, so that the others are
reported without having been carried out.
-/
open Lib.CopyEngine Lib.Links Lib.Runs Lib.Script

namespace Dmacftu.Ioat

variable {P : Params} {s s' s₀ : State} {v v' : View} {a : Act} {as : List Act}

/-! ## Armed -/

/-- There is a transaction that is not reported. -/
def Outstanding (s : State) (v : View) : Prop := ∃ p ∈ v.rest, (s.desc p).cookie ≠ 0

structure Watched (s : State) (v : View) : Prop where
  outstanding : Outstanding s v → s.completion_pending = true
  armed : s.completion_pending = true ∨ s.reset_pending = true →
    s.timer = true ∨ ∃ status, s.cleanup_lock = some (.timer status)

theorem told_of_clean {ps : List Phys} (h : ∀ p ∈ ps, (s.desc p).cookie = 0) : told s ps = [] := by
  induction ps with
  | nil => rfl
  | cons p ps ih =>
    rw [told_cons, if_neg (not_not.2 (h p List.mem_cons_self)), List.nil_append]
    exact ih fun q hq => h q (List.mem_cons_of_mem p hq)

theorem Books.all_reported (h : Books s v) (hn : ¬ Outstanding s v) : s.reports = s.submitted.map Tx.report := by
  have htold : told s v.rest = [] := told_of_clean fun p hp => by_contra fun hc => hn ⟨p, hp, hc⟩
  have hscript := congrArg noticed h.script
  rw [noticed_append, ← told, htold, List.append_nil, plan, noticed_script] at hscript
  rw [h.reports, hscript, List.map_map]
  rfl

/-- A step that leaves the descriptors of the line and the flags alone. -/
theorem Watched.same (h : Watched s v) (hcookie : ∀ p ∈ v.rest, (s'.desc p).cookie = (s.desc p).cookie)
    (hpending : s'.completion_pending = s.completion_pending) (hreset : s'.reset_pending = s.reset_pending)
    (harmed : s'.timer = true ∨ s'.timer = s.timer ∧ s'.cleanup_lock = s.cleanup_lock) : Watched s' v := by
  refine ⟨?_, fun hp => ?_⟩
  · rintro ⟨p, hp, hc⟩
    rw [hpending]
    exact h.outstanding ⟨p, hp, hcookie p hp ▸ hc⟩
  · rcases harmed with ht | ⟨ht, hl⟩
    · exact .inl ht
    · rw [hpending, hreset] at hp
      rw [ht, hl]
      exact h.armed hp

theorem Watched.armed_of_unlocked (h : Watched s v) (hp : s.completion_pending = true ∨ s.reset_pending = true)
    (hl : ∀ status, s.cleanup_lock ≠ some (.timer status)) : s.timer = true := by
  rcases h.armed hp with ht | ⟨status, hs⟩
  · exact ht
  · exact absurd hs (hl status)

theorem cleanupTo_outstanding (h : Lists s v) {k : Nat} {pc : Phys} (hk : v.rest[k]? = some pc)
    (ho : Outstanding (cleanupTo P s pc) (v.advance s k pc)) :
    Outstanding s v ∧ (cleanupTo P s pc).completion_pending = s.completion_pending := by
  obtain ⟨p, hp, hc⟩ := ho
  rw [cleanupTo_outs h hk p hp] at hc
  refine ⟨⟨p, List.mem_of_mem_drop hp, hc⟩, ?_⟩
  rw [cleanupTo_eq h hk]
  exact if_neg (List.ne_nil_of_mem hp)

theorem Moved.watched (hm : Moved P s v a s' v') (hi : Inv s v) (h : Watched s v) : Watched s' v' := by
  cases hm with
  | prep hp hpool hfresh hchain hnew =>
    refine h.same (fun p hpr => congrArg DescSw.cookie (hp.rest_kept hi.lists hfresh hpr)) ?_ ?_ (.inr ⟨?_, ?_⟩)
    all_goals rw [hp.state_eq]
  | submit htail htx =>
    refine ⟨fun _ => rfl, fun _ => ?_⟩
    by_cases hc : s.completion_pending = true
    · rcases h.armed (.inl hc) with ht | hl
      · exact .inl (by simp [afterSubmit, ht])
      · exact .inr hl
    · exact .inl (by simp [afterSubmit, hc])
  | ack hd => exact h.same (fun p _ => (hd p).cookie) rfl rfl (.inr ⟨rfl, rfl⟩)
  | progress hlock hne => exact h.same (fun _ _ => rfl) rfl rfl (.inl rfl)
  | unlock hlock =>
    refine ⟨h.outstanding, fun hp => .inl ?_⟩
    exact h.armed_of_unlocked hp fun status => by rw [hlock]; simp
  | @cleanup _ k c x pc completion_ack timer hpl hk hc hlock htimer =>
    have hflags : (cleanupTo P s pc).completion_pending = true → s.completion_pending = true := by
      rw [cleanupTo_eq hi.lists hk]
      dsimp only
      split
      · exact fun hf => absurd hf Bool.false_ne_true
      · exact id
    have hreset : (cleanupTo P s pc).reset_pending = s.reset_pending := by
      rw [cleanupTo_state hi.lists hk]
    refine ⟨fun ho => ?_, fun hp => .inl ?_⟩
    · obtain ⟨hout, hsame⟩ := cleanupTo_outstanding hi.lists hk ho
      exact hsame.trans (h.outstanding hout)
    · rcases htimer with ht | ht
      · exact ht
      · refine ht.trans (h.armed_of_unlocked ?_ hlock)
        exact hp.imp hflags fun hr => hreset.symm.trans hr
  | expired hc hr =>
    exact ⟨h.outstanding, fun hp => absurd hp (by simp [hc, hr])⟩
  | restart hr htail => exact ⟨fun _ => rfl, fun _ => .inl rfl⟩
  | reset hr hc => exact ⟨fun _ => hc, fun _ => .inl rfl⟩
  | status hr hc hack => exact ⟨fun _ => hc, fun _ => .inr ⟨_, rfl⟩⟩
  | wait hr hc hack => exact ⟨fun _ => hc, fun _ => .inl rfl⟩
  | timer_write hlock => exact ⟨h.outstanding, fun _ => .inl rfl⟩
  | _ => exact h.same (fun _ _ => rfl) rfl rfl (.inr ⟨rfl, rfl⟩)

theorem Fresh.watched {p : Phys} (h : Fresh s p) : Watched s ⟨[], [p], []⟩ := by
  refine ⟨?_, fun hp => absurd hp (by simp [h.completion_pending, h.reset_pending])⟩
  rintro ⟨q, hq, hc⟩
  rw [List.mem_singleton.1 hq, h.null] at hc
  exact absurd rfl hc

theorem run_watched (h : Opened s₀) (hs : exec (step P) s₀ as = some s) : ∃ v, Inv s v ∧ Watched s v := by
  obtain ⟨n, hf⟩ := h.fresh
  exact run_rule (A := fun _ _ => True) (fun _ _ _ _ _ hi hw _ hm => hm.watched hi hw) hf.inv hf.watched
    (along_of_mem fun _ _ _ => trivial) hs

theorem watchdog_armed (h : Opened s₀) (hs : exec (step P) s₀ as = some s) (hlt : s.reports.length < s.submitted.length) :
    s.completion_pending = true ∧ (s.timer = true ∨ ∃ status, s.cleanup_lock = some (.timer status)) := by
  obtain ⟨v, hi, hw⟩ := run_watched h hs
  have hp : s.completion_pending = true := by
    apply hw.outstanding
    by_contra hn
    rw [hi.books.all_reported hn, List.length_map] at hlt
    exact absurd hlt (Nat.lt_irrefl _)
  exact ⟨hp, hw.armed (.inl hp)⟩

theorem watchdog_armed_sample : ∃ s, exec (step sampleParams) sampleChan sampleSubmit = some s ∧
    s.completion_pending = true ∧ (s.timer = true ∨ ∃ status, s.cleanup_lock = some (.timer status)) := by
  obtain ⟨s, hs⟩ := run_ends (show (exec (step sampleParams) sampleChan sampleSubmit).isSome = true from rfl)
  have hlt : s.reports.length < s.submitted.length :=
    of_decide_eq_true (run_value (fun s => decide (s.reports.length < s.submitted.length)) hs rfl)
  exact ⟨s, hs, watchdog_armed sampleChan_opened hs hlt⟩

/-! ## The restart -/

/-- What the restart and the first descriptor after it leave. -/
def restarted (s : State) (tail : Phys) : State :=
  { s with
    reset_pending := false
    engine := .idle tail
    pending := 0
    completion_pending := true
    timer := true
    copies := s.copies ++ (s.desc tail).hw.copy
    chansts := tail
    completion := tail }

variable {tail : Phys}

theorem Inv.restart_eq (h : Inv s v) (hr : s.reset_pending = true) (ht : s.timer = true) (hl : s.cleanup_lock = none)
    (htail : s.used_desc.getLast? = some tail) (hsize : (s.desc tail).hw.size ≠ 0) (reread : Bool) :
    exec (step P) s [.timer, .finish reread] = some (restarted s tail) := by
  obtain ⟨hline, hne⟩ := h.lists.tail_line htail
  have hnext : (s.desc tail).hw.next = 0 := by
    have hend : (line s v)[(line s v).length - 1 + 1]? = none := List.getElem?_eq_none (by simp [line])
    have hn := h.lists.line_next hline hne
    rwa [hend, Option.getD_none] at hn
  have hwrite := h.lists.compl_write tail htail
  simp [exec, step, ht, hl, ioat1_timer_event, hr, Ioat.restart, htail, State.fetch, Ioat.finish, hsize, hnext, hwrite, restarted]

theorem Inv.restarted_inv (P : Params) (h : Inv s v) (hr : s.reset_pending = true) (ht : s.timer = true)
    (hl : s.cleanup_lock = none) (htail : s.used_desc.getLast? = some tail) (hsize : (s.desc tail).hw.size ≠ 0) :
    ∃ v', Inv (restarted s tail) v' := by
  have hs := h.restart_eq (P := P) hr ht hl htail hsize false
  obtain ⟨t, ht, hs⟩ := exec_cons.1 hs
  obtain ⟨u, hu, hs⟩ := exec_cons.1 hs
  cases hs
  obtain ⟨v₁, hm₁⟩ := step_moved h ht
  obtain ⟨v₂, hm₂⟩ := step_moved (hm₁.inv h) hu
  exact ⟨v₂, hm₂.inv (hm₁.inv h)⟩

/-- Cleaning up when the last descriptor is complete. -/
theorem Inv.cleanup_all (h : Inv s v) (htail : s.used_desc.getLast? = some tail) (hc : s.completion = tail) :
    (ioat1_cleanup P s).reports = s.submitted.map Tx.report ∧ (ioat1_cleanup P s).copies = s.copies ∧
      (ioat1_cleanup P s).submitted = s.submitted := by
  have hline := (h.lists.tail_line htail).1
  obtain ⟨c, x, hpl⟩ := h.placed
  have hplace : c = v.rest.length := h.lists.place_unique (hc ▸ hpl.completion) hline
  unfold ioat1_cleanup
  split
  next heq =>
    refine ⟨h.books.all_reported ?_, rfl, rfl⟩
    have h0 : c = 0 := h.lists.place_unique hpl.completion (congrArg some heq.symm)
    rintro ⟨p, hp, -⟩
    rw [List.length_eq_zero_iff.1 (hplace.symm.trans h0)] at hp
    cases hp
  next hne =>
    obtain ⟨k, rfl⟩ := Nat.exists_eq_add_one.2 (hpl.progress hne)
    have hk : v.rest[k]? = some s.completion := hpl.completion
    have hlists : Lists (preamble s) v := { h.lists with }
    have hbooks : Books (preamble s) v := { h.books with }
    have hall := (hbooks.cleanup (P := P) hlists hk).all_reported (by
      rintro ⟨p, hp, -⟩
      rw [View.advance, hplace, List.drop_length] at hp
      cases hp)
    have hsub : (cleanupTo P (preamble s) s.completion).submitted = s.submitted := by
      rw [cleanupTo_state hlists hk]
      rfl
    exact ⟨hsub ▸ hall, (cleanupTo_device hlists hk).2.2.2.2, hsub⟩

/-- A restart and the next clean-up: all transactions are reported, and of those unfinished only the last descriptor is
carried out. -/
theorem restart_skips (h : Opened s₀) (hs : exec (step P) s₀ as = some s) (hr : s.reset_pending = true) (ht : s.timer = true)
    (hl : s.cleanup_lock = none) (htail : s.used_desc.getLast? = some tail) (hsize : (s.desc tail).hw.size ≠ 0)
    (reread : Bool) : ∃ s', exec (step P) s [.timer, .finish reread] = some s' ∧
      (ioat1_cleanup P s').reports = s.submitted.map Tx.report ∧
      (ioat1_cleanup P s').copies = s.copies ++ (s.desc tail).hw.copy := by
  obtain ⟨v, hi⟩ := run_inv h hs
  obtain ⟨v', hi'⟩ := hi.restarted_inv P hr ht hl htail hsize
  obtain ⟨hreports, hcopies, -⟩ := hi'.cleanup_all htail rfl
  exact ⟨_, hi.restart_eq hr ht hl htail hsize reread, hreports, hcopies⟩

theorem restart_skips_sample : ∃ s, exec (step sampleParams) sampleChan (sampleSubmit ++ [.timer, .timer]) = some s ∧
    ∃ s', exec (step sampleParams) s [.timer, .finish true] = some s' ∧
      (ioat1_cleanup sampleParams s').reports = s.submitted.map Tx.report ∧
      (ioat1_cleanup sampleParams s').copies = s.copies ++ (s.desc 256).hw.copy := by
  obtain ⟨s, hs⟩ :=
    run_ends (show (exec (step sampleParams) sampleChan (sampleSubmit ++ [.timer, .timer])).isSome = true from rfl)
  have hlast : s.used_desc.getLast? = some 256 := run_value (·.used_desc.getLast?) hs rfl
  have hsize : (s.desc 256).hw.size = 2 := run_value (fun s => (s.desc 256).hw.size) hs rfl
  exact ⟨s, hs, restart_skips sampleChan_opened hs (run_value State.reset_pending hs rfl) (run_value State.timer hs rfl)
    (run_value State.cleanup_lock hs rfl) hlast (by simp [hsize]) true⟩

/-! ## Recovery -/

/-- A step of the watchdog, or of a clean-up that gives up. -/
def Act.watchdog : Act → Bool
  | .timer | .timer_write | .cleanup_end false => true
  | _ => false

def Act.finishes : Act → Bool
  | .finish _ => true
  | _ => false

/-- The watchdog gets everything reported, with at most one descriptor carried out. -/
def Recovers (P : Params) (s : State) : Prop := ∃ bs s', exec (step P) s bs = some s' ∧
  (∀ b ∈ bs, b.watchdog = true ∨ b.finishes = true) ∧ bs.countP Act.finishes ≤ 1 ∧
  s'.submitted = s.submitted ∧ s'.reports = s.submitted.map Tx.report

theorem Recovers.of_step (hs : step P s a = some s') (ha : a.watchdog = true) (hsub : s'.submitted = s.submitted)
    (h : Recovers P s') : Recovers P s := by
  obtain ⟨bs, t, hbs, hw, hone, hsame, hrep⟩ := h
  refine ⟨a :: bs, t, exec_cons.2 ⟨s', hs, hbs⟩, ?_, ?_, hsame.trans hsub, hsub ▸ hrep⟩
  · intro b hb
    rcases List.mem_cons.1 hb with rfl | hb
    · exact .inl ha
    · exact hw b hb
  · have hnot : ¬ a.finishes = true := by
      cases a with
      | finish reread => cases ha
      | _ => exact Bool.false_ne_true
    rwa [List.countP_cons_of_neg hnot]

/-- The last descriptor has something to copy. -/
def TailSized (s : State) : Prop := ∀ tail, s.used_desc.getLast? = some tail → (s.desc tail).hw.size ≠ 0

theorem Inv.recovers_reset (h : Inv s v) (hr : s.reset_pending = true) (ht : s.timer = true) (hl : s.cleanup_lock = none)
    (hsize : TailSized s) : Recovers P s := by
  obtain ⟨tail, htail, -⟩ := h.lists.last_used
  have hexec := h.restart_eq (P := P) hr ht hl htail (hsize tail htail) false
  obtain ⟨v', hi⟩ := h.restarted_inv P hr ht hl htail (hsize tail htail)
  obtain ⟨hreports, -, hsub⟩ := hi.cleanup_all htail rfl
  by_cases hc : tail = s.last_completion
  · have hsame : ioat1_cleanup P (restarted s tail) = restarted s tail := if_pos hc
    rw [hsame] at hreports
    exact ⟨_, _, hexec, by simp [Act.watchdog, Act.finishes], by decide, rfl, hreports⟩
  · have hstep : step P (restarted s tail) .timer = some (ioat1_cleanup P (restarted s tail)) := by
      simp [step, restarted, hl, ioat1_timer_event, ioat1_cleanup, hc, preamble]
    exact ⟨[.timer, .finish false] ++ [.timer], _, exec_concat.2 ⟨_, hexec, hstep⟩, by simp [Act.watchdog, Act.finishes],
      by decide, hsub, hreports⟩

theorem Recovers.done (h : Inv s v) (hn : ¬ Outstanding s v) : Recovers P s :=
  ⟨[], s, rfl, by simp, Nat.zero_le 1, rfl, h.books.all_reported hn⟩

/-- Each event of the timer cleans something up, or sets `COMPLETION_ACK`, or resets the channel. -/
theorem Inv.recovers (n : Nat) (hn : 2 * v.rest.length + (if s.completion_ack then 0 else 1) ≤ n) (h : Inv s v)
    (hw : Watched s v) (hl : s.cleanup_lock = none) (hsize : TailSized s) : Recovers P s := by
  -- the measure: the descriptors left twice, and whether `COMPLETION_ACK` is yet to be set
  induction n generalizing s v with
  | zero =>
    refine .done h ?_
    rintro ⟨p, hp, -⟩
    have := List.length_pos_of_mem hp
    omega
  | succ n ih =>
    by_cases ho : Outstanding s v
    · have hp := hw.outstanding ho
      have ht := hw.armed_of_unlocked (.inl hp) fun status => by rw [hl]; simp
      by_cases hr : s.reset_pending = true
      · exact h.recovers_reset hr ht hl hsize
      have hstep : step P s .timer = some (ioat1_timer_event P { s with timer := false }) := if_pos ⟨ht, hl⟩
      generalize ioat1_timer_event P { s with timer := false } = t at hstep
      obtain ⟨v', hm⟩ := step_moved h hstep
      have hi' := hm.inv h
      have hw' := hm.watched h hw
      cases hm with
      | @cleanup _ k c x pc completion_ack timer hpl hk hc hlock htimer =>
        have hlt := (List.getElem?_eq_some_iff.1 hk).1
        refine .of_step hstep rfl ?_ (ih ?_ hi' hw' rfl ?_)
        · show (cleanupTo P s pc).submitted = _
          rw [cleanupTo_state h.lists hk]
        · simp only [View.advance, List.length_drop]
          split <;> omega
        · intro tail htail
          show ((cleanupTo P s pc).desc tail).hw.size ≠ 0
          rw [(cleanupTo_hw h.lists hk tail).1]
          exact hsize tail ((cleanupTo_last h.lists hk) ▸ htail)
      | expired hc hr' => exact absurd (hp.symm.trans hc) (by simp)
      | restart hr' htail => exact absurd hr' hr
      | reset hr' hc => exact .of_step hstep rfl rfl (hi'.recovers_reset rfl rfl hl hsize)
      | status hr' hc hack =>
        have hwrite : step P { s with cleanup_lock := some (.timer s.chansts), timer := false } .timer_write = some { s with
            completion := s.chansts, completion_ack := true, timer := true, cleanup_lock := none } := rfl
        have hm₂ := Moved.timer_write (P := P) (s := { s with cleanup_lock := some (.timer s.chansts), timer := false }) (v := v) rfl
        refine .of_step hstep rfl rfl (.of_step hwrite rfl rfl (ih ?_ (hm₂.inv hi') (hm₂.watched hi' hw') rfl hsize))
        simp only [hack] at hn
        simpa using hn
      | wait hr' hc hack =>
        refine .of_step hstep rfl rfl (ih ?_ hi' hw' hl hsize)
        simp only [hack] at hn
        simpa using hn
    · exact .done h ho

/-- The last descriptor is the last piece of the last request. -/
theorem Pieces.tail_sized (h : Pieces s) (hcap : 0 < s.xfercap) {t : Tx} (ht : s.submitted.getLast? = some t)
    (hlen : t.req.len ≠ 0) : TailSized s := by
  intro tail htail
  have hcopy := h.tail t tail ht htail
  unfold HwDesc.copy at hcopy
  split at hcopy
  · cases hcopy
  · have hsize : (s.desc tail).hw.size = min (t.req.len - (t.req.count s.xfercap - 1) * s.xfercap) s.xfercap :=
      congrArg Desc.len (List.cons.inj hcopy).1
    have hdiv : (t.req.len - 1) / s.xfercap * s.xfercap ≤ t.req.len - 1 := Nat.div_mul_le_self _ _
    rw [Request.count, Nat.add_sub_cancel] at hsize
    omega

/-- From any state of any run, whatever the device has done, if the last transaction has something to copy. -/
theorem watchdog_recovers (h : Opened s₀) (hs : exec (step P) s₀ as = some s)
    (hlen : ∀ t, s.submitted.getLast? = some t → t.req.len ≠ 0) : Recovers P s := by
  obtain ⟨n, hf⟩ := h.fresh
  obtain ⟨v, hi, hw, hp⟩ := run_rule (A := fun _ _ => True) (I := fun s v => Watched s v ∧ Pieces s)
    (fun _ _ _ _ _ hi hI _ hm => ⟨hm.watched hi hI.1, hm.pieces hi hI.2⟩) hf.inv ⟨hf.watched, hf.pieces⟩
    (along_of_mem fun _ _ _ => trivial) hs
  rcases hlast : s.submitted.getLast? with _ | t
  · have hnil : s.submitted = [] := List.getLast?_eq_none_iff.1 hlast
    have hle := hi.books.reports_length
    rw [hnil, List.length_nil] at hle
    refine ⟨[], s, rfl, by simp, Nat.zero_le 1, rfl, ?_⟩
    rw [hnil, List.length_eq_zero_iff.1 (Nat.le_zero.1 hle), List.map_nil]
  · have hsize := hp.tail_sized hi.lists.cap_pos hlast (hlen t hlast)
    match hl : s.cleanup_lock with
    | none => exact hi.recovers _ (Nat.le_refl _) hw hl hsize
    | some (.cleanup pc) =>
      have hstep : step P s (.cleanup_end false) = some { s with cleanup_lock := none } := by simp [step, hl]
      have hm := Moved.unlock (P := P) (v := v) hl
      exact .of_step hstep rfl rfl ((hm.inv hi).recovers _ (Nat.le_refl _) (hm.watched hi hw) rfl hsize)
    | some (.timer status) =>
      have hstep : step P s .timer_write = some { s with
          completion := status, completion_ack := true, timer := true, cleanup_lock := none } := by simp [step, hl]
      have hm := Moved.timer_write (P := P) (v := v) hl
      exact .of_step hstep rfl rfl ((hm.inv hi).recovers _ (Nat.le_refl _) (hm.watched hi hw) rfl hsize)

theorem watchdog_recovers_sample : ∃ s, exec (step sampleParams) sampleChan (sampleSubmit ++ [.halt]) = some s ∧
    Recovers sampleParams s := by
  obtain ⟨s, hs⟩ := run_ends (show (exec (step sampleParams) sampleChan (sampleSubmit ++ [.halt])).isSome = true from rfl)
  have hlast : s.submitted.getLast? = some ⟨2, sampleReq, none⟩ := run_value (·.submitted.getLast?) hs rfl
  refine ⟨s, hs, watchdog_recovers sampleChan_opened hs fun t ht => ?_⟩
  obtain rfl := Option.some.inj (hlast.symm.trans ht)
  decide

end Dmacftu.Ioat
