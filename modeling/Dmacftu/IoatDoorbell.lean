import Dmacftu.IoatOrder
/-!
# The doorbell

The device reads the end of the chain when it fetches the last descriptor, and
what is submitted afterwards it learns of only through an `APPEND`. `pending`
counts what it may not know of. `idle_is_caught_up`: an idle device that nobody
has called, and that `pending` gives nobody a reason to call, has reached the end.
`pending` is an `int`, so no request may have pieces enough to overflow it.
-/
open Lib.CInt Lib.CopyEngine Lib.Links Lib.Runs Lib.Script

namespace Dmacftu.Ioat

variable {P : Params} {s s' s₀ : State} {v v' : View} {a : Act} {as : List Act}

/-- The device has read that nothing follows a descriptor that has a next one by now. -/
def Behind (places : List Phys) : Engine → Prop
  | .stopped => False
  | .busy p next => next = 0 ∧ ∃ j q, places[j]? = some p ∧ places[j + 1]? = some q
  | .idle p => ∃ j q, places[j]? = some p ∧ places[j + 1]? = some q

/-- No request has pieces enough for `pending` to overflow. -/
def Few (P : Params) (s : State) : Prop :=
  ∀ t ∈ s.submitted, (t.req.count s.xfercap : Int) + max 1 P.ioat_pending_level ≤ 2 ^ 31

theorem Few.mono (h : Few P s') (hg : Grown s s') : Few P s := fun t ht => hg.xfercap ▸ h t (hg.submitted.subset ht)

structure Rung (P : Params) (s : State) (v : View) : Prop where
  pending : s.engine ≠ .stopped → 0 ≤ s.pending ∧ s.pending < max 1 P.ioat_pending_level
  behind : Behind (line s v) s.engine → s.append = true ∨ 0 < s.pending

/-- A descriptor just fetched: its `next` is up to date. -/
theorem Lists.not_behind_fetch (h : Lists s v) {p : Phys} (hne : p ≠ 0) : ¬ Behind (line s v) (.busy p (s.next p)) := by
  rintro ⟨hz, j, q, hp, hq⟩
  rw [h.line_next hp hne, hq, Option.getD_some] at hz
  exact h.rest_ne_zero (List.mem_of_getElem? (l := v.rest) hq) hz

theorem Lists.not_behind_last (h : Lists s v) {p : Phys} {j : Nat} (hp : (line s v)[j]? = some p)
    (hn : (line s v)[j + 1]? = none) : ¬ Behind (line s v) (.idle p) := by
  rintro ⟨i, q, hi, hq⟩
  obtain rfl := h.place_unique hi hp
  rw [hn] at hq
  cases hq

theorem Behind.drop {l : List Phys} {k : Nat} {e : Engine} (h : Behind (l.drop k) e) : Behind l e := by
  have hshift : ∀ {p : Phys}, (∃ j q, (l.drop k)[j]? = some p ∧ (l.drop k)[j + 1]? = some q) →
      ∃ j q, l[j]? = some p ∧ l[j + 1]? = some q := by
    rintro p ⟨j, q, hp, hq⟩
    rw [List.getElem?_drop] at hp hq
    exact ⟨k + j, q, hp, hq⟩
  cases e with
  | stopped => exact h
  | busy p next => exact ⟨h.1, hshift h.2⟩
  | idle p => exact hshift h

theorem Ready.count_pos {cap : Nat} {desc : Phys → DescSw} {r : Phys × Request} (h : Ready cap desc r) :
    0 < (desc r.1).hw.tx_cnt := by
  rw [h.tx_cnt, ← h.count]
  exact List.length_pos_of_mem (List.mem_of_getLast? h.last)

theorem Rung.submit (h : Rung P s v) (hi : Inv s v) {tx : Phys × Request} {callback : Option Nat} {tail : Phys}
    (htx : tx ∈ s.prepared) (hfew : Few P (afterSubmit P s tx callback tail)) :
    Rung P (afterSubmit P s tx callback tail) (v.extend s tx) := by
  have hready := hi.lists.ready tx htx
  have hcnt := hready.count_pos
  have hsmall : ((s.desc tx.1).hw.tx_cnt : Int) + max 1 P.ioat_pending_level ≤ 2 ^ 31 := by
    rw [hready.tx_cnt]
    exact hfew _ (List.mem_append_right s.submitted (List.mem_singleton_self _))
  by_cases hp : s32 (s.pending + (s.desc tx.1).hw.tx_cnt) ≥ P.ioat_pending_level
  · refine ⟨fun _ => ?_, fun _ => .inl ?_⟩
    · simp [afterSubmit, hp]
    · simp [afterSubmit, hp]
  · -- below the level: the doorbell stays, and the new pieces are counted
    have hpend : (afterSubmit P s tx callback tail).pending = s32 (s.pending + (s.desc tx.1).hw.tx_cnt) := by
      simp [afterSubmit, hp]
    have hsum : s.engine ≠ .stopped →
        s32 (s.pending + (s.desc tx.1).hw.tx_cnt) = s.pending + (s.desc tx.1).hw.tx_cnt := by
      intro hne
      obtain ⟨h0, hlt⟩ := h.pending hne
      exact s32_of_range (by omega) (by omega)
    refine ⟨fun hne => ?_, fun hb => ?_⟩
    · have h0 := h.pending hne
      rw [hpend]
      rw [hsum hne] at hp ⊢
      omega
    · have hne : s.engine ≠ .stopped := by
        intro hs
        change Behind _ s.engine at hb
        rw [hs] at hb
        exact hb
      have h0 := h.pending hne
      refine .inr ?_
      rw [hpend, hsum hne]
      omega

/-- What a doorbell leaves. -/
theorem idle_pending : (0 : Int) ≤ 0 ∧ 0 < max 1 P.ioat_pending_level := by omega

theorem Rung.same (h : Rung P s v) (hline : line s' v = line s v) (hengine : s'.engine = s.engine)
    (happend : s'.append = s.append) (hpending : s'.pending = s.pending) : Rung P s' v := by
  refine ⟨?_, ?_⟩
  · rw [hengine, hpending]; exact h.pending
  · rw [hline, hengine, happend, hpending]; exact h.behind

theorem Rung.cleanup (h : Rung P s v) (hi : Inv s v) {k : Nat} {pc : Phys} (hk : v.rest[k]? = some pc) :
    Rung P (cleanupTo P s pc) (v.advance s k pc) := by
  have hsame : (cleanupTo P s pc).pending = s.pending ∧ (cleanupTo P s pc).append = s.append := by
    rw [cleanupTo_state hi.lists hk]
    exact ⟨rfl, rfl⟩
  have hengine := (cleanupTo_device (P := P) hi.lists hk).2.2.1
  refine ⟨?_, ?_⟩
  · rw [hengine, hsame.1]
    exact h.pending
  · rw [line_cleanup hi.lists hk, hengine, hsame.1, hsame.2]
    exact fun hb => h.behind hb.drop

theorem Moved.rung (hm : Moved P s v a s' v') (hi : Inv s v) (h : Rung P s v) (hfew : Few P s') : Rung P s' v' := by
  cases hm with
  | prep hp hpool hfresh hchain hnew =>
    apply Rung.same h
    all_goals rw [hp.state_eq]
    rfl
  | submit htail htx => exact h.submit hi htx hfew
  | issue => exact ⟨fun _ => idle_pending, fun _ => .inl rfl⟩
  | cleanup hpl hk hc hlock htimer =>
    have hr := h.cleanup hi hk
    exact { hr with }
  | restart hr htail =>
    have hne := (hi.lists.tail_line htail).2
    exact ⟨fun _ => idle_pending, fun hb => absurd hb (hi.lists.not_behind_fetch hne)⟩
  | reset hr hc => exact ⟨fun hne => absurd rfl hne, fun hb => hb.elim⟩
  | idle hpl hbusy hx hj hne =>
    refine ⟨fun _ => h.pending (by rw [hbusy]; nofun), fun hb => h.behind ?_⟩
    rw [hbusy]
    exact ⟨rfl, hb⟩
  | next hpl hbusy hx hj hn =>
    have hne := hi.lists.rest_ne_zero (List.mem_of_getElem? (l := v.rest) hn)
    exact ⟨fun _ => h.pending (by rw [hbusy]; nofun), fun hb => absurd hb (hi.lists.not_behind_fetch hne)⟩
  | no_more hpl hidle hx hj hn =>
    refine ⟨h.pending, fun hb => absurd (show Behind (line s v) s.engine from hb) ?_⟩
    rw [hidle]
    exact hi.lists.not_behind_last hj hn
  | more hpl hidle hx hj hn =>
    have hne := hi.lists.rest_ne_zero (List.mem_of_getElem? (l := v.rest) hn)
    exact ⟨fun _ => h.pending (by rw [hidle]; nofun), fun hb => absurd hb (hi.lists.not_behind_fetch hne)⟩
  | halt => exact ⟨fun hne => absurd rfl hne, fun hb => hb.elim⟩
  | _ => exact h.same rfl rfl rfl rfl

theorem Moved.rung_of_few (hm : Moved P s v a s' v') (hi : Inv s v) (h : Few P s → Rung P s v) (hfew : Few P s') :
    Rung P s' v' := hm.rung hi (h (hfew.mono (hm.grown hi (.refl s)))) hfew

theorem Fresh.rung {p : Phys} (h : Fresh s p) : Rung P s ⟨[], [p], []⟩ := by
  refine ⟨fun _ => h.pending ▸ idle_pending, fun hb => ?_⟩
  rw [h.engine] at hb
  obtain ⟨-, j, q, hj, hq⟩ := hb
  have hplace := h.inv.lists.place_unique hj (show (line s ⟨[], [p], []⟩)[1]? = some p from rfl)
  rw [hplace] at hq
  cases hq

/-- Everything up to the last descriptor: with `x` at the end of the line, all that was submitted. -/
theorem CarriedAt.all {x : Nat} (h : CarriedAt s v x) (hi : Inv s v) (hx : (line s v)[x + 1]? = none) :
    s.copies = s.submitted.flatMap fun t => t.req.chunks s.xfercap := by
  have hlen : v.rest.length ≤ x := by
    have := List.getElem?_eq_none_iff.1 hx
    simpa [line] using this
  rw [h.copies, List.take_of_length_le hlen, ← worked_flatMap, ← worked_append, hi.books.script, plan, worked_script]

/-- An idle device that nobody is going to call has reached the end of the chain. -/
theorem idle_is_caught_up (h : Opened s₀) (hs : exec (step P) s₀ as = some s) {p : Phys} (hidle : s.engine = .idle p)
    (happend : s.append = false) (hpending : s.pending ≤ 0) (hfew : Few P s) : s.used_desc.getLast? = some p ∧
      (Unbroken P s₀ as → s.copies = s.submitted.flatMap fun t => t.req.chunks s.xfercap) := by
  obtain ⟨n, hf⟩ := h.fresh
  obtain ⟨v, hi, hr⟩ := run_rule (A := fun _ _ => True) (I := fun s v => Few P s → Rung P s v)
    (fun _ _ _ _ _ hi hr _ hm => hm.rung_of_few hi hr) hf.inv (fun _ => hf.rung) (along_of_mem fun _ _ _ => trivial) hs
  have hend : ∀ {v : View}, Rung P s v → ∀ {j : Nat}, (line s v)[j]? = some p → (line s v)[j + 1]? = none := by
    intro v hr j hj
    rcases hn : (line s v)[j + 1]? with _ | q
    · rfl
    · have hb : Behind (line s v) s.engine := by
        rw [hidle]
        exact ⟨j, q, hj, hn⟩
      rcases hr.behind hb with ha | hp
      · exact absurd (happend.symm.trans ha) Bool.false_ne_true
      · omega
  constructor
  · obtain ⟨c, x, hpl⟩ := hi.placed
    have he := hpl.engine
    rw [hidle] at he
    obtain ⟨j, -, hj, -⟩ := he
    obtain ⟨tail, htail, -⟩ := hi.lists.last_used
    have hlast := (hi.lists.tail_line htail).1
    have hj' : j = (line s v).length - 1 := by
      have h1 := List.getElem?_eq_none_iff.1 (hend (hr hfew) hj)
      have h2 := (List.getElem?_eq_some_iff.1 hj).1
      omega
    rw [htail, ← hlast, ← hj', hj]
  · intro hu
    obtain ⟨v, hi, ⟨x, hx⟩, hr⟩ := run_rule (I := fun s v => Carried s v ∧ (Few P s → Rung P s v))
      (fun _ _ _ _ _ hi hI ha hm => ⟨hm.carried hi hI.1 ha, hm.rung_of_few hi hI.2⟩) hf.inv
      ⟨hf.carried, fun _ => hf.rung⟩ hu hs
    have he := hx.engine
    rw [hidle] at he
    exact hx.all hi (hend (hr hfew) he)

theorem idle_is_caught_up_sample : ∃ s, exec (step sampleParams) sampleChan (sampleRun ++ [.lookForMore]) = some s ∧
    s.used_desc.getLast? = some 256 ∧
      (Unbroken sampleParams sampleChan (sampleRun ++ [.lookForMore]) →
        s.copies = s.submitted.flatMap fun t => t.req.chunks s.xfercap) := by
  obtain ⟨s, hs⟩ := run_ends (show (exec (step sampleParams) sampleChan (sampleRun ++ [.lookForMore])).isSome = true from rfl)
  have hsub : s.submitted = [⟨2, sampleReq, none⟩] := run_value State.submitted hs rfl
  have hcap : s.xfercap = 4 := run_value State.xfercap hs rfl
  have hfew : Few sampleParams s := by
    intro t ht
    rw [hsub] at ht
    rw [List.mem_singleton.1 ht, hcap]
    decide
  exact ⟨s, hs, idle_is_caught_up sampleChan_opened hs (run_value State.engine hs rfl) (run_value State.append hs rfl)
    (run_value State.pending hs rfl).le hfew⟩

end Dmacftu.Ioat
