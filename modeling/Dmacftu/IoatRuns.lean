import Dmacftu.IoatSubmit
/-!
# Every run of the channel

`Moved` says, for a state with the invariant, what each step of the driver, of its
clients and of the device can do to the state and to its view. The invariant goes
through every step (`Moved.inv`), and `run_rule` is the rule for whatever else does.
-/
open Lib.CopyEngine Lib.Links Lib.Runs Lib.Script

namespace Dmacftu.Ioat

variable {P : Params} {s s' : State} {v : View}

/-! ## The line -/

theorem Lists.rest_ne_zero (h : Lists s v) {p : Phys} (hp : p ∈ v.rest) : p ≠ 0 :=
  fun h0 => h.nonzero (h0 ▸ h.mem_held.2 (.inr (.inr (.inl hp))))

theorem Lists.last_not_mem (h : Lists s v) : s.last_completion ∉ v.rest := by
  intro hm
  have hlast := h.last
  have hnd := h.trail_nodup
  rcases hs : v.settled.getLast? with _ | t
  · rw [hs] at hlast
    exact h.rest_ne_zero hm hlast.symm
  · rw [hs] at hlast hnd
    exact (List.nodup_cons.1 hnd).1 ((show t = _ from hlast) ▸ hm)

/-- The chain runs along the line. -/
theorem Lists.line_next (h : Lists s v) {j : Nat} {p : Phys} (hp : (line s v)[j]? = some p) (hne : p ≠ 0) :
    s.next p = (line s v)[j + 1]?.getD 0 := by
  have hlast := h.last
  have hl := h.linked
  rcases hs : v.settled.getLast? with _ | t
  · rw [hs] at hlast hl
    cases j with
    | zero => exact absurd ((Option.some.inj hp).symm.trans hlast.symm) hne
    | succ j => exact hl.next_eq hp
  · rw [hs] at hlast hl
    obtain rfl : t = s.last_completion := hlast
    exact hl.next_eq hp

theorem Lists.engineAt_fetch (h : Lists s v) {j x : Nat} {p : Phys} (hp : (line s v)[j]? = some p) (hne : p ≠ 0) (hx : x ≤ j) :
    EngineAt (line s v) x (.busy p (s.next p)) := by
  refine ⟨j, hx, hp, hne, ?_⟩
  rw [h.line_next hp hne]
  rcases hn : (line s v)[j + 1]? with _ | q
  · exact .inl rfl
  · exact .inr rfl

theorem Lists.tail_line (h : Lists s v) {tail : Phys} (ht : s.used_desc.getLast? = some tail) :
    (line s v)[(line s v).length - 1]? = some tail ∧ tail ≠ 0 := by
  obtain ⟨t, ht', hl⟩ := h.last_used
  obtain rfl : t = tail := Option.some.inj (ht'.symm.trans ht)
  have hmem : t ∈ s.used_desc := List.mem_of_getLast? ht
  have hne : t ≠ 0 := by
    rintro rfl
    apply h.nonzero
    simp [State.held, hmem]
  refine ⟨?_, hne⟩
  rw [← List.getLast?_eq_getElem?, line]
  have hlast := h.last
  rcases hs : v.settled.getLast? with _ | u
  · rw [hs] at hl
    rw [List.getLast?_cons, show v.rest.getLast? = some t from hl]
    rfl
  · rw [hs] at hl hlast
    obtain rfl : u = s.last_completion := hlast
    exact hl

/-! ## Preparing -/

section
variable {pool taken chain : List Phys} {new : List (Phys × Request)}

theorem Prepared.fields (hp : Prepared s pool taken chain s') : s'.xfercap = s.xfercap ∧ s'.used_desc = s.used_desc ∧
    s'.last_completion = s.last_completion ∧ s'.prepared = s.prepared := by
  refine ⟨?_, ?_, ?_, ?_⟩ <;> rw [hp.state_eq]

/-- A descriptor that is in use keeps its contents. -/
theorem Prepared.kept (hp : Prepared s pool taken chain s') (hfresh : ∀ p ∈ pool, p ≠ 0 ∧ p ∉ s.held) {p : Phys}
    (hf : p ∉ s.free_desc) (hm : p ∈ s.held) : s'.desc p = s.desc p := by
  apply hp.frame
  rw [List.mem_append]
  rintro (hpf | hpt)
  · exact hf hpf
  · exact (hfresh p (hp.taken_prefix.subset hpt)).2 hm

theorem Lists.used_off (h : Lists s v) {p : Phys} (hp : p ∈ s.used_desc) : p ∉ s.free_desc ∧ p ∈ s.held := by
  have hnd := (List.nodup_append.1 h.nodup).1
  exact ⟨fun hf => (List.disjoint_of_nodup_append hnd) hf hp, by simp [State.held, hp]⟩

theorem Lists.chain_held (h : Lists s v) {r : Phys × Request} (hr : r ∈ s.prepared) {p : Phys}
    (hp : p ∈ (s.desc r.1).tx_list) : p ∉ s.free_desc ∧ p ∈ s.held :=
  ⟨(h.chain_off hr hp).1, h.mem_held.2 (.inr (.inr (.inr (List.mem_flatMap.2 ⟨r, hr, hp⟩))))⟩

/-- What is in use keeps its contents. -/
theorem Prepared.used_kept (hp : Prepared s pool taken chain s') (h : Lists s v) (hfresh : ∀ p ∈ pool, p ≠ 0 ∧ p ∉ s.held)
    {p : Phys} (hpu : p ∈ s.used_desc) : s'.desc p = s.desc p := hp.kept hfresh (h.used_off hpu).1 (h.used_off hpu).2

theorem Prepared.rest_kept (hp : Prepared s pool taken chain s') (h : Lists s v) (hfresh : ∀ p ∈ pool, p ≠ 0 ∧ p ∉ s.held)
    {p : Phys} (hr : p ∈ v.rest) : s'.desc p = s.desc p := by
  exact hp.used_kept h hfresh (by rw [h.used]; exact List.mem_append_right _ hr)

theorem Prepared.chain_kept (hp : Prepared s pool taken chain s') (h : Lists s v) (hfresh : ∀ p ∈ pool, p ≠ 0 ∧ p ∉ s.held)
    {r : Phys × Request} (hr : r ∈ s.prepared) {p : Phys} (hpc : p ∈ (s.desc r.1).tx_list) : s'.desc p = s.desc p :=
  hp.kept hfresh (h.chain_held hr hpc).1 (h.chain_held hr hpc).2

theorem Prepared.held (hp : Prepared s pool taken chain s') (h : Lists s v) (hfresh : ∀ p ∈ pool, p ≠ 0 ∧ p ∉ s.held)
    (hchain : chain = new.flatMap fun r => (s'.desc r.1).tx_list) :
    (State.held { s' with prepared := s.prepared ++ new }).Perm (taken ++ s.held) := by
  obtain ⟨-, hused, -⟩ := hp.fields
  have hkept : ∀ r ∈ s.prepared, s'.desc r.1 = s.desc r.1 := fun r hr => hp.chain_kept h hfresh hr (h.tx_mem hr)
  unfold State.held
  dsimp only
  rw [List.flatMap_append, ← hchain, List.flatMap_congr fun r hr => by rw [hkept r hr], hused]
  have hperm := hp.perm
  calc s'.free_desc ++ s.used_desc ++ ((s.prepared.flatMap fun r => (s.desc r.1).tx_list) ++ chain)
      |>.Perm (chain ++ (s'.free_desc ++ s.used_desc ++ s.prepared.flatMap fun r => (s.desc r.1).tx_list)) := by
        rw [← List.append_assoc]
        exact List.perm_append_comm
    _ |>.Perm (s.free_desc ++ taken ++ (s.used_desc ++ s.prepared.flatMap fun r => (s.desc r.1).tx_list)) := by
        rw [List.append_assoc, ← List.append_assoc]
        exact hperm.append_right _
    _ |>.Perm (taken ++ (s.free_desc ++ s.used_desc ++ s.prepared.flatMap fun r => (s.desc r.1).tx_list)) := by
        rw [List.append_assoc s.free_desc s.used_desc, ← List.append_assoc taken]
        exact List.perm_append_comm.append_right _

theorem Lists.prep (h : Lists s v) (hp : Prepared s pool taken chain s') (hpool : pool.Nodup)
    (hfresh : ∀ p ∈ pool, p ≠ 0 ∧ p ∉ s.held) (hchain : chain = new.flatMap fun r => (s'.desc r.1).tx_list)
    (hnew : ∀ r ∈ new, Ready s.xfercap s'.desc r) : Lists { s' with prepared := s.prepared ++ new } v := by
  obtain ⟨hcap, hused, hlast, -⟩ := hp.fields
  have hkeptUsed : ∀ p ∈ s.used_desc, s'.desc p = s.desc p := fun p hpu => hp.used_kept h hfresh hpu
  have hheld := hp.held h hfresh hchain
  -- the pool hands out what the channel does not have
  have hdisj : (taken ++ s.held).Nodup := by
    refine List.nodup_append'.2 ⟨hpool.sublist hp.taken_prefix.sublist, h.nodup, ?_⟩
    intro p hpt hph
    exact (hfresh p (hp.taken_prefix.subset hpt)).2 hph
  refine ⟨?_, ?_, ?_, h.started, hheld.nodup_iff.2 hdisj, ?_, ?_, ?_, ?_, ?_, ?_⟩
  · exact hcap ▸ h.cap_pos
  · exact hused.trans h.used
  · exact h.last.trans hlast.symm
  · intro h0
    rcases List.mem_append.1 (hheld.mem_iff.1 h0) with hm | hm
    · exact (hfresh 0 (hp.taken_prefix.subset hm)).1 rfl
    · exact h.nonzero hm
  · intro p hpm
    rcases List.mem_append.1 hpm with hpf | hps
    · exact hp.clean p hpf
    · show Clean (s'.desc p)
      rw [hkeptUsed p (by rw [h.used]; exact List.mem_append_left _ hps)]
      exact h.clean p (List.mem_append_right _ hps)
  · intro p hpr
    show (s'.desc p).tx_list = []
    rw [hkeptUsed p (by rw [h.used]; exact List.mem_append_right _ hpr)]
    exact h.tx_list p hpr
  · intro r hr
    rcases List.mem_append.1 hr with hr | hr
    · show Ready s'.xfercap s'.desc r
      rw [hcap]
      exact (h.ready r hr).congr fun p hpc => .of_eq (hp.chain_kept h hfresh hr hpc)
    · show Ready s'.xfercap s'.desc r
      rw [hcap]
      exact hnew r hr
  · refine h.linked.congr fun p hpt => ?_
    show (s'.desc p).hw.next = _
    rw [hkeptUsed p]
    rw [h.used]
    rcases List.mem_append.1 hpt with hpt | hpt
    · exact List.mem_append_left _ (List.mem_of_getLast? (Option.mem_toList.1 hpt))
    · exact List.mem_append_right _ hpt
  · intro tail ht
    have ht' : s.used_desc.getLast? = some tail := hused ▸ ht
    show (s'.desc tail).hw.ctl.compl_write = true
    rw [hkeptUsed tail (List.mem_of_getLast? ht')]
    exact h.compl_write tail ht'

theorem Books.prep (hl : Lists s v) (h : Books s v) (hp : Prepared s pool taken chain s')
    (hfresh : ∀ p ∈ pool, p ≠ 0 ∧ p ∉ s.held) : Books { s' with prepared := s.prepared ++ new } v := by
  have hout : v.rest.flatMap (fun p => (s'.desc p).outs) = v.rest.flatMap fun p => (s.desc p).outs := by
    exact List.flatMap_congr fun p hpr => by rw [hp.rest_kept hl hfresh hpr]
  have hsame : s'.xfercap = s.xfercap ∧ s'.submitted = s.submitted ∧ s'.reports = s.reports ∧ s'.active = s.active := by
    refine ⟨?_, ?_, ?_, ?_⟩ <;> rw [hp.state_eq]
  obtain ⟨hcap, hsub, hrep, hact⟩ := hsame
  refine ⟨?_, ?_, ?_⟩
  · dsimp only
    rw [hout, hcap, hsub]
    exact h.script
  · exact hrep.trans h.reports
  · dsimp only
    rw [hact, hcap, hsub]
    exact h.active

theorem Placed.prep (h : Placed s v) (hp : Prepared s pool taken chain s') :
    Placed { s' with prepared := s.prepared ++ new } v := by
  obtain ⟨c, x, h⟩ := h
  have hsame : s'.completion = s.completion ∧ s'.chansts = s.chansts ∧ s'.engine = s.engine ∧
      s'.cleanup_lock = s.cleanup_lock ∧ line s' v = line s v := by
    refine ⟨?_, ?_, ?_, ?_, ?_⟩
    all_goals rw [hp.state_eq]
    rfl
  obtain ⟨hcompletion, hchansts, hengine, hlock, hline⟩ := hsame
  refine ⟨c, x, ?_, ?_, h.le, ?_, ?_⟩
  · show (line s' v)[c]? = some s'.completion
    rw [hline, hcompletion]
    exact h.completion
  · show (line s' v)[x]? = some s'.chansts
    rw [hline, hchansts]
    exact h.chansts
  · show EngineAt (line s' v) x s'.engine
    rw [hline, hengine]
    exact h.engine
  · show HolderAt (line s' v) c x s'.cleanup_lock
    rw [hline, hlock]
    exact h.holder

end

/-! ## The client's acknowledgement -/

section
variable {desc : Phys → DescSw}

theorem Lists.alike (h : Lists s v) (hd : ∀ q, Alike (s.desc q) (desc q)) : Lists { s with desc := desc } v := by
  have hheld : State.held { s with desc := desc } = s.held := by
    simp only [State.held, (hd _).tx_list]
  refine ⟨h.cap_pos, h.used, h.last, h.started, hheld ▸ h.nodup, hheld ▸ h.nonzero, ?_, ?_, ?_, ?_, ?_⟩
  · exact fun p hp => (hd p).clean (h.clean p hp)
  · exact fun p hp => (hd p).tx_list.trans (h.tx_list p hp)
  · exact fun r hr => (h.ready r hr).congr fun p _ => hd p
  · exact h.linked.congr fun p _ => congrArg HwDesc.next (hd p).hw
  · exact fun tail ht => (congrArg (·.ctl.compl_write) (hd tail).hw).trans (h.compl_write tail ht)

theorem Books.alike (h : Books s v) (hd : ∀ q, Alike (s.desc q) (desc q)) : Books { s with desc := desc } v := by
  refine ⟨?_, h.reports, h.active⟩
  rw [List.flatMap_congr fun p _ => (hd p).outs]
  exact h.script

theorem Inv.alike (h : Inv s v) (hd : ∀ q, Alike (s.desc q) (desc q)) : Inv { s with desc := desc } v := by
  obtain ⟨c, x, hpl⟩ := h.placed
  exact ⟨h.lists.alike hd, h.books.alike hd, c, x, { hpl with }⟩

end

/-! ## Steps -/

/-- What the device leaves when it has carried out `p`, before it goes on. -/
def carriedOut (s : State) (p : Phys) : State :=
  { s with
    copies := s.copies ++ (s.desc p).hw.copy
    chansts := p
    completion := if (s.desc p).hw.ctl.compl_write then p else s.completion }

/-- What the steps do, with the view before and after. -/
inductive Moved (P : Params) (s : State) (v : View) : Act → State → View → Prop
  | prep {req : Request} {pool taken chain : List Phys} {new : List (Phys × Request)} {t : State}
      (hp : Prepared s pool taken chain t) (hpool : pool.Nodup) (hfresh : ∀ p ∈ pool, p ≠ 0 ∧ p ∉ s.held)
      (hchain : chain = new.flatMap fun r => (t.desc r.1).tx_list) (hnew : ∀ r ∈ new, Ready s.xfercap t.desc r) :
      Moved P s v (.prep req pool) { t with prepared := s.prepared ++ new } v
  | submit {tx : Phys × Request} {callback : Option Nat} {tail : Phys} (htail : s.used_desc.getLast? = some tail)
      (htx : tx ∈ s.prepared) : Moved P s v (.submit tx callback) (afterSubmit P s tx callback tail) (v.extend s tx)
  | ack {p : Phys} {desc : Phys → DescSw} (hd : ∀ q, Alike (s.desc q) (desc q)) :
      Moved P s v (.ack p) { s with desc := desc } v
  | issue_pending {n : Nat} : Moved P s v .issue_pending { s with issuing := n } v
  | issue {n : Nat} : Moved P s v .issue { Ioat.issue s with issuing := n } v
  | no_progress : Moved P s v .cleanup_begin s v
  | progress (hlock : s.cleanup_lock = none) (hne : s.completion ≠ s.last_completion) :
      Moved P s v .cleanup_begin { preamble s with cleanup_lock := some (.cleanup s.completion) } v
  | unlock {pc : Phys} (hlock : s.cleanup_lock = some (.cleanup pc)) :
      Moved P s v (.cleanup_end false) { s with cleanup_lock := none } v
  | cleanup {a : Act} {k c x : Nat} {pc : Phys} {completion_ack timer : Bool} (hpl : PlacedAt s v c x)
      (hk : v.rest[k]? = some pc) (hc : k + 1 ≤ c) (hlock : ∀ status, s.cleanup_lock ≠ some (.timer status))
      (htimer : timer = true ∨ timer = s.timer) :
      Moved P s v a { cleanupTo P s pc with completion_ack := completion_ack, timer := timer, cleanup_lock := none }
        (v.advance s k pc)
  | expired (hc : s.completion_pending = false) (hr : s.reset_pending = false) :
      Moved P s v .timer { s with timer := false } v
  | restart {tail : Phys} (hr : s.reset_pending = true) (htail : s.used_desc.getLast? = some tail) :
      Moved P s v .timer { s with
        reset_pending := false, engine := .busy tail (s.next tail), pending := 0, completion_pending := true, timer := true } v
  | reset (hr : s.reset_pending = false) (hc : s.completion_pending = true) :
      Moved P s v .timer { s with pending := INT_MIN, engine := .stopped, reset_pending := true, timer := true } v
  | status (hr : s.reset_pending = false) (hc : s.completion_pending = true) (hack : s.completion_ack = false) :
      Moved P s v .timer { s with cleanup_lock := some (.timer s.chansts), timer := false } v
  | wait (hr : s.reset_pending = false) (hc : s.completion_pending = true) (hack : s.completion_ack = false) :
      Moved P s v .timer { s with completion_ack := true, timer := true } v
  | timer_write {status : Phys} (hlock : s.cleanup_lock = some (.timer status)) :
      Moved P s v .timer_write { s with
        completion := status, completion_ack := true, timer := true, cleanup_lock := none } v
  | idle {reread : Bool} {p : Phys} {j c x : Nat} (hpl : PlacedAt s v c x) (hbusy : s.engine = .busy p 0) (hx : x ≤ j)
      (hj : (line s v)[j]? = some p) (hne : p ≠ 0) :
      Moved P s v (.finish reread) { carriedOut s p with engine := .idle p } v
  | next {reread : Bool} {p next n : Phys} {j c x : Nat} (hpl : PlacedAt s v c x) (hbusy : s.engine = .busy p next)
      (hx : x ≤ j) (hj : (line s v)[j]? = some p) (hn : (line s v)[j + 1]? = some n) :
      Moved P s v (.finish reread) { carriedOut s p with engine := .busy n (s.next n) } v
  | no_more {p : Phys} {j c x : Nat} (hpl : PlacedAt s v c x) (hidle : s.engine = .idle p) (hx : x ≤ j)
      (hj : (line s v)[j]? = some p) (hn : (line s v)[j + 1]? = none) :
      Moved P s v .lookForMore { s with append := false } v
  | more {p n : Phys} {j c x : Nat} (hpl : PlacedAt s v c x) (hidle : s.engine = .idle p) (hx : x ≤ j)
      (hj : (line s v)[j]? = some p) (hn : (line s v)[j + 1]? = some n) :
      Moved P s v .lookForMore { s with append := false, engine := .busy n (s.next n) } v
  | halt : Moved P s v .halt { s with engine := .stopped, completion := s.chansts } v

/-- Progress: the completed descriptor is past the last one cleaned up. -/
theorem PlacedAt.progress {c x : Nat} (h : PlacedAt s v c x) (hne : s.completion ≠ s.last_completion) : 0 < c := by
  rcases Nat.eq_zero_or_pos c with rfl | hc
  · exact absurd (Option.some.inj h.completion).symm hne
  · exact hc

theorem Inv.prep_moved (h : Inv s v) {req : Request} {pool : List Phys} (hs : step P s (.prep req pool) = some s') :
    Moved P s v (.prep req pool) s' v := by
  simp only [step] at hs
  split at hs
  next hg =>
    obtain ⟨-, hpool, hfresh⟩ := hg
    have hnd : (s.free_desc ++ pool).Nodup := by
      have hfree := (List.nodup_append.1 (List.nodup_append.1 h.lists.nodup).1).1
      refine List.nodup_append'.2 ⟨hfree, hpool, ?_⟩
      intro p hpf hpp
      exact (hfresh p hpp).2 (h.lists.mem_held.2 (.inl hpf))
    have hclean : ∀ p ∈ s.free_desc, Clean (s.desc p) := fun p hp => h.lists.clean p (List.mem_append_left _ hp)
    rcases prep_cases req h.lists.cap_pos hclean hnd with ⟨t, taken, he, hp⟩ | ⟨t, taken, tx, he, hp, hready⟩
    · rw [he] at hs
      cases hs
      have hnone : s' = { s' with prepared := s.prepared ++ [] } := by
        rw [List.append_nil, ← hp.fields.2.2.2]
      rw [hnone]
      exact .prep hp hpool hfresh rfl fun r hr => absurd hr List.not_mem_nil
    · rw [he] at hs
      cases hs
      rw [hp.fields.2.2.2]
      refine .prep hp hpool hfresh (by simp) fun r hr => ?_
      rw [List.mem_singleton.1 hr]
      exact hready
  next => cases hs

theorem Inv.step_submit (h : Inv s v) {tx : Phys × Request} {callback : Option Nat}
    (hs : step P s (.submit tx callback) = some s') :
    ∃ tail, s.used_desc.getLast? = some tail ∧ tx ∈ s.prepared ∧ s' = afterSubmit P s tx callback tail := by
  have hg : descLockFree s = true ∧ tx ∈ s.prepared := by
    simp only [step] at hs
    split at hs
    next hg => exact hg
    next => cases hs
  obtain ⟨tail, htail, -⟩ := h.lists.last_used
  rw [submit_eq htail (h.lists.tail_ne htail hg.2) hg.1 hg.2] at hs
  exact ⟨tail, htail, hg.2, (Option.some.inj hs).symm⟩

theorem Inv.submit_moved (h : Inv s v) {tx : Phys × Request} {callback : Option Nat}
    (hs : step P s (.submit tx callback) = some s') : Moved P s v (.submit tx callback) s' (v.extend s tx) := by
  obtain ⟨tail, htail, htx, rfl⟩ := h.step_submit hs
  exact .submit htail htx

theorem step_ack {p : Phys} (hs : step P s (.ack p) = some s') : s' = s.async_tx_ack p := by
  simp only [step] at hs
  split at hs
  · exact (Option.some.inj hs).symm
  · cases hs

/-- A clean-up with nobody in the way. -/
theorem Inv.progress_moved (h : Inv s v) (hlock : s.cleanup_lock = none) (hc : s.completion ≠ s.last_completion) {a : Act} :
    ∃ v', Moved P s v a (cleanupTo P (preamble s) s.completion) v' := by
  obtain ⟨c, x, hpl⟩ := h.placed
  obtain ⟨k, rfl⟩ := Nat.exists_eq_add_one.2 (hpl.progress hc)
  have hk : v.rest[k]? = some s.completion := hpl.completion
  refine ⟨v.advance s k s.completion, ?_⟩
  have heq : cleanupTo P (preamble s) s.completion
      = { cleanupTo P s s.completion with completion_ack := false, timer := true, cleanup_lock := none } := by
    show cleanupTo P { s with completion_ack := false, timer := true } s.completion = _
    have hdev := (cleanupTo_device (P := P) h.lists hk).2.2.2.1
    rw [cleanupTo_flags h.lists hk, ← hlock, ← hdev]
  rw [heq]
  exact .cleanup hpl hk (Nat.le_refl _) (fun status => by rw [hlock]; simp) (.inl rfl)

theorem Inv.timer_moved (h : Inv s v) (hs : step P s .timer = some s') : ∃ v', Moved P s v .timer s' v' := by
  simp only [step] at hs
  split at hs
  next hg =>
    obtain ⟨-, hlock⟩ := hg
    cases hs
    unfold ioat1_timer_event
    by_cases hr : s.reset_pending
    · obtain ⟨tail, htail, -⟩ := h.lists.last_used
      refine ⟨v, ?_⟩
      rw [if_pos hr]
      simp only [Ioat.restart, htail]
      exact .restart hr htail
    · rw [if_neg hr]
      have hr' := Bool.eq_false_iff.2 hr
      by_cases hcp : s.completion_pending
      · rw [if_pos hcp]
        by_cases hc : s.completion = s.last_completion
        · refine ⟨v, ?_⟩
          rw [if_neg (not_not.2 hc)]
          split
          · exact .reset hr' hcp
          next hack =>
            split
            · exact .status hr' hcp (Bool.eq_false_iff.2 hack)
            · exact .wait hr' hcp (Bool.eq_false_iff.2 hack)
        · rw [if_pos hc]
          exact h.progress_moved hlock hc
      · rw [if_neg hcp]
        exact ⟨v, .expired (Bool.eq_false_iff.2 hcp) hr'⟩
  next => cases hs

theorem Inv.finish_moved (h : Inv s v) {reread : Bool} (hs : finish s reread = some s') :
    Moved P s v (.finish reread) s' v := by
  obtain ⟨c, x, hpl⟩ := h.placed
  unfold Ioat.finish at hs
  split at hs
  next p next hbusy =>
    dsimp only at hs
    split at hs
    · cases hs
    · have hat := hpl.engine
      rw [hbusy] at hat
      obtain ⟨j, hxj, hj, hne, hnext⟩ := hat
      have hafter : ∀ n, n = (if next = 0 ∧ reread = true then (s.desc p).hw.next else next) →
          n = 0 ∧ next = 0 ∨ n ≠ 0 ∧ (line s v)[j + 1]? = some n := by
        rintro n rfl
        split
        next hz =>
          have hl := h.lists.line_next hj hne
          rw [State.next] at hl
          rw [hl]
          rcases hq : (line s v)[j + 1]? with _ | q
          · exact .inl ⟨rfl, hz.1⟩
          · refine .inr ⟨?_, rfl⟩
            exact h.lists.rest_ne_zero (List.mem_of_getElem? (l := v.rest) (i := j) hq)
        next =>
          by_cases hz : next = 0
          · exact .inl ⟨hz, hz⟩
          · exact .inr ⟨hz, hnext.resolve_left hz⟩
      generalize (if next = 0 ∧ reread = true then (s.desc p).hw.next else next) = n at hafter hs
      rcases hafter n rfl with ⟨hn, rfl⟩ | ⟨hn, hl⟩
      · rw [if_pos hn] at hs
        cases hs
        exact .idle hpl hbusy hxj hj hne
      · rw [if_neg hn] at hs
        cases hs
        exact .next hpl hbusy hxj hj hl
  next => cases hs

theorem Inv.look_moved (h : Inv s v) (hs : lookForMore s = some s') : Moved P s v .lookForMore s' v := by
  obtain ⟨c, x, hpl⟩ := h.placed
  unfold Ioat.lookForMore at hs
  split at hs
  next p hidle _ =>
    cases hs
    have hat := hpl.engine
    rw [hidle] at hat
    obtain ⟨j, hxj, hj, hne⟩ := hat
    have hnext : (s.desc p).hw.next = _ := h.lists.line_next hj hne
    dsimp only
    rw [hnext]
    rcases hq : (line s v)[j + 1]? with _ | q
    · rw [Option.getD_none, if_pos rfl]
      exact .no_more hpl hidle hxj hj hq
    · have hqne : q ≠ 0 := h.lists.rest_ne_zero (List.mem_of_getElem? (l := v.rest) (i := j) hq)
      rw [Option.getD_some, if_neg hqne]
      exact .more hpl hidle hxj hj hq
  next => cases hs

/-- Every step is one of these. -/
theorem step_moved {a : Act} (h : Inv s v) (hs : step P s a = some s') : ∃ v', Moved P s v a s' v' := by
  cases a with
  | prep req pool => exact ⟨v, h.prep_moved hs⟩
  | submit tx callback => exact ⟨_, h.submit_moved hs⟩
  | ack p =>
    obtain rfl := step_ack hs
    exact ⟨v, .ack (alike_ack s p)⟩
  | issue_pending =>
    cases hs
    unfold ioat1_dma_memcpy_issue_pending
    split
    · exact ⟨v, .issue_pending⟩
    · exact ⟨v, .issue_pending (n := s.issuing)⟩
  | issue =>
    simp only [step] at hs
    split at hs
    · cases hs
      exact ⟨v, .issue⟩
    · cases hs
  | cleanup_begin =>
    simp only [step] at hs
    split at hs
    next hlock =>
      cases hs
      split
      · exact ⟨v, .no_progress⟩
      next hne => exact ⟨v, .progress hlock hne⟩
    · cases hs
  | cleanup_end desc_lock =>
    simp only [step] at hs
    split at hs
    next pc hlock =>
      cases hs
      cases desc_lock with
      | true =>
        -- the completion the clean-up began with is still on the list
        obtain ⟨c, x, hpl⟩ := h.placed
        have hh := hpl.holder
        rw [hlock] at hh
        obtain ⟨k, hk0, hkc, hk⟩ := hh
        obtain ⟨k, rfl⟩ := Nat.exists_eq_add_one.2 hk0
        have hk' : v.rest[k]? = some pc := hk
        refine ⟨v.advance s k pc, ?_⟩
        have hflags := cleanupTo_flags (P := P) h.lists hk' s.completion_ack s.timer
        rw [if_pos rfl, show cleanupTo P s pc = _ from hflags]
        exact .cleanup hpl hk' hkc (fun status => by rw [hlock]; simp) (.inr rfl)
      | false => exact ⟨v, .unlock hlock⟩
    next => cases hs
  | timer => exact h.timer_moved hs
  | timer_write =>
    simp only [step] at hs
    split at hs
    next status hlock =>
      cases hs
      exact ⟨v, .timer_write hlock⟩
    next => cases hs
  | finish reread => exact ⟨v, h.finish_moved hs⟩
  | lookForMore => exact ⟨v, h.look_moved hs⟩
  | halt =>
    simp only [step, Ioat.halt] at hs
    split at hs
    · cases hs
      exact ⟨v, .halt⟩
    · cases hs

/-! ## The invariant -/

theorem HolderAt.mono {l : List Phys} {c x c' x' : Nat} {o : Option Holder} (h : HolderAt l c x o) (hc : c ≤ c')
    (hx : x ≤ x') : HolderAt l c' x' o := by
  match o, h with
  | none, _ => trivial
  | some (.cleanup _), ⟨k, h0, hk, hp⟩ => exact ⟨k, h0, hk.trans hc, hp⟩
  | some (.timer _), ⟨k, hk, hp⟩ => exact ⟨k, hk.trans hx, hp⟩

/-- The device has carried out the descriptor at place `j`. -/
theorem PlacedAt.carriedOut {c x j : Nat} {p : Phys} (h : PlacedAt s v c x) (hx : x ≤ j) (hj : (line s v)[j]? = some p)
    {engine : Engine} (he : EngineAt (line s v) j engine) : Placed { carriedOut s p with engine := engine } v := by
  by_cases hw : (s.desc p).hw.ctl.compl_write = true
  · refine ⟨j, j, ?_, hj, Nat.le_refl j, he, h.holder.mono (h.le.trans hx) hx⟩
    exact hj.trans (congrArg some (if_pos hw).symm)
  · refine ⟨c, j, ?_, hj, h.le.trans hx, he, h.holder.mono (Nat.le_refl c) hx⟩
    exact h.completion.trans (congrArg some (if_neg hw).symm)

/-- Every step keeps the invariant. -/
theorem Moved.inv {a : Act} {v' : View} (hm : Moved P s v a s' v') (h : Inv s v) : Inv s' v' := by
  obtain ⟨c₀, x₀, hpl₀⟩ := h.placed
  cases hm with
  | prep hp hpool hfresh hchain hnew =>
    exact ⟨h.lists.prep hp hpool hfresh hchain hnew, h.books.prep h.lists hp hfresh, h.placed.prep hp⟩
  | submit htail htx => exact ⟨h.lists.submit htail htx, h.books.submit h.lists htail htx, c₀, x₀, hpl₀.submit⟩
  | ack hd => exact h.alike hd
  | issue_pending => exact ⟨{ h.lists with }, { h.books with }, c₀, x₀, { hpl₀ with }⟩
  | issue => exact ⟨{ h.lists with }, { h.books with }, c₀, x₀, { hpl₀ with }⟩
  | no_progress => exact h
  | progress hlock hne =>
    exact ⟨{ h.lists with }, { h.books with }, c₀, x₀, hpl₀.completion, hpl₀.chansts, hpl₀.le, hpl₀.engine,
      c₀, hpl₀.progress hne, Nat.le_refl c₀, hpl₀.completion⟩
  | unlock hlock =>
    exact ⟨{ h.lists with }, { h.books with }, c₀, x₀, hpl₀.completion, hpl₀.chansts, hpl₀.le, hpl₀.engine, trivial⟩
  | cleanup hpl hk hc hlock htimer =>
    have hpl' := hpl.cleanup (P := P) h.lists hk hc
    exact ⟨{ h.lists.cleanup hk with }, { h.books.cleanup h.lists hk with }, _, _, { hpl' with }⟩
  | expired hc hr => exact ⟨{ h.lists with }, { h.books with }, c₀, x₀, { hpl₀ with }⟩
  | restart hr htail =>
    obtain ⟨hline, hne⟩ := h.lists.tail_line htail
    have hx : x₀ ≤ (line s v).length - 1 := Nat.le_sub_one_of_lt (List.getElem?_eq_some_iff.1 hpl₀.chansts).1
    have hengine := h.lists.engineAt_fetch hline hne hx
    exact ⟨{ h.lists with }, { h.books with }, c₀, x₀, hpl₀.completion, hpl₀.chansts, hpl₀.le, hengine, hpl₀.holder⟩
  | reset hr hc =>
    exact ⟨{ h.lists with }, { h.books with }, c₀, x₀, hpl₀.completion, hpl₀.chansts, hpl₀.le, trivial, hpl₀.holder⟩
  | status hr hc hack =>
    exact ⟨{ h.lists with }, { h.books with }, c₀, x₀, hpl₀.completion, hpl₀.chansts, hpl₀.le, hpl₀.engine,
      x₀, Nat.le_refl x₀, hpl₀.chansts⟩
  | wait hr hc hack => exact ⟨{ h.lists with }, { h.books with }, c₀, x₀, { hpl₀ with }⟩
  | timer_write hlock =>
    have hh := hpl₀.holder
    rw [hlock] at hh
    obtain ⟨k, hk, hp⟩ := hh
    exact ⟨{ h.lists with }, { h.books with }, k, x₀, hp, hpl₀.chansts, hk, hpl₀.engine, trivial⟩
  | idle hpl hbusy hx hj hne =>
    exact ⟨{ h.lists with }, { h.books with }, hpl.carriedOut hx hj ⟨_, Nat.le_refl _, hj, hne⟩⟩
  | next hpl hbusy hx hj hn =>
    have hne := h.lists.rest_ne_zero (List.mem_of_getElem? (l := v.rest) hn)
    exact ⟨{ h.lists with }, { h.books with }, hpl.carriedOut hx hj (h.lists.engineAt_fetch hn hne (Nat.le_succ _))⟩
  | no_more hpl hidle hx hj hn => exact ⟨{ h.lists with }, { h.books with }, c₀, x₀, { hpl₀ with }⟩
  | more hpl hidle hx hj hn =>
    have hne := h.lists.rest_ne_zero (List.mem_of_getElem? (l := v.rest) hn)
    exact ⟨{ h.lists with }, { h.books with }, _, _, hpl.completion, hpl.chansts, hpl.le,
      h.lists.engineAt_fetch hn hne (Nat.le_succ_of_le hx), hpl.holder⟩
  | halt =>
    exact ⟨{ h.lists with }, { h.books with }, x₀, x₀, hpl₀.chansts, hpl₀.chansts, Nat.le_refl x₀, trivial,
      hpl₀.holder.mono hpl₀.le (Nat.le_refl x₀)⟩

/-! ## Runs -/

/-- What every step with `A` keeps, on states with the invariant, holds after every run of such steps. -/
theorem run_rule {A : State → Act → Prop} {I : State → View → Prop}
    (hstep : ∀ s v a s' v', Inv s v → I s v → A s a → Moved P s v a s' v' → I s' v') {as : List Act}
    (h : Inv s v) (h0 : I s v) (hA : along (step P) A s as) (hs : exec (step P) s as = some s') :
    ∃ v', Inv s' v' ∧ I s' v' := by
  refine exec_inv_along (fun s => ∃ v, Inv s v ∧ I s v) ?_ ⟨v, h, h0⟩ hA hs
  rintro s a s' ⟨v, hi, hI⟩ ha hs
  obtain ⟨v', hm⟩ := step_moved hi hs
  exact ⟨v', hm.inv hi, hstep _ _ _ _ _ hi hI ha hm⟩

/-- One state after another. -/
structure Grown (s s' : State) : Prop where
  xfercap : s'.xfercap = s.xfercap
  submitted : s.submitted <+: s'.submitted
  copies : s.copies <+: s'.copies

theorem Grown.refl (s : State) : Grown s s := ⟨rfl, List.prefix_rfl, List.prefix_rfl⟩

theorem Moved.grown {a : Act} {v' : View} (hm : Moved P s v a s' v') (hi : Inv s v) {t : State} (h : Grown t s) : Grown t s' := by
  cases hm with
  | prep hp hpool hfresh hchain hnew =>
    refine ⟨?_, ?_, ?_⟩
    all_goals rw [hp.state_eq]
    exacts [h.xfercap, h.submitted, h.copies]
  | submit htail htx => exact ⟨h.xfercap, h.submitted.trans (List.prefix_append _ _), h.copies⟩
  | cleanup hpl hk hc hlock htimer =>
    rw [cleanupTo_state hi.lists hk]
    exact { h with }
  | idle hpl hbusy hx hj hne => exact ⟨h.xfercap, h.submitted, h.copies.trans (List.prefix_append _ _)⟩
  | next hpl hbusy hx hj hn => exact ⟨h.xfercap, h.submitted, h.copies.trans (List.prefix_append _ _)⟩
  | _ => exact { h with }

/-! ## Where a run starts -/

/-- The descriptor the device is started with. -/
def nullDesc : DescSw :=
  { zeroed with hw := ⟨NULL_DESC_BUFFER_SIZE, ⟨true, true, true⟩, 0, 0, 0, 0⟩, flags := { noFlags with DMA_CTRL_ACK := true } }

/-- A channel as `ioat1_dma_alloc_chan_resources` leaves it when there was a descriptor to start with. -/
def Opened (s : State) : Prop :=
  ∃ xfercap_scale cookie ioat_initial_desc_count pool extra, (pool ++ extra).Nodup ∧ 0 ∉ pool ++ extra ∧
    (ioat1_dma_alloc_chan_resources ioat_initial_desc_count (enumerated xfercap_scale cookie) pool extra).1 = s ∧
    s.used_desc ≠ []

theorem allocInitial_eq (hz : ∀ p, s.desc p = zeroed) (n : Nat) (pool : List Phys) :
    allocInitial n pool s = ({ s with granted := s.granted ++ pool.take n }, pool.take n) := by
  induction n generalizing pool s with
  | zero => simp [allocInitial]
  | succ n ih =>
    cases pool with
    | nil => simp [allocInitial]
    | cons p pool =>
      have hset : ioat_dma_alloc_descriptor s p = { s with granted := s.granted ++ [p] } := by
        simp only [ioat_dma_alloc_descriptor, State.setDesc, ← hz p, Function.update_eq_self]
      have hrest := ih (s := { s with granted := s.granted ++ [p] }) hz pool
      rw [List.append_assoc, List.singleton_append] at hrest
      rw [allocInitial, hset, hrest, List.take_succ_cons]

theorem alloc_eq (xfercap_scale : Nat) (cookie : Int) (n : Nat) (pool extra : List Phys) :
    ioat1_dma_alloc_chan_resources n (enumerated xfercap_scale cookie) pool extra
      = (ioat1_dma_start_null_desc { enumerated xfercap_scale cookie with
          desccount := (pool.take n).length % 2 ^ 16, free_desc := pool.take n, granted := pool.take n } extra,
        (ioat1_dma_start_null_desc { enumerated xfercap_scale cookie with
          desccount := (pool.take n).length % 2 ^ 16, free_desc := pool.take n, granted := pool.take n } extra).desccount) := by
  have hz : ∀ p, (enumerated xfercap_scale cookie).desc p = zeroed := fun _ => rfl
  simp only [ioat1_dma_alloc_chan_resources, show (enumerated xfercap_scale cookie).free_desc = [] from rfl, ne_eq,
    not_true_eq_false, if_false, allocInitial_eq hz, List.append_nil]
  rfl

theorem Opened.eq (h : Opened s) : ∃ xfercap_scale cookie p ps desccount, (p :: ps).Nodup ∧ 0 ∉ p :: ps ∧
    s = { enumerated xfercap_scale cookie with
      free_desc := ps, used_desc := [p], desccount := desccount, engine := .busy p 0, granted := p :: ps
      desc := Function.update (fun _ => zeroed) p nullDesc } := by
  obtain ⟨xfercap_scale, cookie, n, pool, extra, hnd, h0, rfl, hused⟩ := h
  rw [alloc_eq] at hused ⊢
  rcases htake : pool.take n with _ | ⟨p, ps⟩
  · cases extra with
    | nil =>
      rw [htake] at hused
      exact absurd rfl hused
    | cons p extra =>
      refine ⟨xfercap_scale, cookie, p, [], 0, List.nodup_singleton p, ?_, ?_⟩
      · exact fun hm => h0 (List.mem_append_right _ (by rw [List.mem_singleton.1 hm]; exact List.mem_cons_self))
      · simp only [ioat1_dma_start_null_desc, ioat1_dma_get_next_descriptor, ioat_dma_alloc_descriptor, State.setHw,
          State.setDesc, State.async_tx_ack, State.fetch, Function.update_self, Function.update_idem, enumerated]
        rfl
  · refine ⟨xfercap_scale, cookie, p, ps, (p :: ps).length % 2 ^ 16, ?_, ?_, ?_⟩
    · rw [← htake]
      exact hnd.sublist ((List.take_sublist n pool).trans (List.sublist_append_left _ _))
    · rw [← htake]
      exact fun hm => h0 (List.mem_append_left _ (List.mem_of_mem_take hm))
    · simp only [ioat1_dma_start_null_desc, ioat1_dma_get_next_descriptor, State.setHw, State.setDesc, State.async_tx_ack,
        State.fetch, Function.update_self, Function.update_idem, enumerated]
      rfl

theorem expandXfercap_pos (xfercap_scale : Nat) : 0 < expandXfercap xfercap_scale := by
  unfold expandXfercap
  dsimp only
  split
  · decide
  · exact Nat.two_pow_pos _

/-- Nothing has happened yet; the device is at the null descriptor `p`. -/
structure Fresh (s : State) (p : Phys) : Prop where
  inv : Inv s ⟨[], [p], []⟩
  engine : s.engine = .busy p 0
  null : s.desc p = nullDesc
  pending : s.pending = 0
  last_completion : s.last_completion = 0
  chansts : s.chansts = 0
  completion_pending : s.completion_pending = false
  reset_pending : s.reset_pending = false
  cleanup_lock : s.cleanup_lock = none
  cookie : s.completed_cookie = s.cookie
  prepared : s.prepared = []
  submitted : s.submitted = []
  reports : s.reports = []
  copies : s.copies = []

theorem Opened.fresh (h : Opened s) : ∃ p, Fresh s p := by
  obtain ⟨xfercap_scale, cookie, p, ps, desccount, hnd, h0, rfl⟩ := h.eq
  obtain ⟨hp, hnd⟩ := List.nodup_cons.1 hnd
  have hself : Function.update (fun _ => zeroed) p nullDesc p = nullDesc := Function.update_self ..
  have hne : ∀ q ∈ ps, q ≠ p := fun q hq hqp => hp (hqp ▸ hq)
  have hother : ∀ q ∈ ps, Function.update (fun _ => zeroed) p nullDesc q = zeroed :=
    fun q hq => Function.update_of_ne (hne q hq) ..
  refine ⟨p, ⟨⟨?_, ?_, 0, 0, rfl, rfl, Nat.le_refl 0, ⟨1, Nat.zero_le 1, rfl, ?_, .inl rfl⟩, trivial⟩, rfl, hself, rfl, rfl,
    rfl, rfl, rfl, rfl, rfl, rfl, rfl, rfl, rfl⟩⟩
  · refine ⟨expandXfercap_pos _, rfl, rfl, fun _ => by simp, ?_, ?_, ?_, ?_, fun r hr => absurd hr List.not_mem_nil, ?_, ?_⟩
    · show (ps ++ [p] ++ []).Nodup
      rw [List.append_nil]
      exact List.nodup_append'.2 ⟨hnd, List.nodup_singleton p, by simpa using hp⟩
    · show 0 ∉ ps ++ [p] ++ []
      simpa [or_comm] using h0
    · intro q hq
      rw [List.append_nil] at hq
      show Clean (Function.update (fun _ => zeroed) p nullDesc q)
      rw [hother q hq]
      exact clean_zeroed
    · intro q hq
      rw [List.mem_singleton.1 hq]
      show (Function.update (fun _ => zeroed) p nullDesc p).tx_list = []
      rw [hself]
      rfl
    · refine linked_singleton.2 ?_
      show (Function.update (fun _ => zeroed) p nullDesc p).hw.next = 0
      rw [hself]
      rfl
    · intro tail ht
      obtain rfl : p = tail := Option.some.inj ht
      show (Function.update (fun _ => zeroed) p nullDesc p).hw.ctl.compl_write = true
      rw [hself]
      rfl
  · refine ⟨?_, rfl, rfl⟩
    show [] ++ [p].flatMap (fun q => (Function.update (fun _ => zeroed) p nullDesc q).outs) = []
    rw [List.flatMap_singleton, hself]
    rfl
  · rintro rfl
    exact h0 List.mem_cons_self

/-- Every state of every run has the invariant. -/
theorem run_inv {s₀ : State} {as : List Act} (h : Opened s₀) (hs : exec (step P) s₀ as = some s) : ∃ v, Inv s v := by
  obtain ⟨p, hf⟩ := h.fresh
  obtain ⟨v, hv, -⟩ := run_rule (A := fun _ _ => True) (I := fun _ _ => True) (fun _ _ _ _ _ _ _ _ _ => trivial) hf.inv trivial
    (along_of_mem fun _ _ _ => trivial) hs
  exact ⟨v, hv⟩

/-! ## A run -/

/-- A value of the state that a run ends in. -/
theorem run_value {α : Type} {run : Option State} (f : State → α) {x : α} (hs : run = some s) (h : run.map f = some x) :
    f s = x := by
  rw [hs] at h
  exact Option.some.inj h

def sampleParams : Params where
  dma_cookie_assign c := if 1 ≤ c ∧ c < 2 ^ 31 - 1 then c + 1 else 1
  dma_cookie_complete _ cookie := (cookie, 0)
  cookie_ne c := by split <;> omega
  cookie_complete _ _ _ := rfl
  ioat_pending_level := 4

theorem run_ends {run : Option State} (h : run.isSome = true) : ∃ s, run = some s := Option.isSome_iff_exists.1 h

/-- Three descriptors, and pieces of four bytes. -/
def sampleChan : State := (ioat1_dma_alloc_chan_resources 3 (enumerated 2 1) [64, 128, 192] []).1

theorem sampleChan_opened : Opened sampleChan :=
  ⟨2, 1, 3, [64, 128, 192], [], by decide, by decide, rfl, by decide⟩

/-- Ten bytes, so three pieces; the third descriptor comes from the pool. -/
def sampleReq : Request := ⟨1000, 2000, 10, { noFlags with DMA_CTRL_ACK := true }⟩

/-- Prepared and submitted. -/
def sampleSubmit : List Act := [.prep sampleReq [256], .submit (256, sampleReq) none]

/-- Carried out as well. -/
def sampleCarried : List Act :=
  sampleSubmit ++ [.issue_pending, .issue, .finish true, .finish true, .finish true, .finish true]

/-- And cleaned up. -/
def sampleRun : List Act := sampleCarried ++ [.cleanup_begin, .cleanup_end true]

end Dmacftu.Ioat
