import Dmacftu.IoatInv
/-!
# Cleaning up

What `__cleanup` does in one piece. `completeAll` is the part that concerns the
descriptors themselves; the loop does that to every descriptor up to the completed
one, and those before it that their clients are done with become free
(`cleanupLoop_eq`).
-/
open Lib.CopyEngine Lib.Links Lib.Script

namespace Dmacftu.Ioat

/-- The `if (tx->cookie)` of the loop, descriptor by descriptor. -/
def completeAll (P : Params) (s : State) (ps : List Phys) : State :=
  ps.foldl (fun s p => if (s.desc p).cookie ≠ 0 then complete P s p else s) s

/-- A descriptor afterwards. -/
def settle (d : DescSw) : DescSw := if d.cookie ≠ 0 then { d with cookie := 0, callback := none } else d

/-- What the clients of the descriptors are told. -/
def told (s : State) (ps : List Phys) : List Notice := noticed (ps.flatMap fun p => (s.desc p).outs)

def acked (s : State) (p : Phys) : Bool := (s.desc p).flags.DMA_CTRL_ACK

variable {P : Params} {s : State} {v : View} {p q : Phys} {ps : List Phys}

theorem noticed_outs (d : DescSw) : noticed d.outs = if d.cookie ≠ 0 then [(d.report, d.hw.tx_cnt)] else [] := by
  unfold DescSw.outs
  split <;> simp [noticed]

theorem settle_of_cookie {d : DescSw} (h : d.cookie ≠ 0) : settle d = { d with cookie := 0, callback := none } := if_pos h

theorem settle_of_zero {d : DescSw} (h : d.cookie = 0) : settle d = d := if_neg (not_not.2 h)

@[simp] theorem settle_hw (d : DescSw) : (settle d).hw = d.hw := by unfold settle; split <;> rfl

@[simp] theorem settle_tx_list (d : DescSw) : (settle d).tx_list = d.tx_list := by unfold settle; split <;> rfl

@[simp] theorem settle_flags (d : DescSw) : (settle d).flags = d.flags := by unfold settle; split <;> rfl

@[simp] theorem settle_cookie (d : DescSw) : (settle d).cookie = 0 := by
  by_cases h : d.cookie = 0
  · rw [settle_of_zero h, h]
  · rw [settle_of_cookie h]

theorem told_cons (s : State) (p : Phys) (ps : List Phys) :
    told s (p :: ps) = (if (s.desc p).cookie ≠ 0 then [((s.desc p).report, (s.desc p).hw.tx_cnt)] else []) ++ told s ps := by
  rw [told, List.flatMap_cons, noticed_append, noticed_outs, told]

theorem told_congr {s' : State} (h : ∀ p ∈ ps, s'.desc p = s.desc p) : told s' ps = told s ps := by
  unfold told
  rw [List.flatMap_congr fun p hp => by rw [h p hp]]

/-- A descriptor with a cookie. -/
theorem complete_eq (h : (s.desc p).cookie ≠ 0) : complete P s p = { s.setDesc p (settle (s.desc p)) with
    completed_cookie := (s.desc p).cookie
    active := s.active - BitVec.ofNat 16 (s.desc p).hw.tx_cnt
    reports := s.reports ++ [(s.desc p).report] } := by
  simp only [complete, P.cookie_complete _ _ h, settle_of_cookie h]

theorem completeAll_eq (hnd : ps.Nodup) : completeAll P s ps = { s with
    desc := fun q => if q ∈ ps then settle (s.desc q) else s.desc q
    completed_cookie := ((told s ps).getLast?.map fun n : Notice => n.1.cookie).getD s.completed_cookie
    active := s.active - BitVec.ofNat 16 ((told s ps).map Prod.snd).sum
    reports := s.reports ++ (told s ps).map Prod.fst } := by
  induction ps generalizing s with
  | nil => simp [completeAll, told, noticed]
  | cons p ps ih =>
    obtain ⟨hp, hnd⟩ := List.nodup_cons.1 hnd
    have hne : ∀ q ∈ ps, q ≠ p := fun q hq hqp => hp (hqp ▸ hq)
    rw [completeAll, List.foldl_cons, ← completeAll, ih hnd, told_cons]
    by_cases hc : (s.desc p).cookie = 0
    · rw [if_neg (not_not.2 hc), if_neg (not_not.2 hc), List.nil_append]
      simp only [State.mk.injEq, true_and, and_true]
      funext q
      by_cases hq : q = p
      · rw [hq, if_neg hp, if_pos List.mem_cons_self, settle_of_zero hc]
      · simp [hq]
    · have hdesc : ∀ q ∈ ps, (complete P s p).desc q = s.desc q := fun q hq => Function.update_of_ne (hne q hq) ..
      rw [if_pos hc, if_pos hc, told_congr hdesc, complete_eq hc]
      simp only [State.setDesc, State.mk.injEq, true_and, and_true]
      refine ⟨?_, ?_, ?_, ?_⟩
      · simp [BitVec.ofNat_add, BitVec.sub_sub]
      · rcases List.eq_nil_or_concat (told s ps) with h | ⟨l, n, h⟩
        · rw [h]
          rfl
        · rw [h, List.concat_eq_append, ← List.append_assoc, List.getLast?_concat, List.getLast?_concat]
          rfl
      · funext q
        by_cases hq : q = p
        · rw [hq, if_neg hp, if_pos List.mem_cons_self, Function.update_self]
        · simp [hq]
      · simp [List.append_assoc]

theorem completeAll_lists (hnd : ps.Nodup) (used_desc free_desc : List Phys) :
    completeAll P { s with used_desc := used_desc, free_desc := free_desc } ps
      = { completeAll P s ps with used_desc := used_desc, free_desc := free_desc } := by
  rw [completeAll_eq hnd, completeAll_eq hnd]
  rfl

theorem complete_acked (P : Params) (s : State) (p q : Phys) : acked (complete P s p) q = acked s q := by
  by_cases h : q = p
  · simp [acked, complete, State.setDesc, h]
  · simp [acked, complete, State.setDesc, h]

/-- The loop from some descriptor on; those of `kept` have been passed. -/
theorem cleanupLoop_eq {pc : Phys} {kept l post : List Phys} (hused : s.used_desc = kept ++ (l ++ pc :: post))
    (hnd : s.used_desc.Nodup) : cleanupLoop P pc (l ++ pc :: post) s = { completeAll P s (l ++ [pc]) with
      used_desc := kept ++ (l.filter (!acked s ·) ++ pc :: post)
      free_desc := s.free_desc ++ l.filter (acked s)
      completion_pending := if post = [] then false else s.completion_pending } := by
  induction l generalizing kept s with
  | nil =>
    simp only [cleanupLoop, completeAll, ne_eq, not_true_eq_false, List.nil_append, List.foldl_cons, List.foldl_nil,
      List.filter_nil, List.append_nil, if_false] at hused ⊢
    rw [← hused]
    split <;> split <;> rfl
  | cons p l ih =>
    have hpos : s.used_desc = (kept ++ [p]) ++ (l ++ pc :: post) := by simp [hused]
    have hsplit := hnd
    rw [hpos, List.append_assoc] at hsplit
    have hp : p ∉ kept := fun hm => (List.disjoint_of_nodup_append hsplit) hm (by simp)
    have hpl : p ∉ l ++ pc :: post := (List.nodup_cons.1 (List.nodup_append.1 hsplit).2.1).1
    have hppc : p ≠ pc := fun h => hpl (by simp [h])
    have hndl : (l ++ [pc]).Nodup := by
      refine ((List.nodup_cons.1 (List.nodup_append.1 hsplit).2.1).2).sublist ?_
      exact List.Sublist.append_left (List.singleton_sublist.2 List.mem_cons_self) l
    rw [List.cons_append, cleanupLoop, completeAll, List.cons_append, List.foldl_cons, ← completeAll]
    set s₁ := if (s.desc p).cookie ≠ 0 then complete P s p else s with hs₁
    have hacked : ∀ q, acked s₁ q = acked s q := by
      intro q
      rw [hs₁]
      split
      · exact complete_acked P s p q
      · rfl
    have hlists : s₁.used_desc = s.used_desc ∧ s₁.free_desc = s.free_desc ∧ s₁.completion_pending = s.completion_pending := by
      rw [hs₁]
      split <;> exact ⟨rfl, rfl, rfl⟩
    dsimp only
    rw [if_pos hppc]
    obtain ⟨hused₁, hfree₁, hpend₁⟩ := hlists
    clear_value s₁
    clear hs₁
    have hacked₁ : acked s₁ = acked s := funext hacked
    -- an acknowledged descriptor goes to `free_desc`, any other is passed and stays
    by_cases ha : (s₁.desc p).flags.DMA_CTRL_ACK = true
    · have ha' : acked s p = true := (hacked p).symm.trans ha
      have hused' : (list_move_tail s₁ p).used_desc = kept ++ (l ++ pc :: post) := by
        show s₁.used_desc.erase p = _
        rw [hused₁, hused, List.erase_append_right _ hp, List.cons_append, List.erase_cons_head]
      rw [if_pos ha, ih hused' (by rw [hused']; exact hnd.sublist (by rw [hused]; simp))]
      have hmoved : acked (list_move_tail s₁ p) = acked s := hacked₁
      simp only [hmoved, List.filter_cons, ha', Bool.not_true, Bool.false_eq_true, if_false, if_true]
      rw [list_move_tail, completeAll_lists hndl]
      simp only [hfree₁, hpend₁, List.append_assoc, List.singleton_append]
    · have ha' : acked s p = false := Bool.eq_false_iff.2 fun h => ha ((hacked p).trans h)
      rw [if_neg ha, ih (hused₁.trans hpos) (by rw [hused₁]; exact hnd)]
      simp only [hacked₁, hfree₁, hpend₁, List.filter_cons, ha', Bool.not_false, Bool.false_eq_true, if_false, if_true,
        List.append_assoc, List.nil_append, List.cons_append]

theorem completeAll_append (P : Params) (s : State) (ps qs : List Phys) :
    completeAll P s (ps ++ qs) = completeAll P (completeAll P s ps) qs := List.foldl_append

theorem completeAll_of_clean (h : ∀ p ∈ ps, (s.desc p).cookie = 0) : completeAll P s ps = s := by
  induction ps with
  | nil => rfl
  | cons p ps ih =>
    rw [completeAll, List.foldl_cons, if_neg (not_not.2 (h p List.mem_cons_self))]
    exact ih fun q hq => h q (List.mem_cons_of_mem p hq)

/-! ## The invariant afterwards -/

/-- The view once everything up to `pc`, at place `k` of `rest`, is cleaned up. -/
def View.advance (s : State) (v : View) (k : Nat) (pc : Phys) : View where
  settled := (v.settled ++ v.rest.take k).filter (!acked s ·) ++ [pc]
  rest := v.rest.drop (k + 1)
  past := v.past ++ (v.rest.take (k + 1)).flatMap fun p => (s.desc p).outs

section
variable {k : Nat} {pc : Phys}

theorem take_succ_eq {l : List Phys} (h : l[k]? = some pc) : l.take (k + 1) = l.take k ++ [pc] := by
  rw [List.take_add_one, h, Option.toList_some]

theorem split_at {l : List Phys} (h : l[k]? = some pc) : l = l.take k ++ pc :: l.drop (k + 1) := by
  obtain ⟨hlt, rfl⟩ := List.getElem?_eq_some_iff.1 h
  rw [List.cons_getElem_drop_succ, List.take_append_drop]

theorem Lists.used_nodup (h : Lists s v) : s.used_desc.Nodup := by
  have := h.nodup
  rw [State.held, List.append_assoc] at this
  exact (List.nodup_append.1 (List.nodup_append.1 this).2.1).1

theorem Lists.rest_nodup (h : Lists s v) : v.rest.Nodup := by
  have := h.used_nodup
  rw [h.used] at this
  exact (List.nodup_append.1 this).2.1

theorem cleanupTo_eq (h : Lists s v) (hk : v.rest[k]? = some pc) : cleanupTo P s pc =
    { completeAll P s (v.rest.take (k + 1)) with
      used_desc := (v.advance s k pc).settled ++ (v.advance s k pc).rest
      free_desc := s.free_desc ++ (v.settled ++ v.rest.take k).filter (acked s)
      completion_pending := if (v.advance s k pc).rest = [] then false else s.completion_pending
      last_completion := pc } := by
  have hused : s.used_desc = (v.settled ++ v.rest.take k) ++ pc :: v.rest.drop (k + 1) := by
    rw [h.used, List.append_assoc, ← split_at hk]
  have hall : completeAll P s (v.settled ++ v.rest.take k ++ [pc]) = completeAll P s (v.rest.take (k + 1)) := by
    rw [List.append_assoc, ← take_succ_eq hk, completeAll_append,
      completeAll_of_clean fun p hp => (h.clean p (List.mem_append_right _ hp)).cookie]
  have hloop := cleanupLoop_eq (P := P) (show s.used_desc = [] ++ (_ ++ pc :: _) from hused) h.used_nodup
  rw [cleanupTo, hused, hloop, hall]
  simp [View.advance]

/-- The state afterwards. -/
theorem cleanupTo_state (h : Lists s v) (hk : v.rest[k]? = some pc) : cleanupTo P s pc = { s with
    desc := fun q => if q ∈ v.rest.take (k + 1) then settle (s.desc q) else s.desc q
    completed_cookie := ((told s (v.rest.take (k + 1))).getLast?.map fun n : Notice => n.1.cookie).getD s.completed_cookie
    active := s.active - BitVec.ofNat 16 ((told s (v.rest.take (k + 1))).map Prod.snd).sum
    reports := s.reports ++ (told s (v.rest.take (k + 1))).map Prod.fst
    used_desc := (v.advance s k pc).settled ++ (v.advance s k pc).rest
    free_desc := s.free_desc ++ (v.settled ++ v.rest.take k).filter (acked s)
    completion_pending := if (v.advance s k pc).rest = [] then false else s.completion_pending
    last_completion := pc } := by
  rw [cleanupTo_eq h hk, completeAll_eq (h.rest_nodup.sublist (List.take_sublist _ _))]

/-- The descriptors afterwards. -/
theorem cleanupTo_desc (h : Lists s v) (hk : v.rest[k]? = some pc) (q : Phys) :
    (cleanupTo P s pc).desc q = if q ∈ v.rest.take (k + 1) then settle (s.desc q) else s.desc q := by
  rw [cleanupTo_state h hk]

theorem cleanupTo_hw (h : Lists s v) (hk : v.rest[k]? = some pc) (q : Phys) :
    ((cleanupTo P s pc).desc q).hw = (s.desc q).hw ∧ ((cleanupTo P s pc).desc q).tx_list = (s.desc q).tx_list := by
  rw [cleanupTo_desc h hk]
  split <;> simp

theorem cleanupTo_outs (h : Lists s v) (hk : v.rest[k]? = some pc) : ∀ q ∈ (v.advance s k pc).rest,
    (cleanupTo P s pc).desc q = s.desc q := by
  intro q hq
  rw [cleanupTo_desc h hk, if_neg]
  intro hm
  have hnd := h.rest_nodup
  rw [← List.take_append_drop (k + 1) v.rest] at hnd
  exact (List.disjoint_of_nodup_append hnd) hm hq

theorem cleanupTo_chains (h : Lists s v) (hk : v.rest[k]? = some pc) :
    ((cleanupTo P s pc).prepared.flatMap fun r => ((cleanupTo P s pc).desc r.1).tx_list)
      = s.prepared.flatMap fun r => (s.desc r.1).tx_list := by
  have hprep : (cleanupTo P s pc).prepared = s.prepared := by
    rw [cleanupTo_state h hk]
  rw [hprep]
  exact List.flatMap_congr fun r _ => (cleanupTo_hw h hk r.1).2

theorem cleanupTo_held (h : Lists s v) (hk : v.rest[k]? = some pc) : (cleanupTo P s pc).held.Perm s.held := by
  unfold State.held
  rw [cleanupTo_chains h hk, h.used]
  refine List.Perm.append_right _ ?_
  rw [cleanupTo_eq h hk]
  dsimp only [View.advance]
  rw [List.append_assoc, List.append_assoc]
  refine List.Perm.append_left _ ?_
  have hrest : v.settled ++ v.rest = (v.settled ++ v.rest.take k) ++ ([pc] ++ v.rest.drop (k + 1)) := by
    rw [List.append_assoc, List.singleton_append, ← split_at hk]
  rw [hrest, ← List.append_assoc, ← List.append_assoc, List.append_assoc]
  exact (List.filter_append_perm (acked s) _).append_right _

theorem cleanupTo_last (h : Lists s v) (hk : v.rest[k]? = some pc) :
    (cleanupTo P s pc).used_desc.getLast? = s.used_desc.getLast? := by
  have hold : s.used_desc = (v.settled ++ v.rest.take k) ++ pc :: v.rest.drop (k + 1) := by
    rw [h.used, List.append_assoc, ← split_at hk]
  have hnew : (cleanupTo P s pc).used_desc
      = (v.settled ++ v.rest.take k).filter (fun p => !acked s p) ++ pc :: v.rest.drop (k + 1) := by
    rw [cleanupTo_eq h hk]
    simp [View.advance]
  rw [hold, hnew, List.getLast?_append_of_ne_nil _ (List.cons_ne_nil _ _),
    List.getLast?_append_of_ne_nil _ (List.cons_ne_nil _ _)]

theorem Lists.mem_held (h : Lists s v) {p : Phys} : p ∈ s.held ↔ p ∈ s.free_desc ∨ p ∈ v.settled ∨ p ∈ v.rest ∨
    p ∈ s.prepared.flatMap fun r => (s.desc r.1).tx_list := by
  rw [State.held, h.used]
  simp only [List.mem_append, or_assoc]

/-- The chain of a prepared transaction is on no list. -/
theorem Lists.chain_off (h : Lists s v) {r : Phys × Request} (hr : r ∈ s.prepared) {p : Phys}
    (hp : p ∈ (s.desc r.1).tx_list) : p ∉ s.free_desc ∧ p ∉ s.used_desc := by
  have hdisj := List.disjoint_of_nodup_append h.nodup
  have hmem : p ∈ s.prepared.flatMap fun r => (s.desc r.1).tx_list := List.mem_flatMap.2 ⟨r, hr, hp⟩
  exact ⟨fun hf => hdisj (List.mem_append_left _ hf) hmem, fun hu => hdisj (List.mem_append_right _ hu) hmem⟩

theorem Lists.cleanup (h : Lists s v) (hk : v.rest[k]? = some pc) : Lists (cleanupTo P s pc) (v.advance s k pc) := by
  have hheld := cleanupTo_held (P := P) h hk
  have hmem : pc ∈ s.held := by
    have : pc ∈ v.rest := List.mem_of_getElem? hk
    simp [State.held, h.used, this]
  have hpc : pc ≠ 0 := fun h0 => h.nonzero (h0 ▸ hmem)
  have heq := cleanupTo_state (P := P) h hk
  have hfields : (cleanupTo P s pc).prepared = s.prepared ∧ (cleanupTo P s pc).xfercap = s.xfercap := by
    rw [heq]
    exact ⟨rfl, rfl⟩
  refine ⟨?_, ?_, ?_, ?_, hheld.nodup_iff.2 h.nodup, fun h0 => h.nonzero (hheld.mem_iff.1 h0), ?_, ?_, ?_, ?_, ?_⟩
  · rw [hfields.2]; exact h.cap_pos
  · rw [heq]
  · rw [heq]
    simp [View.advance]
  · simp [View.advance]
  · intro p hp
    by_cases hpr : p ∈ v.rest.take (k + 1)
    · refine ⟨?_, ?_⟩
      · rw [cleanupTo_desc h hk, if_pos hpr, settle_cookie]
      · rw [(cleanupTo_hw h hk p).2]
        exact h.tx_list p (List.mem_of_mem_take hpr)
    · -- what was on neither list before is on neither now
      rw [cleanupTo_desc h hk, if_neg hpr]
      apply h.clean
      rw [take_succ_eq hk] at hpr
      rw [heq] at hp
      simp only [View.advance, List.mem_append, List.mem_filter, List.mem_singleton] at hp hpr ⊢
      tauto
  · intro p hp
    rw [(cleanupTo_hw h hk p).2]
    exact h.tx_list p (List.mem_of_mem_drop hp)
  · intro r hr
    rw [hfields.1] at hr
    rw [hfields.2]
    refine (h.ready r hr).congr fun p hp => .of_eq ?_
    rw [cleanupTo_desc h hk, if_neg]
    intro hm
    apply (h.chain_off hr hp).2
    rw [h.used]
    exact List.mem_append_right _ (List.mem_of_mem_take hm)
  · have hnext : (cleanupTo P s pc).next = s.next := funext fun q => congrArg HwDesc.next (cleanupTo_hw h hk q).1
    have hdrop := (linked_append.1 h.linked).2.drop k
    rw [hnext]
    rw [split_at hk, List.drop_left' (List.length_take_of_le (List.getElem?_eq_some_iff.1 hk).1.le)] at hdrop
    simpa [View.advance] using hdrop
  · intro tail ht
    rw [(cleanupTo_hw h hk tail).1]
    rw [cleanupTo_last h hk] at ht
    exact h.compl_write tail ht

theorem Books.cleanup (hl : Lists s v) (h : Books s v) (hk : v.rest[k]? = some pc) :
    Books (cleanupTo P s pc) (v.advance s k pc) := by
  have hnd := hl.rest_nodup.sublist (List.take_sublist (k + 1) _)
  have hsame : (cleanupTo P s pc).xfercap = s.xfercap ∧ (cleanupTo P s pc).submitted = s.submitted := by
    rw [cleanupTo_eq hl hk, completeAll_eq hnd]
    exact ⟨rfl, rfl⟩
  have hnoticed : noticed (v.advance s k pc).past = noticed v.past ++ told s (v.rest.take (k + 1)) := noticed_append _ _
  refine ⟨?_, ?_, ?_⟩
  · rw [hsame.1, hsame.2, ← h.script, List.flatMap_congr fun q hq => by rw [cleanupTo_outs hl hk q hq]]
    simp only [View.advance]
    rw [List.append_assoc, ← List.flatMap_append, List.take_append_drop]
  · rw [hnoticed, List.map_append, ← h.reports, cleanupTo_eq hl hk, completeAll_eq hnd]
  · rw [hsame.1, hsame.2, ← h.active, hnoticed, List.map_append, List.sum_append, BitVec.ofNat_add,
      cleanupTo_eq hl hk, completeAll_eq hnd]
    dsimp only
    rw [BitVec.add_comm (BitVec.ofNat 16 ((noticed v.past).map Prod.snd).sum), ← BitVec.add_assoc, BitVec.sub_add_cancel]

/-- Places on the line, counted from the new beginning. -/
theorem line_cleanup (hl : Lists s v) (hk : v.rest[k]? = some pc) :
    line (cleanupTo P s pc) (v.advance s k pc) = (line s v).drop (k + 1) := by
  rw [line, line, List.drop_succ_cons, split_at hk, List.drop_left' (List.length_take_of_le (List.getElem?_eq_some_iff.1 hk).1.le)]
  rw [cleanupTo_eq hl hk]
  simp [View.advance]

/-- What `cleanupTo` does not touch. -/
theorem cleanupTo_device (h : Lists s v) (hk : v.rest[k]? = some pc) :
    (cleanupTo P s pc).completion = s.completion ∧ (cleanupTo P s pc).chansts = s.chansts ∧
      (cleanupTo P s pc).engine = s.engine ∧ (cleanupTo P s pc).cleanup_lock = s.cleanup_lock ∧
      (cleanupTo P s pc).copies = s.copies := by
  rw [cleanupTo_state h hk]
  exact ⟨rfl, rfl, rfl, rfl, rfl⟩

/-- The clean-up looks at neither of these. -/
theorem cleanupTo_flags (h : Lists s v) (hk : v.rest[k]? = some pc) (completion_ack timer : Bool) :
    cleanupTo P { s with completion_ack := completion_ack, timer := timer } pc
      = { cleanupTo P s pc with completion_ack := completion_ack, timer := timer } := by
  have h' : Lists { s with completion_ack := completion_ack, timer := timer } v := { h with }
  rw [cleanupTo_state h' hk, cleanupTo_state h hk]
  rfl

theorem EngineAt.drop {l : List Phys} {x k : Nat} {e : Engine} (h : EngineAt l x e) (hk : k ≤ x) :
    EngineAt (l.drop k) (x - k) e := by
  cases e with
  | stopped => trivial
  | busy p next =>
    obtain ⟨j, hj, hp, hne, hnext⟩ := h
    refine ⟨j - k, by omega, ?_, hne, ?_⟩
    · rw [List.getElem?_drop, Nat.add_sub_cancel' (by omega)]
      exact hp
    · rw [List.getElem?_drop, show k + (j - k + 1) = j + 1 by omega]
      exact hnext
  | idle p =>
    obtain ⟨j, hj, hp, hne⟩ := h
    refine ⟨j - k, by omega, ?_, hne⟩
    rw [List.getElem?_drop, Nat.add_sub_cancel' (by omega)]
    exact hp

theorem PlacedAt.cleanup (hl : Lists s v) {c x : Nat} (h : PlacedAt s v c x) (hk : v.rest[k]? = some pc) (hc : k + 1 ≤ c) :
    PlacedAt { cleanupTo P s pc with cleanup_lock := none } (v.advance s k pc) (c - (k + 1)) (x - (k + 1)) := by
  obtain ⟨hcompletion, hchansts, hengine, -⟩ := cleanupTo_device (P := P) hl hk
  have hline := line_cleanup (P := P) hl hk
  have hx : k + 1 ≤ x := hc.trans h.le
  have hle := h.le
  refine ⟨?_, ?_, by omega, ?_, trivial⟩
  · show (line (cleanupTo P s pc) _)[_]? = _
    rw [hline, List.getElem?_drop, Nat.add_sub_cancel' hc]
    exact h.completion.trans (congrArg some hcompletion.symm)
  · show (line (cleanupTo P s pc) _)[_]? = _
    rw [hline, List.getElem?_drop, Nat.add_sub_cancel' hx]
    exact h.chansts.trans (congrArg some hchansts.symm)
  · show EngineAt (line (cleanupTo P s pc) _) _ (cleanupTo P s pc).engine
    rw [hline, hengine]
    exact h.engine.drop hx

end

end Dmacftu.Ioat
