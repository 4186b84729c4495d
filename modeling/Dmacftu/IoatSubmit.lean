import Dmacftu.IoatCleanup
/-!
# Submitting

What `ioat1_tx_submit` does in one piece (`afterSubmit`): one write makes the
device's chain lead into the new one, whose descriptors go to the end of `used_desc`.
-/
open Lib.CInt Lib.CopyEngine Lib.Links Lib.Script

namespace Dmacftu.Ioat

/-- The state after a submission; `chain_tail` is the last descriptor on `used_desc`. -/
def afterSubmit (P : Params) (s : State) (tx : Phys × Request) (callback : Option Nat) (chain_tail : Phys) : State :=
  let cookie := P.dma_cookie_assign s.cookie
  let d := s.desc tx.1
  let tail := s.desc chain_tail
  let pending := s32 (s.pending + d.hw.tx_cnt)
  { s with
    desc := Function.update
      (Function.update s.desc chain_tail { tail with hw := { tail.hw with next := d.tx_list.headD 0 } })
      tx.1 { d with callback := callback, cookie := cookie, tx_list := [] }
    used_desc := s.used_desc ++ d.tx_list
    completion_pending := true
    timer := s.timer || !s.completion_pending
    active := s.active + BitVec.ofNat 16 d.hw.tx_cnt
    pending := if pending ≥ P.ioat_pending_level then 0 else pending
    append := s.append || decide (pending ≥ P.ioat_pending_level)
    cookie := cookie
    prepared := s.prepared.erase tx
    submitted := s.submitted ++ [⟨cookie, tx.2, callback⟩] }

variable {P : Params} {s s' : State} {v : View} {tx : Phys × Request} {callback : Option Nat} {tail : Phys}

theorem submit_eq (htail : s.used_desc.getLast? = some tail) (hne : tail ≠ tx.1) (hfree : descLockFree s = true)
    (htx : tx ∈ s.prepared) : step P s (.submit tx callback) = some (afterSubmit P s tx callback tail) := by
  have hdesc : ∀ d t d', Function.update (Function.update (Function.update s.desc tx.1 d) tail t) tx.1 d'
      = Function.update (Function.update s.desc tail t) tx.1 d' := by
    intro d t d'
    rw [Function.update_comm hne.symm, Function.update_idem]
  cases hc : s.completion_pending <;> by_cases hp : s32 (s.pending + (s.desc tx.1).hw.tx_cnt) ≥ P.ioat_pending_level
  all_goals simp [step, hfree, htx, ioat1_tx_submit, link, State.setDesc, State.setHw, htail, hne, hne.symm, issue,
    afterSubmit, hc, hp, hdesc]

/-- The view with a transaction's chain at its end. -/
def View.extend (s : State) (v : View) (tx : Phys × Request) : View := { v with rest := v.rest ++ (s.desc tx.1).tx_list }

/-! ## The chains of the prepared transactions -/

theorem Lists.chains_perm (htx : tx ∈ s.prepared) : (s.prepared.flatMap fun r => (s.desc r.1).tx_list).Perm
    ((s.desc tx.1).tx_list ++ (s.prepared.erase tx).flatMap fun r => (s.desc r.1).tx_list) := by
  have h := (List.perm_cons_erase htx).flatMap_right fun r => (s.desc r.1).tx_list
  rwa [List.flatMap_cons] at h

/-- Other transactions have other descriptors. -/
theorem Lists.chain_apart (h : Lists s v) (htx : tx ∈ s.prepared) {r : Phys × Request} (hr : r ∈ s.prepared.erase tx)
    {p : Phys} (hp : p ∈ (s.desc r.1).tx_list) : p ∉ (s.desc tx.1).tx_list := by
  have hnd := (List.nodup_append.1 h.nodup).2.1
  rw [(chains_perm htx).nodup_iff] at hnd
  exact fun hm => (List.disjoint_of_nodup_append hnd) hm (List.mem_flatMap.2 ⟨r, hr, hp⟩)

theorem Lists.tx_mem (h : Lists s v) (htx : tx ∈ s.prepared) : tx.1 ∈ (s.desc tx.1).tx_list :=
  List.mem_of_getLast? (h.ready tx htx).last

theorem Lists.chain_nodup (h : Lists s v) (htx : tx ∈ s.prepared) : (s.desc tx.1).tx_list.Nodup := by
  have hnd := (List.nodup_append.1 h.nodup).2.1
  rw [(chains_perm htx).nodup_iff] at hnd
  exact (List.nodup_append.1 hnd).1

/-- There is a descriptor to append to. -/
theorem Lists.last_used (h : Lists s v) : ∃ tail, s.used_desc.getLast? = some tail ∧
    (v.settled.getLast?.toList ++ v.rest).getLast? = some tail := by
  rw [h.used]
  rcases List.eq_nil_or_concat v.rest with hr | ⟨l, t, hr⟩
  · have hs : v.settled ≠ [] := fun hs => h.started hs hr
    obtain ⟨l, t, hl⟩ := (List.eq_nil_or_concat v.settled).resolve_left hs
    refine ⟨t, ?_, ?_⟩ <;> simp [hr, hl]
  · refine ⟨t, ?_, ?_⟩ <;> simp [hr]

theorem Lists.trail_nodup (h : Lists s v) : (v.settled.getLast?.toList ++ v.rest).Nodup := by
  have hnd := h.used_nodup
  rw [h.used] at hnd
  refine hnd.sublist (List.Sublist.append_right ?_ _)
  rcases List.eq_nil_or_concat v.settled with hs | ⟨l, t, hs⟩ <;> simp [hs]

theorem Lists.tail_ne (h : Lists s v) (htail : s.used_desc.getLast? = some tail) (htx : tx ∈ s.prepared) : tail ≠ tx.1 := by
  rintro rfl
  exact (h.chain_off htx (h.tx_mem htx)).2 (List.mem_of_getLast? htail)

/-! ## The descriptors afterwards -/

theorem afterSubmit_other {q : Phys} (h : q ≠ tx.1) (ht : q ≠ tail) :
    (afterSubmit P s tx callback tail).desc q = s.desc q := by
  simp [afterSubmit, h, ht]

theorem afterSubmit_tx : (afterSubmit P s tx callback tail).desc tx.1
    = { s.desc tx.1 with callback := callback, cookie := P.dma_cookie_assign s.cookie, tx_list := [] } := by
  simp [afterSubmit]

theorem afterSubmit_tail (h : tail ≠ tx.1) : (afterSubmit P s tx callback tail).desc tail
    = { s.desc tail with hw := { (s.desc tail).hw with next := (s.desc tx.1).tx_list.headD 0 } } := by
  simp [afterSubmit, h]

/-- Away from the transaction only a `next` changes. -/
theorem afterSubmit_fields (h : tail ≠ tx.1) {q : Phys} (hq : q ≠ tx.1) :
    ((afterSubmit P s tx callback tail).desc q).outs = (s.desc q).outs ∧
      ((afterSubmit P s tx callback tail).desc q).cookie = (s.desc q).cookie ∧
      ((afterSubmit P s tx callback tail).desc q).tx_list = (s.desc q).tx_list := by
  by_cases ht : q = tail
  · subst ht
    rw [afterSubmit_tail h]
    exact ⟨rfl, rfl, rfl⟩
  · rw [afterSubmit_other hq ht]
    exact ⟨rfl, rfl, rfl⟩

theorem afterSubmit_copy (h : tail ≠ tx.1) (q : Phys) :
    ((afterSubmit P s tx callback tail).desc q).hw.copy = (s.desc q).hw.copy := by
  by_cases hq : q = tx.1
  · rw [hq, afterSubmit_tx]
  by_cases ht : q = tail
  · rw [ht, afterSubmit_tail h]
    rfl
  · rw [afterSubmit_other hq ht]

theorem afterSubmit_next {q : Phys} (hq : q ≠ tail) :
    (afterSubmit P s tx callback tail).next q = s.next q := by
  by_cases hqt : q = tx.1
  · rw [State.next, hqt, afterSubmit_tx]
  · rw [State.next, afterSubmit_other hqt hq]

/-! ## The invariant afterwards -/

theorem Lists.chain_kept (h : Lists s v) (htail : s.used_desc.getLast? = some tail) (htx : tx ∈ s.prepared)
    {r : Phys × Request} (hr : r ∈ s.prepared.erase tx) {p : Phys} (hp : p ∈ (s.desc r.1).tx_list) :
    (afterSubmit P s tx callback tail).desc p = s.desc p := by
  apply afterSubmit_other
  · exact fun hpt => h.chain_apart htx hr hp (hpt ▸ h.tx_mem htx)
  · rintro rfl
    exact (h.chain_off (List.mem_of_mem_erase hr) hp).2 (List.mem_of_getLast? htail)

theorem Lists.submit_held (h : Lists s v) (htail : s.used_desc.getLast? = some tail) (htx : tx ∈ s.prepared) :
    (afterSubmit P s tx callback tail).held.Perm s.held := by
  have hself : ∀ r ∈ s.prepared.erase tx, (afterSubmit P s tx callback tail).desc r.1 = s.desc r.1 :=
    fun r hr => h.chain_kept htail htx hr (h.tx_mem (List.mem_of_mem_erase hr))
  unfold State.held
  show (s.free_desc ++ (s.used_desc ++ (s.desc tx.1).tx_list) ++ ((s.prepared.erase tx).flatMap fun r =>
    ((afterSubmit P s tx callback tail).desc r.1).tx_list)).Perm _
  rw [List.flatMap_congr fun r hr => by rw [hself r hr], ← List.append_assoc, List.append_assoc]
  exact (chains_perm htx).symm.append_left _

theorem Lists.submit (h : Lists s v) (htail : s.used_desc.getLast? = some tail) (htx : tx ∈ s.prepared) :
    Lists (afterSubmit P s tx callback tail) (v.extend s tx) := by
  have hne := h.tail_ne htail htx
  have hready := h.ready tx htx
  have hoff : ∀ q ∈ s.free_desc ++ s.used_desc, q ∉ (s.desc tx.1).tx_list :=
    fun q hq hm => (List.mem_append.1 hq).elim (h.chain_off htx hm).1 (h.chain_off htx hm).2
  have hnetx : ∀ q ∈ s.free_desc ++ s.used_desc, q ≠ tx.1 := fun q hq hqt => hoff q hq (hqt ▸ h.tx_mem htx)
  have hothers : ∀ r ∈ s.prepared.erase tx, ∀ p ∈ (s.desc r.1).tx_list, (afterSubmit P s tx callback tail).desc p = s.desc p :=
    fun r hr p hp => h.chain_kept htail htx hr hp
  have hheld : (afterSubmit P s tx callback tail).held.Perm s.held := h.submit_held htail htx
  refine ⟨h.cap_pos, ?_, h.last, ?_, hheld.nodup_iff.2 h.nodup, fun h0 => h.nonzero (hheld.mem_iff.1 h0), ?_, ?_, ?_, ?_, ?_⟩
  · show s.used_desc ++ _ = _
    rw [h.used, View.extend, List.append_assoc]
  · intro hs hr
    exact h.started hs (List.append_eq_nil_iff.1 hr).1
  · intro p hp
    have hpu : p ∈ s.free_desc ++ s.used_desc := by
      rw [h.used]
      rcases List.mem_append.1 hp with hp | hp
      · exact List.mem_append_left _ hp
      · exact List.mem_append_right _ (List.mem_append_left _ hp)
    have hc := h.clean p hp
    have hsame : _ ∧ ((afterSubmit P s tx callback tail).desc p).cookie = _ ∧ _ := afterSubmit_fields hne (hnetx p hpu)
    exact ⟨hsame.2.1.trans hc.cookie, hsame.2.2.trans hc.tx_list⟩
  · intro p hp
    rcases List.mem_append.1 hp with hp | hp
    · have hpu : p ∈ s.free_desc ++ s.used_desc := by rw [h.used]; simp [hp]
      rw [(afterSubmit_fields hne (hnetx p hpu)).2.2]
      exact h.tx_list p hp
    · by_cases hpt : p = tx.1
      · rw [hpt, afterSubmit_tx]
      · rw [(afterSubmit_fields hne hpt).2.2]
        exact hready.inner p hp hpt
  · intro r hr
    exact (h.ready r (List.mem_of_mem_erase hr)).congr fun p hp => .of_eq (hothers r hr p hp)
  · obtain ⟨t, ht, hlast⟩ := h.last_used
    obtain rfl : t = tail := Option.some.inj (ht.symm.trans htail)
    obtain ⟨front, hfront⟩ := List.getLast?_eq_some_iff.1 hlast
    -- the old tail is led to the head of the new chain
    have hl := h.linked
    rw [View.extend, ← List.append_assoc]
    rw [hfront] at hl ⊢
    have hnd := h.trail_nodup
    rw [hfront] at hnd
    refine hl.splice hready.linked (fun q hq => afterSubmit_next ?_) ?_
    · rintro rfl
      rcases List.mem_append.1 hq with hq | hq
      · exact (List.disjoint_of_nodup_append hnd) hq List.mem_cons_self
      · exact hoff q (List.mem_append_right _ (List.mem_of_getLast? htail)) hq
    · rw [State.next, afterSubmit_tail hne]
  · intro t ht
    obtain rfl : tx.1 = t := by
      have hlast : (s.used_desc ++ (s.desc tx.1).tx_list).getLast? = some t := ht
      rw [List.getLast?_append, hready.last] at hlast
      exact Option.some.inj hlast
    rw [afterSubmit_tx]
    exact hready.compl_write

theorem Books.submit (hl : Lists s v) (h : Books s v) (htail : s.used_desc.getLast? = some tail) (htx : tx ∈ s.prepared) :
    Books (afterSubmit P s tx callback tail) (v.extend s tx) := by
  have hne := hl.tail_ne htail htx
  have hready := hl.ready tx htx
  let t : Tx := ⟨P.dma_cookie_assign s.cookie, tx.2, callback⟩
  have hchain : (s.desc tx.1).tx_list.flatMap (fun p => ((afterSubmit P s tx callback tail).desc p).outs)
      = block (fun t : Tx => t.req.chunks s.xfercap) (Tx.notice s.xfercap) t := by
    refine hready.outs (hl.chain_nodup htx) rfl (P.cookie_ne _) (afterSubmit_copy hne)
      (fun p hp => (afterSubmit_fields hne hp).2.1) ?_ ?_
    · rw [afterSubmit_tx]
    · rw [afterSubmit_tx]
      exact congrArg (fun m => Report.mk t.cookie m callback) hready.unmaps
  refine ⟨?_, h.reports, ?_⟩
  · show v.past ++ (v.rest ++ (s.desc tx.1).tx_list).flatMap _ = Lib.Script.script _ _ (s.submitted ++ [t])
    rw [script_concat, List.flatMap_append, hchain, ← List.append_assoc]
    refine congrArg (· ++ _) ?_
    rw [List.flatMap_congr fun q hq => (afterSubmit_fields hne ?_).1]
    · exact h.script
    · rintro rfl
      apply (hl.chain_off htx (hl.tx_mem htx)).2
      rw [hl.used]
      exact List.mem_append_right _ hq
  · show s.active + BitVec.ofNat 16 (s.desc tx.1).hw.tx_cnt + _
      = BitVec.ofNat 16 ((s.submitted ++ [t]).map fun t => t.req.count s.xfercap).sum
    have ha := h.active
    rw [List.map_append, List.sum_append, BitVec.ofNat_add, ← ha, hready.tx_cnt]
    simp only [View.extend, List.map_cons, List.map_nil, List.sum_cons, List.sum_nil, Nat.add_zero, t]
    rw [BitVec.add_assoc, BitVec.add_assoc, BitVec.add_comm (BitVec.ofNat 16 (tx.2.count s.xfercap))]

theorem EngineAt.append {l : List Phys} {x : Nat} {e : Engine} (h : EngineAt l x e) (m : List Phys) :
    EngineAt (l ++ m) x e := by
  have hget : ∀ {i : Nat} {p : Phys}, l[i]? = some p → (l ++ m)[i]? = some p := fun hp =>
    (List.getElem?_append_left (List.getElem?_eq_some_iff.1 hp).1).trans hp
  cases e with
  | stopped => trivial
  | busy p next =>
    obtain ⟨j, hj, hp, hne, hnext⟩ := h
    exact ⟨j, hj, hget hp, hne, hnext.imp_right hget⟩
  | idle p =>
    obtain ⟨j, hj, hp, hne⟩ := h
    exact ⟨j, hj, hget hp, hne⟩

theorem HolderAt.append {l : List Phys} {c x : Nat} {o : Option Holder} (h : HolderAt l c x o) (m : List Phys) :
    HolderAt (l ++ m) c x o := by
  have hget : ∀ {i : Nat} {p : Phys}, l[i]? = some p → (l ++ m)[i]? = some p := fun hp =>
    (List.getElem?_append_left (List.getElem?_eq_some_iff.1 hp).1).trans hp
  match o, h with
  | none, _ => trivial
  | some (.cleanup _), ⟨k, h0, hk, hp⟩ => exact ⟨k, h0, hk, hget hp⟩
  | some (.timer _), ⟨k, hk, hp⟩ => exact ⟨k, hk, hget hp⟩

theorem PlacedAt.submit {c x : Nat} (h : PlacedAt s v c x) :
    PlacedAt (afterSubmit P s tx callback tail) (v.extend s tx) c x := by
  have hget : ∀ {i : Nat} {p : Phys}, (line s v)[i]? = some p → (line s v ++ (s.desc tx.1).tx_list)[i]? = some p :=
    fun hp => (List.getElem?_append_left (List.getElem?_eq_some_iff.1 hp).1).trans hp
  exact ⟨hget h.completion, hget h.chansts, h.le, h.engine.append _, h.holder.append _⟩

end Dmacftu.Ioat
