import Dmacftu.Ioat
import Dmacftu.Lib.Links
import Mathlib.Data.List.Nodup
import Mathlib.Data.List.Perm.Basic
/-!
# Preparing a transaction

`ioat1_dma_prep_memcpy` cuts a request into pieces of `xfercap` bytes, one
descriptor each. `Chained` is what holds of the chain all along: its
descriptors and those still free are the ones that were free before or came from
the pool, each once; the chain is linked, and its `i`th descriptor copies the `i`th
piece. The loop is left with a chain for the whole request (`Done`) or without a
descriptor to go on with, and then everything is free again (`prep_none`).
-/
open Lib.CopyEngine Lib.Links

namespace Dmacftu.Ioat

/-- The `i`th piece of a request. -/
def Request.chunk (xfercap : Nat) (req : Request) (i : Nat) : Desc :=
  ⟨req.dma_dest + i * xfercap, req.dma_src + i * xfercap, min (req.len - i * xfercap) xfercap⟩

/-- How many pieces there are; a request of no bytes has one. -/
def Request.count (xfercap : Nat) (req : Request) : Nat := (req.len - 1) / xfercap + 1

def Request.chunks (xfercap : Nat) (req : Request) : List Desc :=
  (List.range (req.count xfercap)).map (req.chunk xfercap)

/-- A descriptor that belongs to no transaction. -/
structure Clean (d : DescSw) : Prop where
  cookie : d.cookie = 0
  tx_list : d.tx_list = []

theorem clean_zeroed : Clean zeroed := ⟨rfl, rfl⟩

abbrev State.next (s : State) (p : Phys) : Phys := (s.desc p).hw.next

/-! ## Taking a descriptor -/

/-- Of a descriptor taken, or not, and what is free afterwards. -/
structure Took (s : State) (pool taken : List Phys) (r : Option Phys × State × List Phys) : Prop where
  pool_eq : pool = taken ++ r.2.2
  state_eq : r.2.1 = { s with free_desc := r.2.1.free_desc, desc := r.2.1.desc, granted := s.granted ++ taken }
  perm : (r.1.toList ++ r.2.1.free_desc).Perm (s.free_desc ++ taken)
  zeroed : ∀ p ∈ taken, r.2.1.desc p = Ioat.zeroed
  frame : ∀ p ∉ taken, r.2.1.desc p = s.desc p

theorem get_next_took (s : State) (pool : List Phys) :
    ∃ taken, Took s pool taken (ioat1_dma_get_next_descriptor s pool) := by
  unfold ioat1_dma_get_next_descriptor
  split
  next new fs _ hfree =>
    refine ⟨[], rfl, by rw [List.append_nil], ?_, fun p hp => absurd hp List.not_mem_nil, fun _ _ => rfl⟩
    simp [hfree]
  next new pool hfree =>
    refine ⟨[new], rfl, rfl, ?_, ?_, ?_⟩
    · simp [hfree, ioat_dma_alloc_descriptor, State.setDesc]
    · intro p hp
      rw [List.mem_singleton.1 hp]
      exact Function.update_self ..
    · intro p hp
      exact Function.update_of_ne (by simpa using hp) ..
  next hfree => exact ⟨[], rfl, by rw [List.append_nil], by simp [hfree], fun p hp => absurd hp List.not_mem_nil, fun _ _ => rfl⟩

/-! ## The chain -/

variable {s : State} {req : Request} {pool taken cur : List Phys} {lead : Phys} {v : PrepLoop}

/-- The chain so far; `cur` is the descriptor taken for the next piece, to which
the chain leads. -/
structure Chained (s : State) (req : Request) (pool taken cur : List Phys) (lead : Phys) (v : PrepLoop) : Prop where
  pool_eq : pool = taken ++ v.pool
  state_eq : v.state = { s with free_desc := v.state.free_desc, desc := v.state.desc, granted := s.granted ++ taken }
  perm : (v.chain ++ cur ++ v.state.free_desc).Perm (s.free_desc ++ taken)
  clean : ∀ p ∈ v.chain ++ cur ++ v.state.free_desc, Clean (v.state.desc p)
  frame : ∀ p ∉ s.free_desc ++ taken, v.state.desc p = s.desc p
  cells : ∀ i p, v.chain[i]? = some p → (v.state.desc p).hw.copy = [req.chunk s.xfercap i]
  linked : Linked v.state.next v.chain lead
  tx_cnt : v.tx_cnt = v.chain.length

/-- At the head of the loop. -/
structure Going (s : State) (req : Request) (pool taken : List Phys) (v : PrepLoop) : Prop
    extends Chained s req pool taken v.desc.toList (v.desc.getD 0) v where
  len : v.len = req.len - v.chain.length * s.xfercap
  dest : v.dest = req.dma_dest + v.chain.length * s.xfercap
  src : v.src = req.dma_src + v.chain.length * s.xfercap
  more : v.chain = [] ∨ v.len ≠ 0

/-- The whole request has its descriptors, the last of which is `v.desc`. -/
structure Done (s : State) (req : Request) (pool taken : List Phys) (tx : Phys) (v : PrepLoop) : Prop
    extends Chained s req pool taken [] 0 v where
  desc : v.desc = some tx
  last : v.chain.getLast? = some tx
  count : v.chain.length = req.count s.xfercap

theorem Chained.xfercap (h : Chained s req pool taken cur lead v) : v.state.xfercap = s.xfercap := by rw [h.state_eq]

theorem Chained.nodup (h : Chained s req pool taken cur lead v) (hnd : (s.free_desc ++ pool).Nodup) :
    (v.chain ++ cur ++ v.state.free_desc ++ v.pool).Nodup := by
  rw [h.pool_eq, ← List.append_assoc] at hnd
  exact (h.perm.append_right v.pool).nodup_iff.2 hnd

/-- One more piece: its descriptor is filled in and others may have been taken. -/
theorem Going.extend {d : Phys} (h : Going s req pool taken v) (hd : v.desc = some d) (hnd : (s.free_desc ++ pool).Nodup)
    {taken' cur' : List Phys} {lead' : Phys} {v' : PrepLoop} (hpool : v.pool = taken' ++ v'.pool)
    (hstate : v'.state = { s with
      free_desc := v'.state.free_desc, desc := v'.state.desc, granted := s.granted ++ (taken ++ taken') })
    (hperm : (cur' ++ v'.state.free_desc).Perm (v.state.free_desc ++ taken'))
    (hnew : ∀ p ∈ taken', v'.state.desc p = zeroed)
    (hframe : ∀ p ∉ taken', p ≠ d → v'.state.desc p = v.state.desc p)
    (hclean : Clean (v'.state.desc d)) (hcopy : (v'.state.desc d).hw.copy = [req.chunk s.xfercap v.chain.length])
    (hnext : v'.state.next d = lead') (hchain : v'.chain = v.chain ++ [d]) (hcnt : v'.tx_cnt = v.tx_cnt + 1) :
    Chained s req pool (taken ++ taken') cur' lead' v' := by
  have hnodup := h.nodup hnd
  rw [hd, hpool] at hnodup
  -- the descriptor filled in is new to the chain, so the pieces before it stay as they were
  have hdchain : d ∉ v.chain := by
    intro hm
    rw [List.append_assoc, List.append_assoc] at hnodup
    exact (List.disjoint_of_nodup_append hnodup) hm (by simp)
  have hold : ∀ p ∈ v.chain, v'.state.desc p = v.state.desc p := by
    intro p hp
    refine hframe p (fun hp' => ?_) (fun hpd => hdchain (hpd ▸ hp))
    rw [List.append_assoc, List.append_assoc] at hnodup
    exact (List.disjoint_of_nodup_append hnodup) hp (by simp [hp'])
  have hperm' : (v'.chain ++ cur' ++ v'.state.free_desc).Perm (s.free_desc ++ (taken ++ taken')) := by
    rw [hchain, List.append_assoc, ← List.append_assoc s.free_desc]
    have := h.perm.append_right taken'
    rw [hd, Option.toList_some, List.append_assoc] at this
    exact (hperm.append_left (v.chain ++ [d])).trans this
  refine ⟨?_, hstate, hperm', ?_, ?_, ?_, ?_, ?_⟩
  · rw [h.pool_eq, hpool, List.append_assoc]
  · intro p hp
    by_cases hpd : p = d
    · rw [hpd]; exact hclean
    by_cases hpt : p ∈ taken'
    · rw [hnew p hpt]; exact clean_zeroed
    rw [hframe p hpt hpd]
    apply h.clean
    rw [hd]
    rw [hchain, List.append_assoc, List.mem_append] at hp
    rcases hp with hp | hp
    · exact List.mem_append_left _ hp
    · rcases List.mem_append.1 (hperm.mem_iff.1 hp) with hp | hp
      · exact List.mem_append_right _ hp
      · exact absurd hp hpt
  · intro p hp
    rw [List.mem_append, List.mem_append] at hp
    push Not at hp
    have hpd : p ≠ d := by
      rintro rfl
      have : p ∈ s.free_desc ++ taken := h.perm.mem_iff.1 (by simp [hd])
      rcases List.mem_append.1 this with hm | hm
      · exact hp.1 hm
      · exact hp.2.1 hm
    rw [hframe p hp.2.2 hpd]
    apply h.frame
    rw [List.mem_append]
    push Not
    exact ⟨hp.1, hp.2.1⟩
  · intro i p hp
    rw [hchain] at hp
    rcases Nat.lt_or_ge i v.chain.length with hi | hi
    · rw [List.getElem?_append_left hi] at hp
      rw [hold p (List.mem_of_getElem? hp)]
      exact h.cells i p hp
    · have hlt := (List.getElem?_eq_some_iff.1 hp).1
      rw [List.length_append, List.length_singleton] at hlt
      obtain rfl : i = v.chain.length := by omega
      rw [List.getElem?_concat_length] at hp
      cases hp
      exact hcopy
  · rw [hchain, linked_append]
    refine ⟨?_, linked_singleton.2 hnext⟩
    have hl := h.linked
    rw [hd] at hl
    exact hl.congr fun p hp => by rw [State.next, hold p hp]
  · rw [hcnt, hchain, h.tx_cnt, List.length_append, List.length_singleton]

@[simp] theorem setHw_desc_self (s : State) (p : Phys) (hw : HwDesc) : (s.setHw p hw).desc p = { s.desc p with hw := hw } :=
  Function.update_self ..

theorem setHw_desc_of_ne {p q : Phys} (h : q ≠ p) (s : State) (hw : HwDesc) : (s.setHw p hw).desc q = s.desc q :=
  Function.update_of_ne h ..

@[simp] theorem async_tx_ack_desc_self (s : State) (p : Phys) :
    (s.async_tx_ack p).desc p = { s.desc p with flags := { (s.desc p).flags with DMA_CTRL_ACK := true } } :=
  Function.update_self ..

theorem async_tx_ack_desc_of_ne {p q : Phys} (h : q ≠ p) (s : State) : (s.async_tx_ack p).desc q = s.desc q :=
  Function.update_of_ne h ..

/-- The pass before the last. -/
theorem Going.pass {d : Phys} (h : Going s req pool taken v) (hd : v.desc = some d) (hnd : (s.free_desc ++ pool).Nodup)
    (hmore : (prepPass v d).len ≠ 0) : ∃ taken', Going s req pool taken' (prepPass v d) := by
  have hcap := h.xfercap
  have hlen : v.len - min v.len v.state.xfercap ≠ 0 := by
    intro h0
    simp only [prepPass, h0, ne_eq, not_true_eq_false, if_false] at hmore
  -- the request goes on behind this piece, which is therefore a full one
  have hmin : min v.len v.state.xfercap = s.xfercap := by omega
  let hw := { (v.state.desc d).hw with
    size := min v.len v.state.xfercap, ctl := ⟨false, false, false⟩, src_addr := v.src, dst_addr := v.dest }
  let st := (v.state.setHw d hw).async_tx_ack d
  have hst : st.desc d = { v.state.desc d with hw := hw, flags := { (v.state.desc d).flags with DMA_CTRL_ACK := true } } := by
    simp [st]
  obtain ⟨taken', htook⟩ := get_next_took st v.pool
  have hpass : prepPass v d = { v with
      tx_cnt := v.tx_cnt + 1
      chain := v.chain ++ [d]
      len := v.len - min v.len v.state.xfercap
      dest := v.dest + min v.len v.state.xfercap
      src := v.src + min v.len v.state.xfercap
      desc := (ioat1_dma_get_next_descriptor st v.pool).1
      state := (ioat1_dma_get_next_descriptor st v.pool).2.1.setHw d
        { ((ioat1_dma_get_next_descriptor st v.pool).2.1.desc d).hw with
          next := (ioat1_dma_get_next_descriptor st v.pool).1.getD 0 }
      pool := (ioat1_dma_get_next_descriptor st v.pool).2.2 } := by
    simp only [prepPass, ne_eq, hlen, not_false_eq_true, if_true]
    rfl
  rw [hpass]
  generalize ioat1_dma_get_next_descriptor st v.pool = r at htook
  have hdt : d ∉ taken' := by
    intro hm
    have hnodup := h.nodup hnd
    rw [hd, htook.pool_eq, List.append_assoc, List.append_assoc] at hnodup
    have := (List.nodup_append.1 hnodup).2.1
    exact (List.nodup_cons.1 this).1 (by simp [hm])
  have hdd : r.2.1.desc d = st.desc d := htook.frame d hdt
  refine ⟨taken ++ taken', h.extend hd hnd htook.pool_eq ?_ ?_ ?_ ?_ ?_ ?_ ?_ rfl rfl, ?_, ?_, ?_, .inr hlen⟩
  · simp only [State.setHw, State.setDesc]
    rw [htook.state_eq]
    simp only [st, State.async_tx_ack, State.setHw, State.setDesc]
    rw [h.state_eq, ← List.append_assoc]
  · exact htook.perm
  · intro p hp
    have hpd : p ≠ d := fun hpd => hdt (hpd ▸ hp)
    dsimp only
    rw [setHw_desc_of_ne hpd, htook.zeroed p hp]
  · intro p hp hpd
    dsimp only
    rw [setHw_desc_of_ne hpd, htook.frame p hp, async_tx_ack_desc_of_ne hpd, setHw_desc_of_ne hpd]
  · have hc := h.clean d (by simp [hd])
    dsimp only
    rw [setHw_desc_self, hdd, hst]
    exact ⟨hc.cookie, hc.tx_list⟩
  · dsimp only
    rw [setHw_desc_self, hdd, hst]
    simp only [HwDesc.copy, hw, Request.chunk, Bool.false_eq_true, if_false]
    rw [h.dest, h.src, h.len, hcap]
  · simp [State.next]
  · dsimp only
    rw [hmin, h.len, List.length_append, List.length_singleton, Nat.add_mul, Nat.one_mul]
    omega
  · dsimp only
    rw [hmin, h.dest, List.length_append, List.length_singleton, Nat.add_mul, Nat.one_mul]
    omega
  · dsimp only
    rw [hmin, h.src, List.length_append, List.length_singleton, Nat.add_mul, Nat.one_mul]
    omega

/-- The last pass. -/
theorem Going.last_pass {d : Phys} (h : Going s req pool taken v) (hd : v.desc = some d)
    (hnd : (s.free_desc ++ pool).Nodup) (hcap : 0 < s.xfercap) (hmore : (prepPass v d).len = 0) :
    Done s req pool taken d (prepPass v d) := by
  have hlen : v.len - min v.len v.state.xfercap = 0 := by
    by_contra hne
    simp only [prepPass, ne_eq, hne, not_false_eq_true, if_true] at hmore
  let hw := { (v.state.desc d).hw with
    size := min v.len v.state.xfercap, ctl := ⟨false, false, false⟩, src_addr := v.src, dst_addr := v.dest }
  let w : PrepLoop := { v with
      tx_cnt := v.tx_cnt + 1
      chain := v.chain ++ [d]
      len := v.len - min v.len v.state.xfercap
      dest := v.dest + min v.len v.state.xfercap
      src := v.src + min v.len v.state.xfercap
      desc := some d
      state := v.state.setHw d { hw with next := 0 } }
  have hpass : prepPass v d = w := by
    simp only [prepPass, w, ne_eq, hlen, not_true_eq_false, if_false]
    rfl
  rw [hpass]
  have hle : v.len ≤ s.xfercap := by
    rw [h.xfercap] at hlen
    omega
  have hchained : Chained s req pool (taken ++ []) [] 0 w := h.extend hd hnd rfl
    (by simp only [w, State.setHw, State.setDesc]; rw [h.state_eq, List.append_nil]) (by simp [w, State.setHw, State.setDesc])
    (fun p hp => absurd hp List.not_mem_nil) (fun p _ hpd => setHw_desc_of_ne hpd _ _)
    (by
      have hc := h.clean d (by simp [hd])
      rw [setHw_desc_self]
      exact ⟨hc.cookie, hc.tx_list⟩)
    (by
      rw [setHw_desc_self]
      simp only [HwDesc.copy, hw, Request.chunk, Bool.false_eq_true, if_false]
      rw [h.dest, h.src, h.len, h.xfercap])
    (by simp [w, State.next]) rfl rfl
  rw [List.append_nil] at hchained
  refine ⟨hchained, rfl, List.getLast?_concat, ?_⟩
  rw [List.length_append, List.length_singleton, Request.count]
  refine congrArg (· + 1) (Nat.eq_of_le_of_lt_succ ?_ ?_).symm
  · rw [Nat.le_div_iff_mul_le hcap]
    rcases h.more with h0 | h0
    · simp [h0]
    · rw [h.len] at h0
      omega
  · rw [Nat.div_lt_iff_lt_mul hcap, Nat.succ_mul]
    rw [h.len] at hle
    omega

theorem prepLoop_done (hnd : (s.free_desc ++ pool).Nodup) (hcap : 0 < s.xfercap) {fuel : Nat} {taken : List Phys}
    {v : PrepLoop} (h : Going s req pool taken v) (hfuel : v.len < fuel) :
    (∃ taken, Going s req pool taken (prepLoop fuel v) ∧ (prepLoop fuel v).desc = none) ∨
      ∃ taken tx, Done s req pool taken tx (prepLoop fuel v) := by
  induction fuel generalizing taken v with
  | zero => omega
  | succ fuel ih =>
    rw [prepLoop]
    split
    next hd => exact .inl ⟨taken, h, hd⟩
    next d hd =>
      by_cases hmore : (prepPass v d).len ≠ 0
      · simp only [hmore, ne_eq, not_false_eq_true, if_true]
        obtain ⟨taken', h'⟩ := h.pass hd hnd hmore
        refine ih h' ?_
        have hlen := h'.len
        have hcnt : (prepPass v d).chain.length = v.chain.length + 1 := by
          simp only [prepPass]
          split <;> simp
        rw [hcnt, Nat.add_mul, Nat.one_mul] at hlen
        have := h.len
        omega
      · simp only [hmore, if_false]
        exact .inr ⟨taken, d, h.last_pass hd hnd hcap (not_not.1 hmore)⟩

/-! ## The transaction -/

/-- The mappings to undo for a request. -/
def Request.unmaps (req : Request) : List Mapping :=
  (if req.flags.DMA_COMPL_SKIP_DEST_UNMAP then []
    else [ioat_unmap req.dma_dest req.len .DMA_FROM_DEVICE req.flags.DMA_COMPL_DEST_UNMAP_SINGLE]) ++
  (if req.flags.DMA_COMPL_SKIP_SRC_UNMAP then []
    else [ioat_unmap req.dma_src req.len .DMA_TO_DEVICE req.flags.DMA_COMPL_SRC_UNMAP_SINGLE])

/-- `r.1` is the last descriptor of a linked chain for the request `r.2`, and knows the chain. -/
structure Ready (xfercap : Nat) (desc : Phys → DescSw) (r : Phys × Request) : Prop where
  last : (desc r.1).tx_list.getLast? = some r.1
  cells : ∀ i p, (desc r.1).tx_list[i]? = some p → (desc p).hw.copy = [r.2.chunk xfercap i]
  count : (desc r.1).tx_list.length = r.2.count xfercap
  linked : Linked (fun p => (desc p).hw.next) (desc r.1).tx_list 0
  cookie : ∀ p ∈ (desc r.1).tx_list, (desc p).cookie = 0
  inner : ∀ p ∈ (desc r.1).tx_list, p ≠ r.1 → (desc p).tx_list = []
  unmaps : ioat_dma_unmap (desc r.1).flags (desc r.1).len (desc r.1).hw = r.2.unmaps
  tx_cnt : (desc r.1).hw.tx_cnt = r.2.count xfercap
  compl_write : (desc r.1).hw.ctl.compl_write = true

/-- What a call of `ioat1_dma_prep_memcpy` changes; `chain` is what it keeps. -/
structure Prepared (s : State) (pool taken chain : List Phys) (s' : State) : Prop where
  taken_prefix : taken <+: pool
  state_eq : s' = { s with free_desc := s'.free_desc, desc := s'.desc, granted := s.granted ++ taken }
  perm : (chain ++ s'.free_desc).Perm (s.free_desc ++ taken)
  clean : ∀ p ∈ s'.free_desc, Clean (s'.desc p)
  frame : ∀ p ∉ s.free_desc ++ taken, s'.desc p = s.desc p

theorem going_start (req : Request) (pool : List Phys) (hclean : ∀ p ∈ s.free_desc, Clean (s.desc p)) :
    ∃ taken, Going s req pool taken ⟨(ioat1_dma_get_next_descriptor s pool).1, [], req.len, req.dma_dest, req.dma_src, 0,
      (ioat1_dma_get_next_descriptor s pool).2.1, (ioat1_dma_get_next_descriptor s pool).2.2⟩ := by
  obtain ⟨taken, h⟩ := get_next_took s pool
  refine ⟨taken, ⟨h.pool_eq, h.state_eq, h.perm, ?_, ?_, ?_, linked_nil, rfl⟩, ?_, ?_, ?_, .inl rfl⟩
  · intro p hp
    by_cases hpt : p ∈ taken
    · rw [h.zeroed p hpt]
      exact clean_zeroed
    · rw [h.frame p hpt]
      rcases List.mem_append.1 (h.perm.mem_iff.1 hp) with hp | hp
      · exact hclean p hp
      · exact absurd hp hpt
  · intro p hp
    exact h.frame p fun hpt => hp (List.mem_append_right _ hpt)
  · intro i p hp
    cases hp
  all_goals simp

/-- Where the last piece lies. -/
theorem unmap_eq (hw : HwDesc) {xfercap i : Nat} {flags : DmaCtrlFlags} (hcopy : hw.copy = [req.chunk xfercap i])
    (hlast : i * xfercap ≤ req.len) (hle : req.len - i * xfercap ≤ xfercap) (hflags : flags = req.flags) :
    ioat_dma_unmap flags req.len hw = req.unmaps := by
  unfold HwDesc.copy at hcopy
  split at hcopy
  · cases hcopy
  · simp only [Request.chunk, List.cons.injEq, Desc.mk.injEq, and_true] at hcopy
    obtain ⟨hdst, hsrc, hsize⟩ := hcopy
    have hoff : req.len - hw.size = i * xfercap := by omega
    simp only [ioat_dma_unmap, Request.unmaps, hoff, hdst, hsrc, hflags, Nat.add_sub_cancel]

theorem count_spec {xfercap : Nat} (hcap : 0 < xfercap) (req : Request) :
    (req.count xfercap - 1) * xfercap ≤ req.len ∧ req.len - (req.count xfercap - 1) * xfercap ≤ xfercap := by
  have hdiv : (req.len - 1) / xfercap * xfercap ≤ req.len - 1 := Nat.div_mul_le_self _ _
  have hlt : req.len - 1 < ((req.len - 1) / xfercap + 1) * xfercap := by
    rw [← Nat.div_lt_iff_lt_mul hcap]
    exact Nat.lt_succ_self _
  rw [Nat.succ_mul] at hlt
  simp only [Request.count, Nat.add_sub_cancel]
  omega

/-- The chain of the whole request, once its last descriptor is the transaction's. -/
theorem Done.ready {tx : Phys} (h : Done s req pool taken tx v) (hcap : 0 < s.xfercap) :
    Ready s.xfercap (Function.update v.state.desc tx (prepLast req v (v.state.desc tx))) (tx, req) := by
  have htx : tx ∈ v.chain := List.mem_of_getLast? h.last
  have hclean : Clean (v.state.desc tx) := h.clean tx (by simp [htx])
  have hlist : (prepLast req v (v.state.desc tx)).tx_list = v.chain := by
    simp only [prepLast, hclean.tx_list, List.append_nil]
  have hcount : v.chain.length - 1 < v.chain.length := Nat.sub_one_lt (List.length_pos_of_mem htx).ne'
  have hcell := h.cells _ tx (by rw [← List.getLast?_eq_getElem?, h.last])
  -- the last descriptor gets its flags and counts; what it copies stays
  have hcopy : ∀ p, (Function.update v.state.desc tx (prepLast req v (v.state.desc tx)) p).hw.copy
      = if p = tx then [⟨(v.state.desc tx).hw.dst_addr, (v.state.desc tx).hw.src_addr, (v.state.desc tx).hw.size⟩]
        else (v.state.desc p).hw.copy := by
    intro p
    by_cases hp : p = tx
    · rw [hp, Function.update_self, if_pos rfl]
      rfl
    · rw [Function.update_of_ne hp, if_neg hp]
  have hsame : (v.state.desc tx).hw.copy
      = [⟨(v.state.desc tx).hw.dst_addr, (v.state.desc tx).hw.src_addr, (v.state.desc tx).hw.size⟩] := by
    unfold HwDesc.copy at hcell ⊢
    split at hcell
    · cases hcell
    · rename_i hnull
      rw [if_neg hnull]
  have hinner : ∀ p ∈ v.chain, Clean (v.state.desc p) := fun p hp => h.clean p (by simp [hp])
  refine ⟨?_, ?_, ?_, ?_, ?_, ?_, ?_, ?_, ?_⟩
  all_goals simp only [Function.update_self, hlist]
  · exact h.last
  · intro i p hp
    rw [hcopy]
    split
    next hpt =>
      rw [← hsame, ← hpt]
      exact h.cells i p hp
    next => exact h.cells i p hp
  · exact h.count
  · refine h.linked.congr fun p _ => ?_
    by_cases hp : p = tx
    · rw [hp, Function.update_self]
      rfl
    · rw [Function.update_of_ne hp]
  · intro p hp
    by_cases hpt : p = tx
    · rw [hpt, Function.update_self]
      exact hclean.cookie
    · rw [Function.update_of_ne hpt]
      exact (hinner p hp).cookie
  · intro p hp hpt
    rw [Function.update_of_ne hpt]
    exact (hinner p hp).tx_list
  · obtain ⟨h1, h2⟩ := count_spec hcap req
    rw [h.count] at hcell
    exact unmap_eq (prepLast req v (v.state.desc tx)).hw (by rw [← hcell, hsame]; rfl) h1 h2 rfl
  · exact h.tx_cnt.trans h.count
  · rfl

theorem prep_cases (req : Request) (hcap : 0 < s.xfercap) (hclean : ∀ p ∈ s.free_desc, Clean (s.desc p))
    (hnd : (s.free_desc ++ pool).Nodup) :
    (∃ s' taken, ioat1_dma_prep_memcpy s req pool = (s', none) ∧ Prepared s pool taken [] s') ∨
      ∃ s' taken tx, ioat1_dma_prep_memcpy s req pool = (s', some tx) ∧
        Prepared s pool taken (s'.desc tx).tx_list s' ∧ Ready s.xfercap s'.desc (tx, req) := by
  obtain ⟨taken, hstart⟩ := going_start req pool hclean
  have hloop := prepLoop_done hnd hcap hstart (Nat.lt_succ_self req.len)
  simp only [ioat1_dma_prep_memcpy]
  -- a loop that runs out of descriptors leaves what it took off the list behind
  generalize prepLoop (req.len + 1) _ = v at hloop
  rcases hloop with ⟨taken, h, hv⟩ | ⟨taken, tx, h⟩
  · left
    refine ⟨_, taken, by rw [hv], ⟨_, h.pool_eq.symm⟩, ?_, ?_, ?_, ?_⟩
    · rw [h.state_eq]
    · have := h.perm
      rwa [hv, Option.toList_none, List.append_nil] at this
    · have := h.clean
      rwa [hv, Option.toList_none, List.append_nil] at this
    · exact h.frame
  · right
    have htx : tx ∈ v.chain := List.mem_of_getLast? h.last
    have hother : ∀ p ≠ tx, ∀ d, (v.state.setDesc tx d).desc p = v.state.desc p := fun p hp d => Function.update_of_ne hp ..
    have hnodup := h.nodup hnd
    have hready := h.ready hcap
    refine ⟨_, taken, tx, by rw [h.desc], ⟨⟨_, h.pool_eq.symm⟩, ?_, ?_, ?_, ?_⟩, hready⟩
    · simp only [State.setDesc]
      rw [h.state_eq]
    · have hperm := h.perm
      have hclean := (h.clean tx (by simp [htx])).tx_list
      rw [List.append_nil] at hperm
      simpa [State.setDesc, prepLast, hclean] using hperm
    · intro p hp
      have hne : p ≠ tx := by
        rintro rfl
        rw [List.append_nil, List.append_assoc] at hnodup
        exact (List.disjoint_of_nodup_append hnodup) htx (List.mem_append_left _ hp)
      rw [hother p hne]
      exact h.clean p (List.mem_append_right _ hp)
    · intro p hp
      have hne : p ≠ tx := by
        rintro rfl
        exact hp (h.perm.mem_iff.1 (by simp [htx]))
      rw [hother p hne]
      exact h.frame p hp

end Dmacftu.Ioat
