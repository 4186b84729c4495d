import Dmacftu.IoatPoll
import Dmacftu.Lib.BlockCopy
/-!
# What the channel does to the memory

Over the pieces that the device carries out: as long as the channel is not
restarted it is an engine of `Lib.CopyEngine`, the one that the copies to and from
user space are verified over (`channel_refines_engine`). The memory is then what
copying the requests one after the other, byte by byte, makes of it
(`memcpy_in_order`), and a client whose poll succeeds finds its bytes in place
(`polled_has_arrived`).
-/
open Lib.CopyEngine Lib.Links Lib.Runs Lib.Script

namespace Dmacftu.Ioat

variable {B : Type} {P : Params} {s s' s₀ : State} {v v' : View} {a : Act} {as bs : List Act} {req : Request} {cap : Nat}

/-! ## A request's pieces -/

/-- The request, byte by byte. -/
def Request.memcpy (req : Request) (mem : Nat → B) : Nat → B :=
  bytes (req.dma_src + ·) (req.dma_dest + ·) req.len mem

/-- No byte is written before it is read. -/
def Request.Forward (req : Request) : Prop := req.dma_dest ≤ req.dma_src ∨ req.dma_src + req.len ≤ req.dma_dest

instance (req : Request) : Decidable req.Forward := inferInstanceAs (Decidable (_ ∨ _))

theorem Request.moves_first (hcap : 0 < cap) (hlen : 0 < req.len) {k : Nat} (hk : k ≤ req.count cap) :
    Moves (req.dma_src + ·) (req.dma_dest + ·) (min req.len (k * cap)) ((List.range k).map (req.chunk cap)) := by
  induction k with
  | zero =>
    rw [Nat.zero_mul, Nat.min_zero]
    exact .nil
  | succ k ih =>
    have hlt : k * cap < req.len := by
      have hdiv : k ≤ (req.len - 1) / cap := Nat.le_of_lt_succ hk
      have := (Nat.le_div_iff_mul_le hcap).1 hdiv
      omega
    have ih := ih (Nat.le_of_succ_le hk)
    rw [Nat.min_eq_right (Nat.le_of_lt hlt)] at ih
    have hpiece : (req.chunk cap k).len = min (req.len - k * cap) cap := rfl
    have hsum : min req.len ((k + 1) * cap) = k * cap + (req.chunk cap k).len := by
      rw [Nat.succ_mul, hpiece]
      omega
    rw [List.range_succ, List.map_append, hsum]
    refine .snoc ih ?_ (fun j _ => ?_) fun j _ => ?_
    · rw [hpiece]
      omega
    · exact Nat.add_assoc _ _ _
    · exact Nat.add_assoc _ _ _

theorem Request.moves (hcap : 0 < cap) (hlen : 0 < req.len) :
    Moves (req.dma_src + ·) (req.dma_dest + ·) req.len (req.chunks cap) := by
  have hall : req.len ≤ req.count cap * cap := by
    have := count_spec hcap req
    have hsub : (req.count cap - 1) * cap + cap = req.count cap * cap := by
      rw [← Nat.succ_mul, Request.count, Nat.add_sub_cancel]
    omega
  have h := req.moves_first hcap hlen (Nat.le_refl _)
  rwa [Nat.min_eq_left hall] at h

/-- A request of no bytes has one piece of no bytes. -/
theorem Request.chunks_empty (hlen : req.len = 0) : req.chunks cap = [⟨req.dma_dest, req.dma_src, 0⟩] := by
  simp [Request.chunks, Request.count, hlen, Request.chunk]

theorem Request.runs_chunks (hcap : 0 < cap) (hf : req.Forward) (mem : Nat → B) : runs (req.chunks cap) mem = req.memcpy mem := by
  rcases Nat.eq_zero_or_pos req.len with hlen | hlen
  · rw [Request.chunks_empty hlen, Request.memcpy, hlen]
    funext p
    exact Desc.run_of_not_covers (fun hc => absurd hc.2 (Nat.not_lt.2 hc.1)) mem
  · refine (Request.moves hcap hlen).runs_eq (fun i j hij hj => ?_) mem
    unfold Request.Forward at hf
    omega

/-- A piece writes only where its request does. -/
theorem Request.chunks_covers (hcap : 0 < cap) {d : Desc} (hd : d ∈ req.chunks cap) {p : Nat} (hc : d.Covers p) :
    req.dma_dest ≤ p ∧ p < req.dma_dest + req.len := by
  rcases Nat.eq_zero_or_pos req.len with hlen | hlen
  · rw [Request.chunks_empty hlen, List.mem_singleton] at hd
    rw [hd] at hc
    exact absurd hc.2 (Nat.not_lt.2 hc.1)
  · obtain ⟨i, hi, hp, -⟩ := (Request.moves hcap hlen).covers hd hc
    have hp : req.dma_dest + i = p := hp
    omega

theorem runs_requests (hcap : 0 < cap) (txs : List Tx) (hf : ∀ t ∈ txs, t.req.Forward) (mem : Nat → B) :
    runs (txs.flatMap fun t => t.req.chunks cap) mem = txs.foldl (fun mem t => t.req.memcpy mem) mem := by
  induction txs generalizing mem with
  | nil => rfl
  | cons t txs ih =>
    rw [List.flatMap_cons, runs_append, Request.runs_chunks hcap (hf t List.mem_cons_self),
      ih fun u hu => hf u (List.mem_cons_of_mem t hu)]
    rfl

/-! ## In order -/

/-- The memory is that of the reported requests copied one by one, and of a part of the later ones. -/
theorem memcpy_in_order (h : Opened s₀) (hu : Unbroken P s₀ as) (hs : exec (step P) s₀ as = some s)
    (hf : ∀ t ∈ s.submitted, t.req.Forward) (mem : Nat → B) : ∃ n ≤ s.submitted.length, ∃ part,
      s.reports = (s.submitted.take n).map Tx.report ∧ part <+: (s.submitted.drop n).flatMap (fun t => t.req.chunks s.xfercap) ∧
      runs s.copies mem = runs part ((s.submitted.take n).foldl (fun mem t => t.req.memcpy mem) mem) := by
  obtain ⟨v, hi, hc⟩ := run_carried h hu hs
  obtain ⟨n, hn, hr, ⟨part, hpart⟩, hall⟩ := hc.reported hi
  refine ⟨n, hn, part, hr, ?_, ?_⟩
  · have hsplit := congrArg (List.flatMap fun t : Tx => t.req.chunks s.xfercap) (List.take_append_drop n s.submitted)
    rw [List.flatMap_append] at hsplit
    rw [← hpart, ← hsplit] at hall
    exact (List.prefix_append_right_inj _).1 hall
  · rw [← hpart, runs_append, runs_requests hi.lists.cap_pos _ fun t ht => hf t (List.mem_of_mem_take ht)]

theorem memcpy_in_order_sample : ∃ s, exec (step sampleParams) sampleChan sampleRun = some s ∧
    ∃ n ≤ s.submitted.length, ∃ part, s.reports = (s.submitted.take n).map Tx.report ∧
      part <+: (s.submitted.drop n).flatMap (fun t => t.req.chunks s.xfercap) ∧
      runs s.copies id = runs part ((s.submitted.take n).foldl (fun mem t => t.req.memcpy mem) id) := by
  obtain ⟨s, hs⟩ := run_ends (show (exec (step sampleParams) sampleChan sampleRun).isSome = true from rfl)
  have hsub : s.submitted = [⟨2, sampleReq, none⟩] := run_value State.submitted hs rfl
  refine ⟨s, hs, memcpy_in_order sampleChan_opened (unbroken_of_timeless _ _ _ (by decide)) hs ?_ id⟩
  intro t ht
  rw [hsub] at ht
  obtain rfl := List.mem_singleton.1 ht
  decide

/-! ## An engine -/

/-- The channel as an engine; the memory was `mem` when the channel was opened. -/
def State.engineOn (s : State) (mem : Nat → B) : Lib.CopyEngine.Engine B where
  mem := runs s.copies mem
  log := s.submitted.flatMap fun t => t.req.chunks s.xfercap
  done := s.copies.length

/-- Until a restart, whatever happens on the channel is something an engine does. -/
theorem channel_refines_engine (h : Opened s₀) (hu : Unbroken P s₀ as) (hs : exec (step P) s₀ as = some s)
    (hu' : Unbroken P s bs) (hs' : exec (step P) s bs = some s') (mem : Nat → B) :
    (∃ evs, s'.engineOn mem = (s.engineOn mem).play evs ∧
      ∀ d, Ev.submit d ∈ evs → ∃ t ∈ s'.submitted.drop s.submitted.length, d ∈ t.req.chunks s'.xfercap) ∧
    ∃ n ≤ s'.submitted.length, s'.reports = (s'.submitted.take n).map Tx.report ∧
      ((s'.submitted.take n).flatMap fun t => t.req.chunks s'.xfercap).length ≤ (s'.engineOn mem).done := by
  obtain ⟨v, hi, hc⟩ := run_carried h hu hs
  obtain ⟨v', hi', hc', hg⟩ := run_rule (I := fun s' v' => Carried s' v' ∧ Grown s s')
    (fun _ _ _ _ _ hi hI ha hm => ⟨hm.carried hi hI.1 ha, hm.grown hi hI.2⟩) hi
    ⟨hc, .refl s⟩ hu' hs'
  obtain ⟨n, hn, hr, hdone, hall⟩ := hc'.reported hi'
  refine ⟨?_, n, hn, hr, hdone.length_le⟩
  obtain ⟨txs, htxs⟩ := hg.submitted
  obtain ⟨ds, hds⟩ := hg.copies
  have hcap := hg.xfercap
  refine ⟨(txs.flatMap fun t => t.req.chunks s.xfercap).map .submit ++ List.replicate ds.length .run, ?_, ?_⟩
  · -- first the submissions in between, and then the copies the device made in them
    have hlog : s'.submitted.flatMap (fun t => t.req.chunks s'.xfercap)
        = (s.submitted.flatMap fun t => t.req.chunks s.xfercap) ++ txs.flatMap fun t => t.req.chunks s.xfercap := by
      rw [hcap, ← htxs, List.flatMap_append]
    have hnext : ds <+: ((s.submitted.flatMap fun t => t.req.chunks s.xfercap) ++
        txs.flatMap fun t => t.req.chunks s.xfercap).drop s.copies.length := by
      rw [hlog, ← hds] at hall
      obtain ⟨rest, hrest⟩ := hall
      rw [← hrest, List.append_assoc, List.drop_left]
      exact List.prefix_append _ _
    have hplay := Lib.CopyEngine.Engine.play_runs (e := ⟨runs s.copies mem, _, s.copies.length⟩) hnext
    rw [Lib.CopyEngine.Engine.play_append, Lib.CopyEngine.Engine.play_submits]
    refine Eq.trans ?_ hplay.symm
    rw [State.engineOn, hlog, ← hds, runs_append, List.length_append]
  · intro d hd
    rcases List.mem_append.1 hd with hd | hd
    · obtain ⟨d', hd', heq⟩ := List.mem_map.1 hd
      obtain rfl : d' = d := Ev.submit.inj heq
      obtain ⟨t, ht, hdt⟩ := List.mem_flatMap.1 hd'
      exact ⟨t, by rw [← htxs, List.drop_left]; exact ht, hcap ▸ hdt⟩
    · exact absurd (List.eq_of_mem_replicate hd) nofun

theorem channel_refines_engine_sample : ∃ s s', exec (step sampleParams) sampleChan sampleSubmit = some s ∧
    exec (step sampleParams) s [.finish true] = some s' ∧
    (∃ evs, s'.engineOn id = (s.engineOn id).play evs ∧
      ∀ d, Ev.submit d ∈ evs → ∃ t ∈ s'.submitted.drop s.submitted.length, d ∈ t.req.chunks s'.xfercap) ∧
    ∃ n ≤ s'.submitted.length, s'.reports = (s'.submitted.take n).map Tx.report ∧
      ((s'.submitted.take n).flatMap fun t => t.req.chunks s'.xfercap).length ≤ (s'.engineOn id).done := by
  obtain ⟨s', hs'⟩ :=
    run_ends (show (exec (step sampleParams) sampleChan (sampleSubmit ++ [.finish true])).isSome = true from rfl)
  obtain ⟨s, hs, hstep⟩ := exec_concat.1 hs'
  have hrest : exec (step sampleParams) s [.finish true] = some s' := exec_cons.2 ⟨s', hstep, rfl⟩
  exact ⟨s, s', hs, hrest, channel_refines_engine sampleChan_opened (unbroken_of_timeless _ _ _ (by decide)) hs
    (unbroken_of_timeless _ _ _ (by decide)) hrest id⟩

/-! ## What a client finds -/

/-- The request does not overwrite what it reads. -/
def Request.Apart (req : Request) : Prop :=
  req.dma_src + req.len ≤ req.dma_dest ∨ req.dma_dest + req.len ≤ req.dma_src

instance (req : Request) : Decidable req.Apart := inferInstanceAs (Decidable (_ ∨ _))

/-- The request writes nothing that the other one reads or writes. -/
def Request.Away (req other : Request) : Prop := ∀ p, req.dma_dest ≤ p → p < req.dma_dest + req.len →
  ¬ (other.dma_src ≤ p ∧ p < other.dma_src + other.len) ∧ ¬ (other.dma_dest ≤ p ∧ p < other.dma_dest + other.len)

/-- Pieces of requests that stay away leave the bytes alone. -/
theorem runs_away (hcap : 0 < cap) {txs : List Tx} (h : ∀ u ∈ txs, u.req.Away req) {ds : List Desc}
    (hds : ds <+: txs.flatMap fun t => t.req.chunks cap) (mem : Nat → B) {k : Nat} (hk : k < req.len) :
    runs ds mem (req.dma_src + k) = mem (req.dma_src + k) ∧ runs ds mem (req.dma_dest + k) = mem (req.dma_dest + k) := by
  have hnot : ∀ d ∈ ds, ¬ d.Covers (req.dma_src + k) ∧ ¬ d.Covers (req.dma_dest + k) := by
    intro d hd
    obtain ⟨u, hu, hdu⟩ := List.mem_flatMap.1 (hds.subset hd)
    refine ⟨fun hc => ?_, fun hc => ?_⟩
    · obtain ⟨h1, h2⟩ := Request.chunks_covers hcap hdu hc
      exact (h u hu _ h1 h2).1 ⟨Nat.le_add_right _ _, by omega⟩
    · obtain ⟨h1, h2⟩ := Request.chunks_covers hcap hdu hc
      exact (h u hu _ h1 h2).2 ⟨Nat.le_add_right _ _, by omega⟩
  exact ⟨runs_of_not_covers (fun d hd => (hnot d hd).1) mem, runs_of_not_covers (fun d hd => (hnot d hd).2) mem⟩

theorem Request.runs_arrive (hcap : 0 < cap) (h : req.Apart) (mem : Nat → B) {k : Nat} (hk : k < req.len) :
    runs (req.chunks cap) mem (req.dma_dest + k) = mem (req.dma_src + k) := by
  have hmoves := Request.moves hcap (Nat.zero_lt_of_lt hk)
  rw [hmoves.runs_eq (fun i j hij hj => by unfold Request.Apart at h; omega)]
  exact bytes_get (fun i _ j _ heq => Nat.add_left_cancel heq) (fun i hi j hj => by unfold Request.Apart at h; omega) hk mem

/-- The work of the first jobs is done: the `i`th one's lies between what comes before and what comes after. -/
theorem work_split {A W : Type} {f : A → List W} {l : List A} {w : List W} {n i : Nat} {a : A}
    (hdone : (l.take n).flatMap f <+: w) (hall : w <+: l.flatMap f) (hi : i < n) (ha : l[i]? = some a) :
    ∃ post, w = (l.take i).flatMap f ++ (f a ++ post) ∧ post <+: (l.drop (i + 1)).flatMap f := by
  have hfirst : (l.take (i + 1)).flatMap f = (l.take i).flatMap f ++ f a := by
    rw [List.take_add_one, ha, Option.toList_some, List.flatMap_append, List.flatMap_singleton]
  have hle : (l.take (i + 1)).flatMap f <+: (l.take n).flatMap f := by
    obtain ⟨rest, hrest⟩ := List.take_prefix_take_left (l := l) hi
    rw [← hrest, List.flatMap_append]
    exact List.prefix_append _ _
  obtain ⟨post, rfl⟩ := hle.trans hdone
  refine ⟨post, by rw [hfirst, List.append_assoc], ?_⟩
  have hsplit := congrArg (List.flatMap f) (List.take_append_drop (i + 1) l)
  rw [List.flatMap_append] at hsplit
  rw [← hsplit] at hall
  exact (List.prefix_append_right_inj _).1 hall

variable {dma_cookie_status : State → Int → DmaStatus} {t : Tx} {i : Nat}

/-- A poll that succeeds: the bytes have arrived, if nobody else writes them or those they come from. -/
theorem polled_has_arrived (hdr : CookieHeader P dma_cookie_status) (h : Opened s₀) (hmin : DMA_MIN_COOKIE ≤ s₀.cookie)
    (hmax : s₀.cookie ≤ DMA_MAX_COOKIE) (hu : Unbroken P s₀ as) (hs : exec (step P) s₀ as = some s)
    (ht : s.submitted[i]? = some t) (hfew : s.submitted.length < s.reports.length + COOKIES) {cleanup_lock : Bool}
    (hl : cleanup_lock = true → s.cleanup_lock = none) (desc_lock : Bool) (hapart : t.req.Apart)
    (haway : ∀ j u, s.submitted[j]? = some u → j ≠ i → u.req.Away t.req) (mem : Nat → B)
    (hsuccess : (ioat_dma_tx_status P dma_cookie_status cleanup_lock desc_lock s t.cookie).1 = .DMA_SUCCESS) :
    ∀ k < t.req.len, runs s.copies mem (t.req.dma_dest + k) = mem (t.req.dma_src + k) := by
  intro k hk
  obtain ⟨p, hf⟩ := h.fresh
  obtain ⟨v, hi, hc, hcount⟩ := run_rule (I := fun s v => Carried s v ∧ Counted P s₀.cookie s)
    (fun _ _ _ _ _ hi hI ha hm => ⟨hm.carried hi hI.1 ha, hm.counted hi hI.2⟩) hf.inv ⟨hf.carried, hf.counted⟩ hu hs
  obtain ⟨v', hi', hcount', hcarry, hsub, hcopies, hmore, hret⟩ :=
    hcount.poll hi dma_cookie_status hl desc_lock t.cookie
  have hrep := hcount'.of_success hi'.books hdr hmin hmax (hsub ▸ ht) (by rw [hsub]; omega) (hret.symm.trans hsuccess)
  obtain ⟨n, hn, hr, hdone, hall⟩ := (hcarry hc).reported hi'
  rw [hr, List.length_map, List.length_take_of_le hn] at hrep
  rw [hsub, hcopies] at hdone hall
  -- the copies done: those before the request, its own, and a part of those behind it
  obtain ⟨post, hsplit, hpost⟩ := work_split hdone hall hrep ht
  have hcap := hi'.lists.cap_pos
  have hbefore : ∀ u ∈ s.submitted.take i, u.req.Away t.req := by
    intro u hm
    obtain ⟨j, hj⟩ := List.mem_iff_getElem?.1 hm
    rw [List.getElem?_take] at hj
    split at hj
    next hlt => exact haway j u hj (Nat.ne_of_lt hlt)
    next => cases hj
  have hafter : ∀ u ∈ s.submitted.drop (i + 1), u.req.Away t.req := by
    intro u hm
    obtain ⟨j, hj⟩ := List.mem_iff_getElem?.1 hm
    rw [List.getElem?_drop] at hj
    exact haway _ u hj (by omega)
  rw [hsplit, runs_append, runs_append, (runs_away hcap hafter hpost _ hk).2, Request.runs_arrive hcap hapart _ hk,
    (runs_away hcap hbefore List.prefix_rfl _ hk).1]

theorem polled_has_arrived_sample : ∃ s t, exec (step sampleParams) sampleChan sampleRun = some s ∧
    s.submitted[0]? = some t ∧ ∀ k < t.req.len, runs s.copies id (t.req.dma_dest + k) = id (t.req.dma_src + k) := by
  obtain ⟨s, hs⟩ := run_ends (show (exec (step sampleParams) sampleChan sampleRun).isSome = true from rfl)
  have hsub : s.submitted = [⟨2, sampleReq, none⟩] := run_value State.submitted hs rfl
  have hstatus := run_value (fun s => (ioat_dma_tx_status sampleParams sampleStatus true true s 2).1) hs rfl
  refine ⟨s, _, hs, congrArg (·[0]?) hsub, polled_has_arrived sampleHeader sampleChan_opened (by decide) (by decide)
    (unbroken_of_timeless _ _ _ (by decide)) hs (congrArg (·[0]?) hsub) ?_
    (fun _ => run_value State.cleanup_lock hs rfl) true (by decide) ?_ id hstatus⟩
  · simp [hsub, COOKIES]
  · intro j u hj hne
    rw [hsub] at hj
    cases j with
    | zero => exact absurd rfl hne
    | succ j => cases hj

end Dmacftu.Ioat
