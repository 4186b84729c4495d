import Dmacftu.IoatRuns
/-!
# The channel's descriptors

Every descriptor the channel ever got from the pool, when it was opened or later,
is in one place: free, in use, or in the chain of a transaction that is prepared
and not submitted. `ioat1_dma_free_chan_resources` returns the first two, each once
(`free_returns_held`); what it leaves out is the third.
-/
open Lib.CopyEngine Lib.Links Lib.Runs Lib.Script

namespace Dmacftu.Ioat

variable {P : Params} {s s' s₀ : State} {v v' : View} {a : Act} {as : List Act}

/-- The descriptors of the transactions that nobody has submitted. -/
def State.chains (s : State) : List Phys := s.prepared.flatMap fun r => (s.desc r.1).tx_list

/-- Every descriptor granted is still there, since the channel was opened in the state `s₀`. -/
structure Holding (s₀ s : State) : Prop where
  held : s.held.Perm s.granted
  desccount : s.desccount = s₀.desccount

theorem Opened.holding (h : Opened s₀) : Holding s₀ s₀ := by
  obtain ⟨xfercap_scale, cookie, p, ps, desccount, -, -, rfl⟩ := h.eq
  refine ⟨?_, rfl⟩
  show (ps ++ [p] ++ []).Perm (p :: ps)
  rw [List.append_nil]
  exact List.perm_append_singleton p ps

theorem Holding.same (h : Holding s₀ s) (hfree : s'.free_desc = s.free_desc) (hused : s'.used_desc = s.used_desc)
    (hprep : s'.prepared = s.prepared) (hlist : ∀ q, (s'.desc q).tx_list = (s.desc q).tx_list)
    (hgranted : s'.granted = s.granted) (hcount : s'.desccount = s.desccount) : Holding s₀ s' := by
  have hheld : s'.held = s.held := by
    unfold State.held
    rw [hfree, hused, hprep, List.flatMap_congr fun r _ => hlist r.1]
  exact ⟨hheld ▸ hgranted ▸ h.held, hcount.trans h.desccount⟩

theorem Moved.holding (hm : Moved P s v a s' v') (hi : Inv s v) (h : Holding s₀ s) : Holding s₀ s' := by
  cases hm with
  | @prep req pool taken chain new t hp hpool hfresh hchain hnew =>
    have hperm := hp.held hi.lists hfresh hchain
    have hfields : t.granted = s.granted ++ taken ∧ t.desccount = s.desccount := by
      constructor <;> rw [hp.state_eq]
    refine ⟨hperm.trans ?_, hfields.2.trans h.desccount⟩
    show (taken ++ s.held).Perm t.granted
    rw [hfields.1]
    exact List.perm_append_comm.trans (h.held.append_right taken)
  | submit htail htx => exact ⟨(hi.lists.submit_held htail htx).trans h.held, h.desccount⟩
  | ack hd => exact h.same rfl rfl rfl (fun q => (hd q).tx_list) rfl rfl
  | @cleanup _ k c x pc completion_ack timer hpl hk hc hlock htimer =>
    have hfields : (cleanupTo P s pc).granted = s.granted ∧ (cleanupTo P s pc).desccount = s.desccount := by
      constructor <;> rw [cleanupTo_state hi.lists hk]
    refine ⟨(cleanupTo_held (P := P) hi.lists hk).trans ?_, hfields.2.trans h.desccount⟩
    show s.held.Perm (cleanupTo P s pc).granted
    rw [hfields.1]
    exact h.held
  | _ => exact h.same rfl rfl rfl (fun _ => rfl) rfl rfl

/-- The clean-up moves descriptors about and loses none. -/
theorem Inv.cleanup_held (P : Params) (h : Inv s v) : (ioat1_cleanup P s).held.Perm s.held ∧
    (ioat1_cleanup P s).chains = s.chains ∧ (ioat1_cleanup P s).prepared = s.prepared := by
  unfold ioat1_cleanup
  split
  · exact ⟨.refl _, rfl, rfl⟩
  next hne =>
    obtain ⟨c, x, hpl⟩ := h.placed
    obtain ⟨k, rfl⟩ := Nat.exists_eq_add_one.2 (hpl.progress hne)
    have hk : v.rest[k]? = some s.completion := hpl.completion
    have hlists : Lists (preamble s) v := { h.lists with }
    refine ⟨cleanupTo_held hlists hk, cleanupTo_chains hlists hk, ?_⟩
    rw [cleanupTo_state hlists hk]
    rfl

/-- In any state of any run: what was granted is held, each descriptor once, and all of it but the unsubmitted chains is returned,
unless the count of the initial descriptors, of 16 bits, is 0. -/
theorem free_returns_held (h : Opened s₀) (hs : exec (step P) s₀ as = some s) :
    s.held.Perm s.granted ∧ s.granted.Nodup ∧
    (s₀.desccount ≠ 0 → ((ioat1_dma_free_chan_resources P s).2 ++ s.chains).Perm s.granted ∧
      (ioat1_dma_free_chan_resources P s).1.held.Perm s.chains) ∧
    (s₀.desccount = 0 → ioat1_dma_free_chan_resources P s = (s, [])) := by
  obtain ⟨n, hf⟩ := h.fresh
  obtain ⟨v, hi, hh⟩ := run_rule (A := fun _ _ => True) (I := fun s _ => Holding s₀ s)
    (fun _ _ _ _ _ hi hh _ hm => hm.holding hi hh) hf.inv h.holding (along_of_mem fun _ _ _ => trivial) hs
  refine ⟨hh.held, hh.held.nodup_iff.1 hi.lists.nodup, fun hcount => ?_, fun hcount => ?_⟩
  · obtain ⟨c, x, hpl⟩ := hi.placed
    have hstopped : Inv { s with timer := false } v := ⟨{ hi.lists with }, { hi.books with }, c, x, { hpl with }⟩
    obtain ⟨hheld, hchains, -⟩ := hstopped.cleanup_held P
    rw [ioat1_dma_free_chan_resources, if_neg (hh.desccount ▸ hcount)]
    refine ⟨List.Perm.trans ?_ (hheld.trans hh.held), .of_eq hchains⟩
    rw [State.held, ← State.chains, hchains]
    exact List.perm_append_comm.append_right _
  · exact if_pos (hh.desccount.trans hcount)

theorem free_returns_held_sample : ∃ s, exec (step sampleParams) sampleChan (sampleRun ++ [.prep sampleReq []]) = some s ∧
    s.held.Perm s.granted ∧ s.granted.Nodup ∧
    (sampleChan.desccount ≠ 0 → ((ioat1_dma_free_chan_resources sampleParams s).2 ++ s.chains).Perm s.granted ∧
      (ioat1_dma_free_chan_resources sampleParams s).1.held.Perm s.chains) ∧
    (sampleChan.desccount = 0 → ioat1_dma_free_chan_resources sampleParams s = (s, [])) := by
  obtain ⟨s, hs⟩ :=
    run_ends (show (exec (step sampleParams) sampleChan (sampleRun ++ [.prep sampleReq []])).isSome = true from rfl)
  exact ⟨s, hs, free_returns_held sampleChan_opened hs⟩

end Dmacftu.Ioat
