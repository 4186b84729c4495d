import Dmacftu.IoatMemory
/-!
# Across resets

A restart makes the device leave out some descriptors and carry out others again
(`restart_skips`). What every run keeps all the same is said by `across_resets`:
the device carries out pieces of submitted requests and nothing else, so that it
never writes outside their destinations, and when everything is reported the last
piece of the last request has been carried out.
-/
open Lib.CopyEngine Lib.Links Lib.Runs Lib.Script

namespace Dmacftu.Ioat

variable {B : Type} {P : Params} {s s' s₀ : State} {v v' : View} {a : Act} {as : List Act}

/-- The pieces of everything submitted. -/
def State.pieces (s : State) : List Desc := s.submitted.flatMap fun t => t.req.chunks s.xfercap

def Request.lastPiece (xfercap : Nat) (req : Request) : Desc := req.chunk xfercap (req.count xfercap - 1)

/-- What the device may find in the descriptors, and what it has made of them. -/
structure Pieces (s : State) : Prop where
  used : ∀ p ∈ s.used_desc, (s.desc p).hw.copy ⊆ s.pieces
  copies : s.copies ⊆ s.pieces
  chansts : s.chansts ≠ 0 → (s.desc s.chansts).hw.copy ⊆ s.copies
  tail : ∀ t tail, s.submitted.getLast? = some t → s.used_desc.getLast? = some tail →
    (s.desc tail).hw.copy = [t.req.lastPiece s.xfercap]

theorem Fresh.pieces {p : Phys} (h : Fresh s p) : Pieces s := by
  have hused : s.used_desc = [p] := h.inv.lists.used
  refine ⟨?_, ?_, fun hne => absurd h.chansts hne, ?_⟩
  · intro q hq
    rw [hused, List.mem_singleton] at hq
    rw [hq, h.null]
    exact List.nil_subset _
  · rw [h.copies]
    exact List.nil_subset _
  · intro t tail ht
    rw [h.submitted] at ht
    cases ht

/-- A step that keeps what the descriptors in use copy. -/
theorem Pieces.same (h : Pieces s) (hi : Inv s v) (hused : s'.used_desc ⊆ s.used_desc)
    (hlast : s'.used_desc.getLast? = s.used_desc.getLast?) (hdesc : ∀ p ∈ s.used_desc, (s'.desc p).hw.copy = (s.desc p).hw.copy)
    (hcap : s'.xfercap = s.xfercap) (hsub : s'.submitted = s.submitted) (hcopies : s'.copies = s.copies)
    (hsts : s'.chansts = s.chansts) : Pieces s' := by
  have hpieces : s'.pieces = s.pieces := by
    unfold State.pieces
    rw [hsub, hcap]
  refine ⟨fun p hp => ?_, ?_, fun hne => ?_, fun t tail ht htail => ?_⟩
  · rw [hdesc p (hused hp), hpieces]
    exact h.used p (hused hp)
  · rw [hcopies, hpieces]
    exact h.copies
  · obtain ⟨c, x, hpl⟩ := hi.placed
    rw [hsts] at hne ⊢
    rw [hdesc _ (hi.lists.line_used (List.mem_of_getElem? hpl.chansts) hne), hcopies]
    exact h.chansts hne
  · rw [hlast] at htail
    rw [hdesc _ (List.mem_of_getLast? htail), hcap]
    exact h.tail t tail (hsub ▸ ht) htail

theorem Pieces.submit (h : Pieces s) (hi : Inv s v) {tx : Phys × Request} {callback : Option Nat} {tail : Phys}
    (htail : s.used_desc.getLast? = some tail) (htx : tx ∈ s.prepared) : Pieces (afterSubmit P s tx callback tail) := by
  have hready := hi.lists.ready tx htx
  have hcopy : ∀ q, ((afterSubmit P s tx callback tail).desc q).hw.copy = (s.desc q).hw.copy :=
    afterSubmit_copy (hi.lists.tail_ne htail htx)
  have hpieces : (afterSubmit P s tx callback tail).pieces = s.pieces ++ tx.2.chunks s.xfercap := by
    show (s.submitted ++ [_]).flatMap _ = _
    rw [List.flatMap_append, List.flatMap_singleton]
    rfl
  refine ⟨fun p hp => ?_, ?_, fun hne => ?_, fun t tail' ht htail' => ?_⟩
  · rw [hcopy, hpieces]
    rcases List.mem_append.1 hp with hold | hnew
    · exact List.Subset.trans (h.used p hold) (List.subset_append_left _ _)
    · intro d hd
      apply List.mem_append_right
      rw [← hready.copies]
      exact List.mem_flatMap.2 ⟨p, hnew, hd⟩
  · rw [hpieces]
    exact List.Subset.trans h.copies (List.subset_append_left _ _)
  · rw [hcopy]
    exact h.chansts hne
  · have hlast : (s.used_desc ++ (s.desc tx.1).tx_list).getLast? = some tx.1 := by
      rw [List.getLast?_append, hready.last]
      rfl
    obtain rfl : tx.1 = tail' := Option.some.inj (hlast.symm.trans htail')
    obtain rfl := List.getLast?_concat.symm.trans ht |> Option.some.inj
    rw [hcopy]
    have hend := hready.last
    rw [List.getLast?_eq_getElem?, hready.count] at hend
    exact hready.cells _ _ hend

theorem cleanupTo_used (h : Lists s v) {k : Nat} {pc : Phys} (hk : v.rest[k]? = some pc) :
    (cleanupTo P s pc).used_desc ⊆ s.used_desc := by
  rw [cleanupTo_state h hk, h.used]
  intro p hp
  rcases List.mem_append.1 hp with hsettled | hrest
  · rcases List.mem_append.1 hsettled with hkept | hlast
    · rcases List.mem_append.1 (List.mem_of_mem_filter hkept) with hs | ht
      · exact List.mem_append_left _ hs
      · exact List.mem_append_right _ (List.mem_of_mem_take ht)
    · rw [List.mem_singleton.1 hlast]
      exact List.mem_append_right _ (List.mem_of_getElem? hk)
  · exact List.mem_append_right _ (List.mem_of_mem_drop hrest)

theorem Pieces.carriedOut (h : Pieces s) (hi : Inv s v) {j : Nat} {p : Phys} (hj : (line s v)[j]? = some p) (hne : p ≠ 0)
    {engine : Engine} : Pieces { carriedOut s p with engine := engine } := by
  have hused := hi.lists.line_used (List.mem_of_getElem? hj) hne
  refine ⟨h.used, ?_, fun _ => List.subset_append_right _ _, h.tail⟩
  exact List.append_subset.2 ⟨h.copies, h.used p hused⟩

/-- Restarts are no exception. -/
theorem Moved.pieces (hm : Moved P s v a s' v') (hi : Inv s v) (h : Pieces s) : Pieces s' := by
  cases hm with
  | prep hp hpool hfresh hchain hnew =>
    have hused := hp.fields.2.1
    refine h.same hi (fun p hpu => hused ▸ hpu) (congrArg _ hused) (fun p hpu => ?_) ?_ ?_ ?_ ?_
    · exact congrArg (·.hw.copy) (hp.used_kept hi.lists hfresh hpu)
    all_goals rw [hp.state_eq]
  | submit htail htx => exact h.submit hi htail htx
  | ack hd => exact h.same hi (List.Subset.refl _) rfl (fun p _ => congrArg HwDesc.copy (hd p).hw) rfl rfl rfl rfl
  | cleanup hpl hk hc hlock htimer =>
    have hdev := cleanupTo_device (P := P) hi.lists hk
    refine h.same hi (cleanupTo_used hi.lists hk) (cleanupTo_last hi.lists hk)
      (fun p _ => congrArg HwDesc.copy (cleanupTo_hw hi.lists hk p).1) ?_ ?_ hdev.2.2.2.2 hdev.2.1
    all_goals rw [cleanupTo_state hi.lists hk]
  | idle hpl hbusy hx hj hne => exact h.carriedOut hi hj hne
  | @next reread p next n j c x hpl hbusy hx hj hn =>
    have hengine := hpl.engine
    rw [hbusy] at hengine
    obtain ⟨-, -, -, hne, -⟩ := hengine
    exact h.carriedOut hi hj hne
  | _ => exact { h with }

/-! ## Everything is reported -/

/-- A descriptor that copies something and ends the line is a transaction's last. -/
theorem Books.tail_cookie (h : Books s v) {tail : Phys} (htail : v.rest.getLast? = some tail) (hcopy : (s.desc tail).hw.copy ≠ []) :
    (s.desc tail).cookie ≠ 0 := by
  intro hcookie
  obtain ⟨front, hfront⟩ := List.getLast?_eq_some_iff.1 htail
  obtain ⟨copies, d, hd⟩ := (List.eq_nil_or_concat _).resolve_left hcopy
  have hscript := congrArg List.getLast? h.script
  rw [hfront, List.flatMap_append, List.flatMap_singleton, DescSw.outs, if_neg (not_not.2 hcookie), hd, List.append_nil,
    List.concat_eq_append, List.map_append, ← List.append_assoc, ← List.append_assoc, List.map_singleton,
    List.getLast?_concat] at hscript
  rcases List.eq_nil_or_concat s.submitted with hnil | ⟨txs, t, ht⟩
  · rw [hnil] at hscript
    cases hscript
  · rw [ht, List.concat_eq_append, plan, script_concat, block, ← List.append_assoc, List.getLast?_concat] at hscript
    cases hscript

theorem Books.told_nil (h : Books s v) (hall : s.reports.length = s.submitted.length) : told s v.rest = [] := by
  have hscript := congrArg (fun l => (noticed l).length) h.script
  have hreports := congrArg List.length h.reports
  simp only [noticed_append, plan, noticed_script, List.length_append, List.length_map] at hscript hreports
  exact List.length_eq_zero_iff.1 (by rw [told]; omega)

/-- With nothing left to report, nothing is left to clean up. -/
theorem Inv.rest_nil (h : Inv s v) (hp : Pieces s) (hall : s.reports.length = s.submitted.length) {t : Tx}
    (ht : s.submitted.getLast? = some t) : v.rest = [] := by
  obtain ⟨tail, htail, hl⟩ := h.lists.last_used
  have hcopy := hp.tail t tail ht htail
  by_contra hne
  obtain ⟨front, q, hq⟩ := (List.eq_nil_or_concat v.rest).resolve_left hne
  have hlast : v.rest.getLast? = some q := by rw [hq, List.concat_eq_append, List.getLast?_concat]
  obtain rfl : q = tail := by
    rw [List.getLast?_append_of_ne_nil _ hne, hlast] at hl
    exact Option.some.inj hl
  have hcookie := h.books.tail_cookie hlast (by rw [hcopy]; exact List.cons_ne_nil _ _)
  have hnone := h.books.told_nil hall
  rw [hq, List.concat_eq_append, told, List.flatMap_append, noticed_append, List.flatMap_singleton, noticed_outs,
    if_pos hcookie] at hnone
  exact absurd (List.append_eq_nil_iff.1 hnone).2 (List.cons_ne_nil _ _)

/-- The only place of the line is then the last one cleaned up. -/
theorem Inv.place_last (h : Inv s v) (hp : Pieces s) (hall : s.reports.length = s.submitted.length) {t : Tx}
    (ht : s.submitted.getLast? = some t) {i : Nat} {p : Phys} (hi : (line s v)[i]? = some p) : p = s.last_completion := by
  rw [line, h.rest_nil hp hall ht] at hi
  exact List.mem_singleton.1 (List.mem_of_getElem? hi)

/-- The device is at the last descriptor. -/
theorem Inv.chansts_last (h : Inv s v) (hp : Pieces s) (hall : s.reports.length = s.submitted.length) {t : Tx}
    (ht : s.submitted.getLast? = some t) : s.used_desc.getLast? = some s.chansts ∧ s.chansts ≠ 0 := by
  obtain ⟨tail, htail, -⟩ := h.lists.last_used
  obtain ⟨c, x, hpl⟩ := h.placed
  obtain ⟨hline, hne⟩ := h.lists.tail_line htail
  have heq : tail = s.chansts := (h.place_last hp hall ht hline).trans (h.place_last hp hall ht hpl.chansts).symm
  exact ⟨heq ▸ htail, heq ▸ hne⟩

theorem Inv.last_carried (h : Inv s v) (hp : Pieces s) (hall : s.reports.length = s.submitted.length) {t : Tx}
    (ht : s.submitted.getLast? = some t) : t.req.lastPiece s.xfercap ∈ s.copies := by
  obtain ⟨htail, hne⟩ := h.chansts_last hp hall ht
  apply hp.chansts hne
  rw [hp.tail t _ ht htail]
  exact List.mem_singleton_self _

/-- The pieces write only where the requests do. -/
theorem pieces_away (hcap : 0 < s.xfercap) {p : Nat}
    (hp : ∀ t ∈ s.submitted, ¬ (t.req.dma_dest ≤ p ∧ p < t.req.dma_dest + t.req.len)) : ∀ d ∈ s.pieces, ¬ d.Covers p := by
  intro d hd hc
  obtain ⟨t, ht, hdt⟩ := List.mem_flatMap.1 hd
  exact hp t ht (Request.chunks_covers hcap hdt hc)

theorem run_pieces (h : Opened s₀) (hs : exec (step P) s₀ as = some s) : ∃ v, Inv s v ∧ Pieces s := by
  obtain ⟨p, hf⟩ := h.fresh
  exact run_rule (A := fun _ _ => True) (I := fun s _ => Pieces s) (fun _ _ _ _ _ hi hp _ hm => hm.pieces hi hp) hf.inv hf.pieces
    (along_of_mem fun _ _ _ => trivial) hs

/-- In any run, with whatever resets and restarts. -/
theorem across_resets (h : Opened s₀) (hs : exec (step P) s₀ as = some s) (mem : Nat → B) :
    s.copies ⊆ s.pieces ∧
    (∀ p, (∀ t ∈ s.submitted, ¬ (t.req.dma_dest ≤ p ∧ p < t.req.dma_dest + t.req.len)) → runs s.copies mem p = mem p) ∧
    (s.reports.length = s.submitted.length → ∀ t, s.submitted.getLast? = some t → t.req.lastPiece s.xfercap ∈ s.copies) := by
  obtain ⟨v, hi, hp⟩ := run_pieces h hs
  refine ⟨hp.copies, fun p hoff => ?_, fun hall t ht => hi.last_carried hp hall ht⟩
  exact runs_of_not_covers (fun d hd => pieces_away hi.lists.cap_pos hoff d (hp.copies hd)) mem

/-- Reset before the device was done with the first piece, restarted, and cleaned up. -/
def sampleReset : List Act :=
  sampleSubmit ++ [.timer, .timer, .timer, .finish true, .cleanup_begin, .cleanup_end true]

theorem across_resets_sample : ∃ s, exec (step sampleParams) sampleChan sampleReset = some s ∧ s.reports.length = 1 ∧
    s.copies ⊆ s.pieces ∧
    (∀ p, (∀ t ∈ s.submitted, ¬ (t.req.dma_dest ≤ p ∧ p < t.req.dma_dest + t.req.len)) → runs s.copies id p = id p) ∧
    (s.reports.length = s.submitted.length → ∀ t, s.submitted.getLast? = some t → t.req.lastPiece s.xfercap ∈ s.copies) := by
  obtain ⟨s, hs⟩ := run_ends (show (exec (step sampleParams) sampleChan sampleReset).isSome = true from rfl)
  exact ⟨s, hs, run_value (·.reports.length) hs rfl, across_resets sampleChan_opened hs id⟩

end Dmacftu.Ioat
