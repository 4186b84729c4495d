import Dmacftu.IoatOrder
import Dmacftu.Lib.Cyclic
/-!
# Polling for a transaction

`ioat_dma_tx_status` of `ioat/dma.c`, and the comparison of cookies that it rests
on, `dma_async_is_complete` of `include/linux/dmaengine.h`. A cookie is a number
that starts over after 2³¹ - 1 transactions; `poll_is_exact` says that as long as
fewer than that many are about, a client is told of success exactly when its
transaction has been reported.
-/
open Lib.CopyEngine Lib.Cyclic Lib.Links Lib.Runs Lib.Script

namespace Dmacftu.Ioat

def DMA_MIN_COOKIE : Int := 1

def DMA_MAX_COOKIE : Int := 2 ^ 31 - 1

def dma_async_is_complete (cookie last_complete last_used : Int) : DmaStatus :=
  if last_complete ≤ last_used then
    if cookie ≤ last_complete ∨ cookie > last_used then .DMA_SUCCESS else .DMA_IN_PROGRESS
  else
    if cookie ≤ last_complete ∧ cookie > last_used then .DMA_SUCCESS else .DMA_IN_PROGRESS

/-- `ioat1_cleanup`, for a caller that gets these locks. -/
def tryCleanup (P : Params) (cleanup_lock desc_lock : Bool) (s : State) : State :=
  if !cleanup_lock then s
  else if s.completion = s.last_completion then s
  else if !desc_lock then preamble s
  else cleanupTo P (preamble s) s.completion

/-- `dma_cookie_status` is in a header that is not at hand. -/
def ioat_dma_tx_status (P : Params) (dma_cookie_status : State → Int → DmaStatus) (cleanup_lock desc_lock : Bool)
    (s : State) (cookie : Int) : DmaStatus × State :=
  let ret := dma_cookie_status s cookie
  if ret = .DMA_SUCCESS then (ret, s)
  else
    let s := tryCleanup P cleanup_lock desc_lock s
    (dma_cookie_status s cookie, s)

/-- What the header says of cookies. -/
structure CookieHeader (P : Params) (dma_cookie_status : State → Int → DmaStatus) : Prop where
  assign : ∀ c, DMA_MIN_COOKIE ≤ c → c ≤ DMA_MAX_COOKIE →
    P.dma_cookie_assign c = if c = DMA_MAX_COOKIE then DMA_MIN_COOKIE else c + 1
  status : ∀ s cookie, dma_cookie_status s cookie = dma_async_is_complete cookie s.completed_cookie s.cookie

variable {P : Params} {s s' s₀ : State} {v v' : View} {a : Act} {as : List Act} {c₀ : Int}

/-! ## The cookies of a run -/

/-- The cookies, counted from the first one, `c₀`. -/
structure Counted (P : Params) (c₀ : Int) (s : State) : Prop where
  cookie : s.cookie = P.dma_cookie_assign^[s.submitted.length] c₀
  tx : ∀ i t, s.submitted[i]? = some t → t.cookie = P.dma_cookie_assign^[i + 1] c₀
  completed : s.completed_cookie = P.dma_cookie_assign^[s.reports.length] c₀

theorem Counted.same (h : Counted P c₀ s) (hcookie : s'.cookie = s.cookie) (hcompleted : s'.completed_cookie = s.completed_cookie)
    (hsub : s'.submitted = s.submitted) (hrep : s'.reports = s.reports) : Counted P c₀ s' := by
  refine ⟨?_, ?_, ?_⟩
  · rw [hcookie, hsub]; exact h.cookie
  · rw [hsub]; exact h.tx
  · rw [hcompleted, hrep]; exact h.completed

theorem Counted.submit (h : Counted P c₀ s) {tx : Phys × Request} {callback : Option Nat} {tail : Phys} :
    Counted P c₀ (afterSubmit P s tx callback tail) := by
  have hnew : P.dma_cookie_assign s.cookie = P.dma_cookie_assign^[s.submitted.length + 1] c₀ := by
    rw [Function.iterate_succ_apply', ← h.cookie]
  refine ⟨?_, fun i t ht => ?_, h.completed⟩
  · rw [afterSubmit, List.length_append]
    exact hnew
  · change (s.submitted ++ _)[i]? = some t at ht
    rcases Nat.lt_or_ge i s.submitted.length with hi | hi
    · rw [List.getElem?_append_left hi] at ht
      exact h.tx i t ht
    · rw [List.getElem?_append_right hi] at ht
      obtain ⟨h0, rfl⟩ := List.getElem?_eq_some_iff.1 ht
      have hi' : i = s.submitted.length := by
        rw [List.length_singleton] at h0
        omega
      simp only [hi', Nat.sub_self, List.getElem_cons_zero]
      exact hnew

/-- The last report names the last completed cookie. -/
theorem Books.report_cookie (hb : Books s v) (htx : ∀ i t, s.submitted[i]? = some t → t.cookie = P.dma_cookie_assign^[i + 1] c₀)
    {r : Report} (hr : s.reports.getLast? = some r) : r.cookie = P.dma_cookie_assign^[s.reports.length] c₀ := by
  obtain ⟨n, hn, hrep, -⟩ := hb.reported
  have hlen : s.reports.length = n := by rw [hrep, List.length_map, List.length_take_of_le hn]
  rw [hrep, List.getLast?_map, List.getLast?_take] at hr
  rcases Nat.eq_zero_or_pos n with rfl | hpos
  · cases hr
  · rw [if_neg (Nat.ne_of_gt hpos)] at hr
    obtain ⟨t, ht⟩ : ∃ t, s.submitted[n - 1]? = some t := ⟨_, List.getElem?_eq_getElem (by omega)⟩
    rw [ht] at hr
    obtain rfl := Option.some.inj hr
    rw [hlen, ← Nat.sub_add_cancel hpos]
    exact htx _ t ht

theorem Counted.cleanup (h : Counted P c₀ s) (hi : Inv s v) {k : Nat} {pc : Phys} (hk : v.rest[k]? = some pc) :
    Counted P c₀ (cleanupTo P s pc) := by
  have heq := cleanupTo_state (P := P) hi.lists hk
  have hsub : (cleanupTo P s pc).submitted = s.submitted := by rw [heq]
  have hcookie : (cleanupTo P s pc).cookie = s.cookie := by rw [heq]
  have htx : ∀ i t, (cleanupTo P s pc).submitted[i]? = some t → t.cookie = P.dma_cookie_assign^[i + 1] c₀ := by
    rw [hsub]; exact h.tx
  have hlast := fun r => (hi.books.cleanup hi.lists hk).report_cookie (r := r) htx
  refine ⟨?_, htx, ?_⟩
  · rw [hsub, hcookie]; exact h.cookie
  · have hrep : (cleanupTo P s pc).reports = s.reports ++ (told s (v.rest.take (k + 1))).map Prod.fst := by rw [heq]
    have hcompleted : (cleanupTo P s pc).completed_cookie
        = ((told s (v.rest.take (k + 1))).getLast?.map fun n : Notice => n.1.cookie).getD s.completed_cookie := by rw [heq]
    rcases List.eq_nil_or_concat (told s (v.rest.take (k + 1))) with hnil | ⟨l, n, hl⟩
    · rw [hcompleted, hrep, hnil]
      simpa using h.completed
    · have hn : (cleanupTo P s pc).reports.getLast? = some n.1 := by rw [hrep, hl]; simp
      rw [hcompleted, ← hlast _ hn, hl]
      simp

theorem Moved.counted (hm : Moved P s v a s' v') (hi : Inv s v) (h : Counted P c₀ s) : Counted P c₀ s' := by
  cases hm with
  | prep hp hpool hfresh hchain hnew =>
    apply h.same
    all_goals rw [hp.state_eq]
  | submit htail htx => exact h.submit
  | @cleanup _ k c x pc completion_ack timer hpl hk hc hlock htimer =>
    have hcount := h.cleanup hi hk
    exact { hcount with }
  | _ => exact h.same rfl rfl rfl rfl

theorem Fresh.counted {p : Phys} (h : Fresh s p) : Counted P s.cookie s := by
  refine ⟨?_, fun i t ht => ?_, ?_⟩
  · rw [h.submitted]; rfl
  · rw [h.submitted] at ht; cases ht
  · rw [h.reports]; exact h.cookie

/-! ## Polls -/

/-- How many cookies there are. -/
def COOKIES : Nat := 2 ^ 31 - 1

theorem dma_async_is_complete_iff (cookie last_complete last_used : Int) :
    dma_async_is_complete cookie last_complete last_used = .DMA_SUCCESS ↔ passed cookie last_complete last_used := by
  unfold dma_async_is_complete passed
  split <;> split <;> simp_all

/-- A clean-up attempted by a poll keeps what the steps of cleaning up keep. -/
theorem tryCleanup_rule {I : State → View → Prop} (hpre : ∀ s v, I s v → I (preamble s) v)
    (hstep : ∀ s v s' v', Inv s v → I s v → Moved P s v (.cleanup_end true) s' v' → I s' v') {cleanup_lock : Bool}
    (h : Inv s v) (h0 : I s v) (hl : cleanup_lock = true → s.cleanup_lock = none) (desc_lock : Bool) :
    ∃ v', Inv (tryCleanup P cleanup_lock desc_lock s) v' ∧ I (tryCleanup P cleanup_lock desc_lock s) v' := by
  unfold tryCleanup
  split
  · exact ⟨v, h, h0⟩
  next hlock =>
    split
    · exact ⟨v, h, h0⟩
    next hne =>
      split
      · obtain ⟨c, x, hpl⟩ := h.placed
        exact ⟨v, ⟨{ h.lists with }, { h.books with }, c, x, { hpl with }⟩, hpre s v h0⟩
      · obtain ⟨v', hm⟩ := h.progress_moved (P := P) (hl (by simpa using hlock)) hne
        exact ⟨v', hm.inv h, hstep _ _ _ _ h h0 hm⟩

/-- What a clean-up does to the histories. -/
theorem Moved.cleaned (hm : Moved P s v (.cleanup_end true) s' v') (hi : Inv s v) :
    s'.submitted = s.submitted ∧ s'.copies = s.copies ∧ s.reports <+: s'.reports := by
  cases hm with
  | @cleanup _ k c x pc completion_ack timer hpl hk hc hlock htimer =>
    rw [cleanupTo_state hi.lists hk]
    exact ⟨rfl, rfl, List.prefix_append _ _⟩

variable {dma_cookie_status : State → Int → DmaStatus} {t : Tx} {i : Nat}

/-- The cookies are values of a counter that starts over. -/
theorem Counted.values (h : Counted P c₀ s) (hdr : CookieHeader P dma_cookie_status) (hmin : DMA_MIN_COOKIE ≤ c₀)
    (hmax : c₀ ≤ DMA_MAX_COOKIE) : ∃ r, s.cookie = value COOKIES r s.submitted.length ∧
      s.completed_cookie = value COOKIES r s.reports.length ∧
      ∀ i t, s.submitted[i]? = some t → t.cookie = value COOKIES r (i + 1) := by
  have hmaxN : DMA_MAX_COOKIE = (COOKIES : Nat) := rfl
  obtain ⟨r, rfl⟩ : ∃ r : Nat, c₀ = r + 1 := ⟨(c₀ - 1).toNat, by unfold DMA_MIN_COOKIE at hmin; omega⟩
  have hassign : ∀ c : Int, 1 ≤ c → c ≤ COOKIES → P.dma_cookie_assign c = next COOKIES c := hdr.assign
  have hvalue := iterate_eq (N := COOKIES) (r := r) (by decide) hassign (by omega)
  refine ⟨r, ?_, ?_, fun i t ht => ?_⟩
  · rw [h.cookie, hvalue]
  · rw [h.completed, hvalue]
  · rw [h.tx i t ht, hvalue]

theorem Counted.status_iff (h : Counted P c₀ s) (hb : Books s v) (hdr : CookieHeader P dma_cookie_status)
    (hmin : DMA_MIN_COOKIE ≤ c₀) (hmax : c₀ ≤ DMA_MAX_COOKIE) (ht : s.submitted[i]? = some t)
    (hrecent : s.submitted.length ≤ i + COOKIES) (hfew : s.submitted.length < s.reports.length + COOKIES) :
    dma_cookie_status s t.cookie = .DMA_SUCCESS ↔ i < s.reports.length := by
  have hi := (List.getElem?_eq_some_iff.1 ht).1
  obtain ⟨r, hcookie, hcompleted, htx⟩ := h.values hdr hmin hmax
  rw [hdr.status, dma_async_is_complete_iff, hcompleted, hcookie, htx i t ht,
    passed_iff hi hb.reports_length (by omega) hfew]
  exact Nat.succ_le_iff

/-- Success is true even of a cookie that has come up again: the transaction that has it now came later. -/
theorem Counted.of_success (h : Counted P c₀ s) (hb : Books s v) (hdr : CookieHeader P dma_cookie_status)
    (hmin : DMA_MIN_COOKIE ≤ c₀) (hmax : c₀ ≤ DMA_MAX_COOKIE) (ht : s.submitted[i]? = some t)
    (hfew : s.submitted.length < s.reports.length + COOKIES) (hsuccess : dma_cookie_status s t.cookie = .DMA_SUCCESS) :
    i < s.reports.length := by
  obtain ⟨j, hij, hj, hrecent, hsame⟩ := exists_recent (N := COOKIES) (by decide) (List.getElem?_eq_some_iff.1 ht).1
  obtain ⟨u, hu⟩ : ∃ u, s.submitted[j]? = some u := ⟨_, List.getElem?_eq_getElem hj⟩
  obtain ⟨r, -, -, htx⟩ := h.values hdr hmin hmax
  have hcookie : u.cookie = t.cookie := by rw [htx j u hu, htx i t ht, hsame]
  rw [← hcookie] at hsuccess
  exact Nat.lt_of_le_of_lt hij ((h.status_iff hb hdr hmin hmax hu hrecent hfew).1 hsuccess)

/-- What a poll leaves, and what it tells. -/
theorem Counted.poll (h : Counted P c₀ s) (hi : Inv s v) (dma_cookie_status : State → Int → DmaStatus) {cleanup_lock : Bool}
    (hl : cleanup_lock = true → s.cleanup_lock = none) (desc_lock : Bool) (cookie : Int) :
    let r := ioat_dma_tx_status P dma_cookie_status cleanup_lock desc_lock s cookie
    ∃ v', Inv r.2 v' ∧ Counted P c₀ r.2 ∧ (Carried s v → Carried r.2 v') ∧ r.2.submitted = s.submitted ∧
      r.2.copies = s.copies ∧ s.reports.length ≤ r.2.reports.length ∧ r.1 = dma_cookie_status r.2 cookie := by
  unfold ioat_dma_tx_status
  dsimp only
  split
  · exact ⟨v, hi, h, id, rfl, rfl, Nat.le_refl _, rfl⟩
  next =>
    have hpre : ∀ s' v', (Carried s v → Carried s' v') → Carried s v → Carried (preamble s') v' := fun s' v' hc hs => by
      obtain ⟨x, hx⟩ := hc hs
      exact ⟨x, { hx with }⟩
    obtain ⟨v', hi', hc', hcarry, hsub, hcopies, hrep⟩ := tryCleanup_rule (P := P)
      (I := fun s' v' => Counted P c₀ s' ∧ (Carried s v → Carried s' v') ∧ s'.submitted = s.submitted ∧ s'.copies = s.copies ∧
        s.reports.length ≤ s'.reports.length)
      (fun s' v' h => ⟨{ h.1 with }, hpre s' v' h.2.1, h.2.2⟩)
      (fun _ _ _ _ hi h hm => by
        obtain ⟨hc, hcarry, hsub, hcopies, hrep⟩ := h
        obtain ⟨hsame, hcop, hmore⟩ := hm.cleaned hi
        refine ⟨hm.counted hi hc, fun hs => hm.carried hi (hcarry hs) ?_, hsame.trans hsub, hcop.trans hcopies,
          hrep.trans hmore.length_le⟩
        exact fun hr => by cases hr.1)
      hi ⟨h, id, rfl, rfl, Nat.le_refl _⟩ hl desc_lock
    exact ⟨v', hi', hc', hcarry, hsub, hcopies, hrep, rfl⟩

/-- Success exactly when the transaction is reported, if its cookie has not come up again and not all are waited for. -/
theorem poll_is_exact (hdr : CookieHeader P dma_cookie_status) (h : Opened s₀) (hmin : DMA_MIN_COOKIE ≤ s₀.cookie)
    (hmax : s₀.cookie ≤ DMA_MAX_COOKIE) (hs : exec (step P) s₀ as = some s) (ht : s.submitted[i]? = some t)
    (hrecent : s.submitted.length ≤ i + COOKIES) (hfew : s.submitted.length < s.reports.length + COOKIES)
    {cleanup_lock : Bool} (hl : cleanup_lock = true → s.cleanup_lock = none) (desc_lock : Bool) :
    let r := ioat_dma_tx_status P dma_cookie_status cleanup_lock desc_lock s t.cookie
    r.1 = .DMA_SUCCESS ↔ i < r.2.reports.length := by
  obtain ⟨p, hf⟩ := h.fresh
  obtain ⟨v, hi, hc⟩ := run_rule (I := fun s _ => Counted P s₀.cookie s) (A := fun _ _ => True)
    (fun _ _ _ _ _ hi hc _ hm => hm.counted hi hc) hf.inv hf.counted (along_of_mem fun _ _ _ => trivial) hs
  obtain ⟨v', hi', hc', -, hsub, -, hrep, hret⟩ := hc.poll hi dma_cookie_status hl desc_lock t.cookie
  intro r
  rw [show r.1 = _ from hret]
  exact hc'.status_iff hi'.books hdr hmin hmax (hsub ▸ ht) (hsub ▸ hrecent) (by rw [hsub]; omega)

def sampleStatus (s : State) (cookie : Int) : DmaStatus := dma_async_is_complete cookie s.completed_cookie s.cookie

theorem sampleHeader : CookieHeader sampleParams sampleStatus where
  assign c hmin hmax := by
    unfold DMA_MIN_COOKIE at hmin
    by_cases hc : c = DMA_MAX_COOKIE
    · subst hc
      decide
    · unfold DMA_MAX_COOKIE at hmax hc
      exact (if_pos ⟨hmin, by omega⟩).trans (if_neg hc).symm
  status _ _ := rfl

/-- The poll itself cleans up. -/
theorem poll_is_exact_sample : ∃ s t, exec (step sampleParams) sampleChan sampleCarried = some s ∧
    s.submitted[0]? = some t ∧ s.reports = [] ∧
      (ioat_dma_tx_status sampleParams sampleStatus true true s t.cookie).1 = .DMA_SUCCESS := by
  obtain ⟨s, hs⟩ := run_ends (show (exec (step sampleParams) sampleChan sampleCarried).isSome = true from rfl)
  have hsub : s.submitted = [⟨2, sampleReq, none⟩] := run_value State.submitted hs rfl
  have hrep : s.reports = [] := run_value State.reports hs rfl
  have hafter : (ioat_dma_tx_status sampleParams sampleStatus true true s 2).2.reports.length = 1 :=
    run_value (fun s => (ioat_dma_tx_status sampleParams sampleStatus true true s 2).2.reports.length) hs rfl
  refine ⟨s, _, hs, congrArg (·[0]?) hsub, hrep, (poll_is_exact sampleHeader sampleChan_opened (by decide) (by decide) hs
    (congrArg (·[0]?) hsub) ?_ ?_ (fun _ => run_value State.cleanup_lock hs rfl) true).2 (hafter ▸ Nat.zero_lt_one)⟩
  · simp [hsub, COOKIES]
  · simp [hsub, hrep, COOKIES]

end Dmacftu.Ioat
