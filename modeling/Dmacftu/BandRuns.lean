import Dmacftu.Band
/-!
# Runs of the Band benchmark

What a call does to the pages and the page arrays (`Op.run_cases`), and two
properties of whole runs over the four devices: no page is released more often than
it was pinned and no array freed twice (`pins_balanced_run`), and a device's calls
stay inside its slice of the boot memory (`devices_isolated`). Both hold exactly as
long as nobody uses an array after its release; the driver does not keep the
callers from it.
-/
open Lib.CInt Lib.Runs

namespace Dmacftu

/-! ## What pinning and unpinning do to the arrays -/

theorem unpinLoop_arrays (entry : Nat → Page) (dirty : Int) (k i : Nat) (mm : Mm) :
    (unpinLoop entry dirty k i mm).allocs = mm.allocs ∧ (unpinLoop entry dirty k i mm).freed = mm.freed := by
  induction k generalizing i mm with
  | zero => exact ⟨rfl, rfl⟩
  | succ k ih =>
    unfold unpinLoop
    split
    · rw [(ih _ _).1, (ih _ _).2]
      unfold page_cache_release
      split <;> exact ⟨rfl, rfl⟩
    · exact ⟨rfl, rfl⟩

theorem foldl_get_arrays (ps : List Page) (mm : Mm) :
    (ps.foldl get_page mm).allocs = mm.allocs ∧ (ps.foldl get_page mm).freed = mm.freed := by
  induction ps generalizing mm with
  | nil => exact ⟨rfl, rfl⟩
  | cons p ps ih => exact ih (get_page mm p)

/-- An unpin with an array: its entries are released, and it is freed. -/
theorem unpin_some (mm : Mm) (req_cp : RequestCopy) {a : PageArray} (ha : req_cp.pages = some a) (dirty : Int) :
    (dma_unpin_user_pages mm req_cp dirty).allocs = mm.allocs ∧
      (dma_unpin_user_pages mm req_cp dirty).freed = mm.freed ++ [a.id] ∧
      ∀ p, (dma_unpin_user_pages mm req_cp dirty).refs p = mm.refs p - req_cp.releases.count p := by
  refine ⟨?_, ?_, ?_⟩
  · simp only [dma_unpin_user_pages, ha, kfree]
    exact (unpinLoop_arrays ..).1
  · simp only [dma_unpin_user_pages, ha, kfree]
    rw [(unpinLoop_arrays ..).2]
  · intro p
    rw [unpin_refs ha]
    simp only [RequestCopy.releases, ha]

theorem unpin_none {mm : Mm} {req_cp : RequestCopy} (ha : req_cp.pages = none) (dirty : Int) :
    dma_unpin_user_pages mm req_cp dirty = mm := by
  simp only [dma_unpin_user_pages, ha]

/-- A pin that took its pages. -/
structure Taken (mm mm' : Mm) (req_cp : RequestCopy) : Prop where
  pinned : ∃ env, req_cp.PinnedBy env
  id : ∃ a, req_cp.pages = some a ∧ a.id = mm.allocs
  allocs : mm'.allocs = mm.allocs + 1
  freed : mm'.freed = mm.freed
  refs : ∀ p, mm'.refs p = mm.refs p + req_cp.releases.count p

/-- A pin that allocated its array and freed it again. -/
structure GivenUp (mm mm' : Mm) (req_cp : RequestCopy) : Prop where
  id : ∃ a, req_cp.pages = some a ∧ a.id = mm.allocs
  allocs : mm'.allocs = mm.allocs + 1
  freed : mm'.freed = mm.freed ++ [mm.allocs]

/-- The three ends of a pin. -/
def PinEnds (mm : Mm) (r : PinResult × RequestCopy × Mm) : Prop :=
  (r.1 ≠ .PIN_SUCCESSFUL ∧ r.2.1.pages = none ∧ r.2.2 = mm) ∨ (r.1 = .PIN_FAILED ∧ GivenUp mm r.2.2 r.2.1) ∨
    (r.1 = .PIN_SUCCESSFUL ∧ Taken mm r.2.2 r.2.1)

theorem pinDown_ends (env : PinEnv) (mm : Mm) (req_cp : RequestCopy) (entry : Nat → Page) (write force : Int) :
    PinEnds mm (pinDown env { mm with allocs := mm.allocs + 1 } (allocated mm req_cp entry) ⟨mm.allocs, entry⟩ write
      force) := by
  rcases pinDown_result env { mm with allocs := mm.allocs + 1 } (allocated mm req_cp entry) ⟨mm.allocs, entry⟩ write
    force with h | h
  · refine .inr (.inl ⟨h, ?_⟩)
    simp only [pinDown] at h ⊢
    split
    · obtain ⟨h1, h2, -⟩ := unpin_some ((env.taken req_cp.user_base (env.get_user_pages req_cp.user_base
        (nr_pages_of req_cp.user_base req_cp.len) write force)).foldl get_page { mm with allocs := mm.allocs + 1 })
        ({ allocated mm req_cp entry with pages := some ⟨mm.allocs, env.fill req_cp.user_base
          (env.get_user_pages req_cp.user_base (nr_pages_of req_cp.user_base req_cp.len) write force) entry⟩ }) rfl
        SET_DIRTY_OFF
      obtain ⟨h3, h4⟩ := foldl_get_arrays (env.taken req_cp.user_base (env.get_user_pages req_cp.user_base
        (nr_pages_of req_cp.user_base req_cp.len) write force)) { mm with allocs := mm.allocs + 1 }
      exact ⟨⟨_, rfl, rfl⟩, h1.trans h3, h2.trans (by rw [h4])⟩
    next heq =>
      rw [if_neg heq] at h
      cases h
  · refine .inr (.inr ⟨h, ?_⟩)
    obtain ⟨entry', hp, hby⟩ := pinDown_taken h
    rw [hp]
    obtain ⟨h1, h2⟩ := foldl_get_arrays (env.taken req_cp.user_base (nr_pages_of req_cp.user_base req_cp.len))
      { mm with allocs := mm.allocs + 1 }
    refine ⟨⟨env, hby⟩, ⟨_, rfl, rfl⟩, h1, h2, ?_⟩
    intro p
    rw [hby.releases_eq]
    exact foldl_get_refs ..

theorem pin_ends (env : PinEnv) (mm : Mm) {req_cp : RequestCopy} (hnone : req_cp.pages = none) (write force : Int) :
    PinEnds mm (dma_pin_user_pages env mm req_cp write force) := by
  rcases pin_cases env mm req_cp write force with ⟨-, he⟩ | ⟨-, -, he⟩ | ⟨e, -, -, ⟨-, he⟩ | ⟨-, he⟩⟩
  · rw [he]
    exact .inl ⟨by simp, hnone, rfl⟩
  · rw [he]
    exact .inl ⟨by simp, rfl, rfl⟩
  · rw [he]
    obtain ⟨h1, h2, -⟩ := unpin_some { mm with allocs := mm.allocs + 1 } (allocated mm req_cp e) rfl
      SET_DIRTY_OFF
    exact .inr (.inl ⟨rfl, ⟨_, rfl, rfl⟩, h1, h2⟩)
  · rw [he]
    exact pinDown_ends env mm req_cp e write force

theorem pin_prio_ends (env : PinEnv) (mm : Mm) {req_cp : RequestCopyPrio} (write force : Int) :
    PinEnds mm ((dma_pin_user_pages_prio env mm req_cp write force).1,
      (dma_pin_user_pages_prio env mm req_cp write force).2.1.toRequestCopy,
      (dma_pin_user_pages_prio env mm req_cp write force).2.2) := by
  cases hk : env.kmalloc (u64 (8 * nr_pages_of req_cp.user_base req_cp.len)) with
  | none =>
    simp only [dma_pin_user_pages_prio, hk, allocPages]
    exact .inl ⟨by simp, rfl, rfl⟩
  | some entry =>
    simp only [dma_pin_user_pages_prio, hk, allocPages]
    exact pinDown_ends env mm req_cp.toRequestCopy entry write force

theorem pin_prio_req (env : PinEnv) (mm : Mm) (req_cp : RequestCopyPrio) (write force : Int) :
    ∃ nr pages, (dma_pin_user_pages_prio env mm req_cp write force).2.1.toRequestCopy =
      { req_cp.toRequestCopy with nr_pages := nr, pages := pages } := by
  cases hk : env.kmalloc (u64 (8 * nr_pages_of req_cp.user_base req_cp.len)) with
  | none =>
    simp only [dma_pin_user_pages_prio, hk, allocPages]
    exact ⟨_, _, rfl⟩
  | some entry =>
    simp only [dma_pin_user_pages_prio, hk, allocPages]
    obtain ⟨pages, hp⟩ := pinDown_req env { mm with allocs := mm.allocs + 1 } (allocated mm req_cp.toRequestCopy entry)
      ⟨mm.allocs, entry⟩ write force
    exact ⟨_, pages, hp⟩

namespace Band

/-! ## What a call does -/

/-- The two requests of a device. -/
inductive Which where
  | plain
  | prio
  deriving DecidableEq, Repr

def BenchmarkData.req (b_data : BenchmarkData) : Which → RequestCopy
  | .plain => b_data.req_cpy_local
  | .prio => b_data.req_cpy_local_prio.toRequestCopy

/-- The request that a measure uses. -/
def which (type : Nat) : Option Which :=
  if type = EXCLUSIVE_MEASURE ∨ type = SHARED_MEASURE then some .plain
  else if type = PRIORITY_MEASURE then some .prio
  else none

def pick (type : Nat) (excl sh prio : PolicyCopy) : Option (Which × PolicyCopy) :=
  if type = EXCLUSIVE_MEASURE then some (.plain, excl)
  else if type = SHARED_MEASURE then some (.plain, sh)
  else if type = PRIORITY_MEASURE then some (.prio, prio)
  else none

/-- The copy that a read or write does, and for which request. -/
def Op.policy (e : Env) (b_data : BenchmarkData) : Op → Option (Which × PolicyCopy)
  | .ioctl _ => none
  | .read buf len =>
    if buf = 0 ∨ len > b_data.kernel_size then none
    else pick b_data.type e.caller.dma_copy_to_user_excl e.caller.dma_copy_to_user_sh
      (e.caller.dma_copy_to_user_prio b_data.req_cpy_local_prio.priority)
  | .write buf len =>
    if buf = 0 ∨ len > b_data.kernel_size then none
    else pick b_data.type e.caller.dma_copy_from_user_excl e.caller.dma_copy_from_user_sh
      (e.caller.dma_copy_from_user_prio b_data.req_cpy_local_prio.priority)

/-- The length that a read or write reports against. -/
def Op.len : Op → Option Nat
  | .ioctl _ => none
  | .read _ len => some len
  | .write _ len => some len

/-- Whether a call's copy gets as far as its descriptors. -/
def Op.Submits (e : Env) (b_data : BenchmarkData) (op : Op) (w : Which) (p : PolicyCopy) : Prop :=
  op.policy e b_data = some (w, p) ∧ 0 < (b_data.req w).len ∧ p.chan ≠ none

/-- What a call's copy has submitted when its fuel is spent; it need not come back. -/
def Call.underway (st : State) (c : Call) : List Event :=
  match c.op.policy c.env (st.vector_mb c.dev) with
  | none => []
  | some (w, p) =>
    Session.copyEvents st.mm p c.env.env c.env.fuel (refresh st.mm c.env.stale ((st.vector_mb c.dev).req w)) c.env.hw

/-- No call changes these. -/
structure Frame (b_data b_data' : BenchmarkData) : Prop where
  kernel_size : b_data'.kernel_size = b_data.kernel_size
  kernel_buf : b_data'.kernel_buf = b_data.kernel_buf
  type : b_data'.type = b_data.type

/-- `b_data'` with `req` as its request `w`, the other one as it was. -/
structure Stored (w : Which) (b_data : BenchmarkData) (req : RequestCopy) (b_data' : BenchmarkData) : Prop where
  frame : Frame b_data b_data'
  req : b_data'.req w = req
  other : ∀ w' ≠ w, b_data'.req w' = b_data.req w'

/-- A load whose pin fails leaves the reference counts alone: what the pins need
of the page array. -/
def LoadBalanced (type_measure : Nat) (e : Env) (q : QueryArg) : Prop :=
  match which type_measure with
  | none => True
  | some .plain => e.env.pin.kernel_ds = false →
      e.env.pin.TailNull q.buf_user q.len (e.env.pin.filled q.buf_user q.len q.write 0)
  | some .prio => e.env.pin.TailNull q.buf_user q.len
      (e.env.pin.get_user_pages q.buf_user (nr_pages_of q.buf_user q.len) q.write 0).toNat

/-- What a call on a device comes to. -/
inductive Effect (type_measure : Nat) (e : Env) (b_data : BenchmarkData) (mm : Mm) :
    Op → BenchmarkData → Session → Prop where
  | refused (op : Op) : Effect type_measure e b_data mm op b_data ⟨mm, []⟩
  | cpu (op : Op) (dir : Direction) :
      Effect type_measure e b_data mm op b_data ⟨mm, [.copied dir b_data.kernel_buf b_data.user_size]⟩
  | copied {op : Op} {w : Which} {p : PolicyCopy} {ret : Int} {req : RequestCopy} {hw : Hw} {b_data' : BenchmarkData}
      (hpolicy : op.policy e b_data = some (w, p))
      (hrun : p.run e.env e.fuel (refresh mm e.stale (b_data.req w)) e.hw = some (ret, req, hw))
      (hstored : Stored w b_data req b_data') (huser : b_data'.user_size = b_data.user_size) :
      Effect type_measure e b_data mm op b_data'
        ⟨mm, Session.copyEvents mm p e.env e.fuel (refresh mm e.stale (b_data.req w)) e.hw ++ [.returned ret req.status]⟩
  | filled {q : QueryArg} :
      Effect type_measure e b_data mm (.ioctl (.MB_LOAD (some q)))
        { b_data with user_size := q.len, user_buf := q.buf_user } ⟨mm, [.filled b_data.kernel_buf (s32 q.len)]⟩
  | loaded {q : QueryArg} {w : Which} {r : PinResult × RequestCopy × Mm} {b_data' : BenchmarkData}
      (hwhich : which type_measure = some w) (hends : PinEnds mm r)
      (hbal : LoadBalanced type_measure e q → r.1 = .PIN_FAILED → ∀ p, r.2.2.refs p = mm.refs p)
      (hreq : r.2.1.user_base = q.buf_user ∧ r.2.1.kernel_base = b_data.kernel_buf ∧ r.2.1.len = q.len)
      (hstored : Stored w b_data r.2.1 b_data') (huser : b_data'.user_size = q.len) :
      Effect type_measure e b_data mm (.ioctl (.MB_LOAD (some q))) b_data'
        ⟨r.2.2, .filled b_data.kernel_buf (s32 q.len) :: Session.pinEvents q.write r.1 r.2.1⟩
  | unloaded {q : QueryArg} {w : Which} (hwhich : which type_measure = some w) :
      Effect type_measure e b_data mm (.ioctl (.MB_UNLOAD (some q))) b_data
        (Session.unpin (refresh mm e.stale (b_data.req w)) (if q.write = 0 then SET_DIRTY_OFF else SET_DIRTY_ON) ⟨mm, []⟩)

variable {type_measure : Nat} {e : Env} {b_data b_data' : BenchmarkData} {mm : Mm} {op : Op} {ret : Int} {s : Session}

theorem stored_plain (req : RequestCopy) : Stored .plain b_data req { b_data with req_cpy_local := req } := by
  refine ⟨⟨rfl, rfl, rfl⟩, rfl, ?_⟩
  intro w hw
  cases w with
  | plain => exact absurd rfl hw
  | prio => rfl

theorem stored_prio (req : RequestCopyPrio) :
    Stored .prio b_data req.toRequestCopy { b_data with req_cpy_local_prio := req } := by
  refine ⟨⟨rfl, rfl, rfl⟩, rfl, ?_⟩
  intro w hw
  cases w with
  | plain => rfl
  | prio => exact absurd rfl hw

theorem stored_loading (b_data : BenchmarkData) (user_size user_buf : Nat) :
    Stored .plain b_data (b_data.req .plain) { b_data with user_size := user_size, user_buf := user_buf } := by
  refine ⟨⟨rfl, rfl, rfl⟩, rfl, ?_⟩
  intro w _
  cases w <;> rfl

theorem copy_effect {p : PolicyCopy} {w : Which} (store : RequestCopy → BenchmarkData)
    (hpolicy : op.policy e b_data = some (w, p)) (hstore : ∀ req, Stored w b_data req (store req))
    (huser : ∀ req, (store req).user_size = b_data.user_size)
    (h : (Session.copy p e.env e.fuel (refresh mm e.stale (b_data.req w)) e.hw ⟨mm, []⟩).map
      (fun (ret, req, _, s) => (ret, store req, s)) = some (ret, b_data', s)) :
    Effect type_measure e b_data mm op b_data' s := by
  obtain ⟨_, hcopy, he⟩ := Option.map_eq_some_iff.1 h
  obtain ⟨_, hrun, rfl⟩ := Option.map_eq_some_iff.1 hcopy
  cases he
  exact .copied hpolicy hrun (hstore _) (huser _)

theorem transfer_effect {dir : Direction} {pure : Hw → Nat × Hw} {excl sh : PolicyCopy} {prio : Nat → PolicyCopy}
    (hpolicy : op.policy e b_data = pick b_data.type excl sh (prio b_data.req_cpy_local_prio.priority))
    (h : transfer e dir pure excl sh prio b_data ⟨mm, []⟩ = some (ret, b_data', s)) :
    Effect type_measure e b_data mm op b_data' s := by
  unfold transfer at h
  split at h
  · cases h
    exact .cpu op dir
  split at h
  next htype => exact copy_effect _ (by rw [hpolicy, htype]; rfl) stored_plain (fun _ => rfl) h
  split at h
  next htype => exact copy_effect _ (by rw [hpolicy, htype]; rfl) stored_plain (fun _ => rfl) h
  split at h
  next htype =>
    exact copy_effect (w := .prio)
      (fun req => { b_data with req_cpy_local_prio := { b_data.req_cpy_local_prio with toRequestCopy := req } })
      (by rw [hpolicy, htype]; rfl)
      (fun req => stored_prio { b_data.req_cpy_local_prio with toRequestCopy := req }) (fun _ => rfl) h
  · cases h
    exact .refused op

theorem driverOp_effect {buf len : Nat} {f : BenchmarkData → Session → Option (Int × BenchmarkData × Session)}
    (hf : ¬ (buf = 0 ∨ len > b_data.kernel_size) →
      ∀ ret, f b_data ⟨mm, []⟩ = some (ret, b_data', s) → Effect type_measure e b_data mm op b_data' s)
    (h : driverOp b_data buf len f ⟨mm, []⟩ = some (ret, b_data', s)) :
    Effect type_measure e b_data mm op b_data' s := by
  unfold driverOp at h
  split at h
  · cases h
    exact .refused op
  split at h
  · cases h
    exact .refused op
  next hbuf hlen =>
    obtain ⟨_, hr, he⟩ := Option.map_eq_some_iff.1 h
    cases he
    exact hf (not_or.2 ⟨hbuf, hlen⟩) _ hr

theorem load_effect {q : QueryArg} (h : load type_measure e q b_data ⟨mm, []⟩ = (ret, b_data', s)) :
    Effect type_measure e b_data mm (.ioctl (.MB_LOAD (some q))) b_data' s := by
  unfold load at h
  simp only at h
  split at h
  next htype =>
    cases h
    obtain ⟨nr, pages, hreq⟩ := pin_req e.env.pin mm (init_req_copy q.buf_user b_data.kernel_buf q.len) q.write 0
    refine .loaded (w := .plain) (by simp [which, htype]) (pin_ends e.env.pin mm rfl q.write 0) ?_ ?_
      ⟨⟨rfl, rfl, rfl⟩, rfl, ?_⟩ rfl
    · -- only the plain pin looks at the address limit
      intro hbal hfail
      have hbal : e.env.pin.kernel_ds = false → e.env.pin.TailNull q.buf_user q.len
          (e.env.pin.filled q.buf_user q.len q.write 0) := by
        simpa [LoadBalanced, which, htype] using hbal
      exact (pin_balanced e.env.pin mm (init_req_copy q.buf_user b_data.kernel_buf q.len) q.write 0).2 hbal hfail
    · exact hreq ▸ ⟨rfl, rfl, rfl⟩
    · intro w hw
      cases w with
      | plain => exact absurd rfl hw
      | prio => rfl
  next htype =>
    split at h
    next hprio =>
      cases h
      obtain ⟨nr, pages, hreq⟩ := pin_prio_req e.env.pin mm
        (init_req_copy_prio q.buf_user b_data.kernel_buf q.len (u16 b_data.id_chan)) q.write 0
      refine .loaded (w := .prio) (by rw [hprio]; rfl) (pin_prio_ends e.env.pin mm q.write 0) ?_ ?_
        ⟨⟨rfl, rfl, rfl⟩, rfl, ?_⟩ rfl
      · intro hbal hfail
        have hbal : e.env.pin.TailNull q.buf_user q.len
            (e.env.pin.get_user_pages q.buf_user (nr_pages_of q.buf_user q.len) q.write 0).toNat := by
          simpa [LoadBalanced, which, hprio, EXCLUSIVE_MEASURE, SHARED_MEASURE, PRIORITY_MEASURE] using hbal
        exact (pin_prio_balanced e.env.pin mm
          (init_req_copy_prio q.buf_user b_data.kernel_buf q.len (u16 b_data.id_chan)) q.write 0).2 hbal hfail
      · dsimp only
        exact hreq ▸ ⟨rfl, rfl, rfl⟩
      · intro w hw
        cases w with
        | plain => rfl
        | prio => exact absurd rfl hw
    next hprio =>
      cases h
      exact .filled

theorem unload_effect {q : QueryArg} (h : unload type_measure e q b_data ⟨mm, []⟩ = (ret, b_data', s)) :
    Effect type_measure e b_data mm (.ioctl (.MB_UNLOAD (some q))) b_data' s := by
  unfold unload at h
  simp only at h
  split at h
  next htype =>
    cases h
    exact .unloaded (w := .plain) (by simp [which, htype])
  next htype =>
    split at h
    next hprio =>
      cases h
      exact .unloaded (w := .prio) (by rw [hprio]; rfl)
    next hprio =>
      cases h
      exact .refused _

/-- Every call is one of the effects. -/
theorem Op.run_effect (h : op.run type_measure e b_data ⟨mm, []⟩ = some (ret, b_data', s)) :
    Effect type_measure e b_data mm op b_data' s := by
  cases op with
  | ioctl cmd =>
    have h : benchmark_driver_ioctl type_measure e b_data ⟨mm, []⟩ cmd = (ret, b_data', s) := Option.some.inj h
    match cmd, h with
    | .MB_LOAD (some q), h => exact load_effect h
    | .MB_UNLOAD (some q), h => exact unload_effect h
    | .MB_LOAD none, h => cases h; exact .refused _
    | .MB_UNLOAD none, h => cases h; exact .refused _
    | .other, h => cases h; exact .refused _
  | read buf len => exact driverOp_effect (fun hargs _ => transfer_effect (if_neg hargs)) h
  | write buf len => exact driverOp_effect (fun hargs _ => transfer_effect (if_neg hargs)) h

/-! ## Pages and arrays over a run -/

/-- The arrays held, with the pages each of them has; `refs` are the reference
counts at the start. -/
structure Ledger (refs : Page → Int) (held : List (Nat × List Page)) (mm : Mm) : Prop where
  refs_eq : ∀ p, mm.refs p = refs p + (held.flatMap Prod.snd).count p
  ids_nodup : (held.map Prod.fst).Nodup
  held_live : ∀ x ∈ held, x.1 < mm.allocs ∧ x.1 ∉ mm.freed
  freed_lt : ∀ id ∈ mm.freed, id < mm.allocs
  freed_nodup : mm.freed.Nodup

/-- A request's array is held with the pages it would release, or freed. -/
def Backed (held : List (Nat × List Page)) (mm : Mm) (req : RequestCopy) : Prop :=
  ∀ a, req.pages = some a → a.id ∈ mm.freed ∨ (a.id, req.releases) ∈ held

variable {refs : Page → Int} {held : List (Nat × List Page)} {mm' : Mm} {req req' : RequestCopy}

theorem Ledger.taken (h : Ledger refs held mm) (ht : Taken mm mm' req) :
    Ledger refs ((mm.allocs, req.releases) :: held) mm' := by
  refine ⟨?_, ?_, ?_, ?_, ?_⟩
  · intro p
    rw [ht.refs, h.refs_eq, List.flatMap_cons, List.count_append]
    push_cast
    omega
  · rw [List.map_cons, List.nodup_cons]
    refine ⟨fun hm => ?_, h.ids_nodup⟩
    obtain ⟨x, hx, he⟩ := List.mem_map.1 hm
    have := (h.held_live x hx).1
    omega
  · intro x hx
    rw [ht.allocs, ht.freed]
    rcases List.mem_cons.1 hx with rfl | hx
    · exact ⟨Nat.lt_succ_self _, fun hf => absurd (h.freed_lt _ hf) (Nat.lt_irrefl _)⟩
    · obtain ⟨h1, h2⟩ := h.held_live x hx
      exact ⟨Nat.lt_succ_of_lt h1, h2⟩
  · intro id hid
    rw [ht.freed] at hid
    rw [ht.allocs]
    exact Nat.lt_succ_of_lt (h.freed_lt id hid)
  · rw [ht.freed]
    exact h.freed_nodup

theorem Ledger.givenUp (h : Ledger refs held mm) (hg : GivenUp mm mm' req) (hrefs : ∀ p, mm'.refs p = mm.refs p) :
    Ledger refs held mm' := by
  refine ⟨fun p => (hrefs p).trans (h.refs_eq p), h.ids_nodup, ?_, ?_, ?_⟩
  · intro x hx
    obtain ⟨h1, h2⟩ := h.held_live x hx
    rw [hg.allocs, hg.freed, List.mem_append, List.mem_singleton, not_or]
    exact ⟨Nat.lt_succ_of_lt h1, h2, Nat.ne_of_lt h1⟩
  · intro id hid
    rw [hg.freed, List.mem_append, List.mem_singleton] at hid
    rw [hg.allocs]
    rcases hid with hid | rfl
    · exact Nat.lt_succ_of_lt (h.freed_lt id hid)
    · exact Nat.lt_succ_self _
  · rw [hg.freed]
    refine h.freed_nodup.append (List.nodup_singleton _) ?_
    intro id hid hid'
    obtain rfl := List.mem_singleton.1 hid'
    exact absurd (h.freed_lt _ hid) (Nat.lt_irrefl _)

/-- An array that is held is released. -/
theorem Ledger.release (h : Ledger refs held mm) {a : PageArray} (ha : req.pages = some a)
    (hheld : (a.id, req.releases) ∈ held) (dirty : Int) :
    Ledger refs (held.erase (a.id, req.releases)) (dma_unpin_user_pages mm req dirty) := by
  obtain ⟨hallocs, hfreed, hrefs⟩ := unpin_some mm _ ha dirty
  have hperm := List.perm_cons_erase hheld
  have hids : (a.id :: (held.erase (a.id, req.releases)).map Prod.fst).Nodup :=
    ((hperm.map Prod.fst).nodup_iff).1 h.ids_nodup
  refine ⟨?_, (List.nodup_cons.1 hids).2, ?_, ?_, ?_⟩
  · intro p
    have hcount := (hperm.flatMap_right Prod.snd).count_eq p
    rw [List.flatMap_cons, List.count_append] at hcount
    rw [hrefs, h.refs_eq, hcount]
    push_cast
    omega
  · intro x hx
    obtain ⟨h1, h2⟩ := h.held_live x (List.mem_of_mem_erase hx)
    rw [hallocs, hfreed, List.mem_append, List.mem_singleton, not_or]
    refine ⟨h1, h2, ?_⟩
    intro he
    exact (List.nodup_cons.1 hids).1 (List.mem_map.2 ⟨x, hx, he⟩)
  · intro id hid
    rw [hfreed, List.mem_append, List.mem_singleton] at hid
    rw [hallocs]
    rcases hid with hid | rfl
    · exact h.freed_lt id hid
    · exact (h.held_live _ hheld).1
  · rw [hfreed]
    refine h.freed_nodup.append (List.nodup_singleton _) ?_
    intro id hid hid'
    obtain rfl := List.mem_singleton.1 hid'
    exact (h.held_live _ hheld).2 hid

/-- What holds between calls: the pages held account for the reference counts,
and a request that is not backed has no array. -/
def Balanced (refs : Page → Int) (st : State) : Prop :=
  ∃ held, Ledger refs held st.mm ∧ ∀ k w, Backed held st.mm ((st.vector_mb k).req w)

/-- The step condition: a load's pin is balanced when it fails, and an unload finds
an array that is not freed. -/
def Disciplined (type_measure : Nat) (st : State) (c : Call) : Prop :=
  match c.op with
  | .ioctl (.MB_LOAD (some q)) => LoadBalanced type_measure c.env q
  | .ioctl (.MB_UNLOAD (some _)) => ∀ w, which type_measure = some w → ∀ a,
      ((st.vector_mb c.dev).req w).pages = some a → a.id ∉ st.mm.freed
  | _ => True

/-- An unload finds an array that is not freed. A second `kfree` would free what is
by then another request's array, and no later step could count on its pages. -/
def UnloadsLive (type_measure : Nat) (st : State) (c : Call) : Prop :=
  ∀ q, c.op = .ioctl (.MB_UNLOAD (some q)) → ∀ w, which type_measure = some w → ∀ a,
    ((st.vector_mb c.dev).req w).pages = some a → a.id ∉ st.mm.freed

/-- A property of all requests after one of them is stored. -/
theorem update_reqs {st : State} {k : Fin MB_MINOR} {w : Which} {b_data' : BenchmarkData} {P Q : RequestCopy → Prop}
    (h : ∀ k w, P ((st.vector_mb k).req w)) (hstored : Stored w (st.vector_mb k) req b_data') (hreq : Q req)
    (hmono : ∀ req, P req → Q req) : ∀ k' w', Q ((Function.update st.vector_mb k b_data' k').req w') := by
  intro k' w'
  by_cases hk : k' = k
  · subst hk
    rw [Function.update_self]
    by_cases hw : w' = w
    · rw [hw, hstored.req]
      exact hreq
    · rw [hstored.other w' hw]
      exact hmono _ (h k' w')
  · rw [Function.update_of_ne hk]
    exact hmono _ (h k' w')

/-- A freed array stays freed, however its memory is read. -/
theorem Backed.refresh (h : Backed held mm req) (stale : Nat → Page) : Backed held mm (refresh mm stale req) := by
  intro a ha
  obtain ⟨a', ha', he⟩ := Option.map_eq_some_iff.1 ha
  rcases h a' ha' with hf | hheld
  · rw [if_pos hf] at he
    exact .inl (he ▸ hf)
  · by_cases hf : a'.id ∈ mm.freed
    · rw [if_pos hf] at he
      exact .inl (he ▸ hf)
    · rw [if_neg hf] at he
      subst he
      have hsame : RequestCopy.releases (Band.refresh mm stale req) = req.releases := by
        simp [RequestCopy.releases, Band.refresh, ha', hf]
      exact .inr (hsame ▸ hheld)

/-- More arrays freed, the same ones held. -/
theorem Backed.mono (h : Backed held mm req) (hfreed : ∀ id ∈ mm.freed, id ∈ mm'.freed) : Backed held mm' req := by
  intro a ha
  rcases h a ha with hf | hheld
  · exact .inl (hfreed _ hf)
  · exact .inr hheld

/-- A load that takes pages adds its array to the ones held. -/
theorem Backed.taken (h : Backed held mm req) (ht : Taken mm mm' req') :
    Backed ((mm.allocs, req'.releases) :: held) mm' req := by
  intro a ha
  rcases h a ha with hf | hheld
  · exact .inl (ht.freed ▸ hf)
  · exact .inr (List.mem_cons_of_mem _ hheld)

/-- An unload gives up one array, and frees it. -/
theorem Backed.release (h : Backed held mm req) {a : PageArray} (ha : req'.pages = some a)
    (dirty : Int) :
    Backed (held.erase (a.id, req'.releases)) (dma_unpin_user_pages mm req' dirty) req := by
  obtain ⟨-, hfreed, -⟩ := unpin_some mm _ ha dirty
  intro b hb
  rw [hfreed]
  rcases h b hb with hf | hheld'
  · exact .inl (List.mem_append_left _ hf)
  · by_cases hab : b.id = a.id
    · exact .inl (List.mem_append_right _ (List.mem_singleton.2 hab))
    · refine .inr ((List.mem_erase_of_ne ?_).2 hheld')
      intro he
      exact hab (congrArg Prod.fst he)

theorem Backed.of_pages (h : Backed held mm req) (hpages : req'.pages = req.pages) (hnr : req'.nr_pages = req.nr_pages) :
    Backed held mm req' := by
  intro a ha
  have hreleases : req'.releases = req.releases := by
    unfold RequestCopy.releases
    rw [hpages, hnr]
  rw [hreleases]
  exact h a (hpages ▸ ha)

/-- The request a load leaves, for each end of its pin. -/
theorem loaded_balanced {r : PinResult × RequestCopy × Mm} (hl : Ledger refs held mm) (hends : PinEnds mm r)
    (hbal : r.1 = .PIN_FAILED → ∀ p, r.2.2.refs p = mm.refs p) :
    ∃ held', Ledger refs held' r.2.2 ∧ Backed held' r.2.2 r.2.1 ∧
      ∀ req, Backed held mm req → Backed held' r.2.2 req := by
  rcases hends with ⟨-, hnone, hmm⟩ | ⟨hfail, hup⟩ | ⟨-, ht⟩
  · rw [hmm]
    exact ⟨held, hl, fun a ha => by simp [hnone] at ha, fun _ => id⟩
  · obtain ⟨a, ha, hid⟩ := hup.id
    refine ⟨held, hl.givenUp hup (hbal hfail), ?_, ?_⟩
    · intro b hb
      rw [ha] at hb
      cases hb
      rw [hid, hup.freed]
      exact .inl (List.mem_append_right _ (List.mem_singleton_self _))
    · intro req h
      apply h.mono
      intro id hid
      rw [hup.freed]
      exact List.mem_append_left _ hid
  · obtain ⟨a, ha, hid⟩ := ht.id
    refine ⟨_, hl.taken ht, ?_, fun req h => h.taken ht⟩
    intro b hb
    rw [ha] at hb
    cases hb
    rw [hid]
    exact .inr List.mem_cons_self

/-- The unload of an array that is not freed. -/
theorem unloaded_balanced (hl : Ledger refs held mm) (h : Backed held mm req)
    (hlive : ∀ a, req.pages = some a → a.id ∉ mm.freed) (dirty : Int) :
    ∃ held', Ledger refs held' (dma_unpin_user_pages mm req dirty) ∧
      ∀ req', Backed held mm req' → Backed held' (dma_unpin_user_pages mm req dirty) req' := by
  cases ha : req.pages with
  | none =>
    rw [unpin_none ha]
    exact ⟨held, hl, fun _ => id⟩
  | some a =>
    rcases h a ha with hf | hheld
    · exact absurd hf (hlive a ha)
    · exact ⟨_, hl.release ha hheld dirty, fun req' h' => h'.release ha dirty⟩

theorem call_balanced {type_measure : Nat} {st st' : State} {c : Call} (h : Balanced refs st)
    (hd : Disciplined type_measure st c) (hc : call type_measure st c = some st') : Balanced refs st' := by
  obtain ⟨held, hl, hb⟩ := h
  obtain ⟨dev, e, op⟩ := c
  obtain ⟨⟨ret, b_data', s⟩, hrun, rfl⟩ := Option.map_eq_some_iff.1 hc
  dsimp only at hrun hd ⊢
  have heff := Op.run_effect hrun
  cases heff with
  | refused => exact ⟨held, hl, by simpa using hb⟩
  | cpu => exact ⟨held, hl, by simpa using hb⟩
  | copied _ hcopy hstored _ =>
    obtain ⟨chan, cookie, status, hreq⟩ := PolicyCopy.run_req hcopy
    dsimp only at hreq
    refine ⟨held, hl, update_reqs hb hstored ?_ fun _ => id⟩
    apply ((hb dev _).refresh e.stale).of_pages <;> rw [hreq]
  | @filled q =>
    have hstored := stored_loading (st.vector_mb dev) q.len q.buf_user
    exact ⟨held, hl, update_reqs hb hstored (hb dev _) fun _ => id⟩
  | loaded _ hends hbal _ hstored _ =>
    obtain ⟨held', hl', hreq, hmono⟩ := loaded_balanced hl hends (hbal hd)
    exact ⟨held', hl', update_reqs hb hstored hreq hmono⟩
  | @unloaded q w hwhich =>
    have hlive : ∀ a, (refresh st.mm e.stale ((st.vector_mb dev).req w)).pages = some a → a.id ∉ st.mm.freed := by
      intro a ha
      obtain ⟨a', ha', rfl⟩ := Option.map_eq_some_iff.1 ha
      have hfreed := hd w hwhich a' ha'
      rwa [if_neg hfreed]
    obtain ⟨held', hl', hmono⟩ := unloaded_balanced hl ((hb dev w).refresh e.stale) hlive
      (if q.write = 0 then SET_DIRTY_OFF else SET_DIRTY_ON)
    refine ⟨held', hl', ?_⟩
    rw [Function.update_eq_self]
    exact fun k w => hmono _ (hb k w)

theorem init_balanced (m : BootMem) (type_id : Nat) {mm : Mm} (hfreed : mm.freed = []) :
    Balanced mm.refs (init_all_micro_bench m type_id mm) := by
  refine ⟨[], ⟨?_, List.nodup_nil, ?_, ?_, ?_⟩, ?_⟩
  · simp [init_all_micro_bench]
  · simp
  · simp [init_all_micro_bench, hfreed]
  · simp [init_all_micro_bench, hfreed]
  · intro k w a ha
    cases w <;> cases ha

/-- In a run whose loads fail cleanly and whose unloads come before the array is
freed, no page is released more often than it was pinned, and no array is freed twice. -/
theorem pins_balanced_run (m : BootMem) (type_id type_measure : Nat) {mm : Mm} {calls : List Call} {st : State}
    (hfreed : mm.freed = [])
    (hcalls : along (call type_measure) (Disciplined type_measure) (init_all_micro_bench m type_id mm) calls)
    (h : exec (call type_measure) (init_all_micro_bench m type_id mm) calls = some st) :
    (∀ p, mm.refs p ≤ st.mm.refs p) ∧ st.mm.freed.Nodup := by
  obtain ⟨held, hl, -⟩ := exec_inv_along (Balanced mm.refs) (fun _ _ _ => call_balanced) (init_balanced m type_id hfreed)
    hcalls h
  refine ⟨?_, hl.freed_nodup⟩
  intro p
  rw [hl.refs_eq]
  omega

def sampleBoot : BootMem where
  boot_mem_microBenchmark := sampleBuf
  size_boot_mem_mb := 33554432
  size_mem := by decide
  fits := by decide

/-- Freed arrays are left as they were. -/
def sampleBandEnv : Env := ⟨sampleCaller, promptEnv, bootSt.hw, idleCpu, 2, fun _ => 2⟩

def loadCall (write len : Nat) (hlen : len < 2 ^ 64) : Call :=
  ⟨⟨0, by decide⟩, sampleBandEnv, .ioctl (.MB_LOAD (some ⟨write, 4096, len, by decide, hlen⟩))⟩

def unloadCall : Call := ⟨⟨0, by decide⟩, sampleBandEnv, .ioctl (.MB_UNLOAD (some ⟨1, 4096, 8, by decide, by decide⟩))⟩

theorem pins_balanced_run_sample : ∃ st, exec (call EXCLUSIVE_MEASURE)
      (init_all_micro_bench sampleBoot EXCLUSIVE_MEASURE bootMm) [loadCall 1 8 (by decide), unloadCall] = some st ∧
    (∀ p, bootMm.refs p ≤ st.mm.refs p) ∧ st.mm.freed.Nodup := by
  have hsome : (exec (call EXCLUSIVE_MEASURE) (init_all_micro_bench sampleBoot EXCLUSIVE_MEASURE bootMm)
      [loadCall 1 8 (by decide), unloadCall]).isSome = true := by
    decide
  have hfreed : (call EXCLUSIVE_MEASURE (init_all_micro_bench sampleBoot EXCLUSIVE_MEASURE bootMm) (loadCall 1 8 (by decide))).map
      (fun st => st.mm.freed) = some [] := by
    decide
  obtain ⟨st, hst⟩ := Option.isSome_iff_exists.1 hsome
  refine ⟨st, hst, pins_balanced_run sampleBoot EXCLUSIVE_MEASURE EXCLUSIVE_MEASURE rfl ?_ hst⟩
  unfold along
  constructor
  · intro _ entry _ hfilled
    exact absurd hfilled (by decide)
  · intro t ht
    rw [ht] at hfreed
    have hempty : t.mm.freed = [] := Option.some.inj hfreed
    refine ⟨?_, fun _ _ => trivial⟩
    intro w _ a _
    simp [hempty]

/-- The second `MB_UNLOAD` releases page 2 again, and frees its array again. -/
theorem unload_twice :
    ∃ st, exec (call EXCLUSIVE_MEASURE) (init_all_micro_bench sampleBoot EXCLUSIVE_MEASURE bootMm)
      [loadCall 1 8 (by decide), unloadCall, unloadCall] = some st ∧ st.mm.refs 2 < bootMm.refs 2 ∧ ¬ st.mm.freed.Nodup := by
  have hend : (exec (call EXCLUSIVE_MEASURE) (init_all_micro_bench sampleBoot EXCLUSIVE_MEASURE bootMm)
      [loadCall 1 8 (by decide), unloadCall, unloadCall]).map (fun st => (st.mm.refs 2, st.mm.freed)) = some (0, [0, 0]) := by
    decide
  obtain ⟨st, hst, he⟩ := Option.map_eq_some_iff.1 hend
  simp only [Prod.mk.injEq] at he
  refine ⟨st, hst, ?_, ?_⟩
  · rw [he.1]
    decide
  · rw [he.2]
    decide

end Band

end Dmacftu
