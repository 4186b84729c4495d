import Dmacftu.IoatOrder
import Dmacftu.Lib.Ledger
/-!
# Mappings, from the client to the driver

The `dma_async_memcpy_*` functions of `dmaengine.c` map the two buffers of a copy
and the driver unmaps them when it reports the transaction; what ties the two ends
together is `flags`. `mappings_balance`: in every run the live mappings are those
of the transactions that are not reported yet, and the driver never unmaps
anything else, as long as no mapping is refused to a function that does not look.
-/
open Lib.CopyEngine Lib.Ledger Lib.Links Lib.Runs Lib.Script

namespace Dmacftu.Ioat

/-- How a `dma_async_memcpy_*` function maps its two buffers, and the flags it passes on. -/
structure MemcpyFn where
  destKind : MapKind
  srcKind : MapKind
  flags : DmaCtrlFlags
  deriving DecidableEq, Repr

namespace MemcpyFn

def destMap (f : MemcpyFn) (len addr : Nat) : Mapping := ⟨f.destKind, addr, len, .DMA_FROM_DEVICE⟩

def srcMap (f : MemcpyFn) (len addr : Nat) : Mapping := ⟨f.srcKind, addr, len, .DMA_TO_DEVICE⟩

def request (f : MemcpyFn) (dest src len : Nat) : Request := ⟨dest, src, len, f.flags⟩

/-- The mappings that are there; one that was refused has the bus address 0. -/
def made (f : MemcpyFn) (dest src len : Nat) : List Mapping :=
  (if src = 0 then [] else [f.srcMap len src]) ++ (if dest = 0 then [] else [f.destMap len dest])

def buf_to_buf : MemcpyFn :=
  ⟨.single, .single, { noFlags with
    DMA_CTRL_ACK := true, DMA_COMPL_SRC_UNMAP_SINGLE := true, DMA_COMPL_DEST_UNMAP_SINGLE := true }⟩

def buf_to_pg : MemcpyFn :=
  ⟨.page, .single, { noFlags with DMA_CTRL_ACK := true, DMA_COMPL_SRC_UNMAP_SINGLE := true }⟩

def pg_to_buf : MemcpyFn :=
  ⟨.single, .page, { noFlags with DMA_CTRL_ACK := true, DMA_COMPL_DEST_UNMAP_SINGLE := true }⟩

def pg_to_pg : MemcpyFn := ⟨.page, .page, { noFlags with DMA_CTRL_ACK := true }⟩

end MemcpyFn

/-- The channel and the live mappings. -/
structure Mapped where
  chan : State
  maps : List Mapping

/-- Both buffers are mapped and the descriptors prepared; without a descriptor both are unmapped, whatever
the mappings returned. -/
def mapAndPrep (P : Params) (m : Mapped) (f : MemcpyFn) (dest src len : Nat) (pool : List Phys) : Option Mapped :=
  let new := f.made dest src len
  (step P m.chan (.prep (f.request dest src len) pool)).bind fun chan =>
    if chan.prepared.length = m.chan.prepared.length then
      (putAll [f.srcMap len src, f.destMap len dest] (new ++ m.maps)).map (⟨chan, ·⟩)
    else some ⟨chan, new ++ m.maps⟩

/-! The four functions up to where they submit; `dest` and `src` are the bus addresses that the mappings return. -/

def dma_async_memcpy_buf_to_buf (P : Params) (m : Mapped) (dest src len : Nat) (pool : List Phys) : Option Mapped :=
  mapAndPrep P m .buf_to_buf dest src len pool

def dma_async_memcpy_buf_to_pg (P : Params) (m : Mapped) (dest src len : Nat) (pool : List Phys) : Option Mapped :=
  mapAndPrep P m .buf_to_pg dest src len pool

/-- The one that looks at what the mappings return, and that maps the destination first. -/
def dma_async_memcpy_pg_to_buf (P : Params) (m : Mapped) (dest src len : Nat) (pool : List Phys) : Option Mapped :=
  if dest = 0 then some m
  else if src = 0 then
    let new := [MemcpyFn.pg_to_buf.destMap len dest]
    (putAll new (new ++ m.maps)).map fun maps => { m with maps := maps }
  else mapAndPrep P m .pg_to_buf dest src len pool

def dma_async_memcpy_pg_to_pg (P : Params) (m : Mapped) (dest src len : Nat) (pool : List Phys) : Option Mapped :=
  mapAndPrep P m .pg_to_pg dest src len pool

/-- What happens on the channel. -/
inductive Call where
  | buf_to_buf (dest src len : Nat) (pool : List Phys)
  | buf_to_pg (dest src len : Nat) (pool : List Phys)
  | pg_to_buf (dest src len : Nat) (pool : List Phys)
  | pg_to_pg (dest src len : Nat) (pool : List Phys)
  | act (a : Act)
  deriving DecidableEq, Repr

/-- A step of the channel, with the unmaps of what it reports. -/
def unmapping (P : Params) (m : Mapped) (a : Act) : Option Mapped :=
  (step P m.chan a).bind fun chan =>
    (putAll ((chan.reports.drop m.chan.reports.length).flatMap Report.unmaps) m.maps).map (⟨chan, ·⟩)

/-- All transactions come from the functions above. -/
def call (P : Params) (m : Mapped) : Call → Option Mapped
  | .buf_to_buf dest src len pool => dma_async_memcpy_buf_to_buf P m dest src len pool
  | .buf_to_pg dest src len pool => dma_async_memcpy_buf_to_pg P m dest src len pool
  | .pg_to_buf dest src len pool => dma_async_memcpy_pg_to_buf P m dest src len pool
  | .pg_to_pg dest src len pool => dma_async_memcpy_pg_to_pg P m dest src len pool
  | .act (.prep _ _) => none
  | .act a => unmapping P m a

variable {P : Params} {s s' s₀ : State} {v v' : View} {a : Act} {m m' : Mapped}

/-! ## The two ends -/

/-- The flags of a function undo its mappings, each the way it was made. -/
def MemcpyFn.Paired (f : MemcpyFn) : Prop :=
  ∀ dest src len, (f.request dest src len).unmaps = [f.destMap len dest, f.srcMap len src]

theorem MemcpyFn.buf_to_buf_paired : buf_to_buf.Paired := fun _ _ _ => rfl

theorem MemcpyFn.buf_to_pg_paired : buf_to_pg.Paired := fun _ _ _ => rfl

theorem MemcpyFn.pg_to_buf_paired : pg_to_buf.Paired := fun _ _ _ => rfl

theorem MemcpyFn.pg_to_pg_paired : pg_to_pg.Paired := fun _ _ _ => rfl

/-- The mappings that are still to be undone. -/
def due (s : State) : List Mapping :=
  s.prepared.flatMap (·.2.unmaps) ++ (s.submitted.drop s.reports.length).flatMap (·.req.unmaps)

/-- Preparing changes what is due by the request alone. -/
theorem step_prep {req : Request} {pool : List Phys} (hi : Inv s v) (hs : step P s (.prep req pool) = some s') :
    s'.submitted = s.submitted ∧ s'.reports = s.reports ∧
      (s'.prepared = s.prepared ∨ ∃ tx, s'.prepared = s.prepared ++ [(tx, req)]) := by
  simp only [step] at hs
  split at hs
  next hg =>
    obtain ⟨-, hpool, hfresh⟩ := hg
    have hnd : (s.free_desc ++ pool).Nodup := by
      have hfree := (List.nodup_append.1 (List.nodup_append.1 hi.lists.nodup).1).1
      refine List.nodup_append'.2 ⟨hfree, hpool, ?_⟩
      exact fun p hpf hpp => (hfresh p hpp).2 (hi.lists.mem_held.2 (.inl hpf))
    have hclean : ∀ p ∈ s.free_desc, Clean (s.desc p) := fun p hp => hi.lists.clean p (List.mem_append_left _ hp)
    rcases prep_cases req hi.lists.cap_pos hclean hnd with ⟨t, taken, he, hp⟩ | ⟨t, taken, tx, he, hp, -⟩
    · rw [he] at hs
      cases hs
      rw [hp.state_eq]
      exact ⟨rfl, rfl, .inl rfl⟩
    · rw [he] at hs
      cases hs
      rw [hp.state_eq]
      exact ⟨rfl, rfl, .inr ⟨tx, rfl⟩⟩
  next => cases hs

/-- Any other step submits a transaction, or reports some. -/
theorem Moved.books (hm : Moved P s v a s' v') (hi : Inv s v) (ha : ∀ req pool, a ≠ .prep req pool) :
    (∃ tx t, tx ∈ s.prepared ∧ s'.prepared = s.prepared.erase tx ∧ s'.submitted = s.submitted ++ [t] ∧ t.req = tx.2 ∧
      s'.reports = s.reports) ∨
    s'.prepared = s.prepared ∧ s'.submitted = s.submitted ∧ s.reports <+: s'.reports := by
  cases hm with
  | prep => exact absurd rfl (ha _ _)
  | submit htail htx => exact .inl ⟨_, _, htx, rfl, rfl, rfl, rfl⟩
  | cleanup hpl hk hc hlock htimer =>
    rw [cleanupTo_state hi.lists hk]
    exact .inr ⟨rfl, rfl, List.prefix_append _ _⟩
  | _ => exact .inr ⟨rfl, rfl, List.prefix_rfl⟩

/-- The unmaps of a step are due before it, and the rest is due after it. -/
theorem Moved.due (hm : Moved P s v a s' v') (hi : Inv s v) (ha : ∀ req pool, a ≠ .prep req pool) :
    (due s).Perm ((s'.reports.drop s.reports.length).flatMap Report.unmaps ++ due s') := by
  have hb := (hm.inv hi).books
  have hlen := hi.books.reports_length
  rcases hm.books hi ha with ⟨tx, t, htx, hprep, hsub, hreq, hrep⟩ | ⟨hprep, hsub, hrep⟩
  · rw [hrep, List.drop_length, List.flatMap_nil, List.nil_append]
    unfold Ioat.due
    rw [hprep, hsub, hrep, List.drop_append_of_le_length hlen, List.flatMap_append, List.flatMap_singleton, hreq]
    have hperm := (List.perm_cons_erase htx).flatMap_right fun r : Phys × Request => r.2.unmaps
    rw [List.flatMap_cons] at hperm
    refine (hperm.append_right _).trans ?_
    rw [List.append_assoc]
    exact List.perm_append_comm.trans (.of_eq (List.append_assoc _ _ _))
  · obtain ⟨n, hn, hr, -⟩ := hi.books.reported
    obtain ⟨n', hn', hr', -⟩ := hb.reported
    have hlenR : s.reports.length = n := by rw [hr, List.length_map, List.length_take_of_le hn]
    have hlenR' : s'.reports.length = n' := by rw [hr', List.length_map, List.length_take_of_le hn']
    have hle : n ≤ n' := by rw [← hlenR, ← hlenR']; exact hrep.length_le
    have hnew : (s'.reports.drop n).flatMap Report.unmaps = ((s.submitted.take n').drop n).flatMap (·.req.unmaps) := by
      rw [hr', hsub, ← List.map_drop, List.flatMap_map]
      rfl
    have hsplit : s.submitted.drop n = (s.submitted.take n').drop n ++ s.submitted.drop n' := by
      conv_lhs => rw [← List.take_append_drop n' s.submitted]
      rw [List.drop_append_of_le_length (by rw [List.length_take_of_le (hsub ▸ hn')]; exact hle)]
    unfold Ioat.due
    rw [hprep, hsub, hlenR, hlenR', hnew, hsplit, List.flatMap_append]
    exact List.perm_append_comm_assoc _ _ _

/-! ## Runs -/

/-- No mapping is refused, that is 0, to a function that does not look. -/
def Call.Granted : Call → Prop
  | .buf_to_buf dest src _ _ | .buf_to_pg dest src _ _ | .pg_to_pg dest src _ _ => dest ≠ 0 ∧ src ≠ 0
  | .pg_to_buf _ _ _ _ | .act _ => True

instance : DecidablePred Call.Granted
  | .buf_to_buf dest src _ _ | .buf_to_pg dest src _ _ | .pg_to_pg dest src _ _ =>
    inferInstanceAs (Decidable (dest ≠ 0 ∧ src ≠ 0))
  | .pg_to_buf _ _ _ _ | .act _ => inferInstanceAs (Decidable True)

structure Balanced (m : Mapped) (v : View) : Prop where
  inv : Inv m.chan v
  maps : m.maps.Perm (due m.chan)

theorem putAll_new (new maps : List Mapping) : ∃ maps', putAll new (new ++ maps) = some maps' ∧ maps'.Perm maps :=
  putAll_perm (.refl _)

/-- A step that the channel can take can be taken with its unmaps. -/
theorem Balanced.unmapping (h : Balanced m v) (ha : ∀ req pool, a ≠ .prep req pool) (hs : step P m.chan a = some s) :
    ∃ maps v', unmapping P m a = some ⟨s, maps⟩ ∧ Balanced ⟨s, maps⟩ v' := by
  obtain ⟨v', hm⟩ := step_moved h.inv hs
  obtain ⟨maps, hput, hperm⟩ := putAll_perm (h.maps.trans (hm.due h.inv ha))
  refine ⟨maps, v', ?_, hm.inv h.inv, hperm⟩
  rw [Ioat.unmapping, hs, Option.bind_some, hput]
  rfl

theorem Balanced.mapAndPrep (h : Balanced m v) {f : MemcpyFn} (hf : f.Paired) {dest src len : Nat} {pool : List Phys}
    (hg : dest ≠ 0 ∧ src ≠ 0) (hs : mapAndPrep P m f dest src len pool = some m') : ∃ v', Balanced m' v' := by
  have hmade : f.made dest src len = [f.srcMap len src, f.destMap len dest] := by simp [MemcpyFn.made, hg]
  unfold Ioat.mapAndPrep at hs
  rw [hmade] at hs
  obtain ⟨chan, hstep, hs⟩ := Option.bind_eq_some_iff.1 hs
  obtain ⟨v', hm⟩ := step_moved h.inv hstep
  obtain ⟨hsub, hrep, hprep⟩ := step_prep h.inv hstep
  split at hs
  next hlen =>
    -- no descriptor: the function undoes the two mappings itself
    have hsame : chan.prepared = m.chan.prepared := by
      rcases hprep with hp | ⟨tx, hp⟩
      · exact hp
      · rw [hp, List.length_append] at hlen
        exact absurd hlen (by simp)
    obtain ⟨maps, hput, hperm⟩ := putAll_new [f.srcMap len src, f.destMap len dest] m.maps
    rw [hput] at hs
    cases hs
    refine ⟨v', hm.inv h.inv, hperm.trans (h.maps.trans (.of_eq ?_))⟩
    unfold due
    rw [hsame, hsub, hrep]
  next hlen =>
    cases hs
    refine ⟨v', hm.inv h.inv, ?_⟩
    -- prepared: from now on the two are due, in the order of the clean-up
    rcases hprep with hp | ⟨tx, hp⟩
    · exact absurd (congrArg List.length hp) hlen
    · unfold due
      rw [hp, hsub, hrep, List.flatMap_append, List.flatMap_singleton, hf]
      have hswap : [f.srcMap len src, f.destMap len dest].Perm [f.destMap len dest, f.srcMap len src] := .swap _ _ _
      refine (hswap.append h.maps).trans ?_
      show ([f.destMap len dest, f.srcMap len src] ++ (_ ++ _)).Perm _
      rw [List.append_assoc]
      exact List.perm_append_comm_assoc _ _ _

theorem Balanced.pg_to_buf (h : Balanced m v) {dest src len : Nat} {pool : List Phys}
    (hs : dma_async_memcpy_pg_to_buf P m dest src len pool = some m') : ∃ v', Balanced m' v' := by
  unfold dma_async_memcpy_pg_to_buf at hs
  split at hs
  · cases hs
    exact ⟨v, h⟩
  next hdest =>
    split at hs
    · obtain ⟨maps, hput, hperm⟩ := putAll_new [MemcpyFn.pg_to_buf.destMap len dest] m.maps
      dsimp only at hs
      rw [hput] at hs
      cases hs
      exact ⟨v, h.inv, hperm.trans h.maps⟩
    next hsrc => exact h.mapAndPrep MemcpyFn.pg_to_buf_paired ⟨hdest, hsrc⟩ hs

theorem Balanced.call (h : Balanced m v) {c : Call} (hg : c.Granted) (hs : call P m c = some m') : ∃ v', Balanced m' v' := by
  cases c with
  | buf_to_buf dest src len pool => exact h.mapAndPrep MemcpyFn.buf_to_buf_paired hg hs
  | buf_to_pg dest src len pool => exact h.mapAndPrep MemcpyFn.buf_to_pg_paired hg hs
  | pg_to_buf dest src len pool => exact h.pg_to_buf hs
  | pg_to_pg dest src len pool => exact h.mapAndPrep MemcpyFn.pg_to_pg_paired hg hs
  | act a =>
    have hact : (∀ req pool, a ≠ .prep req pool) ∧ Ioat.unmapping P m a = some m' := by
      cases a
      case prep => cases hs
      all_goals exact ⟨nofun, hs⟩
    obtain ⟨ha, hs⟩ := hact
    obtain ⟨s, hstep, -⟩ := Option.bind_eq_some_iff.1 hs
    obtain ⟨maps, v', hu, hb⟩ := h.unmapping ha hstep
    rw [hs] at hu
    cases hu
    exact ⟨v', hb⟩

/-- The live mappings are those due, and no step of the channel is kept from happening by an unmap of anything else. -/
theorem mappings_balance (h : Opened s₀) {cs : List Call} (hg : ∀ c ∈ cs, c.Granted)
    (hs : exec (call P) ⟨s₀, []⟩ cs = some m) : m.maps.Perm (due m.chan) ∧
      ∀ a s, (∀ req pool, a ≠ .prep req pool) → step P m.chan a = some s →
        ∃ maps, call P m (.act a) = some ⟨s, maps⟩ ∧ maps.Perm (due s) := by
  obtain ⟨p, hf⟩ := h.fresh
  have hstart : ∃ v, Balanced ⟨s₀, []⟩ v := by
    refine ⟨_, hf.inv, .of_eq ?_⟩
    rw [due, hf.submitted, hf.prepared, List.drop_nil]
    rfl
  obtain ⟨v, hb⟩ := exec_inv_along (fun m => ∃ v, Balanced m v) (fun _ _ _ ⟨_, hb⟩ hc hs => hb.call hc hs) hstart
    (along_of_mem fun _ => hg) hs
  refine ⟨hb.maps, fun a s ha hstep => ?_⟩
  obtain ⟨maps, v', hu, hb'⟩ := hb.unmapping ha hstep
  refine ⟨maps, ?_, hb'.maps⟩
  cases a
  case prep => exact absurd rfl (ha _ _)
  all_goals exact hu

def sampleCalls : List Call :=
  [.buf_to_pg 1000 2000 10 [256], .pg_to_buf 3000 0 5 [], .act (.submit (256, MemcpyFn.buf_to_pg.request 1000 2000 10) none),
    .pg_to_pg 1 2 3 []]

theorem mappings_balance_sample : ∃ m, exec (call sampleParams) ⟨sampleChan, []⟩ sampleCalls = some m ∧
    m.maps.Perm (due m.chan) ∧ ∀ a s, (∀ req pool, a ≠ .prep req pool) → step sampleParams m.chan a = some s →
      ∃ maps, call sampleParams m (.act a) = some ⟨s, maps⟩ ∧ maps.Perm (due s) := by
  obtain ⟨m, hm⟩ := Option.isSome_iff_exists.1
    (show (exec (call sampleParams) ⟨sampleChan, []⟩ sampleCalls).isSome = true from rfl)
  exact ⟨m, hm, mappings_balance sampleChan_opened (by decide) hm⟩

end Dmacftu.Ioat
