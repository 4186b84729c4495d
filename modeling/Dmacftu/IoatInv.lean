import Dmacftu.IoatPrep
import Dmacftu.Lib.Script
import Mathlib.Data.BitVec
/-!
# The channel's invariant

A `View` divides what happened on a channel: `settled` are the descriptors on
`used_desc` that were cleaned up, the last of them being `last_completion`, and
`rest` are those that were not; `past` is what cleaning up has gone through, each
descriptor's copy and, for the last one of a transaction, what its client was
told. `past` and what `rest` still stands for make up the script of everything
submitted.

`Lists` says where each descriptor is, `Books` ties the lists to the histories,
and `Placed` says where the device and the addresses it reports stand among the
descriptors: never before the last one cleaned up, never past the device.
-/
open Lib.CopyEngine Lib.Links Lib.Script

namespace Dmacftu.Ioat

/-- What a transaction's last descriptor leads to: the report, and its share of `active`. -/
abbrev Notice := Report × Nat

structure View where
  settled : List Phys
  rest : List Phys
  past : List (Desc ⊕ Notice)

/-- What the device and the clean-up make of a descriptor. -/
def DescSw.outs (d : DescSw) : List (Desc ⊕ Notice) :=
  d.hw.copy.map .inl ++ if d.cookie ≠ 0 then [.inr (d.report, d.hw.tx_cnt)] else []

/-- What the client of a transaction is to be told. -/
def Tx.report (t : Tx) : Report := ⟨t.cookie, t.req.unmaps, t.callback⟩

def Tx.notice (xfercap : Nat) (t : Tx) : Notice := (t.report, t.req.count xfercap)

/-- Everything that is to come of the transactions. -/
def plan (xfercap : Nat) (txs : List Tx) : List (Desc ⊕ Notice) :=
  script (fun t => t.req.chunks xfercap) (Tx.notice xfercap) txs

/-! ## The invariant -/

structure Lists (s : State) (v : View) : Prop where
  cap_pos : 0 < s.xfercap
  used : s.used_desc = v.settled ++ v.rest
  last : v.settled.getLast?.getD 0 = s.last_completion
  started : v.settled = [] → v.rest ≠ []
  nodup : s.held.Nodup
  nonzero : 0 ∉ s.held
  clean : ∀ p ∈ s.free_desc ++ v.settled, Clean (s.desc p)
  tx_list : ∀ p ∈ v.rest, (s.desc p).tx_list = []
  ready : ∀ r ∈ s.prepared, Ready s.xfercap s.desc r
  linked : Linked s.next (v.settled.getLast?.toList ++ v.rest) 0
  compl_write : ∀ tail, s.used_desc.getLast? = some tail → (s.desc tail).hw.ctl.compl_write = true

structure Books (s : State) (v : View) : Prop where
  script : v.past ++ v.rest.flatMap (fun p => (s.desc p).outs) = plan s.xfercap s.submitted
  reports : s.reports = (noticed v.past).map Prod.fst
  active : s.active + BitVec.ofNat 16 ((noticed v.past).map Prod.snd).sum
    = BitVec.ofNat 16 (s.submitted.map fun t => t.req.count s.xfercap).sum

/-- The last descriptor cleaned up, 0 before the first, and those after it. -/
def line (s : State) (v : View) : List Phys := s.last_completion :: v.rest

/-- The device is at a descriptor of the line, at place `x` or later, and has read its `next` right. -/
def EngineAt (places : List Phys) (x : Nat) : Engine → Prop
  | .stopped => True
  | .busy p next => ∃ j, x ≤ j ∧ places[j]? = some p ∧ p ≠ 0 ∧ (next = 0 ∨ places[j + 1]? = some next)
  | .idle p => ∃ j, x ≤ j ∧ places[j]? = some p ∧ p ≠ 0

/-- What was read under `cleanup_lock` is on the line, not past `c` or `x`. -/
def HolderAt (places : List Phys) (c x : Nat) : Option Holder → Prop
  | none => True
  | some (.cleanup p) => ∃ k, 0 < k ∧ k ≤ c ∧ places[k]? = some p
  | some (.timer status) => ∃ k, k ≤ x ∧ places[k]? = some status

/-- `completion` is at place `c` of the line and `chansts` at place `x`. -/
structure PlacedAt (s : State) (v : View) (c x : Nat) : Prop where
  completion : (line s v)[c]? = some s.completion
  chansts : (line s v)[x]? = some s.chansts
  le : c ≤ x
  engine : EngineAt (line s v) x s.engine
  holder : HolderAt (line s v) c x s.cleanup_lock

def Placed (s : State) (v : View) : Prop := ∃ c x, PlacedAt s v c x

structure Inv (s : State) (v : View) : Prop where
  lists : Lists s v
  books : Books s v
  placed : Placed s v

/-! ## What a descriptor stands for -/

/-- The same descriptor, apart from `DMA_CTRL_ACK`. -/
def Alike (d d' : DescSw) : Prop := ∃ ack, d' = { d with flags := { d.flags with DMA_CTRL_ACK := ack } }

variable {d d' : DescSw} {s s' : State} {v : View}

theorem Alike.refl (d : DescSw) : Alike d d := ⟨d.flags.DMA_CTRL_ACK, rfl⟩

theorem Alike.of_eq (h : d' = d) : Alike d d' := h ▸ Alike.refl d

theorem Alike.hw (h : Alike d d') : d'.hw = d.hw := by obtain ⟨ack, rfl⟩ := h; rfl

theorem Alike.tx_list (h : Alike d d') : d'.tx_list = d.tx_list := by obtain ⟨ack, rfl⟩ := h; rfl

theorem Alike.cookie (h : Alike d d') : d'.cookie = d.cookie := by obtain ⟨ack, rfl⟩ := h; rfl

theorem Alike.outs (h : Alike d d') : d'.outs = d.outs := by obtain ⟨ack, rfl⟩ := h; rfl

theorem Alike.unmaps (h : Alike d d') : ioat_dma_unmap d'.flags d'.len d'.hw = ioat_dma_unmap d.flags d.len d.hw := by
  obtain ⟨ack, rfl⟩ := h; rfl

theorem Alike.clean (h : Alike d d') (hc : Clean d) : Clean d' := ⟨h.cookie.trans hc.cookie, h.tx_list.trans hc.tx_list⟩

theorem alike_ack (s : State) (p q : Phys) : Alike (s.desc q) ((s.async_tx_ack p).desc q) := by
  by_cases h : q = p
  · rw [h, async_tx_ack_desc_self]
    exact ⟨true, rfl⟩
  · exact .of_eq (async_tx_ack_desc_of_ne h s)

theorem Ready.congr {cap : Nat} {desc desc' : Phys → DescSw} {r : Phys × Request} (h : Ready cap desc r)
    (hd : ∀ p ∈ (desc r.1).tx_list, Alike (desc p) (desc' p)) : Ready cap desc' r := by
  have hself := hd r.1 (List.mem_of_getLast? h.last)
  have hlist := hself.tx_list
  refine ⟨?_, ?_, ?_, ?_, ?_, ?_, ?_, ?_, ?_⟩
  · rw [hlist]; exact h.last
  · intro i p hp
    rw [hlist] at hp
    rw [(hd p (List.mem_of_getElem? hp)).hw]
    exact h.cells i p hp
  · rw [hlist]; exact h.count
  · rw [hlist]
    exact h.linked.congr fun p hp => by rw [(hd p hp).hw]
  · intro p hp
    rw [hlist] at hp
    rw [(hd p hp).cookie]
    exact h.cookie p hp
  · intro p hp hne
    rw [hlist] at hp
    rw [(hd p hp).tx_list]
    exact h.inner p hp hne
  · rw [hself.unmaps]; exact h.unmaps
  · rw [hself.hw]; exact h.tx_cnt
  · rw [hself.hw]; exact h.compl_write

theorem Ready.copies {cap : Nat} {desc : Phys → DescSw} {r : Phys × Request} (h : Ready cap desc r) :
    (desc r.1).tx_list.flatMap (fun p => (desc p).hw.copy) = r.2.chunks cap := by
  have hmap : (desc r.1).tx_list.map (fun p => (desc p).hw.copy)
      = (List.range (r.2.count cap)).map (fun i => [r.2.chunk cap i]) := by
    apply List.ext_getElem?
    intro i
    rw [List.getElem?_map, List.getElem?_map]
    rcases Nat.lt_or_ge i (r.2.count cap) with hi | hi
    · obtain ⟨p, hp⟩ : ∃ p, (desc r.1).tx_list[i]? = some p := ⟨_, List.getElem?_eq_getElem (by rw [h.count]; exact hi)⟩
      rw [hp, List.getElem?_range hi, Option.map_some, Option.map_some, h.cells i p hp]
    · rw [List.getElem?_eq_none (by rw [h.count]; exact hi), List.getElem?_eq_none (by simpa using hi)]
      rfl
  rw [List.flatMap_def, hmap, ← List.flatMap_def, Request.chunks, List.map_eq_flatMap]

/-- What the chain of a submitted transaction is in the script. -/
theorem Ready.outs {cap : Nat} {desc desc' : Phys → DescSw} {r : Phys × Request} {t : Tx} (h : Ready cap desc r)
    (hnd : (desc r.1).tx_list.Nodup) (ht : t.req = r.2) (hne : t.cookie ≠ 0)
    (hcopy : ∀ p, (desc' p).hw.copy = (desc p).hw.copy) (hinner : ∀ p ≠ r.1, (desc' p).cookie = (desc p).cookie)
    (hcnt : (desc' r.1).hw.tx_cnt = (desc r.1).hw.tx_cnt) (hreport : (desc' r.1).report = t.report) :
    (desc r.1).tx_list.flatMap (fun p => (desc' p).outs) = block (fun t => t.req.chunks cap) (Tx.notice cap) t := by
  have hcopies := h.copies
  have hcookies := h.cookie
  obtain ⟨front, hfront⟩ : ∃ front, (desc r.1).tx_list = front ++ [r.1] := by
    obtain ⟨front, hf⟩ := List.getLast?_eq_some_iff.1 h.last
    exact ⟨front, hf⟩
  rw [hfront] at hnd hcookies hcopies ⊢
  have hr : r.1 ∉ front := fun hm => (List.disjoint_of_nodup_append hnd) hm List.mem_cons_self
  have hfrontOuts : front.flatMap (fun p => (desc' p).outs) = (front.flatMap fun p => (desc p).hw.copy).map .inl := by
    rw [List.map_flatMap]
    apply List.flatMap_congr
    intro p hp
    have hcookie : (desc' p).cookie = 0 := by
      rw [hinner p fun hpr => hr (hpr ▸ hp)]
      exact hcookies p (List.mem_append_left _ hp)
    rw [DescSw.outs, hcookie, hcopy]
    simp
  have hlast : (desc' r.1).outs = (desc r.1).hw.copy.map .inl ++ [.inr (t.notice cap)] := by
    have hc : (desc' r.1).cookie ≠ 0 := by
      have : (desc' r.1).cookie = t.cookie := congrArg Report.cookie hreport
      rw [this]
      exact hne
    rw [DescSw.outs, if_pos hc, hcopy, hreport, hcnt, h.tx_cnt, Tx.notice, ht]
  rw [List.flatMap_append, List.flatMap_singleton, hfrontOuts, hlast, block, ht, ← hcopies, List.flatMap_append,
    List.flatMap_singleton, List.map_append, List.append_assoc]

end Dmacftu.Ioat
