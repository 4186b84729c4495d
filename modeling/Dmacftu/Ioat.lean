import Dmacftu.DmaCopy
import Dmacftu.Lib.CInt
import Dmacftu.Lib.Runs
import Mathlib.Logic.Function.Basic
/-!
# The I/OAT channel

`drivers/dma/ioat/dma.c`, version 1 of the hardware: a channel's descriptors,
the functions that prepare, submit and clean them up, and the watchdog timer.

A descriptor is named by its bus address `phys`; 0 ends a chain. The device
walks the chain of the `next` fields by itself while the driver appends to it,
so it is a party of its own here: `Engine` says where it stands, and its steps
come in any order with the driver's. It reads a descriptor's `next` when it
fetches the descriptor and need not read it again; after the last one it looks
for more only when told with an `APPEND`. A halted channel stays halted until it
is started again.

`granted`, `submitted`, `reports` and `copies` are histories: what the channel had
from the descriptor pool, what the clients handed in, what the driver told them,
and what the device carried out.
-/
open Lib.CInt Lib.CopyEngine

namespace Dmacftu.Ioat

abbrev Phys := Nat

/-- `ctl_f` of a hardware descriptor. -/
structure Ctl where
  int_en : Bool
  compl_write : Bool
  null : Bool
  deriving DecidableEq, Repr

/-- `struct ioat_dma_descriptor`. -/
structure HwDesc where
  size : Nat
  ctl : Ctl
  src_addr : Nat
  dst_addr : Nat
  next : Phys
  tx_cnt : Nat
  deriving DecidableEq, Repr

/-- `enum dma_ctrl_flags`, as far as this driver looks at it. -/
structure DmaCtrlFlags where
  DMA_PREP_INTERRUPT : Bool
  DMA_CTRL_ACK : Bool
  DMA_COMPL_SKIP_SRC_UNMAP : Bool
  DMA_COMPL_SKIP_DEST_UNMAP : Bool
  DMA_COMPL_SRC_UNMAP_SINGLE : Bool
  DMA_COMPL_DEST_UNMAP_SINGLE : Bool
  deriving DecidableEq, Repr

/-- `struct ioat_desc_sw`, with its hardware descriptor and the fields of `txd`. -/
structure DescSw where
  hw : HwDesc
  len : Nat
  tx_list : List Phys
  cookie : Int
  flags : DmaCtrlFlags
  callback : Option Nat
  deriving DecidableEq, Repr

/-- What a client passes to `device_prep_dma_memcpy`. -/
structure Request where
  dma_dest : Nat
  dma_src : Nat
  len : Nat
  flags : DmaCtrlFlags
  deriving DecidableEq, Repr

/-- A submitted transaction, as its client knows it. -/
structure Tx where
  cookie : Int
  req : Request
  callback : Option Nat
  deriving DecidableEq, Repr

/-- What the driver does for a transaction when it is complete. -/
structure Report where
  cookie : Int
  unmaps : List Mapping
  callback : Option Nat
  deriving DecidableEq, Repr

/-- Where the device stands. -/
inductive Engine where
  | stopped
  /-- At work on `p`; `next` is what it read when it fetched it. -/
  | busy (p next : Phys)
  /-- Done with `p`, after which it found no more. -/
  | idle (p : Phys)
  deriving DecidableEq, Repr

/-- Who holds `cleanup_lock`, and what it has read under it. -/
inductive Holder where
  /-- `ioat1_cleanup`, past its preamble. -/
  | cleanup (phys_complete : Phys)
  /-- `ioat1_timer_event`, about to write the status it read to `*chan->completion`. -/
  | timer (status : Phys)
  deriving DecidableEq, Repr

/-- `struct ioat_dma_chan`, the descriptors, the device, and the histories. -/
structure State where
  xfercap : Nat
  free_desc : List Phys
  used_desc : List Phys
  pending : Int
  desccount : Nat
  active : BitVec 16
  last_completion : Phys
  completion_pending : Bool
  completion_ack : Bool
  reset_pending : Bool
  /-- The timer is armed. -/
  timer : Bool
  cookie : Int
  completed_cookie : Int
  desc : Phys → DescSw
  /-- The address in `*chan->completion`, which the device writes. -/
  completion : Phys
  /-- The address in the register `CHANSTS`: the last descriptor carried out. -/
  chansts : Phys
  engine : Engine
  /-- `APPEND` was written and the device has not looked for more since. -/
  append : Bool
  cleanup_lock : Option Holder
  /-- How many callers of `issue_pending` have seen something pending and wait for `desc_lock`. -/
  issuing : Nat
  /-- Transactions handed to clients and not submitted yet. -/
  prepared : List (Phys × Request)
  granted : List Phys
  submitted : List Tx
  reports : List Report
  copies : List Desc

/-- The headers of the driver that are not at hand: the cookie after a given one, never 0, and what becomes of the completed
cookie of a channel and the cookie of a transaction when the transaction is complete. -/
structure Params where
  dma_cookie_assign : Int → Int
  dma_cookie_complete : (completed_cookie cookie : Int) → Int × Int
  cookie_ne : ∀ c, dma_cookie_assign c ≠ 0
  cookie_complete : ∀ completed_cookie cookie, cookie ≠ 0 → dma_cookie_complete completed_cookie cookie = (cookie, 0)
  ioat_pending_level : Int

def INT_MIN : Int := -2 ^ 31

def NULL_DESC_BUFFER_SIZE : Nat := 1

/-- `XFERCAP`, a scale of five bits, expanded by `ioat1_enumerate_channels`. -/
def expandXfercap (xfercap_scale : Nat) : Nat :=
  let xfercap_scale := xfercap_scale % 32
  if xfercap_scale = 0 then 2 ^ 32 - 1 else 2 ^ xfercap_scale

def noFlags : DmaCtrlFlags := ⟨false, false, false, false, false, false⟩

/-- A descriptor as `ioat_dma_alloc_descriptor` leaves it. -/
def zeroed : DescSw := ⟨⟨0, ⟨false, false, false⟩, 0, 0, 0, 0⟩, 0, [], 0, noFlags, none⟩

namespace State

def setDesc (s : State) (p : Phys) (d : DescSw) : State := { s with desc := Function.update s.desc p d }

def setHw (s : State) (p : Phys) (hw : HwDesc) : State := s.setDesc p { s.desc p with hw := hw }

/-- `async_tx_ack`. -/
def async_tx_ack (s : State) (p : Phys) : State :=
  s.setDesc p { s.desc p with flags := { (s.desc p).flags with DMA_CTRL_ACK := true } }

/-- The descriptors the channel has from the pool. -/
def held (s : State) : List Phys :=
  s.free_desc ++ s.used_desc ++ s.prepared.flatMap fun r => (s.desc r.1).tx_list

/-- The device fetches the descriptor at `p`. -/
def fetch (s : State) (p : Phys) : State := { s with engine := .busy p (s.desc p).hw.next }

end State

/-! ## Descriptors -/

def ioat_dma_alloc_descriptor (s : State) (p : Phys) : State := { s.setDesc p zeroed with granted := s.granted ++ [p] }

/-- The next free descriptor, or one of those that the pool grants in turn. -/
def ioat1_dma_get_next_descriptor (s : State) (pool : List Phys) : Option Phys × State × List Phys :=
  match s.free_desc, pool with
  | new :: free_desc, pool => (some new, { s with free_desc := free_desc }, pool)
  | [], new :: pool => (some new, ioat_dma_alloc_descriptor s new, pool)
  | [], [] => (none, s, [])

/-- The variables of the loop of `ioat1_dma_prep_memcpy`. -/
structure PrepLoop where
  desc : Option Phys
  chain : List Phys
  len : Nat
  dest : Nat
  src : Nat
  tx_cnt : Nat
  state : State
  pool : List Phys

/-- One pass for the descriptor `desc`, the choice of the next one included. -/
def prepPass (v : PrepLoop) (desc : Phys) : PrepLoop :=
  let copy := min v.len v.state.xfercap
  let hw := { (v.state.desc desc).hw with
    size := copy, ctl := ⟨false, false, false⟩, src_addr := v.src, dst_addr := v.dest }
  let v := { v with
    tx_cnt := v.tx_cnt + 1, chain := v.chain ++ [desc], len := v.len - copy, dest := v.dest + copy, src := v.src + copy }
  if v.len ≠ 0 then
    let (next, state, pool) := ioat1_dma_get_next_descriptor ((v.state.setHw desc hw).async_tx_ack desc) v.pool
    { v with
      desc := next
      state := state.setHw desc { (state.desc desc).hw with next := next.getD 0 }
      pool := pool }
  else { v with desc := some desc, state := v.state.setHw desc { hw with next := 0 } }

def prepLoop : Nat → PrepLoop → PrepLoop
  | 0, v => v
  | fuel + 1, v => match v.desc with
    | none => v
    | some desc =>
      let v := prepPass v desc
      if v.len ≠ 0 then prepLoop fuel v else v

/-- The last descriptor of the chain is the transaction's. -/
def prepLast (req : Request) (v : PrepLoop) (d : DescSw) : DescSw :=
  { d with
    flags := req.flags
    len := req.len
    tx_list := v.chain ++ d.tx_list
    hw := { d.hw with ctl := ⟨req.flags.DMA_PREP_INTERRUPT, true, false⟩, tx_cnt := v.tx_cnt } }

/-- The transaction prepared, if there were descriptors enough. -/
def ioat1_dma_prep_memcpy (s : State) (req : Request) (pool : List Phys) : State × Option Phys :=
  let (desc, s, pool) := ioat1_dma_get_next_descriptor s pool
  let v := prepLoop (req.len + 1) ⟨desc, [], req.len, req.dma_dest, req.dma_src, 0, s, pool⟩
  match v.desc with
  | none => ({ v.state with free_desc := v.chain ++ v.state.free_desc }, none)
  | some desc => (v.state.setDesc desc (prepLast req v (v.state.desc desc)), some desc)

/-! ## Submission -/

/-- `__ioat1_dma_memcpy_issue_pending`. -/
def issue (s : State) : State := { s with pending := 0, append := true }

/-- `ioat1_dma_memcpy_issue_pending` looks at `pending` before it takes `desc_lock`. -/
def ioat1_dma_memcpy_issue_pending (s : State) : State :=
  if s.pending > 0 then { s with issuing := s.issuing + 1 } else s

/-- `chain_tail->hw->next = first->txd.phys`, of the last descriptor on `used_desc`. -/
def link (s : State) (first : Phys) : State :=
  match s.used_desc.getLast? with
  | none => s
  | some chain_tail => s.setHw chain_tail { (s.desc chain_tail).hw with next := first }

def ioat1_tx_submit (P : Params) (s : State) (desc : Phys) : State × Int :=
  let cookie := P.dma_cookie_assign s.cookie
  let s := { s.setDesc desc { s.desc desc with cookie := cookie } with cookie := cookie }
  let tx_list := (s.desc desc).tx_list
  let s := link s (tx_list.headD 0)
  let s := { s.setDesc desc { s.desc desc with tx_list := [] } with used_desc := s.used_desc ++ tx_list }
  let s := if s.completion_pending then s else { s with completion_pending := true, timer := true }
  let tx_cnt := (s.desc desc).hw.tx_cnt
  let s := { s with active := s.active + BitVec.ofNat 16 tx_cnt, pending := s32 (s.pending + tx_cnt) }
  (if s.pending ≥ P.ioat_pending_level then issue s else s, cookie)

/-! ## Clean-up -/

def ioat_unmap (addr len : Nat) (dir : DmaDirection) (single : Bool) : Mapping :=
  ⟨if single then .single else .page, addr, len, dir⟩

def ioat_dma_unmap (flags : DmaCtrlFlags) (len : Nat) (hw : HwDesc) : List Mapping :=
  let offset := len - hw.size
  (if flags.DMA_COMPL_SKIP_DEST_UNMAP then []
    else [ioat_unmap (hw.dst_addr - offset) len .DMA_FROM_DEVICE flags.DMA_COMPL_DEST_UNMAP_SINGLE]) ++
  (if flags.DMA_COMPL_SKIP_SRC_UNMAP then []
    else [ioat_unmap (hw.src_addr - offset) len .DMA_TO_DEVICE flags.DMA_COMPL_SRC_UNMAP_SINGLE])

/-- What the driver tells the owner of a descriptor with a cookie. -/
def DescSw.report (d : DescSw) : Report := ⟨d.cookie, ioat_dma_unmap d.flags d.len d.hw, d.callback⟩

/-- What `__cleanup` does with a descriptor that has a cookie. -/
def complete (P : Params) (s : State) (p : Phys) : State :=
  let d := s.desc p
  let (completed_cookie, cookie) := P.dma_cookie_complete s.completed_cookie d.cookie
  { s.setDesc p { d with cookie := cookie, callback := none } with
    completed_cookie := completed_cookie
    active := s.active - BitVec.ofNat 16 d.hw.tx_cnt
    reports := s.reports ++ [d.report] }

def list_move_tail (s : State) (p : Phys) : State :=
  { s with used_desc := s.used_desc.erase p, free_desc := s.free_desc ++ [p] }

/-- The loop of `__cleanup` over what is left of `used_desc`. -/
def cleanupLoop (P : Params) (phys_complete : Phys) : List Phys → State → State
  | [], s => s
  | p :: n, s =>
    let s := if (s.desc p).cookie ≠ 0 then complete P s p else s
    if p ≠ phys_complete then
      cleanupLoop P phys_complete n (if (s.desc p).flags.DMA_CTRL_ACK then list_move_tail s p else s)
    -- last used desc: it stays, to be appended to
    else if n = [] then { s with completion_pending := false } else s

/-- `__cleanup`. -/
def cleanupTo (P : Params) (s : State) (phys_complete : Phys) : State :=
  { cleanupLoop P phys_complete s.used_desc s with last_completion := phys_complete }

/-- `ioat_cleanup_preamble`, where there is progress. -/
def preamble (s : State) : State := { s with completion_ack := false, timer := true }

/-- `ioat1_cleanup`, with nobody contending for the locks. -/
def ioat1_cleanup (P : Params) (s : State) : State :=
  if s.completion = s.last_completion then s else cleanupTo P (preamble s) s.completion

def ioat1_reset_channel (s : State) : State :=
  { s with pending := INT_MIN, engine := .stopped, reset_pending := true, timer := true }

/-- Start the device at the tail of `used_desc`. -/
def restart (s : State) : State :=
  let s := match s.used_desc.getLast? with
    | none => s
    | some desc => s.fetch desc
  { s with pending := 0, completion_pending := true, timer := true }

def ioat1_timer_event (P : Params) (s : State) : State :=
  if s.reset_pending then restart { s with reset_pending := false }
  else if s.completion_pending then
    if s.completion ≠ s.last_completion then cleanupTo P (preamble s) s.completion
    else if s.completion_ack then ioat1_reset_channel s
    else if s.chansts ≠ 0 then { s with cleanup_lock := some (.timer s.chansts) }
    else { s with completion_ack := true, timer := true }
  else s

/-! ## The device -/

/-- The copy a descriptor stands for. -/
def HwDesc.copy (hw : HwDesc) : List Desc := if hw.ctl.null then [] else [⟨hw.dst_addr, hw.src_addr, hw.size⟩]

/-- The device carries out `p` and goes on to the next one. It has an error for a size of 0. -/
def finish (s : State) (reread : Bool) : Option State :=
  match s.engine with
  | .busy p next =>
    let hw := (s.desc p).hw
    if hw.size = 0 then none
    else
      let s := { s with
        copies := s.copies ++ hw.copy
        chansts := p
        completion := if hw.ctl.compl_write then p else s.completion }
      let next := if next = 0 ∧ reread then hw.next else next
      some (if next = 0 then { s with engine := .idle p } else s.fetch next)
  | _ => none

/-- The device was told to append and looks for more. -/
def lookForMore (s : State) : Option State :=
  match s.engine, s.append with
  | .idle p, true =>
    let s := { s with append := false }
    some (if (s.desc p).hw.next = 0 then s else s.fetch (s.desc p).hw.next)
  | _, _ => none

/-- The device meets an error: it stops, and the completion status is written. -/
def halt (s : State) : Option State :=
  match s.engine with
  | .busy _ _ => some { s with engine := .stopped, completion := s.chansts }
  | _ => none

/-! ## Steps -/

inductive Act where
  /-- `device_prep_dma_memcpy`; `pool` is what the descriptor pool would grant. -/
  | prep (req : Request) (pool : List Phys)
  /-- The client sets `callback` and submits. -/
  | submit (tx : Phys × Request) (callback : Option Nat)
  /-- The client is done with the descriptor. -/
  | ack (p : Phys)
  | issue_pending
  /-- A caller of `issue_pending` gets `desc_lock`. -/
  | issue
  | cleanup_begin
  /-- `ioat1_cleanup` goes on, if it gets `desc_lock`. -/
  | cleanup_end (desc_lock : Bool)
  | timer
  | timer_write
  | finish (reread : Bool)
  | lookForMore
  | halt
  deriving DecidableEq, Repr

/-- `desc_lock` is free: the timer keeps it while it reads and writes the status. -/
def descLockFree (s : State) : Bool :=
  match s.cleanup_lock with
  | some (.timer _) => false
  | _ => true

def step (P : Params) (s : State) : Act → Option State
  | .prep req pool =>
    if descLockFree s ∧ pool.Nodup ∧ ∀ p ∈ pool, p ≠ 0 ∧ p ∉ s.held then
      match ioat1_dma_prep_memcpy s req pool with
      | (s, none) => some s
      | (s, some tx) => some { s with prepared := s.prepared ++ [(tx, req)] }
    else none
  | .submit tx callback =>
    if descLockFree s ∧ tx ∈ s.prepared then
      let s := s.setDesc tx.1 { s.desc tx.1 with callback := callback }
      let (s, cookie) := ioat1_tx_submit P s tx.1
      some { s with prepared := s.prepared.erase tx, submitted := s.submitted ++ [⟨cookie, tx.2, callback⟩] }
    else none
  | .ack p => if p ∈ s.used_desc ∨ p ∈ s.prepared.map Prod.fst then some (s.async_tx_ack p) else none
  | .issue_pending => some (ioat1_dma_memcpy_issue_pending s)
  | .issue =>
    if descLockFree s ∧ 0 < s.issuing then some { issue s with issuing := s.issuing - 1 } else none
  | .cleanup_begin =>
    if s.cleanup_lock = none then
      some (if s.completion = s.last_completion then s
        else { preamble s with cleanup_lock := some (.cleanup s.completion) })
    else none
  | .cleanup_end desc_lock => match s.cleanup_lock with
    | some (.cleanup phys_complete) =>
      some { (if desc_lock then cleanupTo P s phys_complete else s) with cleanup_lock := none }
    | _ => none
  | .timer => if s.timer ∧ s.cleanup_lock = none then some (ioat1_timer_event P { s with timer := false }) else none
  | .timer_write => match s.cleanup_lock with
    | some (.timer status) =>
      some { s with completion := status, completion_ack := true, timer := true, cleanup_lock := none }
    | _ => none
  | .finish reread => finish s reread
  | .lookForMore => lookForMore s
  | .halt => halt s

/-! ## Setting up and tearing down -/

/-- Up to `n` descriptors for the list, the first of them first. -/
def allocInitial : Nat → List Phys → State → State × List Phys
  | n + 1, p :: pool, s =>
    let (s, ps) := allocInitial n pool (ioat_dma_alloc_descriptor s p)
    (s, p :: ps)
  | _, _, s => (s, [])

/-- The null descriptor, which the device is started with. -/
def ioat1_dma_start_null_desc (s : State) (pool : List Phys) : State :=
  match ioat1_dma_get_next_descriptor s pool with
  | (none, s, _) => s
  | (some desc, s, _) =>
    let s := s.setHw desc { (s.desc desc).hw with
      ctl := ⟨true, true, true⟩, size := NULL_DESC_BUFFER_SIZE, src_addr := 0, dst_addr := 0, next := 0 }
    let s := s.async_tx_ack desc
    { s with used_desc := s.used_desc ++ [desc] }.fetch desc

def ioat1_dma_alloc_chan_resources (ioat_initial_desc_count : Nat) (s : State) (pool extra : List Phys) : State × Nat :=
  if s.free_desc ≠ [] then (s, s.desccount)
  else
    let (s, tmp_list) := allocInitial ioat_initial_desc_count pool s
    let s := { s with desccount := tmp_list.length % 2 ^ 16, free_desc := tmp_list ++ s.free_desc, completion := 0 }
    let s := ioat1_dma_start_null_desc s extra
    (s, s.desccount)

/-- The state afterwards, and the descriptors returned to the pool. -/
def ioat1_dma_free_chan_resources (P : Params) (s : State) : State × List Phys :=
  if s.desccount = 0 then (s, [])
  else
    let s := ioat1_cleanup P { s with timer := false }
    ({ s with
      engine := .stopped, used_desc := [], free_desc := [], last_completion := 0, pending := 0, desccount := 0 },
      s.used_desc ++ s.free_desc)

/-- A channel as `ioat1_enumerate_channels` leaves it; `cookie` is what `dma_cookie_init` sets. -/
def enumerated (xfercap_scale : Nat) (cookie : Int) : State where
  xfercap := expandXfercap xfercap_scale
  free_desc := []
  used_desc := []
  pending := 0
  desccount := 0
  active := 0
  last_completion := 0
  completion_pending := false
  completion_ack := false
  reset_pending := false
  timer := false
  cookie := cookie
  completed_cookie := cookie
  desc _ := zeroed
  completion := 0
  chansts := 0
  engine := .stopped
  append := false
  cleanup_lock := none
  issuing := 0
  prepared := []
  granted := []
  submitted := []
  reports := []
  copies := []

end Dmacftu.Ioat
