import Dmacftu.Lib.CInt
import Mathlib.Algebra.Ring.Nat
import Mathlib.Data.List.Nodup
import Mathlib.Data.List.Perm.Subperm
import Mathlib.Logic.Function.Basic
/-!
# Channels, clients and the lookup table

`drivers/dma/dmaengine.c`: who may use a channel is kept in three places that
never look at each other. `client_count` counts a channel's clients,
`privatecnt` and the `DMA_PRIVATE` bit say whether a device serves
`dma_request_channel` or the public allocator, and `channel_table` holds the
channel each CPU finds for an operation. The table is rebuilt only when
`dmaengine_ref_count` becomes 1 and keeps its entries after the last put.

A channel's resources are allocated with its first client and freed with its
last, so a channel whose `client_count` is 0 is one nobody may use.

`client_count` is an `int`, `dmaengine_ref_count` a `long`: from `2 ^ 31` public
clients on a channel's count is no longer theirs, and `balance_ref_count`, which
raises the one until it meets the other, does not end.
-/
open Lib.CInt

namespace Dmacftu.Dmaengine

abbrev Dev := Nat
abbrev Chan := Nat
abbrev Cpu := Nat

/-- `enum dma_transaction_type`. -/
inductive TxType where
  | DMA_MEMCPY
  | DMA_XOR
  | DMA_PQ
  | DMA_XOR_VAL
  | DMA_PQ_VAL
  | DMA_MEMSET
  | DMA_INTERRUPT
  | DMA_SG
  | DMA_PRIVATE
  | DMA_ASYNC_TX
  | DMA_SLAVE
  | DMA_CYCLIC
  | DMA_INTERLEAVE
deriving DecidableEq, Repr

open TxType

/-- The operations that have a row in `channel_table`. -/
def dma_cap_mask_all : List TxType :=
  [DMA_MEMCPY, DMA_XOR, DMA_PQ, DMA_XOR_VAL, DMA_PQ_VAL, DMA_MEMSET, DMA_SG, DMA_ASYNC_TX, DMA_CYCLIC, DMA_INTERLEAVE]

def ENODEV : Int := 19

/-- The machine: its devices with their channels, its CPUs, and how the owner
module and the driver answer the `n`-th `dma_chan_get`. -/
structure Board where
  channels : Dev → List Chan
  device : Chan → Dev
  channels_nodup : ∀ d, (channels d).Nodup
  /-- `chan_id` is an `int`. -/
  channels_length : ∀ d, (channels d).length < 2 ^ 31
  device_of_mem : ∀ d, ∀ c ∈ channels d, device c = d
  /-- The capabilities a device is registered with, `DMA_PRIVATE` apart. -/
  cap_mask : Dev → TxType → Bool
  /-- Registered with `DMA_PRIVATE` set. -/
  always_private : Dev → Bool
  copy_align : Dev → Nat
  possible : List Cpu
  present : List Cpu
  online : List Cpu
  try_module_get : Nat → Chan → Bool
  device_alloc_chan_resources : Nat → Chan → Int

structure State where
  dma_device_list : List Dev
  /-- An `int`, as `table_count` is. -/
  client_count : Chan → Int
  table_count : Chan → Int
  /-- The `DMA_PRIVATE` bit of a device's `cap_mask`. -/
  dma_private : Dev → Bool
  privatecnt : Dev → Nat
  dmaengine_ref_count : Int
  copy_dmaengine_ref_count : Int
  channel_table : TxType → Cpu → Option Chan
  /-- A call is in a `balance_ref_count` that does not end, and never comes back. -/
  stuck : Bool
  /-- The calls of `dma_chan_get` so far. -/
  calls : Nat

def setCount (s : State) (chan : Chan) (n : Int) : State :=
  { s with client_count := Function.update s.client_count chan n }

def list_del_rcu (s : State) (d : Dev) : State := { s with dma_device_list := s.dma_device_list.erase d }

/-- `per_cpu_ptr(channel_table[cap], cpu)->chan = chan`. -/
def setEntry (s : State) (cap : TxType) (cpu : Cpu) (chan : Option Chan) : State :=
  { s with channel_table := fun cap' cpu' => if cap' = cap ∧ cpu' = cpu then chan else s.channel_table cap' cpu' }

variable (b : Board)

def dma_has_cap (s : State) (cap : TxType) (d : Dev) : Bool :=
  if cap = DMA_PRIVATE then s.dma_private d else b.cap_mask d cap

def dma_device_satisfies_mask (s : State) (d : Dev) (want : List TxType) : Bool :=
  want.all (dma_has_cap b s · d)

def dmaengine_check_align (align off1 off2 len : Nat) : Bool :=
  align = 0 || (2 ^ align - 1) &&& (off1 ||| off2 ||| len) = 0

def is_dma_copy_aligned (d : Dev) (off1 off2 len : Nat) : Bool :=
  dmaengine_check_align (b.copy_align d) off1 off2 len

/-! ## References to a channel -/

/-- The loop raises `client_count` by one until it meets `dmaengine_ref_count`. -/
def balance_ref_count (s : State) (chan : Chan) : State :=
  if s.dmaengine_ref_count < 2 ^ 31 then setCount s chan (max (s.client_count chan) s.dmaengine_ref_count)
  -- no `int` gets there
  else { s with stuck := true }

def dma_chan_get (chan : Chan) (s : State) : State × Int :=
  let n := s.calls
  let err := if s.client_count chan ≠ 0 then 0 else if b.try_module_get n chan then 0 else -ENODEV
  let s := { s with calls := n + 1 }
  let s := if err = 0 then setCount s chan (s32 (s.client_count chan + 1)) else s
  -- allocate upon first client reference
  if s.client_count chan = 1 ∧ err = 0 then
    let desc_cnt := b.device_alloc_chan_resources n chan
    if desc_cnt < 0 then (setCount s chan 0, desc_cnt)
    else if !dma_has_cap b s DMA_PRIVATE (b.device chan) then (balance_ref_count s chan, err)
    else (s, err)
  else (s, err)

def dma_chan_put (s : State) (chan : Chan) : State :=
  if s.client_count chan = 0 then s else setCount s chan (s32 (s.client_count chan - 1))

/-! ## The lookup table -/

/-- The variables of `nth_chan`'s loops; once `ret` is set they are left. -/
structure Scan where
  n : Int
  min : Option Chan
  ret : Option Chan

def scanChan (s : State) (v : Scan) (chan : Chan) : Scan :=
  if v.ret.isSome then v
  else if s.client_count chan = 0 then v
  else
    let min := match v.min with
      | none => chan
      | some min => if s.table_count chan < s.table_count min then chan else min
    { n := s32 (v.n - 1), min := some min, ret := if v.n = 0 then some chan else none }

def scanDevice (s : State) (cap : TxType) (v : Scan) (d : Dev) : Scan :=
  if v.ret.isSome then v
  else if !dma_has_cap b s cap d || dma_has_cap b s DMA_PRIVATE d then v
  else (b.channels d).foldl (scanChan s) v

def nth_chan (cap : TxType) (n : Int) (s : State) : State × Option Chan :=
  let v := s.dma_device_list.foldl (scanDevice b s cap) ⟨n, none, none⟩
  match v.ret.or v.min with
  | none => (s, none)
  | some ret => ({ s with table_count := Function.update s.table_count ret (s32 (s.table_count ret + 1)) }, some ret)

/-- One turn of the redistribution, for one entry of the table. -/
def redistribute (sn : State × Int) (e : TxType × Cpu) : State × Int :=
  let (s, n) := sn
  if 1 < b.possible.length then
    let (s, chan) := nth_chan b e.1 n s
    (setEntry s e.1 e.2 chan, s32 (n + 1))
  else
    let (s, chan) := nth_chan b e.1 (-1) s
    (setEntry s e.1 e.2 chan, n)

/-- Undo the last distribution. -/
def undistribute (s : State) : State :=
  { s with
    channel_table := fun cap cpu =>
      if cap ∈ dma_cap_mask_all ∧ cpu ∈ b.possible then none else s.channel_table cap cpu
    table_count := fun chan =>
      if ∃ d ∈ s.dma_device_list, dma_has_cap b s DMA_PRIVATE d = false ∧ chan ∈ b.channels d then 0
      else s.table_count chan }

def dma_channel_rebalance (s : State) : State :=
  let s := undistribute b s
  if s.dmaengine_ref_count = 0 then s
  else ((dma_cap_mask_all.flatMap fun cap => b.online.map (cap, ·)).foldl (redistribute b) (s, 0)).1

/-! ## Public clients -/

/-- The channels of a device, up to one whose module is gone. -/
def getChans (d : Dev) : List Chan → State → State
  | [], s => s
  | chan :: chans, s =>
    let (s, err) := dma_chan_get b chan s
    if err = -ENODEV then list_del_rcu s d else getChans d chans s

def getDevice (s : State) (d : Dev) : State :=
  if dma_has_cap b s DMA_PRIVATE d then s else getChans b d (b.channels d) s

def dmaengine_get (s : State) : State :=
  let s := { s with dmaengine_ref_count := s.dmaengine_ref_count + 1 }
  let s := s.dma_device_list.foldl (getDevice b) s
  if s.dmaengine_ref_count = 1 then dma_channel_rebalance b s else s

def putDevice (s : State) (d : Dev) : State :=
  if dma_has_cap b s DMA_PRIVATE d then s else (b.channels d).foldl dma_chan_put s

def dmaengine_put (s : State) : State :=
  let s := { s with dmaengine_ref_count := s.dmaengine_ref_count - 1 }
  s.dma_device_list.foldl (putDevice b) s

def copy_dmaengine_get (s : State) : State :=
  let s := dmaengine_get b s
  { s with copy_dmaengine_ref_count := s.copy_dmaengine_ref_count + 1 }

def copy_dmaengine_put (s : State) : State :=
  let s := dmaengine_put b s
  { s with copy_dmaengine_ref_count := s.copy_dmaengine_ref_count - 1 }

/-- The lookup on `cpu`. -/
def dma_find_channel (s : State) (cpu : Cpu) (tx_type : TxType) : Option Chan := s.channel_table tx_type cpu

/-- The last test of every `copy_dma_get_channel_*`. -/
def alignedChan (chan : Option Chan) : Option Chan :=
  chan.filter fun chan => is_dma_copy_aligned b (b.device chan) 1 1 1

def copy_dma_get_channel_sh (s : State) (cpu : Cpu) : Option Chan :=
  alignedChan b (if 0 < s.copy_dmaengine_ref_count then dma_find_channel s cpu DMA_MEMCPY else none)

/-! ## Private clients -/

def private_candidate (s : State) (mask : List TxType) (d : Dev) (fn : Option (Chan → Bool)) : Option Chan :=
  if !dma_device_satisfies_mask b s d mask then none
  -- all channels of a device are private or all are public
  else if 1 < (b.channels d).length ∧ dma_has_cap b s DMA_PRIVATE d = false ∧
      ∃ chan ∈ b.channels d, s.client_count chan ≠ 0 then none
  else (b.channels d).find? fun chan => s.client_count chan = 0 && fn.all (· chan)

/-- `dma_cap_set(DMA_PRIVATE, ...)` and `privatecnt++`. -/
def addPrivate (s : State) (d : Dev) : State :=
  { s with
    dma_private := Function.update s.dma_private d true
    privatecnt := Function.update s.privatecnt d (u32 (s.privatecnt d + 1)) }

/-- `if (--privatecnt == 0) dma_cap_clear(DMA_PRIVATE, ...)`. -/
def dropPrivate (s : State) (d : Dev) : State :=
  let n := u32 (s.privatecnt d - 1)
  { s with
    dma_private := Function.update s.dma_private d (if n = 0 then false else s.dma_private d)
    privatecnt := Function.update s.privatecnt d n }

def requestDevices (mask : List TxType) (fn : Option (Chan → Bool)) : List Dev → State → State × Option Chan
  | [], s => (s, none)
  | d :: ds, s => match private_candidate b s mask d fn with
    | none => requestDevices mask fn ds s
    | some chan =>
      let (s, err) := dma_chan_get b chan (addPrivate s d)
      if err = 0 then (s, some chan)
      else
        let s := if err = -ENODEV then list_del_rcu s d else s
        requestDevices mask fn ds (dropPrivate s d)

/-- `__dma_request_channel`, under the name of the macro its callers use. -/
def dma_request_channel (mask : List TxType) (fn : Option (Chan → Bool)) (s : State) : State × Option Chan :=
  requestDevices b mask fn s.dma_device_list s

def dma_release_channel (s : State) (chan : Chan) : State :=
  dropPrivate (dma_chan_put s chan) (b.device chan)

end Dmacftu.Dmaengine
