import Dmacftu.Lib.CInt
import Mathlib.Data.List.Count
import Mathlib.Logic.Function.Basic
import Mathlib.Order.Interval.Finset.Nat
/-!
# Copy requests, and pinning their pages

`struct request_copy` and the pinning half of `dma_policy_ex_sh.c` and
`dma_policy_prio.c`. What the code asks of the rest of the kernel is a
`PinEnv`: `kmalloc` returns an array with arbitrary contents or fails,
`get_user_pages` fills a prefix of it.

`unpin_refs` says what the unpin loop releases: the array's entries up to the
first `NULL`, whoever wrote them. On the failure exits the entries behind the
filled prefix are still `kmalloc`'s; `pin_balanced` says when that is harmless.
-/
open Lib.CInt

namespace Dmacftu

/-! ## Pages and requests -/

def PAGE_SHIFT : Nat := 12

def PAGE_SIZE : Nat := 4096

/-- `x & PAGE_MASK`. -/
def pageMask (x : Nat) : Nat := x / PAGE_SIZE * PAGE_SIZE

def PAGE_ALIGN (x : Nat) : Nat := pageMask (u64 (x + (PAGE_SIZE - 1)))

/-- A `struct page *`; 0 is `NULL`. -/
abbrev Page := Nat

/-- The array `req_cp->pages` points to, and which allocation it is. -/
structure PageArray where
  id : Nat
  entry : Nat → Page

inductive DmaStatus where
  | DMA_SUCCESS
  | DMA_IN_PROGRESS
  | DMA_PAUSED
  | DMA_ERROR
  | DMA_INIT
  deriving DecidableEq, Repr

/-- `struct request_copy`. A channel is a number. -/
structure RequestCopy where
  chan : Option Nat
  user_base : Nat
  kernel_base : Nat
  len : Nat
  pages : Option PageArray
  nr_pages : Int
  dma_cookie : Int
  status : DmaStatus

/-- `struct request_copy_prio`. -/
structure RequestCopyPrio extends RequestCopy where
  priority : Nat

def init_req_copy (user_b kernel_b length : Nat) : RequestCopy where
  chan := none
  user_base := user_b
  kernel_base := kernel_b
  len := length
  pages := none
  nr_pages := 0
  dma_cookie := 0
  status := .DMA_INIT

def init_req_copy_prio (user_b kernel_b length priority : Nat) : RequestCopyPrio where
  toRequestCopy := init_req_copy user_b kernel_b length
  priority := priority

inductive PinResult where
  | PIN_FAILED
  | PIN_SUCCESSFUL
  | PIN_NO_USER
  deriving DecidableEq, Repr

def SET_DIRTY_ON : Int := 1
def SET_DIRTY_OFF : Int := 0
def PIN_WRITE : Int := 1
def PIN_READ : Int := 0

/-- The reference counts of the pages, their dirty bits, and the page arrays
allocated and freed. -/
structure Mm where
  refs : Page → Int
  dirty : Page → Bool
  allocs : Nat
  freed : List Nat

/-- What the rest of the kernel does during one pinning. `kmalloc` gets a size
in bytes, `get_user_pages` the address, count, `write` and `force`, and returns
what the caller's `int ret` receives. -/
structure PinEnv where
  kernel_ds : Bool
  kmalloc : Nat → Option (Nat → Page)
  access_ok_write : Nat → Nat → Bool
  access_ok_read : Nat → Nat → Bool
  get_user_pages : Nat → Int → Int → Int → Int
  /-- The page behind a user page number. -/
  page_of : Nat → Page
  gup_le : ∀ start nr write force, get_user_pages start nr write force ≤ nr
  page_ne : ∀ v, page_of v ≠ 0

/-! ## The code -/

def get_page (mm : Mm) (p : Page) : Mm := { mm with refs := Function.update mm.refs p (mm.refs p + 1) }

def page_cache_release (mm : Mm) (p : Page) : Mm := { mm with refs := Function.update mm.refs p (mm.refs p - 1) }

def set_page_dirty_lock (mm : Mm) (p : Page) : Mm := { mm with dirty := Function.update mm.dirty p true }

/-- An id is not handed out again, so a second `kfree` of the same array does not take
a later array's memory away here, as it may in the slab. -/
def kfree (mm : Mm) (a : PageArray) : Mm := { mm with freed := mm.freed ++ [a.id] }

/-- The `i`th page `get_user_pages` finds from `start` on. -/
def PinEnv.page (env : PinEnv) (start i : Nat) : Page := env.page_of (start / PAGE_SIZE + i)

/-- The array after `get_user_pages` returned `ret`. -/
def PinEnv.fill (env : PinEnv) (start : Nat) (ret : Int) (entry : Nat → Page) : Nat → Page :=
  fun i => if i < ret.toNat then env.page start i else entry i

/-- The pages `get_user_pages` took a reference to. -/
def PinEnv.taken (env : PinEnv) (start : Nat) (ret : Int) : List Page := (List.range ret.toNat).map (env.page start)

/-- The page count both pin functions compute up front. -/
def nr_pages_of (user_base len : Nat) : Int :=
  s32 (u64 ((PAGE_ALIGN (u64 (user_base + len)) : Int) - pageMask user_base) / 2 ^ PAGE_SHIFT : Nat)

/-- The body of the unpin loop, from index `i` on, with `k` entries to go. -/
def unpinLoop (entry : Nat → Page) (dirty : Int) : (k i : Nat) → Mm → Mm
  | 0, _, mm => mm
  | k + 1, i, mm =>
    if entry i ≠ 0 then
      let mm := if dirty ≠ 0 then set_page_dirty_lock mm (entry i) else mm
      unpinLoop entry dirty k (i + 1) (page_cache_release mm (entry i))
    else mm

def dma_unpin_user_pages (mm : Mm) (req_cp : RequestCopy) (dirty : Int) : Mm :=
  match req_cp.pages with
  | none => mm
  | some a => kfree (unpinLoop a.entry dirty req_cp.nr_pages.toNat 0 mm) a

def dma_unpin_user_pages_prio (mm : Mm) (req_cp : RequestCopyPrio) (dirty : Int) : Mm :=
  dma_unpin_user_pages mm req_cp.toRequestCopy dirty

/-- Allocation of the page array: the request and the memory after it. -/
def allocPages (mm : Mm) (req_cp : RequestCopy) (entry : Option (Nat → Page)) : RequestCopy × Mm :=
  match entry with
  | none => ({ req_cp with pages := none }, mm)
  | some e => ({ req_cp with pages := some ⟨mm.allocs, e⟩ }, { mm with allocs := mm.allocs + 1 })

/-- From `get_user_pages` on; both pin functions end this way. -/
def pinDown (env : PinEnv) (mm : Mm) (req_cp : RequestCopy) (a : PageArray) (write force : Int) :
    PinResult × RequestCopy × Mm :=
  let ret := env.get_user_pages req_cp.user_base req_cp.nr_pages write force
  let req_cp := { req_cp with pages := some { a with entry := env.fill req_cp.user_base ret a.entry } }
  let mm := (env.taken req_cp.user_base ret).foldl get_page mm
  if ret ≠ req_cp.nr_pages then (.PIN_FAILED, req_cp, dma_unpin_user_pages mm req_cp SET_DIRTY_OFF)
  else (.PIN_SUCCESSFUL, req_cp, mm)

def dma_pin_user_pages (env : PinEnv) (mm : Mm) (req_cp : RequestCopy) (write force : Int) :
    PinResult × RequestCopy × Mm :=
  -- don't pin down non-user-address
  if env.kernel_ds then (.PIN_NO_USER, req_cp, mm)
  else
    let req_cp := { req_cp with nr_pages := nr_pages_of req_cp.user_base req_cp.len }
    let r := allocPages mm req_cp (env.kmalloc (u64 (8 * req_cp.nr_pages)))
    match r.1.pages with
    | none => (.PIN_FAILED, r.1, r.2)
    | some a =>
      if (!env.access_ok_write req_cp.user_base req_cp.len) = true ∧ write ≠ 0 then
        (.PIN_FAILED, r.1, dma_unpin_user_pages r.2 r.1 SET_DIRTY_OFF)
      else if (!env.access_ok_read req_cp.user_base req_cp.len) = true ∧ ¬ write ≠ 0 then
        (.PIN_FAILED, r.1, dma_unpin_user_pages r.2 r.1 SET_DIRTY_OFF)
      else pinDown env r.2 r.1 a write force

/-- The priority policy's pin asks neither for the address limit nor for `access_ok`. -/
def dma_pin_user_pages_prio (env : PinEnv) (mm : Mm) (req_cp : RequestCopyPrio) (write force : Int) :
    PinResult × RequestCopyPrio × Mm :=
  let req_cp := { req_cp with nr_pages := nr_pages_of req_cp.user_base req_cp.len }
  let r := allocPages mm req_cp.toRequestCopy (env.kmalloc (u64 (8 * req_cp.nr_pages)))
  match r.1.pages with
  | none => (.PIN_FAILED, { req_cp with toRequestCopy := r.1 }, r.2)
  | some a =>
    let p := pinDown env r.2 r.1 a write force
    (p.1, { req_cp with toRequestCopy := p.2.1 }, p.2.2)

/-! ## Reference counts -/

theorem foldl_get_refs (ps : List Page) (mm : Mm) (p : Page) :
    (ps.foldl get_page mm).refs p = mm.refs p + ps.count p := by
  induction ps generalizing mm with
  | nil => simp
  | cons q ps ih =>
    rw [List.foldl_cons, ih, List.count_cons]
    by_cases hq : q = p
    · subst hq; simp [get_page]; omega
    · simp [get_page, hq, Ne.symm hq]

theorem unpinLoop_refs (entry : Nat → Page) (dirty : Int) (k i : Nat) (mm : Mm) (p : Page) :
    (unpinLoop entry dirty k i mm).refs p =
      mm.refs p - (((List.range' i k).map entry).takeWhile (· ≠ 0)).count p := by
  induction k generalizing i mm with
  | zero => simp [unpinLoop]
  | succ k ih =>
    rw [List.range'_succ, List.map_cons]
    by_cases h0 : entry i = 0
    · -- the loop ends at a `NULL`, whatever comes behind it
      simp [unpinLoop, h0]
    · have hd : ∀ mm : Mm, (if dirty ≠ 0 then set_page_dirty_lock mm (entry i) else mm).refs = mm.refs := by
        intro mm; split <;> rfl
      simp only [unpinLoop, ne_eq, h0, not_false_eq_true, if_true]
      rw [ih, List.takeWhile_cons_of_pos (by simpa using h0), List.count_cons]
      simp only [page_cache_release, hd]
      by_cases hp : entry i = p
      · subst hp; simp; omega
      · simp [hp, Ne.symm hp]

/-- Unpinning releases the entries before the first `NULL`. -/
theorem unpin_refs {mm : Mm} {req_cp : RequestCopy} {a : PageArray} (ha : req_cp.pages = some a) (dirty : Int)
    (p : Page) : (dma_unpin_user_pages mm req_cp dirty).refs p =
      mm.refs p - (((List.range req_cp.nr_pages.toNat).map a.entry).takeWhile (· ≠ 0)).count p := by
  simp only [dma_unpin_user_pages, ha, kfree]
  rw [unpinLoop_refs, List.range_eq_range']

/-- The entries the unpin loop releases although they are not the filled prefix. -/
def strays (entry : Nat → Page) (filled nr : Nat) : List Page :=
  ((List.range' filled (nr - filled)).map entry).takeWhile (· ≠ 0)

theorem strays_eq_nil {entry : Nat → Page} {filled nr : Nat} :
    strays entry filled nr = [] ↔ (filled < nr → entry filled = 0) := by
  unfold strays
  rcases Nat.lt_or_ge filled nr with h | h
  · obtain ⟨m, hm⟩ : ∃ m, nr - filled = m + 1 := ⟨nr - filled - 1, by omega⟩
    rw [hm, List.range'_succ, List.map_cons]
    by_cases h0 : entry filled = 0 <;> simp [h0, h]
  · simp [Nat.sub_eq_zero_of_le h, Nat.not_lt.2 h]

/-- The released entries: the pages taken, then whatever follows them. -/
theorem released_eq (env : PinEnv) (start : Nat) {ret : Int} (entry : Nat → Page) {nr : Nat} (h : ret.toNat ≤ nr) :
    ((List.range nr).map (env.fill start ret entry)).takeWhile (· ≠ 0) =
      env.taken start ret ++ strays entry ret.toNat nr := by
  have hsplit : List.range nr = List.range ret.toNat ++ List.range' ret.toNat (nr - ret.toNat) := by
    have := List.range'_append_1 (s := 0) (m := ret.toNat) (n := nr - ret.toNat)
    rw [Nat.zero_add, Nat.add_sub_cancel' h] at this
    rw [List.range_eq_range', List.range_eq_range', this]
  have hpre : (List.range ret.toNat).map (env.fill start ret entry) = env.taken start ret := by
    apply List.map_congr_left
    intro i hi
    simp [PinEnv.fill, List.mem_range.1 hi]
  have hpost : (List.range' ret.toNat (nr - ret.toNat)).map (env.fill start ret entry) =
      (List.range' ret.toNat (nr - ret.toNat)).map entry := by
    apply List.map_congr_left
    intro i hi
    have := (List.mem_range'_1.1 hi).1
    simp [PinEnv.fill, Nat.not_lt.2 this]
  have hne : ∀ p ∈ env.taken start ret, decide (p ≠ 0) = true := by
    intro p hp
    obtain ⟨i, -, rfl⟩ := List.mem_map.1 hp
    exact decide_eq_true (env.page_ne _)
  rw [hsplit, List.map_append, hpre, hpost, List.takeWhile_append_of_pos hne]
  rfl

theorem pinDown_failed {env : PinEnv} {mm : Mm} {req_cp : RequestCopy} {a : PageArray} {write force : Int}
    (h : (pinDown env mm req_cp a write force).1 = .PIN_FAILED) (p : Page) :
    (pinDown env mm req_cp a write force).2.2.refs p = mm.refs p -
      (strays a.entry (env.get_user_pages req_cp.user_base req_cp.nr_pages write force).toNat
        req_cp.nr_pages.toNat).count p := by
  have hle := Int.toNat_le_toNat (env.gup_le req_cp.user_base req_cp.nr_pages write force)
  simp only [pinDown] at h ⊢
  split
  · rw [unpin_refs rfl, foldl_get_refs, released_eq env _ _ hle, List.count_append]
    omega
  · rename_i heq
    rw [if_neg heq] at h
    cases h

theorem pinDown_successful {env : PinEnv} {mm : Mm} {req_cp : RequestCopy} {a : PageArray} {write force : Int}
    (h : (pinDown env mm req_cp a write force).1 = .PIN_SUCCESSFUL) :
    env.get_user_pages req_cp.user_base req_cp.nr_pages write force = req_cp.nr_pages ∧
      (pinDown env mm req_cp a write force).2 =
        ({ req_cp with pages := some { a with entry := env.fill req_cp.user_base req_cp.nr_pages a.entry } },
          (env.taken req_cp.user_base req_cp.nr_pages).foldl get_page mm) := by
  simp only [pinDown] at h ⊢
  split
  · rename_i hne
    rw [if_pos hne] at h
    cases h
  · rename_i heq
    rw [Decidable.not_not] at heq
    rw [heq]
    exact ⟨rfl, rfl⟩

theorem pinDown_all {env : PinEnv} {mm : Mm} {req_cp : RequestCopy} {a : PageArray} {write force : Int}
    (h : env.get_user_pages req_cp.user_base req_cp.nr_pages write force = req_cp.nr_pages) :
    (pinDown env mm req_cp a write force).1 = .PIN_SUCCESSFUL := by
  simp only [pinDown]
  rw [if_neg (not_not_intro h)]

theorem pinDown_result (env : PinEnv) (mm : Mm) (req_cp : RequestCopy) (a : PageArray) (write force : Int) :
    (pinDown env mm req_cp a write force).1 = .PIN_FAILED ∨ (pinDown env mm req_cp a write force).1 = .PIN_SUCCESSFUL := by
  simp only [pinDown]
  split
  · exact .inl rfl
  · exact .inr rfl

theorem pinDown_req (env : PinEnv) (mm : Mm) (req_cp : RequestCopy) (a : PageArray) (write force : Int) :
    ∃ pages, (pinDown env mm req_cp a write force).2.1 = { req_cp with pages := pages } := by
  simp only [pinDown]
  split
  · exact ⟨_, rfl⟩
  · exact ⟨_, rfl⟩

/-- `access_ok` refuses the request. -/
def PinEnv.denies (env : PinEnv) (user_base len : Nat) (write : Int) : Prop :=
  (env.access_ok_write user_base len = false ∧ write ≠ 0) ∨ (env.access_ok_read user_base len = false ∧ write = 0)

instance (env : PinEnv) (user_base len : Nat) (write : Int) : Decidable (env.denies user_base len write) :=
  inferInstanceAs (Decidable (_ ∨ _))

/-- How much of the array is filled when the pin fails or succeeds. -/
def PinEnv.filled (env : PinEnv) (user_base len : Nat) (write force : Int) : Nat :=
  if env.denies user_base len write then 0
  else (env.get_user_pages user_base (nr_pages_of user_base len) write force).toNat

/-- The first array entry behind the filled ones, if there is one, came `NULL`
from `kmalloc`. -/
def PinEnv.TailNull (env : PinEnv) (user_base len filled : Nat) : Prop :=
  ∀ entry, env.kmalloc (u64 (8 * nr_pages_of user_base len)) = some entry →
    (filled : Int) < nr_pages_of user_base len → entry filled = 0

/-- The request once its page array is allocated. -/
def allocated (mm : Mm) (req_cp : RequestCopy) (entry : Nat → Page) : RequestCopy :=
  { req_cp with nr_pages := nr_pages_of req_cp.user_base req_cp.len, pages := some ⟨mm.allocs, entry⟩ }

/-- The outcomes of `dma_pin_user_pages`. -/
theorem pin_cases (env : PinEnv) (mm : Mm) (req_cp : RequestCopy) (write force : Int) :
    (env.kernel_ds = true ∧ dma_pin_user_pages env mm req_cp write force = (.PIN_NO_USER, req_cp, mm)) ∨
    (env.kernel_ds = false ∧ env.kmalloc (u64 (8 * nr_pages_of req_cp.user_base req_cp.len)) = none ∧
      dma_pin_user_pages env mm req_cp write force =
        (.PIN_FAILED, { req_cp with nr_pages := nr_pages_of req_cp.user_base req_cp.len, pages := none }, mm)) ∨
    ∃ entry, env.kernel_ds = false ∧
      env.kmalloc (u64 (8 * nr_pages_of req_cp.user_base req_cp.len)) = some entry ∧
      ((env.denies req_cp.user_base req_cp.len write ∧
          dma_pin_user_pages env mm req_cp write force = (.PIN_FAILED, allocated mm req_cp entry,
            dma_unpin_user_pages { mm with allocs := mm.allocs + 1 } (allocated mm req_cp entry) SET_DIRTY_OFF)) ∨
        (¬ env.denies req_cp.user_base req_cp.len write ∧
          dma_pin_user_pages env mm req_cp write force = pinDown env { mm with allocs := mm.allocs + 1 }
            (allocated mm req_cp entry) ⟨mm.allocs, entry⟩ write force)) := by
  by_cases hds : env.kernel_ds = true
  · exact .inl ⟨hds, by simp [dma_pin_user_pages, hds]⟩
  rw [Bool.not_eq_true] at hds
  right
  cases hk : env.kmalloc (u64 (8 * nr_pages_of req_cp.user_base req_cp.len)) with
  | none => exact .inl ⟨hds, rfl, by simp [dma_pin_user_pages, hds, hk, allocPages]⟩
  | some entry =>
    refine .inr ⟨entry, hds, rfl, ?_⟩
    by_cases hw : env.access_ok_write req_cp.user_base req_cp.len = false ∧ write ≠ 0
    · exact .inl ⟨.inl hw, by simp [dma_pin_user_pages, hds, hk, allocPages, hw, allocated]⟩
    · by_cases hr : env.access_ok_read req_cp.user_base req_cp.len = false ∧ write = 0
      · exact .inl ⟨.inr hr, by simp [dma_pin_user_pages, hds, hk, allocPages, hr, allocated]⟩
      · refine .inr ⟨fun hd => hd.elim hw hr, ?_⟩
        have hw' : ¬ ((!env.access_ok_write req_cp.user_base req_cp.len) = true ∧ write ≠ 0) := by simpa using hw
        have hr' : ¬ ((!env.access_ok_read req_cp.user_base req_cp.len) = true ∧ ¬ write ≠ 0) := by simpa using hr
        simp only [dma_pin_user_pages, hds, hk, allocPages, Bool.false_eq_true, if_false, if_neg hw', if_neg hr',
          allocated]

/-- Pinning sets the page count and the array, and nothing else of the request. -/
theorem pin_req (env : PinEnv) (mm : Mm) (req_cp : RequestCopy) (write force : Int) :
    ∃ nr pages, (dma_pin_user_pages env mm req_cp write force).2.1 =
      { req_cp with nr_pages := nr, pages := pages } := by
  rcases pin_cases env mm req_cp write force with ⟨-, he⟩ | ⟨-, -, he⟩ | ⟨e, -, -, ⟨-, he⟩ | ⟨-, he⟩⟩
  · exact ⟨_, _, by rw [he]⟩
  · exact ⟨_, _, by rw [he]⟩
  · exact ⟨_, _, by rw [he]; rfl⟩
  · obtain ⟨pages, hp⟩ := pinDown_req env { mm with allocs := mm.allocs + 1 } (allocated mm req_cp e) ⟨mm.allocs, e⟩
      write force
    exact ⟨_, pages, by rw [he, hp]; rfl⟩

/-- The outcomes of `dma_pin_user_pages_prio`. -/
theorem pin_prio_cases (env : PinEnv) (mm : Mm) (req_cp : RequestCopyPrio) (write force : Int) :
    (env.kmalloc (u64 (8 * nr_pages_of req_cp.user_base req_cp.len)) = none ∧
      (dma_pin_user_pages_prio env mm req_cp write force).1 = .PIN_FAILED ∧
      (dma_pin_user_pages_prio env mm req_cp write force).2.2 = mm) ∨
    ∃ entry, env.kmalloc (u64 (8 * nr_pages_of req_cp.user_base req_cp.len)) = some entry ∧
      ∃ r, pinDown env { mm with allocs := mm.allocs + 1 } (allocated mm req_cp.toRequestCopy entry)
          ⟨mm.allocs, entry⟩ write force = r ∧
        (dma_pin_user_pages_prio env mm req_cp write force).1 = r.1 ∧
        (dma_pin_user_pages_prio env mm req_cp write force).2.1.toRequestCopy = r.2.1 ∧
        (dma_pin_user_pages_prio env mm req_cp write force).2.2 = r.2.2 := by
  cases hk : env.kmalloc (u64 (8 * nr_pages_of req_cp.user_base req_cp.len)) with
  | none => exact .inl ⟨rfl, by simp [dma_pin_user_pages_prio, hk, allocPages]⟩
  | some entry =>
    refine .inr ⟨entry, rfl, _, rfl, ?_⟩
    simp [dma_pin_user_pages_prio, hk, allocPages, allocated]

theorem strays_balanced (refs : Page → Int) (entry : Nat → Page) (filled nr : Nat) :
    (∀ p, refs p - (strays entry filled nr).count p = refs p) ↔ (filled < nr → entry filled = 0) := by
  rw [← strays_eq_nil]
  constructor
  · intro h
    refine List.eq_nil_iff_forall_not_mem.2 fun p hp => ?_
    have := List.count_pos_iff.2 hp
    have := h p
    omega
  · intro h p
    simp [h]

/-- A failed `pinDown` is balanced exactly when the entry behind the pages taken
is `NULL`. -/
theorem pinDown_balanced {env : PinEnv} {mm : Mm} {req_cp : RequestCopy} {a : PageArray} {write force : Int}
    {ret : Int} (hret : env.get_user_pages req_cp.user_base req_cp.nr_pages write force = ret) :
    ((pinDown env mm req_cp a write force).1 = .PIN_FAILED →
        ∀ p, (pinDown env mm req_cp a write force).2.2.refs p = mm.refs p) ↔
      ((ret.toNat : Int) < req_cp.nr_pages → a.entry ret.toNat = 0) := by
  subst hret
  rcases pinDown_result env mm req_cp a write force with h | h
  · simp only [h, true_implies, pinDown_failed h, strays_balanced]
    rw [Int.lt_toNat]
  · have := (pinDown_successful h).1
    simp only [h, reduceCtorEq, false_implies, true_iff]
    omega

/-- A failed `dma_pin_user_pages` leaves the reference counts alone exactly when
the first entry it did not fill is `NULL`. -/
theorem pin_balanced (env : PinEnv) (mm : Mm) (req_cp : RequestCopy) (write force : Int) :
    ((dma_pin_user_pages env mm req_cp write force).1 = .PIN_FAILED →
        ∀ p, (dma_pin_user_pages env mm req_cp write force).2.2.refs p = mm.refs p) ↔
      (env.kernel_ds = false → env.TailNull req_cp.user_base req_cp.len
        (env.filled req_cp.user_base req_cp.len write force)) := by
  rcases pin_cases env mm req_cp write force with ⟨hds, he⟩ | ⟨-, hk, he⟩ | ⟨entry, hds, hk, ⟨hd, he⟩ | ⟨hd, he⟩⟩
  · simp [he, hds]
  · simp [he, PinEnv.TailNull, hk]
  · have := strays_balanced mm.refs entry 0 (nr_pages_of req_cp.user_base req_cp.len).toNat
    simp only [strays, Nat.sub_zero, ← List.range_eq_range'] at this
    have hpages : (allocated mm req_cp entry).pages = some ⟨mm.allocs, entry⟩ := rfl
    simp only [he, true_implies, hds, PinEnv.TailNull, hk, PinEnv.filled, hd, if_true, Option.some.injEq,
      forall_eq', unpin_refs hpages]
    rw [← Int.lt_toNat]
    exact this
  · rw [he, pinDown_balanced rfl]
    simp only [hds, true_implies, PinEnv.TailNull, hk, PinEnv.filled, hd, if_false, Option.some.injEq, forall_eq']
    rfl

theorem pin_prio_balanced (env : PinEnv) (mm : Mm) (req_cp : RequestCopyPrio) (write force : Int) :
    ((dma_pin_user_pages_prio env mm req_cp write force).1 = .PIN_FAILED →
        ∀ p, (dma_pin_user_pages_prio env mm req_cp write force).2.2.refs p = mm.refs p) ↔
      env.TailNull req_cp.user_base req_cp.len
        (env.get_user_pages req_cp.user_base (nr_pages_of req_cp.user_base req_cp.len) write force).toNat := by
  rcases pin_prio_cases env mm req_cp write force with ⟨hk, -, he⟩ | ⟨entry, hk, r, rfl, h1, -, h2⟩
  · simp [he, PinEnv.TailNull, hk]
  · rw [h1, h2, pinDown_balanced rfl]
    simp only [PinEnv.TailNull, hk, Option.some.injEq, forall_eq']
    rfl

/-- Unpinning what a successful `dma_pin_user_pages` took restores the counts. -/
theorem unpin_pinned {env : PinEnv} {mm : Mm} {req_cp : RequestCopy} {write force : Int}
    (h : (dma_pin_user_pages env mm req_cp write force).1 = .PIN_SUCCESSFUL) (dirty : Int) (p : Page) :
    (dma_unpin_user_pages (dma_pin_user_pages env mm req_cp write force).2.2
      (dma_pin_user_pages env mm req_cp write force).2.1 dirty).refs p = mm.refs p := by
  rcases pin_cases env mm req_cp write force with ⟨-, he⟩ | ⟨-, -, he⟩ | ⟨e, -, -, ⟨-, he⟩ | ⟨-, he⟩⟩
  · rw [he] at h; cases h
  · rw [he] at h; cases h
  · rw [he] at h; cases h
  · rw [he] at h ⊢
    rw [(pinDown_successful h).2]
    dsimp only
    rw [unpin_refs rfl, foldl_get_refs]
    dsimp only
    rw [released_eq env _ _ (Nat.le_refl _), List.count_append, strays_eq_nil.2 fun hlt => absurd hlt (Nat.lt_irrefl _)]
    simp

/-! ## The page count -/

/-- The page numbers that intersect `[user_base, user_base + len)`. -/
def pagesTouched (user_base len : Nat) : Finset Nat := (Finset.Ico user_base (user_base + len)).image (· / PAGE_SIZE)

theorem pagesTouched_eq {user_base len : Nat} (h : 1 ≤ len) :
    pagesTouched user_base len = Finset.Icc (user_base / PAGE_SIZE) ((user_base + len - 1) / PAGE_SIZE) := by
  ext v
  simp only [pagesTouched, Finset.mem_image, Finset.mem_Ico, Finset.mem_Icc, PAGE_SIZE]
  constructor
  · rintro ⟨x, hx, rfl⟩
    omega
  · rintro ⟨h1, h2⟩
    exact ⟨max user_base (v * 4096), by omega, by omega⟩

theorem card_pagesTouched {user_base len : Nat} (h : 1 ≤ len) :
    (pagesTouched user_base len).card = (user_base + len - 1) / PAGE_SIZE + 1 - user_base / PAGE_SIZE := by
  rw [pagesTouched_eq h, Nat.card_Icc]

/-- The code's page count is the number of pages, narrowed to `int`: the two
wraps at `2 ^ 64` cancel. -/
theorem nr_pages_of_eq {user_base len : Nat} (hb : user_base < 2 ^ 64) (hl : len < 2 ^ 64) (h : 1 ≤ len) :
    nr_pages_of user_base len = s32 ((pagesTouched user_base len).card) := by
  rw [card_pagesTouched h]
  -- the narrowing sees a count modulo `2 ^ 32` only
  have hs : ∀ x y : Nat, x % 2 ^ 32 = y % 2 ^ 32 → s32 x = s32 y := by
    intro x y hxy
    have : u32 x = u32 y := by unfold u32; omega
    unfold s32; rw [this]
  apply hs
  simp only [PAGE_ALIGN, pageMask, PAGE_SIZE, PAGE_SHIFT, u64]
  omega

/-- `kmalloc` fails above `limit` bytes, and `access_ok` is the range check. -/
structure PinEnv.Limits (env : PinEnv) (limit : Nat) : Prop where
  kmalloc_le : ∀ size, limit < size → env.kmalloc size = none
  write_ok : ∀ b l, env.access_ok_write b l = true ↔ b + l ≤ 2 ^ 47
  read_ok : ∀ b l, env.access_ok_read b l = true ↔ b + l ≤ 2 ^ 47

/-- The request holds exactly the pages of the range, in order. -/
structure CoversRange (env : PinEnv) (user_base len : Nat) (req_cp : RequestCopy) : Prop where
  nr : req_cp.nr_pages = (pagesTouched user_base len).card
  pages : ∃ a, req_cp.pages = some a ∧
    (∀ v, v ∈ pagesTouched user_base len ↔ ∃ i : Nat, i < req_cp.nr_pages ∧ v = user_base / PAGE_SIZE + i) ∧
    ∀ i : Nat, i < req_cp.nr_pages → a.entry i = env.page_of (user_base / PAGE_SIZE + i)

/-- A count of pages that survives the narrowing to `int`, or makes `kmalloc` fail. -/
def Fits (limit pages : Nat) : Prop := pages < 2 ^ 31 ∨ 2 ^ 31 ≤ pages % 2 ^ 32 ∨ limit < 8 * (pages % 2 ^ 32)

instance (limit pages : Nat) : Decidable (Fits limit pages) := inferInstanceAs (Decidable (_ ∨ _))

/-- An array that `kmalloc` delivered has a count the narrowing kept. -/
theorem Fits.nr_pages {env : PinEnv} {limit user_base len : Nat} (hlim : limit < 2 ^ 63) (henv : env.Limits limit)
    (hb : user_base < 2 ^ 64) (hl : len < 2 ^ 64) (h1 : 1 ≤ len)
    (hf : Fits limit (pagesTouched user_base len).card) {entry : Nat → Page}
    (hk : env.kmalloc (u64 (8 * nr_pages_of user_base len)) = some entry) :
    nr_pages_of user_base len = (pagesTouched user_base len).card := by
  have hsize : u64 (8 * nr_pages_of user_base len) ≤ limit := by
    by_contra hgt
    rw [henv.kmalloc_le _ (by omega)] at hk
    cases hk
  rw [nr_pages_of_eq hb hl h1] at hsize ⊢
  generalize (pagesTouched user_base len).card = pages at *
  unfold Fits at hf
  unfold s32 u32 u64 at *
  split at hsize <;> omega

theorem pinDown_covers {env : PinEnv} {mm : Mm} {req_cp : RequestCopy} {entry : Nat → Page} {write force : Int}
    (h1 : 1 ≤ req_cp.len)
    (hnr : nr_pages_of req_cp.user_base req_cp.len = (pagesTouched req_cp.user_base req_cp.len).card)
    (h : (pinDown env { mm with allocs := mm.allocs + 1 } (allocated mm req_cp entry) ⟨mm.allocs, entry⟩
      write force).1 = .PIN_SUCCESSFUL) :
    CoversRange env req_cp.user_base req_cp.len (pinDown env { mm with allocs := mm.allocs + 1 }
      (allocated mm req_cp entry) ⟨mm.allocs, entry⟩ write force).2.1 := by
  rw [(pinDown_successful h).2]
  refine ⟨hnr, _, rfl, fun v => ?_, fun i hi => ?_⟩
  · simp only [allocated]
    rw [hnr, pagesTouched_eq h1, Nat.card_Icc, Finset.mem_Icc]
    constructor
    · intro hv
      exact ⟨v - req_cp.user_base / PAGE_SIZE, by omega, by omega⟩
    · rintro ⟨i, hi, rfl⟩
      omega
  · have : i < (allocated mm req_cp entry).nr_pages.toNat := by
      simp only [allocated] at hi ⊢
      omega
    simp only [PinEnv.fill, this, if_true]
    rfl

/-- Every successful `dma_pin_user_pages` of the range holds its pages. -/
def PinCovers (limit user_base len : Nat) : Prop :=
  ∀ (env : PinEnv) (mm : Mm) (req_cp : RequestCopy) (write force : Int), env.Limits limit →
    req_cp.user_base = user_base → req_cp.len = len →
    (dma_pin_user_pages env mm req_cp write force).1 = .PIN_SUCCESSFUL →
    CoversRange env user_base len (dma_pin_user_pages env mm req_cp write force).2.1

/-- Every successful `dma_pin_user_pages_prio` of the range holds its pages. -/
def PinCoversPrio (limit user_base len : Nat) : Prop :=
  ∀ (env : PinEnv) (mm : Mm) (req_cp : RequestCopyPrio) (write force : Int), env.Limits limit →
    req_cp.user_base = user_base → req_cp.len = len →
    (dma_pin_user_pages_prio env mm req_cp write force).1 = .PIN_SUCCESSFUL →
    CoversRange env user_base len (dma_pin_user_pages_prio env mm req_cp write force).2.1.toRequestCopy

/-- A kernel with memory to spare: every array up to `limit` bytes is allocated,
every page is there. -/
def roomy (limit : Nat) : PinEnv where
  kernel_ds := false
  kmalloc size := if size ≤ limit then some fun _ => 0 else none
  access_ok_write b l := b + l ≤ 2 ^ 47
  access_ok_read b l := b + l ≤ 2 ^ 47
  get_user_pages _ nr _ _ := nr
  page_of v := v + 1
  gup_le _ nr _ _ := Int.le_refl nr
  page_ne v := Nat.succ_ne_zero v

theorem roomy_limits (limit : Nat) : (roomy limit).Limits limit where
  kmalloc_le _ h := if_neg (Nat.not_le.2 h)
  write_ok _ _ := decide_eq_true_iff
  read_ok _ _ := decide_eq_true_iff

def bootMm : Mm := ⟨fun _ => 1, fun _ => false, 0, []⟩

/-- A count that does not fit is narrowed to a smaller one, whose array `kmalloc`
delivers. -/
theorem roomy_kmalloc {limit user_base len : Nat} (hb : user_base < 2 ^ 64)
    (hl : len < 2 ^ 64) (h1 : 1 ≤ len) (hf : ¬ Fits limit (pagesTouched user_base len).card) :
    (roomy limit).kmalloc (u64 (8 * nr_pages_of user_base len)) = some (fun _ => 0) ∧
      nr_pages_of user_base len ≠ (pagesTouched user_base len).card := by
  rw [nr_pages_of_eq hb hl h1]
  generalize (pagesTouched user_base len).card = pages at *
  simp only [Fits, not_or, not_lt, not_le] at hf
  have hs : s32 pages = (pages % 2 ^ 32 : Nat) := by unfold s32 u32; omega
  refine ⟨if_pos ?_, by rw [hs]; omega⟩
  rw [hs]
  unfold u64
  omega

theorem roomy_pinDown (limit : Nat) (mm : Mm) (req_cp : RequestCopy) (a : PageArray) (write force : Int) :
    (pinDown (roomy limit) mm req_cp a write force).1 = .PIN_SUCCESSFUL ∧
      (pinDown (roomy limit) mm req_cp a write force).2.1.nr_pages = req_cp.nr_pages := by
  have h : (roomy limit).get_user_pages req_cp.user_base req_cp.nr_pages write force = req_cp.nr_pages := rfl
  simp [pinDown, h]

/-- A pin that succeeds has all the pages of its range exactly when their number
survives the narrowing to `int`. `access_ok` bounds the numbers
`dma_pin_user_pages` meets; the priority policy's pin meets them all. -/
theorem successful_pin_covers_iff {limit user_base len : Nat} (hlim : limit < 2 ^ 63) (hb : user_base < 2 ^ 64)
    (h1 : 1 ≤ len) (hl : len < 2 ^ 64) :
    (PinCovers limit user_base len ↔
      (user_base + len ≤ 2 ^ 47 → Fits limit (pagesTouched user_base len).card)) ∧
    (PinCoversPrio limit user_base len ↔ Fits limit (pagesTouched user_base len).card) := by
  refine ⟨⟨fun h hok => ?_, fun h => ?_⟩, ⟨fun h => ?_, fun h => ?_⟩⟩
  · -- where the count does not fit, a roomy kernel lets the pin succeed with too few pages
    by_contra hf
    obtain ⟨hk, hne⟩ := roomy_kmalloc hb hl h1 hf
    have hpin : dma_pin_user_pages (roomy limit) bootMm (init_req_copy user_base 0 len) 1 0 =
        pinDown (roomy limit) { bootMm with allocs := 1 } (allocated bootMm (init_req_copy user_base 0 len) fun _ => 0)
          ⟨0, fun _ => 0⟩ 1 0 := by
      rcases pin_cases (roomy limit) bootMm (init_req_copy user_base 0 len) 1 0 with
        ⟨h, -⟩ | ⟨-, h, -⟩ | ⟨e, -, he, ⟨hd, -⟩ | ⟨-, hd⟩⟩
      · cases h
      · cases hk.symm.trans h
      · rcases hd with ⟨hd, -⟩ | ⟨-, hd⟩
        · cases hd.symm.trans (((roomy_limits limit).write_ok _ _).2 hok)
        · cases hd
      · cases hk.symm.trans he
        exact hd
    obtain ⟨hok, hnr⟩ := roomy_pinDown limit { bootMm with allocs := 1 }
      (allocated bootMm (init_req_copy user_base 0 len) fun _ => 0) ⟨0, fun _ => 0⟩ 1 0
    have := (h (roomy limit) bootMm (init_req_copy user_base 0 len) 1 0 (roomy_limits limit) rfl rfl
      (by rw [hpin]; exact hok)).nr
    rw [hpin, hnr] at this
    exact hne this
  · rintro env mm req_cp write force henv rfl rfl hs
    rcases pin_cases env mm req_cp write force with ⟨-, he⟩ | ⟨-, -, he⟩ | ⟨e, -, hk, ⟨-, he⟩ | ⟨hd, he⟩⟩
    · rw [he] at hs; cases hs
    · rw [he] at hs; cases hs
    · rw [he] at hs; cases hs
    · rw [he] at hs ⊢
      have hok : req_cp.user_base + req_cp.len ≤ 2 ^ 47 := by
        by_cases hw : write = 0
        · refine (henv.read_ok _ _).1 (Bool.of_not_eq_false fun hf => hd (.inr ⟨hf, hw⟩))
        · refine (henv.write_ok _ _).1 (Bool.of_not_eq_false fun hf => hd (.inl ⟨hf, hw⟩))
      exact pinDown_covers h1 ((h hok).nr_pages hlim henv hb hl h1 hk) hs
  · by_contra hf
    obtain ⟨hk, hne⟩ := roomy_kmalloc hb hl h1 hf
    rcases pin_prio_cases (roomy limit) bootMm (init_req_copy_prio user_base 0 len 0) 1 0 with
      ⟨hn, -⟩ | ⟨e, he, r, rfl, hr, hreq, -⟩
    · cases hk.symm.trans hn
    · obtain ⟨hok, hnr⟩ := roomy_pinDown limit { bootMm with allocs := 1 }
        (allocated bootMm (init_req_copy user_base 0 len) e) ⟨0, e⟩ 1 0
      have := (h (roomy limit) bootMm (init_req_copy_prio user_base 0 len 0) 1 0 (roomy_limits limit) rfl rfl
        (hr.trans hok)).nr
      rw [hreq] at this
      exact hne (hnr.symm.trans this)
  · rintro env mm req_cp write force henv rfl rfl hs
    rcases pin_prio_cases env mm req_cp write force with ⟨-, he, -⟩ | ⟨e, hk, r, rfl, hr, hreq, -⟩
    · rw [he] at hs; cases hs
    · rw [hreq]
      exact pinDown_covers h1 (h.nr_pages hlim henv hb hl h1 hk) (hr.symm.trans hs)

theorem successful_pin_covers_iff_sample : PinCovers (2 ^ 22) 4096 8192 ∧ PinCoversPrio (2 ^ 22) 4096 8192 := by
  have h := @successful_pin_covers_iff (2 ^ 22) 4096 8192 (by decide) (by decide) (by decide) (by decide)
  have hf : Fits (2 ^ 22) (pagesTouched 4096 8192).card := by
    rw [card_pagesTouched (by decide)]
    decide
  exact ⟨h.1.2 fun _ => hf, h.2.2 hf⟩

/-- A request of `2 ^ 44` bytes spans `2 ^ 32` pages, and both pins report success
having taken none. -/
theorem pin_covers_nothing : ¬ PinCovers (2 ^ 22) 4096 (2 ^ 44) ∧ ¬ PinCoversPrio (2 ^ 22) 4096 (2 ^ 44) := by
  have hcard : (pagesTouched 4096 (2 ^ 44)).card = 2 ^ 32 := by
    rw [card_pagesTouched (by decide)]
    decide
  constructor
  · intro h
    have := (h (roomy (2 ^ 22)) bootMm (init_req_copy 4096 0 (2 ^ 44)) 1 0 (roomy_limits _) rfl rfl (by decide)).nr
    rw [hcard] at this
    exact absurd this (by decide)
  · intro h
    have := (h (roomy (2 ^ 22)) bootMm (init_req_copy_prio 4096 0 (2 ^ 44) 0) 1 0 (roomy_limits _) rfl rfl
      (by decide)).nr
    rw [hcard] at this
    exact absurd this (by decide)

end Dmacftu
