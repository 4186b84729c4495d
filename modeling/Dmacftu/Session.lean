import Dmacftu.PolicyCopy
import Mathlib.Data.List.TakeWhile
/-!
# Pins, copies and releases, with an account of them

The benchmark drivers pin, copy and unpin in separate steps. A `Session` is the
memory management's state together with an account of what the steps did: which
page array was pinned with which intent, what was submitted for it, which pages
were released. The account is for the proofs, no step looks at it: `copyUser_erase`
says so for the boot-time copies, which exist without it as well.
-/
open Lib.CInt Lib.CopyEngine

namespace Dmacftu

def EPERM : Int := 1
def EIO : Int := 5
def EACCES : Int := 13
def EINVAL : Int := 22

/-- The sizes `boot_init_mem_mb` may be configured for. -/
def bootSizes : List Nat := [33554432, 67108864, 134217728, 268435456, 536870912, 1073741824]

inductive Event where
  /-- Pages were pinned and array `id` holds them; `write` is the argument. -/
  | pinned (id : Nat) (pages : List Page) (write : Int)
  /-- A descriptor for array `id`; `live` says that the array was not freed before. -/
  | submitted (dir : Direction) (id : Nat) (live : Bool) (sub : Sub)
  /-- A copy under a policy came back, with the request's status. -/
  | returned (ret : Int) (status : DmaStatus)
  | released (id : Nat) (pages : List Page) (dirty : Int)
  /-- `get_random_bytes`. -/
  | filled (addr : Nat) (nbytes : Int)
  /-- A copy by the CPU, from or to `addr` on the kernel's side. -/
  | copied (dir : Direction) (addr len : Nat)
  deriving DecidableEq, Repr

/-- The pages `dma_unpin_user_pages` releases. -/
def RequestCopy.releases (req_cp : RequestCopy) : List Page :=
  match req_cp.pages with
  | none => []
  | some a => ((List.range req_cp.nr_pages.toNat).map a.entry).takeWhile (· ≠ 0)

/-! ## What is released, and what is submitted -/

/-- The request as a successful pin leaves it. -/
structure RequestCopy.PinnedBy (req_cp : RequestCopy) (env : PinEnv) : Prop where
  nr_pages : req_cp.nr_pages = nr_pages_of req_cp.user_base req_cp.len
  pages : ∃ a, req_cp.pages = some a ∧ ∀ i < req_cp.nr_pages.toNat, a.entry i = env.page req_cp.user_base i

theorem pinDown_taken {env : PinEnv} {mm : Mm} {req_cp : RequestCopy} {entry : Nat → Page} {write force : Int}
    (h : (pinDown env { mm with allocs := mm.allocs + 1 } (allocated mm req_cp entry) ⟨mm.allocs, entry⟩ write
      force).1 = .PIN_SUCCESSFUL) :
    ∃ entry', (pinDown env { mm with allocs := mm.allocs + 1 } (allocated mm req_cp entry) ⟨mm.allocs, entry⟩ write
        force).2 = (allocated mm req_cp entry',
        (env.taken req_cp.user_base (nr_pages_of req_cp.user_base req_cp.len)).foldl get_page
          { mm with allocs := mm.allocs + 1 }) ∧
      (allocated mm req_cp entry').PinnedBy env := by
  obtain ⟨-, hp⟩ := pinDown_successful h
  refine ⟨_, hp, rfl, _, rfl, ?_⟩
  intro i hi
  exact if_pos hi

theorem pin_taken {env : PinEnv} {mm : Mm} {req_cp : RequestCopy} {write force : Int}
    (h : (dma_pin_user_pages env mm req_cp write force).1 = .PIN_SUCCESSFUL) :
    ∃ entry, (dma_pin_user_pages env mm req_cp write force).2 = (allocated mm req_cp entry,
        (env.taken req_cp.user_base (nr_pages_of req_cp.user_base req_cp.len)).foldl get_page
          { mm with allocs := mm.allocs + 1 }) ∧
      (allocated mm req_cp entry).PinnedBy env := by
  rcases pin_cases env mm req_cp write force with ⟨-, he⟩ | ⟨-, -, he⟩ | ⟨e, -, -, ⟨-, he⟩ | ⟨-, he⟩⟩
  · rw [he] at h; cases h
  · rw [he] at h; cases h
  · rw [he] at h; cases h
  · rw [he] at h ⊢
    exact pinDown_taken h

/-- The unpin of a pinned request releases the pages taken. -/
theorem RequestCopy.PinnedBy.releases_eq {env : PinEnv} {req_cp : RequestCopy} (h : req_cp.PinnedBy env) :
    req_cp.releases = env.taken req_cp.user_base req_cp.nr_pages := by
  obtain ⟨a, ha, hentry⟩ := h.pages
  have hmap : (List.range req_cp.nr_pages.toNat).map a.entry = env.taken req_cp.user_base req_cp.nr_pages :=
    List.map_congr_left fun i hi => hentry i (List.mem_range.1 hi)
  have hne : ∀ p ∈ env.taken req_cp.user_base req_cp.nr_pages, decide (p ≠ 0) = true := by
    intro p hp
    obtain ⟨i, -, rfl⟩ := List.mem_map.1 hp
    exact decide_eq_true (env.page_ne _)
  simp only [releases, ha]
  rw [hmap]
  exact List.takeWhile_eq_self_iff.2 hne

theorem RequestCopy.PinnedBy.mem_releases {env : PinEnv} {req_cp : RequestCopy} (h : req_cp.PinnedBy env) {i : Nat}
    (hi : i < req_cp.nr_pages.toNat) : req_cp.entry i ∈ req_cp.releases := by
  obtain ⟨a, ha, hentry⟩ := h.pages
  simp only [h.releases_eq, entry, ha]
  rw [hentry i hi]
  exact List.mem_map_of_mem (List.mem_range.2 hi)

section

variable {env : DmaEnv} {dir : Direction} {fuel : Nat} {req_cpy_local : RequestCopy} {hw : Hw}

/-- The `int` arithmetic of `copy` from `2 ^ 31` bytes on: a length that is not
close to `2 ^ 64` leads to a chunk of no bytes, again and again. -/
theorem chunks_len {r : Int × Nat × Hw}
    (h : dir.chunks env fuel req_cpy_local hw = some r) :
    req_cpy_local.len < 2 ^ 31 ∨ 2 ^ 64 - 2 ^ 31 ≤ req_cpy_local.len := by
  by_contra hlen
  rw [not_or, Nat.not_lt, Nat.not_le] at hlen
  -- the remaining length stays away from both ends: `copy` is 0 or negative from here on
  let I : ChunkLoop → Prop := fun s => 2 ^ 31 ≤ s.tmp_len ∧ s.tmp_len < 2 ^ 64 - 2 ^ 31 ∧
    s.copy ≤ s32 s.tmp_len ∧ (0 ≤ s32 s.tmp_len → 0 ≤ s.copy) ∧ (s32 s.tmp_len < 0 → s.copy = s32 s.tmp_len)
  have hmod : ∀ n : Nat, s32 n = (n % 2 ^ 32 : Nat) ∧ n % 2 ^ 32 < 2 ^ 31 ∨
      s32 n = (n % 2 ^ 32 : Nat) - 2 ^ 32 ∧ 2 ^ 31 ≤ n % 2 ^ 32 := by
    intro n
    unfold s32 u32
    split <;> omega
  have hnext : ∀ (n : Nat) (copy : Int), 2 ^ 31 ≤ n → n < 2 ^ 64 - 2 ^ 31 → copy ≤ s32 n → (0 ≤ s32 n → 0 ≤ copy) →
      (s32 n < 0 → copy = s32 n) → 2 ^ 31 ≤ u64 (n - copy) ∧ u64 (n - copy) < 2 ^ 64 - 2 ^ 31 := by
    intro n copy h1 h2 h3 h4 h5
    unfold u64
    rcases hmod n with ⟨hs, hlt⟩ | ⟨hs, hge⟩
    · rw [hs] at h3 h4
      omega
    · rw [hs] at h5
      have := h5 (by omega)
      omega
  refine Lib.Loop.run_inv (I := I) (P := fun _ => False) ?_ ?_ (s := chunkStart req_cpy_local hw) ?_ h
  · rintro s s' ⟨h1, h2, h3, h4, h5⟩ hbody
    obtain ⟨hlo, hhi⟩ := hnext s.tmp_len s.copy h1 h2 h3 h4 h5
    unfold chunkBody at hbody
    simp only at hbody
    split at hbody
    · cases hbody
      exact ⟨h1, h2, h3, h4, h5⟩
    · split at hbody
      · cases hbody
      · cases hbody
        have hp : s32 (PAGE_SIZE : Nat) = 4096 := by decide
        refine ⟨hlo, hhi, Int.min_le_right .., ?_, ?_⟩ <;> intro hs <;> simp only [hp] at hs ⊢ <;> omega
  · rintro s r ⟨h1, h2, h3, h4, h5⟩ hbody
    obtain ⟨hlo, hhi⟩ := hnext s.tmp_len s.copy h1 h2 h3 h4 h5
    unfold chunkBody at hbody
    simp only at hbody
    split at hbody
    · cases hbody
    · split at hbody
      · omega
      · cases hbody
  · have hoff : s32 (req_cpy_local.user_base % PAGE_SIZE : Nat) = (req_cpy_local.user_base % PAGE_SIZE : Nat) := by
      apply s32_of_range <;> unfold PAGE_SIZE <;> omega
    have hpage : s32 (PAGE_SIZE - (req_cpy_local.user_base % PAGE_SIZE : Nat)) =
        PAGE_SIZE - (req_cpy_local.user_base % PAGE_SIZE : Nat) := by
      apply s32_of_range <;> unfold PAGE_SIZE <;> omega
    have hpos : (0 : Int) < PAGE_SIZE - (req_cpy_local.user_base % PAGE_SIZE : Nat) := by
      unfold PAGE_SIZE
      omega
    simp only [I, chunkStart, hoff, hpage]
    exact ⟨hlen.1, hlen.2, Int.min_le_right .., fun h0 => by omega, fun h0 => by omega⟩

/-- A length close to `2 ^ 64` is a negative `int`: one descriptor, and no byte is left. -/
theorem subs_first (hl : req_cpy_local.len < 2 ^ 64) (hlen : 2 ^ 64 - 2 ^ 31 ≤ req_cpy_local.len) :
    ∀ e ∈ dir.subs env fuel req_cpy_local hw, e.page = req_cpy_local.entry 0 := by
  let I : ChunkLoop → Prop := fun s => u64 (s.tmp_len - s.copy) = 0 ∧ s.page_index = 0
  refine Lib.Loop.outputs_inv (I := I) ?_ ?_ ⟨?_, rfl⟩
  · rintro s s' ⟨hleft, hs⟩ hbody
    unfold chunkBody at hbody
    simp only [hleft, if_true] at hbody
    split at hbody
    · cases hbody
      exact ⟨hleft, hs⟩
    · cases hbody
  · rintro s ⟨-, hs⟩ e he
    rw [chunkSub_eq] at he
    split at he
    · cases he
    · obtain rfl := List.mem_singleton.1 he
      rw [hs]
  · have hoff : s32 (req_cpy_local.user_base % PAGE_SIZE : Nat) = (req_cpy_local.user_base % PAGE_SIZE : Nat) := by
      apply s32_of_range <;> unfold PAGE_SIZE <;> omega
    have hpage : s32 (PAGE_SIZE - (req_cpy_local.user_base % PAGE_SIZE : Nat)) =
        PAGE_SIZE - (req_cpy_local.user_base % PAGE_SIZE : Nat) := by
      apply s32_of_range <;> unfold PAGE_SIZE <;> omega
    have hneg : s32 req_cpy_local.len = req_cpy_local.len - 2 ^ 64 := by
      unfold s32 u32
      split <;> omega
    simp only [chunkStart, hoff, hpage, hneg]
    unfold u64 PAGE_SIZE
    omega

/-- The lengths the `int` arithmetic of the loop can deal with: from any other one
it does not come back (`chunks_len`). -/
def RequestCopy.Countable (req_cpy_local : RequestCopy) : Prop :=
  req_cpy_local.len < 2 ^ 31 ∨ 2 ^ 64 - 2 ^ 31 ≤ req_cpy_local.len

/-- The descriptors of a pinned request name pages its unpin releases. -/
theorem subs_released {penv : PinEnv} (hpin : req_cpy_local.PinnedBy penv) (hlen : req_cpy_local.Countable)
    (hb : req_cpy_local.user_base < 2 ^ 64) (hk : req_cpy_local.kernel_base < 2 ^ 64) (hl : req_cpy_local.len < 2 ^ 64)
    (hpos : 0 < req_cpy_local.len) (h0 : 0 < req_cpy_local.nr_pages) :
    ∀ e ∈ dir.subs env fuel req_cpy_local hw, e.page ∈ req_cpy_local.releases := by
  intro e he
  rcases hlen with hlt | hge
  · obtain ⟨m, hm, -, hpage, -⟩ := subs_chunks hlt hpos hk e he
    rw [hpage]
    apply hpin.mem_releases
    rw [hpin.nr_pages, nr_pages_of_eq hb hl hpos, card_pagesTouched hpos, s32_of_range] <;>
      unfold RequestCopy.pageIndex PAGE_SIZE at * <;> omega
  · rw [subs_first hl hge e he]
    exact hpin.mem_releases (by omega)

end

/-! ## Sessions -/

structure Session where
  mm : Mm
  log : List Event

namespace Session

/-- The account of an unpin. -/
def unpinEvents (req_cp : RequestCopy) (dirty : Int) : List Event :=
  match req_cp.pages with
  | none => []
  | some a => [.released a.id req_cp.releases dirty]

/-- The account of a pin; one that fails releases what its array holds. -/
def pinEvents (write : Int) : PinResult → RequestCopy → List Event
  | .PIN_NO_USER, _ => []
  | .PIN_SUCCESSFUL, req_cp => (req_cp.pages.map fun a => Event.pinned a.id req_cp.releases write).toList
  | .PIN_FAILED, req_cp =>
    (req_cp.pages.map fun a => Event.pinned a.id req_cp.releases write).toList ++ unpinEvents req_cp SET_DIRTY_OFF

def pin (env : PinEnv) (req_cp : RequestCopy) (write force : Int) (s : Session) : PinResult × RequestCopy × Session :=
  let r := dma_pin_user_pages env s.mm req_cp write force
  (r.1, r.2.1, ⟨r.2.2, s.log ++ pinEvents write r.1 r.2.1⟩)

def pin_prio (env : PinEnv) (req_cp : RequestCopyPrio) (write force : Int) (s : Session) :
    PinResult × RequestCopyPrio × Session :=
  let r := dma_pin_user_pages_prio env s.mm req_cp write force
  (r.1, r.2.1, ⟨r.2.2, s.log ++ pinEvents write r.1 r.2.1.toRequestCopy⟩)

def unpin (req_cp : RequestCopy) (dirty : Int) (s : Session) : Session :=
  ⟨dma_unpin_user_pages s.mm req_cp dirty, s.log ++ unpinEvents req_cp dirty⟩

/-- The account of a chunk loop. -/
def submitEvents (mm : Mm) (dir : Direction) (env : DmaEnv) (fuel : Nat) (req_cpy_local : RequestCopy) (hw : Hw) :
    List Event :=
  match req_cpy_local.pages with
  | none => []
  | some a => (dir.subs env fuel req_cpy_local hw).map (.submitted dir a.id (decide (a.id ∉ mm.freed)))

/-- The account of a copy under a policy. -/
def copyEvents (mm : Mm) (p : PolicyCopy) (env : DmaEnv) (fuel : Nat) (req_cpy_local : RequestCopy) (hw : Hw) :
    List Event :=
  if req_cpy_local.len > 0 ∧ p.chan ≠ none then
    submitEvents mm p.dir env fuel { req_cpy_local with chan := p.chan } hw
  else []

/-- A copy under a policy. -/
def copy (p : PolicyCopy) (env : DmaEnv) (fuel : Nat) (req_cpy_local : RequestCopy) (hw : Hw) (s : Session) :
    Option (Int × RequestCopy × Hw × Session) :=
  (p.run env fuel req_cpy_local hw).map fun (ret, req, hw') =>
    (ret, req, hw', { s with log := s.log ++ (copyEvents s.mm p env fuel req_cpy_local hw ++ [.returned ret req.status]) })

/-! ## Reading the account -/

section

variable {ev : Event} {req_cp : RequestCopy}

theorem mem_unpinEvents {dirty : Int} :
    ev ∈ unpinEvents req_cp dirty ↔ ∃ a, req_cp.pages = some a ∧ ev = .released a.id req_cp.releases dirty := by
  unfold unpinEvents
  cases req_cp.pages <;> simp

theorem mem_pinEvents_successful {write : Int} :
    ev ∈ pinEvents write .PIN_SUCCESSFUL req_cp ↔
      ∃ a, req_cp.pages = some a ∧ ev = .pinned a.id req_cp.releases write := by
  simp [pinEvents, eq_comm]

theorem mem_submitEvents {mm : Mm} {dir : Direction} {env : DmaEnv} {fuel : Nat} {hw : Hw} :
    ev ∈ submitEvents mm dir env fuel req_cp hw ↔
      ∃ a, req_cp.pages = some a ∧
        ∃ e ∈ dir.subs env fuel req_cp hw, ev = .submitted dir a.id (decide (a.id ∉ mm.freed)) e := by
  unfold submitEvents
  cases req_cp.pages <;> simp [eq_comm]

/-- A copy that comes back has submitted something. -/
theorem exists_submitted {p : PolicyCopy} {env : DmaEnv} {fuel : Nat} {hw : Hw} {r : Int × RequestCopy × Hw}
    (h : p.run env fuel req_cp hw = some r) (hpos : 0 < req_cp.len) (hchan : p.chan ≠ none) (mm : Mm) :
    ∃ id live e, .submitted p.dir id live e ∈ copyEvents mm p env fuel req_cp hw := by
  rcases PolicyCopy.run_cases h with ⟨h0, -⟩ | ⟨-, hnone, -⟩ | ⟨-, -, hpages, hpinned⟩
  · omega
  · exact absurd hnone hchan
  · obtain ⟨a, ha⟩ := Option.ne_none_iff_exists'.1 hpages
    obtain ⟨cookie, hw₁, -, -, hchunks, -, -⟩ := Direction.pinned_spec hpinned
    obtain ⟨-, -, e, he, -⟩ := chunks_spec hchunks
    refine ⟨a.id, decide (a.id ∉ mm.freed), e, ?_⟩
    rw [copyEvents, if_pos ⟨hpos, hchan⟩]
    exact mem_submitEvents.2 ⟨a, ha, e, he, rfl⟩

/-- A pin submits nothing, and is not a copy. -/
theorem returned_not_mem_pinEvents {write : Int} {res : PinResult} {ret : Int} {status : DmaStatus} :
    .returned ret status ∉ pinEvents write res req_cp := by
  cases res <;> simp [pinEvents, mem_unpinEvents]

theorem submitted_not_mem_pinEvents {write : Int} {res : PinResult} {dir : Direction} {id : Nat} {live : Bool}
    {e : Sub} : .submitted dir id live e ∉ pinEvents write res req_cp := by
  cases res <;> simp [pinEvents, mem_unpinEvents]

end

/-! ## The boot-time copies -/

/-- `copyUser` with its account. -/
def copyUser (write : Int) (kernelCopy : CopyFn) (dir : Direction) (dirty : Int) (env : DmaEnv) (fuel : Nat)
    (req_cpy_local : RequestCopy) (hw : Hw) (s : Session) : Option (Int × RequestCopy × Hw × Session) :=
  if req_cpy_local.len > 0 then
    let req_cpy_local := { req_cpy_local with chan := env.chan }
    if req_cpy_local.chan = none then some (-EBUSY, req_cpy_local, hw, s)
    else match s.pin env.pin req_cpy_local write 0 with
      | (.PIN_FAILED, req_cpy_local, s) => some (s32 req_cpy_local.len, req_cpy_local, hw, s)
      | (.PIN_NO_USER, req_cpy_local, s) =>
        (kernelCopy env fuel req_cpy_local hw).map fun r => (r.1, r.2.1, r.2.2, s)
      | (.PIN_SUCCESSFUL, req_cpy_local, s) =>
        let submitted := { s with log := s.log ++ submitEvents s.mm dir env fuel req_cpy_local hw }
        (dir.pinned env fuel req_cpy_local hw).map fun r => (r.1, r.2.1, r.2.2, submitted.unpin r.2.1 dirty)
  else some (0, req_cpy_local, hw, s)

def dma_copy_to_user (env : DmaEnv) (fuel : Nat) (req_cpy_local : RequestCopy) (hw : Hw) (s : Session) :
    Option (Int × RequestCopy × Hw × Session) :=
  copyUser PIN_WRITE dma_copy_to_kernel .to_user SET_DIRTY_ON env fuel req_cpy_local hw s

def dma_copy_from_user (env : DmaEnv) (fuel : Nat) (req_cpy_local : RequestCopy) (hw : Hw) (s : Session) :
    Option (Int × RequestCopy × Hw × Session) :=
  copyUser PIN_READ dma_copy_from_kernel .from_user SET_DIRTY_OFF env fuel req_cpy_local hw s

/-- The outcomes of a boot-time copy: nothing pinned, a pin that failed, or the
copies between a pin and its unpin. -/
theorem copyUser_cases {write : Int} {kernelCopy : CopyFn} {dir : Direction} {dirty : Int} {env : DmaEnv} {fuel : Nat}
    {req_cpy_local : RequestCopy} {hw : Hw} {mm : Mm} {r : Int × RequestCopy × Hw × Session}
    (h : copyUser write kernelCopy dir dirty env fuel req_cpy_local hw ⟨mm, []⟩ = some r) {p : PinResult × RequestCopy × Mm}
    (hp : dma_pin_user_pages env.pin mm { req_cpy_local with chan := env.chan } write 0 = p) :
    (¬ (0 < req_cpy_local.len ∧ env.chan ≠ none) ∧ r.2.2.2.log = []) ∨
    (p.1 ≠ .PIN_SUCCESSFUL ∧ r.2.2.2.log = pinEvents write p.1 p.2.1) ∨
    (0 < req_cpy_local.len ∧ env.chan ≠ none ∧ p.1 = .PIN_SUCCESSFUL ∧
      ∃ r', dir.pinned env fuel p.2.1 hw = some r' ∧ r.2.2.1 = r'.2.2 ∧
        r.2.2.2.log = pinEvents write .PIN_SUCCESSFUL p.2.1 ++ submitEvents p.2.2 dir env fuel p.2.1 hw ++
          unpinEvents r'.2.1 dirty) := by
  unfold copyUser at h
  split at h
  next hpos =>
    simp only at h
    split at h
    next hchan =>
      cases h
      exact .inl ⟨fun hc => hc.2 hchan, rfl⟩
    next hchan =>
      simp only [pin, hp, List.nil_append] at h
      obtain ⟨res, req, mm'⟩ := p
      cases res with
      | PIN_FAILED =>
        cases h
        exact .inr (.inl ⟨by simp, rfl⟩)
      | PIN_NO_USER =>
        obtain ⟨r', -, rfl⟩ := Option.map_eq_some_iff.1 h
        exact .inr (.inl ⟨by simp, rfl⟩)
      | PIN_SUCCESSFUL =>
        obtain ⟨r', hr', rfl⟩ := Option.map_eq_some_iff.1 h
        exact .inr (.inr ⟨hpos, hchan, rfl, r', hr', rfl, rfl⟩)
  next hpos =>
    cases h
    exact .inl ⟨fun hc => hpos hc.1, rfl⟩

/-- A result without its account. -/
def erase (r : Int × RequestCopy × Hw × Session) : Int × RequestCopy × St := (r.1, r.2.1, ⟨r.2.2.2.mm, r.2.2.1⟩)

theorem copyUser_erase (write : Int) (kernelCopy : CopyFn) (dir : Direction) (dirty : Int) (env : DmaEnv) (fuel : Nat)
    (req_cpy_local : RequestCopy) (hw : Hw) (s : Session) :
    (copyUser write kernelCopy dir dirty env fuel req_cpy_local hw s).map erase =
      Dmacftu.copyUser write kernelCopy dir.pinned dirty env fuel req_cpy_local ⟨s.mm, hw⟩ := by
  unfold copyUser Dmacftu.copyUser
  split
  · simp only
    split
    · rfl
    · simp only [pin, copyAfterPin]
      generalize dma_pin_user_pages env.pin s.mm { req_cpy_local with chan := env.chan } write 0 = r
      obtain ⟨res, req, mm⟩ := r
      cases res with
      | PIN_FAILED => rfl
      | PIN_NO_USER => simp [Option.map_map, Function.comp_def, erase]
      | PIN_SUCCESSFUL => simp [Option.map_map, Function.comp_def, erase, unpin]
  · rfl

theorem dma_copy_to_user_erase (env : DmaEnv) (fuel : Nat) (req_cpy_local : RequestCopy) (hw : Hw) (s : Session) :
    (dma_copy_to_user env fuel req_cpy_local hw s).map erase =
      Dmacftu.dma_copy_to_user env fuel req_cpy_local ⟨s.mm, hw⟩ :=
  copyUser_erase ..

theorem dma_copy_from_user_erase (env : DmaEnv) (fuel : Nat) (req_cpy_local : RequestCopy) (hw : Hw) (s : Session) :
    (dma_copy_from_user env fuel req_cpy_local hw s).map erase =
      Dmacftu.dma_copy_from_user env fuel req_cpy_local ⟨s.mm, hw⟩ :=
  copyUser_erase ..

end Session

end Dmacftu
