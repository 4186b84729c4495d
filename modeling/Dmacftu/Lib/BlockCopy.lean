import Dmacftu.Lib.CopyEngine
import Mathlib.Logic.Function.Basic
/-!
# The memory a copy in blocks leaves

A client's descriptors go through an engine in submission order, with other
clients' descriptors in between (`Mix`). `Played` says what an engine did since
a given moment, and `Carries` what the client and the others submitted; off the
bytes the others write, the client's own descriptors make the memory
(`Carries.memory`).

`bytes` copies byte by byte, and `Moves` says that a list of descriptors copies
the same bytes in blocks. The two leave the same memory (`Moves.runs_eq`), as
long as no byte is written before it is read.
-/

namespace Lib.CopyEngine

variable {B : Type}

/-! ## Lists of descriptors -/

/-- The memory after the descriptors, one after the other. -/
def runs : List Desc → (Nat → B) → Nat → B
  | [], mem => mem
  | d :: ds, mem => runs ds (d.run mem)

theorem runs_append (ds ds' : List Desc) (mem : Nat → B) : runs (ds ++ ds') mem = runs ds' (runs ds mem) := by
  induction ds generalizing mem with
  | nil => rfl
  | cons d ds ih => exact ih (d.run mem)

theorem runs_of_not_covers {ds : List Desc} {p : Nat} (h : ∀ d ∈ ds, ¬ d.Covers p) (mem : Nat → B) :
    runs ds mem p = mem p := by
  induction ds generalizing mem with
  | nil => rfl
  | cons d ds ih =>
    have hd : d.run mem p = mem p := Desc.run_of_not_covers (h d List.mem_cons_self) mem
    exact (ih (fun d' hd' => h d' (List.mem_cons_of_mem _ hd')) (d.run mem)).trans hd

theorem Engine.play_append (e : Engine B) (evs evs' : List Ev) : e.play (evs ++ evs') = (e.play evs).play evs' :=
  List.foldl_append

/-- An engine that is given some descriptors. -/
theorem Engine.play_submits (e : Engine B) (ds : List Desc) : e.play (ds.map .submit) = { e with log := e.log ++ ds } := by
  induction ds generalizing e with
  | nil => rw [List.append_nil]; rfl
  | cons d ds ih =>
    refine (ih (e.submit d)).trans ?_
    rw [Engine.submit, List.append_assoc, List.singleton_append]

/-- An engine that carries out the next descriptors. -/
theorem Engine.play_runs {e : Engine B} {ds : List Desc} (h : ds <+: e.log.drop e.done) :
    e.play (List.replicate ds.length .run) = { e with mem := runs ds e.mem, done := e.done + ds.length } := by
  induction ds generalizing e with
  | nil => rfl
  | cons d ds ih =>
    obtain ⟨rest, hrest⟩ := h
    have hd : e.log[e.done]? = some d := by
      rw [← List.head?_drop, ← hrest]
      rfl
    have htick : e.tick .run = { e with mem := d.run e.mem, done := e.done + 1 } := by
      rw [Engine.tick, hd]
    have hnext : ds <+: e.log.drop (e.done + 1) := by
      rw [← List.tail_drop, ← hrest]
      exact ⟨rest, rfl⟩
    show Engine.play (e.tick .run) _ = _
    rw [htick, ih hnext, List.length_cons, Nat.add_assoc, Nat.add_comm 1]
    rfl

/-- The descriptor writes only bytes of `others`. -/
def Desc.Within (d : Desc) (others : Nat → Prop) : Prop := ∀ p, d.Covers p → others p

/-- The first list is the second, with descriptors of others in between. -/
inductive Mix (others : Nat → Prop) : List Desc → List Desc → Prop
  | nil : Mix others [] []
  | own {d : Desc} {l ds : List Desc} : Mix others l ds → Mix others (d :: l) (d :: ds)
  | other {d : Desc} {l ds : List Desc} : d.Within others → Mix others l ds → Mix others (d :: l) ds

namespace Mix

variable {others : Nat → Prop} {l l' ds ds' : List Desc}

theorem append (h : Mix others l ds) (h' : Mix others l' ds') : Mix others (l ++ l') (ds ++ ds') := by
  induction h with
  | nil => exact h'
  | own _ ih => exact .own ih
  | other hd _ ih => exact .other hd ih

theorem of_others (h : ∀ d ∈ l, d.Within others) : Mix others l [] := by
  induction l with
  | nil => exact .nil
  | cons d l ih => exact .other (h d List.mem_cons_self) (ih fun d' hd' => h d' (List.mem_cons_of_mem _ hd'))

/-- Two memories that agree off the others' bytes still do after a mix and its
own descriptors, if these read none of the others' bytes. -/
theorem runs_congr (h : Mix others l ds) (hread : ∀ d ∈ ds, ∀ p, d.Covers p → ¬ others (d.src + (p - d.dst)))
    {mem mem' : Nat → B} (hmem : ∀ p, ¬ others p → mem p = mem' p) :
    ∀ p, ¬ others p → runs l mem p = runs ds mem' p := by
  induction h generalizing mem mem' with
  | nil => exact hmem
  | @own d l ds _ ih =>
    apply ih fun d' hd' => hread d' (List.mem_cons_of_mem _ hd')
    intro p hp
    by_cases hc : d.Covers p
    · rw [Desc.run_of_covers hc, Desc.run_of_covers hc]
      exact hmem _ (hread d List.mem_cons_self p hc)
    · rw [Desc.run_of_not_covers hc, Desc.run_of_not_covers hc]
      exact hmem p hp
  | @other d l ds hd _ ih =>
    apply ih hread
    intro p hp
    rw [Desc.run_of_not_covers fun hc => hp (hd p hc)]
    exact hmem p hp

end Mix

/-! ## What an engine did -/

/-- Since there were `mem` in memory and `base` descriptors carried out, the
engine carried out those behind. -/
structure Played (mem : Nat → B) (base : Nat) (e : Engine B) : Prop where
  mem_eq : e.mem = runs ((e.log.take e.done).drop base) mem
  base_le : base ≤ e.done
  done_le : e.done ≤ e.log.length

namespace Played

variable {mem : Nat → B} {base : Nat} {e : Engine B}

theorem start (h : e.done ≤ e.log.length) : Played e.mem e.done e where
  mem_eq := by
    rw [List.drop_eq_nil_of_le (by rw [List.length_take]; omega)]
    rfl
  base_le := Nat.le_refl _
  done_le := h

theorem submit (h : Played mem base e) (d : Desc) : Played mem base (e.submit d) where
  mem_eq := by
    show e.mem = runs (((e.log ++ [d]).take e.done).drop base) mem
    rw [List.take_append_of_le_length h.done_le]
    exact h.mem_eq
  base_le := h.base_le
  done_le := by
    show e.done ≤ (e.log ++ [d]).length
    rw [List.length_append]
    exact Nat.le_trans h.done_le (Nat.le_add_right _ _)

theorem run (h : Played mem base e) : Played mem base (e.tick .run) := by
  simp only [Engine.tick]
  split
  · rename_i d hd
    obtain ⟨hlt, hget⟩ := List.getElem?_eq_some_iff.1 hd
    refine ⟨?_, Nat.le_succ_of_le h.base_le, hlt⟩
    have hle : base ≤ (e.log.take e.done).length := by
      rw [List.length_take]
      have := h.base_le
      omega
    dsimp only
    rw [List.take_succ_eq_append_getElem hlt, hget, List.drop_append_of_le_length hle, runs_append, ← h.mem_eq]
    rfl
  · exact h

theorem play (h : Played mem base e) (evs : List Ev) : Played mem base (e.play evs) := by
  induction evs generalizing e with
  | nil => exact h
  | cons ev evs ih =>
    cases ev with
    | run => exact ih h.run
    | submit d => exact ih (h.submit d)

end Played

/-- What a run of events adds to the log is what others submitted. -/
theorem Engine.log_play (e : Engine B) (evs : List Ev) :
    ∃ tail, (e.play evs).log = e.log ++ tail ∧ ∀ d ∈ tail, Ev.submit d ∈ evs := by
  induction evs generalizing e with
  | nil => exact ⟨[], (List.append_nil _).symm, by simp⟩
  | cons ev evs ih =>
    obtain ⟨tail, hlog, htail⟩ := ih (e.tick ev)
    cases ev with
    | run =>
      refine ⟨tail, hlog.trans ?_, fun d hd => List.mem_cons_of_mem _ (htail d hd)⟩
      simp only [Engine.tick]
      split <;> rfl
    | submit d =>
      refine ⟨d :: tail, hlog.trans (List.append_assoc e.log [d] tail), ?_⟩
      intro d' hd'
      rcases List.mem_cons.1 hd' with rfl | hd'
      · exact List.mem_cons_self
      · exact List.mem_cons_of_mem _ (htail d' hd')

/-- Since the engine was `e₀`, the client submitted `ds`, the last of it as
descriptor number `cookie`, and the others only what keeps to their bytes. -/
structure Carries (others : Nat → Prop) (e₀ : Engine B) (ds : List Desc) (cookie : Nat) (e : Engine B) : Prop where
  played : Played e₀.mem e₀.done e
  log : ∃ l tail, e.log = e₀.log ++ l ++ tail ∧ (e₀.log ++ l).length = cookie ∧ Mix others l ds ∧
    ∀ d ∈ tail, d.Within others

namespace Carries

variable {others : Nat → Prop} {e₀ e : Engine B} {ds : List Desc} {cookie : Nat}

theorem start (h : e₀.done ≤ e₀.log.length) : Carries others e₀ [] e₀.log.length e₀ where
  played := .start h
  log := ⟨[], [], by simp, by simp, .nil, by simp⟩

theorem play (h : Carries others e₀ ds cookie e) {evs : List Ev} (hevs : ∀ d, Ev.submit d ∈ evs → d.Within others) :
    Carries others e₀ ds cookie (e.play evs) := by
  obtain ⟨l, tail, hlog, hlen, hmix, htail⟩ := h.log
  obtain ⟨tail', hlog', htail'⟩ := e.log_play evs
  refine ⟨h.played.play evs, l, tail ++ tail', ?_, hlen, hmix, ?_⟩
  · rw [hlog', hlog, List.append_assoc _ tail]
  · intro d hd
    rcases List.mem_append.1 hd with hd | hd
    · exact htail d hd
    · exact hevs d (htail' d hd)

theorem submit (h : Carries others e₀ ds cookie e) (d : Desc) :
    Carries others e₀ (ds ++ [d]) (e.submit d).log.length (e.submit d) := by
  obtain ⟨l, tail, hlog, -, hmix, htail⟩ := h.log
  have hlog' : (e.submit d).log = e₀.log ++ (l ++ tail ++ [d]) := by
    show e.log ++ [d] = _
    rw [hlog, List.append_assoc, List.append_assoc, List.append_assoc]
  refine ⟨h.played.submit d, l ++ tail ++ [d], [], ?_, congrArg List.length hlog'.symm, ?_, by simp⟩
  · rw [hlog', List.append_nil]
  · have := (hmix.append (Mix.of_others htail)).append (Mix.own (d := d) .nil)
    rwa [List.append_nil] at this

/-- Once the client's last descriptor is through, the memory is what its
descriptors leave, off the others' bytes. -/
theorem memory (h : Carries others e₀ ds cookie e) (hpending : ∀ d ∈ e₀.log.drop e₀.done, d.Within others)
    (hbase : e₀.done ≤ e₀.log.length) (hdone : cookie ≤ e.done)
    (hread : ∀ d ∈ ds, ∀ p, d.Covers p → ¬ others (d.src + (p - d.dst))) :
    ∀ p, ¬ others p → e.mem p = runs ds e₀.mem p := by
  obtain ⟨l, tail, hlog, hlen, hmix, htail⟩ := h.log
  rw [← hlen] at hdone
  have hslice : (e.log.take e.done).drop e₀.done =
      e₀.log.drop e₀.done ++ l ++ tail.take (e.done - (e₀.log ++ l).length) := by
    rw [hlog, List.take_append, List.take_of_length_le hdone, List.append_assoc, List.drop_append_of_le_length hbase,
      List.append_assoc]
  have hall : Mix others ((e.log.take e.done).drop e₀.done) ds := by
    have htake : ∀ d ∈ tail.take (e.done - (e₀.log ++ l).length), d.Within others :=
      fun d hd => htail d (List.mem_of_mem_take hd)
    have := ((Mix.of_others hpending).append hmix).append (Mix.of_others htake)
    rw [hslice]
    rwa [List.nil_append, List.append_nil] at this
  rw [h.played.mem_eq]
  exact hall.runs_congr hread fun _ _ => rfl

end Carries

/-! ## Byte by byte -/

/-- Copy `n` bytes, the `i`th from `src i` to `dst i`, in order. -/
def bytes (src dst : Nat → Nat) : Nat → (Nat → B) → Nat → B
  | 0, mem => mem
  | n + 1, mem =>
    let mem := bytes src dst n mem
    Function.update mem (dst n) (mem (src n))

section

variable {src dst : Nat → Nat}

theorem bytes_frame {n p : Nat} (h : ∀ i < n, dst i ≠ p) (mem : Nat → B) : bytes src dst n mem p = mem p := by
  induction n with
  | zero => rfl
  | succ n ih =>
    rw [bytes, Function.update_of_ne (h n (Nat.lt_succ_self n)).symm]
    exact ih fun i hi => h i (Nat.lt_succ_of_lt hi)

theorem bytes_last {n : Nat} (h : ∀ i < n, dst i ≠ src n) (mem : Nat → B) :
    bytes src dst (n + 1) mem (dst n) = mem (src n) := by
  rw [bytes, Function.update_self, bytes_frame h]

/-- Bytes that go to places of their own, none of them read from, arrive. -/
theorem bytes_get {n : Nat} (hinj : ∀ i < n, ∀ j < n, dst i = dst j → i = j) (h : ∀ i < n, ∀ j < n, dst i ≠ src j)
    {k : Nat} (hk : k < n) (mem : Nat → B) : bytes src dst n mem (dst k) = mem (src k) := by
  induction n with
  | zero => exact absurd hk (Nat.not_lt_zero k)
  | succ n ih =>
    rcases Nat.lt_succ_iff_lt_or_eq.1 hk with hlt | rfl
    · have hne : dst k ≠ dst n := fun heq => Nat.ne_of_lt hlt (hinj k hk n (Nat.lt_succ_self n) heq)
      rw [bytes, Function.update_of_ne hne]
      exact ih (fun i hi j hj => hinj i (Nat.lt_succ_of_lt hi) j (Nat.lt_succ_of_lt hj))
        (fun i hi j hj => h i (Nat.lt_succ_of_lt hi) j (Nat.lt_succ_of_lt hj)) hlt
    · exact bytes_last (fun i hi => h i (Nat.lt_succ_of_lt hi) k hk) mem

theorem bytes_congr {src' dst' : Nat → Nat} {n : Nat} (hs : ∀ i < n, src i = src' i) (hd : ∀ i < n, dst i = dst' i)
    (mem : Nat → B) : bytes src dst n mem = bytes src' dst' n mem := by
  induction n with
  | zero => rfl
  | succ n ih =>
    rw [bytes, bytes, ih (fun i hi => hs i (Nat.lt_succ_of_lt hi)) (fun i hi => hd i (Nat.lt_succ_of_lt hi)),
      hs n (Nat.lt_succ_self n), hd n (Nat.lt_succ_self n)]

/-- Over consecutive bytes, a block and its bytes come to the same. -/
theorem bytes_block {m l d s : Nat} (hd : ∀ j < l, d + j = dst (m + j)) (hs : ∀ j < l, s + j = src (m + j))
    (h : ∀ i j, i < j → j < m + l → dst i ≠ src j) (mem : Nat → B) :
    bytes src dst (m + l) mem = (Desc.mk d s l).run (bytes src dst m mem) := by
  induction l with
  | zero =>
    funext p
    rw [Desc.run_of_not_covers fun hc => by unfold Desc.Covers at hc; dsimp only at hc; omega]
    rfl
  | succ l ih =>
    have hd' := hd l (Nat.lt_succ_self l)
    have hs' := hs l (Nat.lt_succ_self l)
    have hl := ih (fun j hj => hd j (Nat.lt_succ_of_lt hj)) (fun j hj => hs j (Nat.lt_succ_of_lt hj))
      fun i j hij hj => h i j hij (by omega)
    -- the byte read next is not among those the block has written
    have hsrc : ¬ (Desc.mk d s l).Covers (s + l) := by
      rintro ⟨h1, h2⟩
      dsimp only at h1 h2
      refine h (m + (s + l - d)) (m + l) (by omega) (by omega) ?_
      rw [← hd (s + l - d) (by omega), ← hs']
      omega
    show Function.update (bytes src dst (m + l) mem) (dst (m + l)) (bytes src dst (m + l) mem (src (m + l))) = _
    rw [hl, ← hd', ← hs', Desc.run_of_not_covers hsrc]
    funext p
    by_cases hp : p = d + l
    · subst hp
      rw [Function.update_self, Desc.run_of_covers ⟨Nat.le_add_right _ _, Nat.lt_succ_self _⟩, Nat.add_sub_cancel_left]
    · rw [Function.update_of_ne hp]
      by_cases hc : (Desc.mk d s l).Covers p
      · have hc' : (Desc.mk d s (l + 1)).Covers p := ⟨hc.1, Nat.lt_add_right 1 hc.2⟩
        rw [Desc.run_of_covers hc, Desc.run_of_covers hc']
      · have hc' : ¬ (Desc.mk d s (l + 1)).Covers p := by
          unfold Desc.Covers at hc ⊢
          dsimp only at hc ⊢
          omega
        rw [Desc.run_of_not_covers hc, Desc.run_of_not_covers hc']

end

/-! ## In blocks -/

/-- The descriptors move the first so many bytes, each a block of consecutive
ones. -/
inductive Moves (src dst : Nat → Nat) : Nat → List Desc → Prop
  | nil : Moves src dst 0 []
  | snoc {m : Nat} {ds : List Desc} {d : Desc} : Moves src dst m ds → 0 < d.len →
      (∀ j < d.len, d.dst + j = dst (m + j)) → (∀ j < d.len, d.src + j = src (m + j)) →
      Moves src dst (m + d.len) (ds ++ [d])

namespace Moves

variable {src dst : Nat → Nat} {m : Nat} {ds : List Desc}

/-- What a descriptor writes and reads is a byte of the copy. -/
theorem covers (h : Moves src dst m ds) {d : Desc} (hd : d ∈ ds) {p : Nat} (hc : d.Covers p) :
    ∃ i < m, dst i = p ∧ src i = d.src + (p - d.dst) := by
  induction h with
  | nil => cases hd
  | @snoc m ds d' _ _ hdst hsrc ih =>
    rcases List.mem_append.1 hd with hd | hd
    · obtain ⟨i, hi, hp⟩ := ih hd
      exact ⟨i, Nat.lt_add_right _ hi, hp⟩
    · obtain rfl := List.mem_singleton.1 hd
      obtain ⟨h1, h2⟩ := hc
      have hj : p - d.dst < d.len := by omega
      refine ⟨m + (p - d.dst), Nat.add_lt_add_left hj m, ?_, (hsrc _ hj).symm⟩
      rw [← hdst _ hj]
      omega

theorem frame (h : Moves src dst m ds) {p : Nat} (hp : ∀ i < m, dst i ≠ p) (mem : Nat → B) : runs ds mem p = mem p := by
  apply runs_of_not_covers
  intro d hd hc
  obtain ⟨i, hi, hdst, -⟩ := h.covers hd hc
  exact hp i hi hdst

/-- The last byte comes last, whatever was written to the same place before. -/
theorem last (h : Moves src dst (m + 1) ds) (hs : ∀ i < m + 1, dst i ≠ src m) (mem : Nat → B) :
    runs ds mem (dst m) = mem (src m) := by
  generalize hn : m + 1 = n at h hs
  cases h with
  | nil => omega
  | @snoc m₀ ds d h hlen hdst hsrc =>
    have hm : m = m₀ + (d.len - 1) := by omega
    have hd := hdst (d.len - 1) (by omega)
    have hr := hsrc (d.len - 1) (by omega)
    rw [← hm] at hd hr
    have hc : d.Covers (dst m) := by
      rw [← hd]
      exact ⟨Nat.le_add_right _ _, by omega⟩
    rw [runs_append]
    show d.run (runs ds mem) (dst m) = _
    rw [Desc.run_of_covers hc, ← hd, Nat.add_sub_cancel_left, hr]
    exact h.frame (fun i hi => hs i (Nat.lt_add_right _ hi)) mem

/-- Block by block and byte by byte, the same memory. -/
theorem runs_eq (h : Moves src dst m ds) (hs : ∀ i j, i < j → j < m → dst i ≠ src j) (mem : Nat → B) :
    runs ds mem = bytes src dst m mem := by
  induction h with
  | nil => rfl
  | @snoc m ds d _ _ hdst hsrc ih =>
    rw [runs_append, ih fun i j hij hj => hs i j hij (Nat.lt_add_right _ hj), bytes_block hdst hsrc hs]
    rfl

end Moves

end Lib.CopyEngine
