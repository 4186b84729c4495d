import Mathlib.Logic.Function.Basic
/-!
# A mutex and a condition variable

`wait` gives the mutex back and blocks; the thread is let go by a `broadcast`, or by nothing at
all (`wake`), and then has to take the mutex again. Operations are `none` where they block, or
where the mutex is not the thread's.

`Excludes` says that only the holder of the mutex is inside the section, and has a rule for each
operation.
-/

namespace Lib.Condvar

variable {T : Type}

structure Monitor (T : Type) where
  holder : Option T
  waiting : T → Bool

def Monitor.free : Monitor T := ⟨none, fun _ => false⟩

def Monitor.lock (m : Monitor T) (t : T) : Option (Monitor T) :=
  if m.holder = none then some { m with holder := some t } else none

def Monitor.broadcast (m : Monitor T) : Monitor T := { m with waiting := fun _ => false }

/-- The return from `wait`. -/
def Monitor.resume (m : Monitor T) (t : T) : Option (Monitor T) := if m.waiting t then none else m.lock t

variable {m m' : Monitor T} {t : T}

theorem lock_eq (h : m.lock t = some m') : m.holder = none ∧ m' = { m with holder := some t } := by
  unfold Monitor.lock at h
  split at h
  next hfree => exact ⟨hfree, (Option.some.inj h).symm⟩
  next => cases h

theorem resume_eq (h : m.resume t = some m') :
    m.waiting t = false ∧ m.holder = none ∧ m' = { m with holder := some t } := by
  unfold Monitor.resume at h
  split at h
  next => cases h
  next hgo => exact ⟨by simpa using hgo, lock_eq h⟩

section

variable [DecidableEq T]

def Monitor.unlock (m : Monitor T) (t : T) : Option (Monitor T) :=
  if m.holder = some t then some { m with holder := none } else none

def Monitor.wait (m : Monitor T) (t : T) : Option (Monitor T) :=
  if m.holder = some t then some ⟨none, Function.update m.waiting t true⟩ else none

/-- A wake-up that nobody has called for. -/
def Monitor.wake (m : Monitor T) (t : T) : Option (Monitor T) :=
  if m.waiting t then some { m with waiting := Function.update m.waiting t false } else none

theorem unlock_eq (h : m.unlock t = some m') : m.holder = some t ∧ m' = { m with holder := none } := by
  unfold Monitor.unlock at h
  split at h
  next hheld => exact ⟨hheld, (Option.some.inj h).symm⟩
  next => cases h

theorem wait_eq (h : m.wait t = some m') : m.holder = some t ∧ m' = ⟨none, Function.update m.waiting t true⟩ := by
  unfold Monitor.wait at h
  split at h
  next hheld => exact ⟨hheld, (Option.some.inj h).symm⟩
  next => cases h

theorem wake_eq (h : m.wake t = some m') :
    m.waiting t = true ∧ m' = { m with waiting := Function.update m.waiting t false } := by
  unfold Monitor.wake at h
  split at h
  next hwait => exact ⟨hwait, (Option.some.inj h).symm⟩
  next => cases h

end

/-- Who is inside is the holder. -/
def Monitor.Excludes (m : Monitor T) (inside : T → Prop) : Prop := ∀ t, inside t → m.holder = some t

section

variable {u : T} {inside inside' : T → Prop}

theorem Monitor.Excludes.unique (h : m.Excludes inside) (ht : inside t) (hu : inside u) : t = u :=
  Option.some.inj ((h t ht).symm.trans (h u hu))

/-- Nobody else comes in. -/
theorem Monitor.Excludes.mono (h : m.Excludes inside) (hinside : ∀ t, inside' t → inside t)
    (hholder : m'.holder = m.holder) : m'.Excludes inside' := fun t ht => hholder.trans (h t (hinside t ht))

/-- After taking the mutex the thread is the only one that may be inside. -/
theorem Monitor.Excludes.enter (h : m.Excludes inside) (hfree : m.holder = none)
    (hinside : ∀ u, inside' u → u = t ∨ inside u) (hholder : m'.holder = some t) : m'.Excludes inside' := by
  intro u hu
  rcases hinside u hu with rfl | hold
  · exact hholder
  · rw [h u hold] at hfree
    cases hfree

/-- The holder leaves, and nobody is inside. -/
theorem Monitor.Excludes.leave (h : m.Excludes inside) (hheld : m.holder = some t)
    (hinside : ∀ u, inside' u → inside u ∧ u ≠ t) : m'.Excludes inside' := by
  intro u hu
  obtain ⟨hold, hne⟩ := hinside u hu
  rw [h u hold] at hheld
  exact absurd (Option.some.inj hheld) hne

end

end Lib.Condvar
