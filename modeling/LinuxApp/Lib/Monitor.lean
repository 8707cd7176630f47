import Mathlib.Data.Fintype.Card
import Mathlib.Data.Finset.Card

/-!
# A mutex with one condition variable

`Monitor T` is a POSIX mutex and the wait set of one condition variable, shared
by threads `T`. The five operations are partial: `none` says that the thread
cannot take the step now (`acquire` of a held mutex) or that POSIX does not allow
it (`release` by another thread). `signal` wakes any set of sleepers, nonempty
when somebody sleeps; `wake` is a spurious wake-up. A woken thread is out of the
wait set and still has to `acquire`.

`m.Coherent place` ties the monitor to where each thread stands in its code
(`Place`), and each operation has one lemma that keeps it. `woken` counts the
threads on their way back from the wait set.
-/

namespace LinuxApp.Lib

structure Monitor (T : Type) where
  owner : Option T
  waiting : Finset T

/-- Where a thread stands with respect to the mutex. -/
inductive Place where
  | outside
  | inside
  /-- In the wait: asleep, or woken and not yet the owner again. -/
  | blocked
  deriving DecidableEq

namespace Monitor

variable {T : Type} [DecidableEq T]

def free : Monitor T := ⟨none, ∅⟩

def acquire (m : Monitor T) (t : T) : Option (Monitor T) :=
  if m.owner = none ∧ t ∉ m.waiting then some { m with owner := some t } else none

def release (m : Monitor T) (t : T) : Option (Monitor T) :=
  if m.owner = some t then some { m with owner := none } else none

/-- Release the mutex and fall asleep, in one step. -/
def wait (m : Monitor T) (t : T) : Option (Monitor T) :=
  if m.owner = some t then some ⟨none, insert t m.waiting⟩ else none

def signal (m : Monitor T) (woken : Finset T) : Option (Monitor T) :=
  if woken ⊆ m.waiting ∧ (woken = ∅ → m.waiting = ∅) then
    some { m with waiting := m.waiting \ woken }
  else none

def wake (m : Monitor T) (t : T) : Option (Monitor T) :=
  if t ∈ m.waiting then some { m with waiting := m.waiting.erase t } else none

section Inversion

variable {m m' : Monitor T} {t : T} {woken : Finset T}

theorem acquire_eq_some : m.acquire t = some m' ↔
    m.owner = none ∧ t ∉ m.waiting ∧ m' = ⟨some t, m.waiting⟩ := by
  unfold acquire
  split <;> simp_all [eq_comm]

theorem release_eq_some : m.release t = some m' ↔
    m.owner = some t ∧ m' = ⟨none, m.waiting⟩ := by
  unfold release
  split <;> simp_all [eq_comm]

theorem wait_eq_some : m.wait t = some m' ↔
    m.owner = some t ∧ m' = ⟨none, insert t m.waiting⟩ := by
  unfold wait
  split <;> simp_all [eq_comm]

theorem signal_eq_some : m.signal woken = some m' ↔
    woken ⊆ m.waiting ∧ (woken = ∅ → m.waiting = ∅) ∧ m' = ⟨m.owner, m.waiting \ woken⟩ := by
  unfold signal
  split
  · next h => exact ⟨fun e => ⟨h.1, h.2, (Option.some.inj e).symm⟩, fun e => by rw [e.2.2]⟩
  · next h => simp only [false_iff, reduceCtorEq]; tauto

theorem wake_eq_some : m.wake t = some m' ↔
    t ∈ m.waiting ∧ m' = ⟨m.owner, m.waiting.erase t⟩ := by
  unfold wake
  split <;> simp_all [eq_comm]

end Inversion

/-- The mutex is held by exactly the thread that is inside, and only blocked
threads sleep. -/
structure Coherent (m : Monitor T) (place : T → Place) : Prop where
  owner : ∀ t, m.owner = some t ↔ place t = .inside
  asleep : ∀ t ∈ m.waiting, place t = .blocked

namespace Coherent

variable {place : T → Place} {m m' : Monitor T} {t u : T} {woken : Finset T}

omit [DecidableEq T] in
theorem init {place : T → Place} (h : ∀ t, place t = .outside) : free.Coherent place :=
  ⟨fun t => by simp [free, h t], fun t ht => by simp [free] at ht⟩

omit [DecidableEq T] in
/-- Mutual exclusion. -/
theorem unique (h : m.Coherent place) (ht : place t = .inside) (hu : place u = .inside) : t = u :=
  Option.some.inj (((h.owner t).2 ht).symm.trans ((h.owner u).2 hu))

theorem acquire (h : m.Coherent place) (ha : m.acquire t = some m') :
    m'.Coherent (Function.update place t .inside) := by
  obtain ⟨hfree, hnot, rfl⟩ := acquire_eq_some.mp ha
  refine ⟨fun u => ?_, fun u hu => ?_⟩
  · by_cases hut : u = t
    · subst hut; simp
    · have hno : place u ≠ .inside := fun e => by
        have := (h.owner u).2 e
        rw [hfree] at this; cases this
      simp [hut, hno, Ne.symm hut]
  · have hut : u ≠ t := fun e => hnot (e ▸ hu)
    simpa [hut] using h.asleep u hu

/-- Leaving the inside for `p`, with the mutex given up. -/
theorem leave (h : m.Coherent place) (ho : m.owner = some t) {p : Place} (hp : p ≠ .inside)
    {waiting : Finset T} (hw : ∀ u ∈ waiting, u ≠ t → u ∈ m.waiting)
    (ht : t ∈ waiting → p = .blocked) :
    Coherent ⟨none, waiting⟩ (Function.update place t p) := by
  refine ⟨fun u => ?_, fun u hu => ?_⟩
  · by_cases hut : u = t
    · subst hut; simp [hp]
    · have hno : place u ≠ .inside := fun e => hut (h.unique e ((h.owner t).1 ho))
      simp [hut, hno]
  · by_cases hut : u = t
    · subst hut; simpa using ht hu
    · simpa [hut] using h.asleep u (hw u hu hut)

omit [DecidableEq T] in
theorem not_asleep (h : m.Coherent place) (ht : place t ≠ .blocked) : t ∉ m.waiting :=
  fun hm => ht (h.asleep t hm)

theorem release (h : m.Coherent place) (hr : m.release t = some m') :
    m'.Coherent (Function.update place t .outside) := by
  obtain ⟨ho, rfl⟩ := release_eq_some.mp hr
  have hin : place t = .inside := (h.owner t).1 ho
  exact h.leave ho (by decide) (fun u hu _ => hu)
    fun hm => absurd hm (h.not_asleep (by simp [hin]))

theorem wait (h : m.Coherent place) (hw : m.wait t = some m') :
    m'.Coherent (Function.update place t .blocked) := by
  obtain ⟨ho, rfl⟩ := wait_eq_some.mp hw
  exact h.leave ho (by decide) (fun u hu hne => (Finset.mem_insert.mp hu).resolve_left hne)
    fun _ => rfl

theorem signal (h : m.Coherent place) (hs : m.signal woken = some m') : m'.Coherent place := by
  obtain ⟨-, -, rfl⟩ := signal_eq_some.mp hs
  exact ⟨h.owner, fun t ht => h.asleep t (Finset.mem_sdiff.mp ht).1⟩

theorem wake (h : m.Coherent place) (hw : m.wake t = some m') : m'.Coherent place := by
  obtain ⟨-, rfl⟩ := wake_eq_some.mp hw
  exact ⟨h.owner, fun u hu => h.asleep u (Finset.mem_of_mem_erase hu)⟩

end Coherent

/-! ## Woken threads -/

variable [Fintype T]

/-- How many threads were woken and do not own the mutex again yet. -/
def woken (place : T → Place) (m : Monitor T) : Nat :=
  (Finset.univ.filter fun t => place t = .blocked ∧ t ∉ m.waiting).card

section Woken

variable {place : T → Place} {m m' : Monitor T} {t : T} {W : Finset T}

/-- A thread that moves without passing through the wait leaves the count alone. -/
theorem woken_update {p : Place} (ht : place t ≠ .blocked) (hp : p ≠ .blocked)
    (hw : m'.waiting = m.waiting) : woken (Function.update place t p) m' = woken place m := by
  unfold woken
  congr 1
  apply Finset.filter_congr
  intro u _
  by_cases hut : u = t
  · subst hut; simp [ht, hp]
  · simp [hut, hw]

theorem woken_acquire (ha : m.acquire t = some m') :
    woken place m ≤ woken (Function.update place t .inside) m' + 1 := by
  obtain ⟨-, -, rfl⟩ := acquire_eq_some.mp ha
  unfold woken
  refine le_trans (Finset.card_le_card (t := insert t (Finset.univ.filter fun u =>
    Function.update place t .inside u = .blocked ∧ u ∉ m.waiting)) ?_) (Finset.card_insert_le _ _)
  intro u hu
  simp only [Finset.mem_filter, Finset.mem_univ, true_and, Finset.mem_insert] at hu ⊢
  by_cases hut : u = t
  · exact .inl hut
  · exact .inr (by simpa [hut] using hu)

/-- A signal with a sleeper present moves at least one thread to the woken. -/
theorem woken_signal (hc : m.Coherent place) (hs : m.signal W = some m')
    (hne : m.waiting.Nonempty) : woken place m + 1 ≤ woken place m' := by
  obtain ⟨hsub, hnone, rfl⟩ := signal_eq_some.mp hs
  have hW : W.Nonempty := by
    by_contra h
    rw [Finset.not_nonempty_iff_eq_empty] at h
    simp [hnone h] at hne
  unfold woken
  refine Finset.card_lt_card (Finset.ssubset_iff_of_subset (fun u hu => ?_) |>.2 ?_)
  · simp only [Finset.mem_filter, Finset.mem_univ, true_and, Finset.mem_sdiff] at hu ⊢
    exact ⟨hu.1, fun h => hu.2 h.1⟩
  · obtain ⟨u, hu⟩ := hW
    refine ⟨u, ?_, ?_⟩
    · simp [hc.asleep u (hsub hu), hu]
    · simp [hsub hu]

theorem woken_mono {m m' : Monitor T} (h : m'.waiting ⊆ m.waiting) :
    woken place m ≤ woken place m' := by
  refine Finset.card_le_card fun u hu => ?_
  simp only [Finset.mem_filter, Finset.mem_univ, true_and] at hu ⊢
  exact ⟨hu.1, fun hm => hu.2 (h hm)⟩

end Woken

end Monitor

end LinuxApp.Lib
