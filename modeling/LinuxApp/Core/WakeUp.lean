import LinuxApp.Core.QueueInvariant

/-!
# No lost wake-up

`WakeInv` bounds the queued messages while some consumer sleeps: by the woken
consumers that are still on their way to the lock, plus `slack`, which is one
while the holder of the lock is between adding a message and its signal, or is a
consumer that has not re-tested `count` yet. A thread falls asleep only having
seen `count = 0`, and a signal with a sleeper present wakes at least one, so no
line breaks the bound. With the mutex free the slack is zero.

The last section is about a consumer on its way to a message, while there is one and
while there is none.
-/

namespace LinuxApp.Core

open Lib

/-- The messages the holder of the lock at this line accounts for itself. -/
def Pc.slack : Pc → Nat
  | .pushSignal _ | .popTest | .popCopy => 1
  | _ => 0

namespace QState

variable {T : Type} [DecidableEq T] [Fintype T]

/-- How many consumers were woken and have not re-acquired the lock yet. -/
def woken (s : QState T) : Nat := s.mon.woken s.place

def slack (s : QState T) : Nat :=
  match s.mon.owner with
  | none => 0
  | some t => (s.pc t).slack

def WakeInv (s : QState T) : Prop :=
  s.mon.waiting.Nonempty → s.q.count ≤ s.woken + s.slack

section Line

variable {s s' r : QState T} {t : T} {W : Finset T}

omit [Fintype T] in
theorem slack_goto {p : Pc} (ho : r.mon.owner = some t) : (r.goto t p).slack = p.slack := by
  simp [slack, ho]

omit [Fintype T] in
theorem slack_free {p : Pc} (ho : r.mon.owner = none) : (r.goto t p).slack = 0 := by
  simp [slack, ho]

omit [DecidableEq T] [Fintype T] in
theorem slack_of_pc {p : Pc} (ho : s.mon.owner = some t) (hpc : s.pc t = p) :
    s.slack = p.slack := by
  rw [slack, ho]
  exact congrArg Pc.slack hpc

/-- A line that does not touch the wait set and moves between places other than the wait. -/
theorem woken_goto {p p' : Pc} (hpc : s.pc t = p) (h₁ : r.pc = s.pc)
    (hw : r.mon.waiting = s.mon.waiting) (hp : p.place ≠ .blocked) (hp' : p'.place ≠ .blocked) :
    (r.goto t p').woken = s.woken := by
  have hplace : r.place = s.place := funext fun u => congrArg Pc.place (congrFun h₁ u)
  rw [woken, place_goto, hplace, goto_mon]
  exact Monitor.woken_update (by rw [place_of_pc hpc]; exact hp) hp' hw

/-- The holder passes on its slack with the change it makes to `count`. -/
theorem wake_inside {p p' : Pc} {q : MsgQueue} {mon : Monitor T} (hi : s.WakeInv)
    (ho : s.mon.owner = some t) (hpc : s.pc t = p) (hp : p.place ≠ .blocked)
    (hp' : p'.place ≠ .blocked) (hmon : mon.waiting = s.mon.waiting)
    (hq : q.count + p.slack ≤ s.q.count + (if mon.owner = some t then p'.slack else 0))
    (hown : mon.owner = some t ∨ mon.owner = none) (log : List (Event T)) :
    (QState.goto ⟨q, mon, s.pc, log⟩ t p').WakeInv := by
  intro hne
  have hne' : s.mon.waiting.Nonempty := by rw [← hmon]; exact hne
  have h := hi hne'
  rw [slack_of_pc ho hpc] at h
  rw [woken_goto (r := ⟨q, mon, s.pc, log⟩) hpc rfl hmon hp hp']
  rcases hown with hown | hown
  · rw [slack_goto (r := ⟨q, mon, s.pc, log⟩) hown]
    simp only [hown, if_true] at hq
    simp only [goto_q]
    omega
  · rw [slack_free (r := ⟨q, mon, s.pc, log⟩) hown]
    simp only [hown, reduceCtorEq, if_false] at hq
    simp only [goto_q]
    omega

/-- Taking the lock: a woken consumer leaves the woken and brings the slack of `popTest`. -/
theorem wake_acquire {p' : Pc} {mon : Monitor T} (hi : s.WakeInv)
    (hm : s.mon.acquire t = some mon) (hplace : p'.place = .inside)
    (hp : s.place t ≠ .blocked ∨ p'.slack = 1) :
    (QState.goto { s with mon } t p').WakeInv := by
  obtain ⟨hfree, hnot, rfl⟩ := Monitor.acquire_eq_some.mp hm
  intro hne
  have h := hi hne
  have hslack : s.slack = 0 := by simp [slack, hfree]
  rw [slack_goto (r := { s with mon := ⟨some t, s.mon.waiting⟩ }) rfl]
  rcases hp with hp | hp
  · have hw : (QState.goto { s with mon := ⟨some t, s.mon.waiting⟩ } t p').woken = s.woken :=
      woken_goto (s := s) rfl rfl rfl hp (by simp [hplace])
    rw [hw]
    simp only [goto_q]
    omega
  · have hw : s.mon.woken s.place ≤ _ := Monitor.woken_acquire hm
    have hpl : (QState.goto { s with mon := ⟨some t, s.mon.waiting⟩ } t p').place =
        Function.update s.place t .inside := by rw [place_goto, hplace]; rfl
    rw [woken, hpl]
    simp only [goto_q, goto_mon]
    simp only [woken] at h
    omega

/-- The signal moves a sleeper to the woken, which replaces the slack. -/
theorem wake_signal {m : AppMsg} {mon : Monitor T} (hi : s.WakeInv) (hc : s.mon.Coherent s.place)
    (hpc : s.pc t = .pushSignal m) (hm : s.mon.signal W = some mon) :
    (QState.goto { s with mon } t (.pushUnlock m 0)).WakeInv := by
  have ho := owner_of_inside hc hpc rfl
  have hsub : mon.waiting ⊆ s.mon.waiting := by
    obtain ⟨-, -, rfl⟩ := Monitor.signal_eq_some.mp hm
    exact Finset.sdiff_subset
  have hown : mon.owner = some t := by
    obtain ⟨-, -, rfl⟩ := Monitor.signal_eq_some.mp hm
    exact ho
  intro hne
  have hne' : s.mon.waiting.Nonempty := Finset.Nonempty.mono hsub hne
  have h := hi hne'
  have hw := Monitor.woken_signal hc hm hne'
  have hsame : (QState.goto { s with mon } t (.pushUnlock m 0)).woken = mon.woken s.place :=
    woken_goto (s := { s with mon }) hpc rfl rfl (by simp [Pc.place]) (by simp [Pc.place])
  rw [slack_of_pc ho hpc] at h
  rw [hsame, slack_goto (r := { s with mon }) hown]
  simp only [woken, Pc.slack, goto_q] at h ⊢
  omega

theorem wake_ran (hi : s.WakeInv) (hs : s.Inv) (h : Ran s t W s') : s'.WakeInv := by
  have hc := hs.coherent
  cases h with
  | pushLock hpc hm | popLock hpc hm =>
    exact wake_acquire hi hm rfl (.inl (by simp [place_of_pc hpc, Pc.place]))
  | popRelock hpc hm => exact wake_acquire hi hm rfl (.inr rfl)
  | pushFull hpc _ | pushRoom hpc _ | popSome hpc _ =>
    have ho := owner_of_inside hc hpc rfl
    exact wake_inside hi ho hpc (by simp [Pc.place]) (by simp [Pc.place]) rfl
      (by simp [ho, Pc.slack]) (.inl ho) _
  | @pushCopy m q hpc hq =>
    have ho := owner_of_inside hc hpc rfl
    obtain ⟨q', hq', -, -, hcount⟩ := hs.ok.copyIn m (by simpa [hpc, Pc.Fact] using hs.fact t)
    obtain rfl : q' = q := Option.some.inj (hq'.symm.trans hq)
    exact wake_inside hi ho hpc (by simp [Pc.place]) (by simp [Pc.place]) rfl
      (by simp [ho, Pc.slack, hcount]) (.inl ho) _
  | popCopy hpc hq =>
    have ho := owner_of_inside hc hpc rfl
    obtain ⟨m, q', hq', -, -, hcount⟩ := hs.ok.copyOut (by simpa [hpc, Pc.Fact] using hs.fact t)
    obtain ⟨rfl, rfl⟩ := Prod.mk.inj (Option.some.inj (hq'.symm.trans hq))
    exact wake_inside hi ho hpc (by simp [Pc.place]) (by simp [Pc.place]) rfl
      (by simp [ho, Pc.slack, hcount]) (.inl ho) _
  | pushSignal hpc hm => exact wake_signal hi hc hpc hm
  | popEmpty _ he =>
    -- the test that sends a consumer to sleep sees no message
    intro _
    have hzero : s.q.count = 0 := by simpa [MsgQueue.empty] using he
    simp only [goto_q]
    omega
  | popSleep hpc _ =>
    intro _
    have hzero : s.q.count = 0 := by simpa [hpc, Pc.Fact] using hs.fact t
    simp only [goto_q]
    omega
  | pushUnlock hpc hm | popUnlock hpc hm =>
    have ho := owner_of_inside hc hpc rfl
    obtain ⟨-, rfl⟩ := Monitor.release_eq_some.mp hm
    exact wake_inside hi ho hpc (by simp [Pc.place]) (by simp [Pc.place]) (by rfl)
      (by simp [Pc.slack]) (.inr (by rfl)) _

/-- A call starts outside the lock and outside the wait. -/
theorem wake_call {op : Op} (hi : s.WakeInv) (hs : s.Inv) (h : s.call t op = some s') :
    s'.WakeInv := by
  obtain ⟨hpc, rfl⟩ := call_eq_some.mp h
  intro hne
  have hentry : op.entry.place = .outside := by cases op <;> rfl
  have hw : ((s.emit (.call t op)).goto t op.entry).woken = s.woken :=
    woken_goto hpc rfl rfl nofun (by simp [hentry])
  have hslack : ((s.emit (.call t op)).goto t op.entry).slack = s.slack := by
    simp only [slack, goto_mon, emit_mon, goto_pc, emit_pc]
    split
    · rfl
    · next u hu =>
      have hin := (hs.coherent.owner u).1 hu
      have hut : u ≠ t := by
        rintro rfl
        rw [place_of_pc hpc] at hin
        cases hin
      rw [Function.update_of_ne hut]
  rw [hw, hslack]
  exact hi hne

/-- Spurious wake-ups only add to the woken. -/
theorem wake_spurious {mon : Monitor T} (hi : s.WakeInv) (hm : s.mon.wake t = some mon) :
    ({ s with mon } : QState T).WakeInv := by
  obtain ⟨-, rfl⟩ := Monitor.wake_eq_some.mp hm
  have hsub : s.mon.waiting.erase t ⊆ s.mon.waiting := Finset.erase_subset _ _
  intro hne
  have h := hi (Finset.Nonempty.mono hsub hne)
  have hw : s.mon.woken s.place ≤ Monitor.woken s.place ⟨s.mon.owner, s.mon.waiting.erase t⟩ :=
    Monitor.woken_mono hsub
  show s.q.count ≤ (Monitor.woken s.place ⟨s.mon.owner, s.mon.waiting.erase t⟩ : Nat) + s.slack
  simp only [woken] at h
  omega

end Line

theorem wake_step {s s' : QState T} {a : QAct T} (hi : s.WakeInv) (hs : s.Inv)
    (h : s.step a = some s') : s'.WakeInv := by
  cases a with
  | call t op => exact wake_call hi hs h
  | run t woken => exact wake_ran hi hs (ran_of_run h)
  | wake t =>
    obtain ⟨mon, hm, rfl⟩ := Option.map_eq_some_iff.mp h
    exact wake_spurious hi hm

end QState

variable {T : Type} [DecidableEq T] [Fintype T]

theorem queue_wakeInv {s : QState T} (h : (queueSys T).Reach s) : s.WakeInv := by
  induction h with
  | init h =>
    obtain ⟨q, -, rfl⟩ := h
    rintro ⟨t, ht⟩
    simp [QState.start, Monitor.free] at ht
  | next hr hn ih => exact QState.wake_step ih (queue_inv hr) hn

/-! ## A consumer on its way to a message -/

namespace QState

variable {s s' : QState T} {t : T} {W : Finset T}

omit [Fintype T] in
/-- A line of a consumer that has not taken its message yet, while there is one. -/
theorem ran_stocked (h : Ran s t W s') (hp : (s.pc t).Popping)
    (hc : (s.pc t).awaiting = true → 0 < s.q.count) :
    (s'.pc t).awaiting = true → 0 < s'.q.count := by
  intro ha
  cases h with
  | popLock hpc _ | popSome hpc _ | popSleep hpc _ | popRelock hpc _ | popEmpty hpc _ =>
    exact hc (by rw [hpc]; rfl)
  | popCopy _ _ | popUnlock _ _ => simp [Pc.awaiting] at ha
  | pushLock hpc _ | pushFull hpc _ | pushRoom hpc _ | pushCopy hpc _ | pushSignal hpc _
  | pushUnlock hpc _ => rw [hpc] at hp; exact hp.elim

omit [Fintype T] in
/-- A line of a consumer that has not taken its message yet, while there is none. -/
theorem ran_empty (hi : s.Inv) (h : Ran s t W s') (ha : (s.pc t).awaiting = true)
    (h0 : s.q.count = 0) : (s'.pc t).awaiting = true ∧ s'.q.count = 0 := by
  cases h with
  | popCopy hpc _ =>
    have hpos : 0 < s.q.count := by simpa [hpc, Pc.Fact] using hi.fact t
    omega
  | popLock _ _ | popEmpty _ _ | popSome _ _ | popSleep _ _ | popRelock _ _ =>
    exact ⟨by simp [Pc.awaiting], h0⟩
  | popUnlock hpc _ | pushLock hpc _ | pushFull hpc _ | pushRoom hpc _ | pushCopy hpc _
  | pushSignal hpc _ | pushUnlock hpc _ => rw [hpc] at ha; cases ha

end QState

/-- **No lost wake-up.** While the mutex is free and a consumer sleeps, every queued
message has its own woken consumer on the way to the lock. -/
theorem msgQueue_no_lost_wakeup {s : QState T} (h : (queueSys T).Reach s)
    (hfree : s.mon.owner = none) (hsleep : s.mon.waiting.Nonempty) : s.q.count ≤ s.woken := by
  have hw := queue_wakeInv h hsleep
  have hslack : s.slack = 0 := by simp [QState.slack, hfree]
  omega

/-- Two consumers asleep and one push, whose signal wakes the first. -/
def twoAsleep : List (QAct (Fin 3)) :=
  [.call 0 .pop, .run 0 ∅, .run 0 ∅, .run 0 ∅, .call 1 .pop, .run 1 ∅, .run 1 ∅, .run 1 ∅,
    .call 2 (.push default), .run 2 ∅, .run 2 ∅, .run 2 ∅, .run 2 {0}, .run 2 ∅]

theorem twoAsleep_runs :
    (Sys.exec QState.step (QState.start (MsgQueue.clear default)) twoAsleep).isSome := by
  decide +kernel

theorem msgQueue_no_lost_wakeup_twoAsleep :
    ∃ s : QState (Fin 3), s.mon.waiting = {1} ∧ s.q.count = 1 ∧ s.q.count ≤ s.woken := by
  have h := msgQueue_no_lost_wakeup (Sys.reach_exec (queueSys_start default) twoAsleep_runs)
    (by decide +kernel) (by decide +kernel)
  exact ⟨_, by decide +kernel, by decide +kernel, h⟩

end LinuxApp.Core
