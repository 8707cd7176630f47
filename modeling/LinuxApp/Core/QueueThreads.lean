import LinuxApp.Core.MsgQueue
import LinuxApp.Lib.Monitor
import Mathlib.Logic.Function.Basic

/-!
# Threads calling `msg_queue_push` and `msg_queue_pop`

Any number of threads `T` share one queue. A thread's position `Pc` names the
line it is about to run; `QState.run` runs that line. Between `lock` and `unlock`
each line is a step of its own, so every interleaving that the mutex allows is a
run of `queueSys`. `pthread_cond_wait` is `popSleep` (release the mutex and fall
asleep in one step), then `popAsleep` until the thread, woken by a signal or
spuriously (`QAct.wake`), owns the mutex again and goes back to the test.

The NULL tests on the arguments come before the lock and touch nothing shared;
calls here have valid pointers.

`log` is a history variable: the call, its effect (the step that decides its
result, with the number of messages held just before) and its return. Nothing in
the step function reads it.
-/

namespace LinuxApp.Core

open Lib

inductive Op where
  | push (m : AppMsg)
  | pop
  deriving DecidableEq

/-- Where a thread stands in the queue's code. -/
inductive Pc where
  | idle
  /-- At `pthread_mutex_lock` of `msg_queue_push`. -/
  | pushLock (m : AppMsg)
  /-- At `q->count >= QUEUE_MAX_SIZE`. -/
  | pushTest (m : AppMsg)
  | pushCopy (m : AppMsg)
  | pushSignal (m : AppMsg)
  | pushUnlock (m : AppMsg) (ret : Int)
  | popLock
  /-- At the `while` test `q->count == 0`. -/
  | popTest
  /-- At `pthread_cond_wait`. -/
  | popSleep
  /-- Inside `pthread_cond_wait`: asleep, or woken and about to lock again. -/
  | popAsleep
  | popCopy
  | popUnlock (m : AppMsg)
  deriving DecidableEq

def Op.entry : Op → Pc
  | .push m => .pushLock m
  | .pop => .popLock

def Pc.place : Pc → Place
  | .idle | .pushLock _ | .popLock => .outside
  | .popAsleep => .blocked
  | _ => .inside

/-- History events. -/
inductive Event (T : Type) where
  | call (t : T) (op : Op)
  | effect (t : T) (c : Call) (held : Int)
  | ret (t : T) (c : Call)

structure QState (T : Type) where
  q : MsgQueue
  mon : Monitor T
  pc : T → Pc
  log : List (Event T)

inductive QAct (T : Type) where
  | call (t : T) (op : Op)
  /-- `t` runs its next line; `woken` is whom a `pthread_cond_signal` wakes. -/
  | run (t : T) (woken : Finset T)
  /-- A spurious wake-up of `t`. -/
  | wake (t : T)

namespace QState

variable {T : Type} [DecidableEq T]

def goto (s : QState T) (t : T) (p : Pc) : QState T := { s with pc := Function.update s.pc t p }

def emit (s : QState T) (e : Event T) : QState T := { s with log := s.log ++ [e] }

def run (s : QState T) (t : T) (woken : Finset T) : Option (QState T) :=
  match s.pc t with
  | .idle => none
  | .pushLock m => (s.mon.acquire t).map fun mon => { s with mon }.goto t (.pushTest m)
  | .pushTest m =>
    if s.q.full then
      some ((s.emit (.effect t (.push m (-enospc)) s.q.count)).goto t (.pushUnlock m (-enospc)))
    else some (s.goto t (.pushCopy m))
  | .pushCopy m => (s.q.copyIn m).map fun q =>
      ({ s with q }.emit (.effect t (.push m 0) s.q.count)).goto t (.pushSignal m)
  | .pushSignal m => (s.mon.signal woken).map fun mon => { s with mon }.goto t (.pushUnlock m 0)
  | .pushUnlock m ret => (s.mon.release t).map fun mon =>
      ({ s with mon }.emit (.ret t (.push m ret))).goto t .idle
  | .popLock => (s.mon.acquire t).map fun mon => { s with mon }.goto t .popTest
  | .popTest => some (s.goto t (if s.q.empty then .popSleep else .popCopy))
  | .popSleep => (s.mon.wait t).map fun mon => { s with mon }.goto t .popAsleep
  | .popAsleep => (s.mon.acquire t).map fun mon => { s with mon }.goto t .popTest
  | .popCopy => s.q.copyOut.map fun (m, q) =>
      ({ s with q }.emit (.effect t (.pop m 0) s.q.count)).goto t (.popUnlock m)
  | .popUnlock m => (s.mon.release t).map fun mon =>
      ({ s with mon }.emit (.ret t (.pop m 0))).goto t .idle

/-- A thread outside the queue's code makes a call. -/
def call (s : QState T) (t : T) (op : Op) : Option (QState T) :=
  if s.pc t = .idle then some ((s.emit (.call t op)).goto t op.entry) else none

def step (s : QState T) : QAct T → Option (QState T)
  | .call t op => s.call t op
  | .run t woken => s.run t woken
  | .wake t => (s.mon.wake t).map fun mon => { s with mon }

/-- A queue just initialised, nobody in its code. -/
def start (q : MsgQueue) : QState T := ⟨q, .free, fun _ => .idle, []⟩

end QState

/-- The queue initialised by `msg_queue_init` and its threads. -/
def queueSys (T : Type) [DecidableEq T] : Sys (QState T) (QAct T) :=
  .ofStep (fun s => ∃ q, seqQueue.Init q ∧ s = QState.start q) QState.step

theorem queueSys_start {T : Type} [DecidableEq T] (g : MsgQueue) :
    (queueSys T).Init (QState.start g.clear) :=
  ⟨g.clear, seqQueue_clear g, rfl⟩

/-! ## What a line does -/

namespace QState

variable {T : Type} [DecidableEq T]

@[simp] theorem goto_q (s : QState T) (t : T) (p : Pc) : (s.goto t p).q = s.q := rfl
@[simp] theorem goto_mon (s : QState T) (t : T) (p : Pc) : (s.goto t p).mon = s.mon := rfl
@[simp] theorem goto_log (s : QState T) (t : T) (p : Pc) : (s.goto t p).log = s.log := rfl
@[simp] theorem goto_pc (s : QState T) (t : T) (p : Pc) :
    (s.goto t p).pc = Function.update s.pc t p := rfl

omit [DecidableEq T] in
@[simp] theorem emit_q (s : QState T) (e : Event T) : (s.emit e).q = s.q := rfl
omit [DecidableEq T] in
@[simp] theorem emit_mon (s : QState T) (e : Event T) : (s.emit e).mon = s.mon := rfl
omit [DecidableEq T] in
@[simp] theorem emit_pc (s : QState T) (e : Event T) : (s.emit e).pc = s.pc := rfl
omit [DecidableEq T] in
@[simp] theorem emit_log (s : QState T) (e : Event T) : (s.emit e).log = s.log ++ [e] := rfl

/-- The lines of the two functions, one constructor each. -/
inductive Ran (s : QState T) (t : T) (woken : Finset T) : QState T → Prop where
  | pushLock {m mon} : s.pc t = .pushLock m → s.mon.acquire t = some mon →
      Ran s t woken ({ s with mon }.goto t (.pushTest m))
  | pushFull {m} : s.pc t = .pushTest m → s.q.full = true →
      Ran s t woken
        ((s.emit (.effect t (.push m (-enospc)) s.q.count)).goto t (.pushUnlock m (-enospc)))
  | pushRoom {m} : s.pc t = .pushTest m → s.q.full = false → Ran s t woken (s.goto t (.pushCopy m))
  | pushCopy {m q} : s.pc t = .pushCopy m → s.q.copyIn m = some q →
      Ran s t woken (({ s with q }.emit (.effect t (.push m 0) s.q.count)).goto t (.pushSignal m))
  | pushSignal {m mon} : s.pc t = .pushSignal m → s.mon.signal woken = some mon →
      Ran s t woken ({ s with mon }.goto t (.pushUnlock m 0))
  | pushUnlock {m ret mon} : s.pc t = .pushUnlock m ret → s.mon.release t = some mon →
      Ran s t woken (({ s with mon }.emit (.ret t (.push m ret))).goto t .idle)
  | popLock {mon} : s.pc t = .popLock → s.mon.acquire t = some mon →
      Ran s t woken ({ s with mon }.goto t .popTest)
  | popEmpty : s.pc t = .popTest → s.q.empty = true → Ran s t woken (s.goto t .popSleep)
  | popSome : s.pc t = .popTest → s.q.empty = false → Ran s t woken (s.goto t .popCopy)
  | popSleep {mon} : s.pc t = .popSleep → s.mon.wait t = some mon →
      Ran s t woken ({ s with mon }.goto t .popAsleep)
  | popRelock {mon} : s.pc t = .popAsleep → s.mon.acquire t = some mon →
      Ran s t woken ({ s with mon }.goto t .popTest)
  | popCopy {m q} : s.pc t = .popCopy → s.q.copyOut = some (m, q) →
      Ran s t woken (({ s with q }.emit (.effect t (.pop m 0) s.q.count)).goto t (.popUnlock m))
  | popUnlock {m mon} : s.pc t = .popUnlock m → s.mon.release t = some mon →
      Ran s t woken (({ s with mon }.emit (.ret t (.pop m 0))).goto t .idle)

theorem ran_of_run {s s' : QState T} {t : T} {woken : Finset T} (h : s.run t woken = some s') :
    Ran s t woken s' := by
  unfold run at h
  split at h
  case h_1 => cases h
  case h_2 m hpc =>
    obtain ⟨mon, hm, rfl⟩ := Option.map_eq_some_iff.mp h
    exact .pushLock hpc hm
  case h_3 m hpc =>
    split at h
    · next hf => cases h; exact .pushFull hpc hf
    · next hf => cases h; exact .pushRoom hpc (Bool.eq_false_iff.mpr hf)
  case h_4 m hpc =>
    obtain ⟨q, hq, rfl⟩ := Option.map_eq_some_iff.mp h
    exact .pushCopy hpc hq
  case h_5 m hpc =>
    obtain ⟨mon, hm, rfl⟩ := Option.map_eq_some_iff.mp h
    exact .pushSignal hpc hm
  case h_6 m ret hpc =>
    obtain ⟨mon, hm, rfl⟩ := Option.map_eq_some_iff.mp h
    exact .pushUnlock hpc hm
  case h_7 hpc =>
    obtain ⟨mon, hm, rfl⟩ := Option.map_eq_some_iff.mp h
    exact .popLock hpc hm
  case h_8 hpc =>
    cases h
    split
    · next he => exact .popEmpty hpc he
    · next he => exact .popSome hpc (Bool.eq_false_iff.mpr he)
  case h_9 hpc =>
    obtain ⟨mon, hm, rfl⟩ := Option.map_eq_some_iff.mp h
    exact .popSleep hpc hm
  case h_10 hpc =>
    obtain ⟨mon, hm, rfl⟩ := Option.map_eq_some_iff.mp h
    exact .popRelock hpc hm
  case h_11 hpc =>
    obtain ⟨⟨m, q⟩, hq, rfl⟩ := Option.map_eq_some_iff.mp h
    exact .popCopy hpc hq
  case h_12 m hpc =>
    obtain ⟨mon, hm, rfl⟩ := Option.map_eq_some_iff.mp h
    exact .popUnlock hpc hm

theorem call_eq_some {s s' : QState T} {t : T} {op : Op} : s.call t op = some s' ↔
    s.pc t = .idle ∧ s' = (s.emit (.call t op)).goto t op.entry := by
  unfold call
  split <;> simp_all [eq_comm]

/-! ## One thread's way through a call -/

theorem call_pc {s s' : QState T} {t : T} {op : Op} (h : s.call t op = some s') :
    s'.pc t = op.entry ∧ ∀ u, u ≠ t → s'.pc u = s.pc u := by
  obtain ⟨-, rfl⟩ := call_eq_some.mp h
  exact ⟨Function.update_self .., fun u hu => Function.update_of_ne hu _ _⟩

theorem ran_other {s s' : QState T} {t u : T} {woken : Finset T} (h : Ran s t woken s')
    (hu : u ≠ t) : s'.pc u = s.pc u := by
  cases h <;> exact Function.update_of_ne hu _ _

end QState

/-- In `msg_queue_push` with message `m`. -/
def Pc.Pushing (m : AppMsg) : Pc → Prop
  | .pushLock m' | .pushTest m' | .pushCopy m' | .pushSignal m' | .pushUnlock m' _ => m' = m
  | _ => False

/-- In `msg_queue_pop`. -/
def Pc.Popping : Pc → Prop
  | .popLock | .popTest | .popSleep | .popAsleep | .popCopy | .popUnlock _ => True
  | _ => False

/-- In `msg_queue_pop`, with no message taken yet. -/
def Pc.awaiting : Pc → Bool
  | .popLock | .popTest | .popSleep | .popAsleep | .popCopy => true
  | _ => false

namespace QState

variable {T : Type} [DecidableEq T]

theorem ran_pushing {s s' : QState T} {t : T} {woken : Finset T} {m : AppMsg}
    (h : Ran s t woken s') (hp : (s.pc t).Pushing m) :
    (∃ r, s.pc t = .pushUnlock m r) ∧ s'.pc t = .idle ∨
      (∀ m' r, s.pc t ≠ .pushUnlock m' r) ∧ (s'.pc t).Pushing m := by
  cases h with
  | @pushUnlock m' r _ hpc _ =>
    rw [hpc] at hp
    obtain rfl : m' = m := hp
    exact .inl ⟨⟨r, hpc⟩, Function.update_self ..⟩
  | pushLock hpc _ | pushFull hpc _ | pushRoom hpc _ | pushCopy hpc _ | pushSignal hpc _ =>
    rw [hpc] at hp
    refine .inr ⟨by simp [hpc], ?_⟩
    rw [goto_pc, Function.update_self]
    exact hp
  | popLock hpc _ | popEmpty hpc _ | popSome hpc _ | popSleep hpc _ | popRelock hpc _
  | popCopy hpc _ | popUnlock hpc _ => rw [hpc] at hp; exact hp.elim

theorem ran_popping {s s' : QState T} {t : T} {woken : Finset T}
    (h : Ran s t woken s') (hp : (s.pc t).Popping) :
    (∃ m, s.pc t = .popUnlock m) ∧ s'.pc t = .idle ∨
      (∀ m, s.pc t ≠ .popUnlock m) ∧ (s'.pc t).Popping := by
  cases h with
  | @popUnlock m _ hpc _ => exact .inl ⟨⟨m, hpc⟩, Function.update_self ..⟩
  | popLock hpc _ | popEmpty hpc _ | popSome hpc _ | popSleep hpc _ | popRelock hpc _
  | popCopy hpc _ =>
    refine .inr ⟨by simp [hpc], ?_⟩
    rw [goto_pc, Function.update_self]
    trivial
  | pushLock hpc _ | pushFull hpc _ | pushRoom hpc _ | pushCopy hpc _ | pushSignal hpc _
  | pushUnlock hpc _ => rw [hpc] at hp; exact hp.elim

theorem reach_run {s s' : QState T} {t : T} {woken : Finset T} (h : (queueSys T).Reach s)
    (hr : s.run t woken = some s') : (queueSys T).Reach s' :=
  .next h (show QState.step s (.run t woken) = some s' from hr)

theorem reach_call {s s' : QState T} {t : T} {op : Op} (h : (queueSys T).Reach s)
    (hr : s.call t op = some s') : (queueSys T).Reach s' :=
  .next h (show QState.step s (.call t op) = some s' from hr)

end QState

end LinuxApp.Core
