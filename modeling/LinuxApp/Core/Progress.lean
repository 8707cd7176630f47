import LinuxApp.Core.Linearizable
import LinuxApp.Core.WakeUp
import LinuxApp.Lib.Work

/-!
# Progress of the queue

Two halves of "every call comes to an end". A state in which no line of the two
functions can be run has every thread outside the queue's code or asleep, and a
thread asleep only if the queue is empty (`stuck_iff`, `asleep_empty`). And only so
many lines can be run: `linesLeft` is what a thread can still run without a further
call or wake-up, where a push answers for the threads that its signal may wake, and
every line lowers `work`, the sum over the threads (`ran_work`).
-/

namespace LinuxApp.Core

open Lib

namespace QState

variable {T : Type} [DecidableEq T]

/-! ## Lines that can be run -/

section Enabled

variable {s : QState T} {t : T}

/-- A thread in a call that is not asleep can run its next line unless another thread
holds the mutex. -/
theorem run_enabled (hi : s.Inv) (hpc : s.pc t ≠ .idle) (hw : t ∉ s.mon.waiting)
    (ho : s.mon.owner = none ∨ s.mon.owner = some t) : ∃ woken s', s.run t woken = some s' := by
  have hfree : s.place t ≠ .inside → s.mon.owner = none := fun hout =>
    ho.resolve_right fun h => hout ((hi.coherent.owner t).1 h)
  cases hp : s.pc t with
  | idle => exact absurd hp hpc
  | pushLock m | popLock | popAsleep =>
    have hnone := hfree (by simp [place_of_pc hp, Pc.place])
    refine ⟨∅, ?_⟩
    unfold run
    rw [hp]
    exact ⟨_, Option.map_eq_some_iff.mpr ⟨_, Monitor.acquire_eq_some.mpr ⟨hnone, hw, rfl⟩, rfl⟩⟩
  | pushTest m =>
    refine ⟨∅, ?_⟩
    unfold run
    rw [hp]
    by_cases hf : s.q.full = true
    · exact ⟨_, if_pos hf⟩
    · exact ⟨_, if_neg hf⟩
  | pushCopy m =>
    obtain ⟨q, hq⟩ := Option.isSome_iff_exists.mp (hi.copy_defined.2 m hp)
    refine ⟨∅, ?_⟩
    unfold run
    rw [hp]
    exact ⟨_, Option.map_eq_some_iff.mpr ⟨q, hq, rfl⟩⟩
  | pushSignal m =>
    refine ⟨s.mon.waiting, ?_⟩
    unfold run
    rw [hp]
    exact ⟨_, Option.map_eq_some_iff.mpr
      ⟨_, Monitor.signal_eq_some.mpr ⟨subset_rfl, id, rfl⟩, rfl⟩⟩
  | pushUnlock m ret | popUnlock m =>
    have hown := owner_of_inside hi.coherent hp rfl
    refine ⟨∅, ?_⟩
    unfold run
    rw [hp]
    exact ⟨_, Option.map_eq_some_iff.mpr ⟨_, Monitor.release_eq_some.mpr ⟨hown, rfl⟩, rfl⟩⟩
  | popTest =>
    refine ⟨∅, ?_⟩
    unfold run
    rw [hp]
    exact ⟨_, rfl⟩
  | popSleep =>
    have hown := owner_of_inside hi.coherent hp rfl
    refine ⟨∅, ?_⟩
    unfold run
    rw [hp]
    exact ⟨_, Option.map_eq_some_iff.mpr ⟨_, Monitor.wait_eq_some.mpr ⟨hown, rfl⟩, rfl⟩⟩
  | popCopy =>
    obtain ⟨mq, hq⟩ := Option.isSome_iff_exists.mp (hi.copy_defined.1 hp)
    refine ⟨∅, ?_⟩
    unfold run
    rw [hp]
    exact ⟨_, Option.map_eq_some_iff.mpr ⟨mq, hq, rfl⟩⟩

theorem pc_of_asleep (hi : s.Inv) (hw : t ∈ s.mon.waiting) : s.pc t = .popAsleep := by
  have hb : (s.pc t).place = .blocked := hi.coherent.asleep t hw
  cases hp : s.pc t with
  | popAsleep => rfl
  | _ => rw [hp] at hb; cases hb

/-- Nothing can be run exactly if every thread is outside the queue's code or asleep. -/
theorem stuck_iff (hi : s.Inv) : (∀ t woken, s.run t woken = none) ↔
    ∀ t, s.pc t = .idle ∨ t ∈ s.mon.waiting := by
  refine ⟨fun hx t => ?_, fun hx t woken => ?_⟩
  · by_contra hno
    obtain ⟨hpc, hw⟩ := not_or.mp hno
    rcases ho : s.mon.owner with _ | u
    · obtain ⟨woken, s', hrun⟩ := run_enabled hi hpc hw (.inl ho)
      rw [hx t woken] at hrun
      cases hrun
    · have hin := (hi.coherent.owner u).1 ho
      have hpcu : s.pc u ≠ .idle := by
        intro hp
        rw [place_of_pc hp] at hin
        cases hin
      obtain ⟨woken, s', hrun⟩ :=
        run_enabled hi hpcu (hi.coherent.not_asleep (by simp [hin])) (.inr ho)
      rw [hx u woken] at hrun
      cases hrun
  · rcases hx t with hp | hw
    · unfold run
      rw [hp]
    · unfold run
      rw [pc_of_asleep hi hw]
      have hno : s.mon.acquire t = none := by
        by_contra hne
        obtain ⟨m, hm⟩ := Option.ne_none_iff_exists'.mp hne
        exact (Monitor.acquire_eq_some.mp hm).2.1 hw
      rw [hno]
      rfl

/-- Where nobody is left who could take a message, there is none. -/
theorem asleep_empty [Fintype T] (hi : s.Inv) (hwake : s.WakeInv)
    (hall : ∀ t, s.pc t = .idle ∨ t ∈ s.mon.waiting) (hne : s.mon.waiting.Nonempty) :
    s.q.count = 0 := by
  have hslack : s.slack = 0 := by
    unfold slack
    split
    · rfl
    · next u hu =>
      have hin := (hi.coherent.owner u).1 hu
      rcases hall u with hp | hw
      · rw [place_of_pc hp] at hin; cases hin
      · rw [hi.coherent.asleep u hw] at hin; cases hin
  have hwoken : s.woken = 0 := by
    refine Finset.card_eq_zero.mpr (Finset.filter_eq_empty_iff.mpr fun u _ hu => ?_)
    obtain ⟨hb, hn⟩ := hu
    rcases hall u with hp | hw
    · rw [place_of_pc hp] at hb; cases hb
    · exact hn hw
  have hle := hwake hne
  have hpos := hi.ok.count
  omega

end Enabled

/-! ## How many lines can be run -/

end QState

/-- The lines a thread can run from here on, with `n` threads that a signal may wake. -/
def Pc.lines (n : Nat) : Pc → Nat
  | .idle => 0
  | .pushLock _ => 4 * n + 5
  | .pushTest _ => 4 * n + 4
  | .pushCopy _ => 4 * n + 3
  | .pushSignal _ => 4 * n + 2
  | .pushUnlock _ _ => 1
  | .popLock => 4
  | .popTest => 3
  | .popSleep => 1
  | .popAsleep => 4
  | .popCopy => 2
  | .popUnlock _ => 1

theorem Op.lines_entry (op : Op) (n : Nat) : op.entry.lines n ≤ 4 * n + 5 := by
  cases op <;> simp [Op.entry, Pc.lines]

namespace QState

variable {T : Type} [DecidableEq T] [Fintype T]

/-- The lines of `t`: none while it is asleep. -/
def linesLeft (s : QState T) (t : T) : Nat :=
  if t ∈ s.mon.waiting then 0 else (s.pc t).lines (Fintype.card T)

def work (s : QState T) : Nat := ∑ t, s.linesLeft t

section Line

variable {s s' r : QState T} {t : T} {W : Finset T}

theorem linesLeft_awake (h : t ∉ s.mon.waiting) :
    s.linesLeft t = (s.pc t).lines (Fintype.card T) := if_neg h

theorem linesLeft_le (s : QState T) (t : T) : s.linesLeft t ≤ (s.pc t).lines (Fintype.card T) := by
  unfold linesLeft
  split
  · exact Nat.zero_le _
  · exact Nat.le_refl _

theorem linesLeft_goto (r : QState T) (t : T) (p : Pc) :
    (r.goto t p).linesLeft t ≤ p.lines (Fintype.card T) := by
  have h := linesLeft_le (r.goto t p) t
  rwa [goto_pc, Function.update_self] at h

/-- A line of `t`, after which others may be awake that were not. -/
theorem work_goto {p p' : Pc} (k : Nat) (hpc : s.pc t = p) (hw : t ∉ s.mon.waiting)
    (hu : ∀ u, r.linesLeft u ≤ s.linesLeft u + k)
    (hp : (r.goto t p').linesLeft t + 1 + k * Fintype.card T ≤ p.lines (Fintype.card T)) :
    (r.goto t p').work + 1 ≤ s.work := by
  refine sum_pay (t := t) (e := 0) (k := k) ?_ fun u hne => ?_
  · rw [linesLeft_awake hw, hpc]
    exact hp
  · have hsame : (r.goto t p').linesLeft u = r.linesLeft u := by
      rw [linesLeft, linesLeft, goto_mon, goto_pc, Function.update_of_ne hne]
    rw [hsame]
    exact hu u

/-- Where those asleep stay asleep, nobody has more to run. -/
theorem linesLeft_kept (hr : r.pc = s.pc) (hsub : s.mon.waiting ⊆ r.mon.waiting) (u : T) :
    r.linesLeft u ≤ s.linesLeft u := by
  unfold linesLeft
  rw [hr]
  split
  · exact Nat.zero_le _
  · next hn => rw [if_neg fun h => hn (hsub h)]

/-- A line of `t` that leaves the wait set alone. -/
theorem work_line {p p' : Pc} (hpc : s.pc t = p) (hw : t ∉ s.mon.waiting) (hr : r.pc = s.pc)
    (hsame : r.mon.waiting = s.mon.waiting)
    (hp : p'.lines (Fintype.card T) < p.lines (Fintype.card T)) :
    (r.goto t p').work + 1 ≤ s.work := by
  have hle := linesLeft_goto r t p'
  exact work_goto 0 hpc hw (linesLeft_kept hr hsame.ge) (by omega)

/-- Whoever is woken has at most the lock, the test and a copy before it. -/
theorem linesLeft_woken (hi : s.Inv) (hr : r.pc = s.pc) (u : T) :
    r.linesLeft u ≤ s.linesLeft u + 4 := by
  by_cases hw : u ∈ s.mon.waiting
  · have h := linesLeft_le r u
    rw [hr, pc_of_asleep hi hw] at h
    exact Nat.le_trans h (Nat.le_add_left _ _)
  · have h := linesLeft_le r u
    rw [hr] at h
    rw [linesLeft_awake hw]
    omega

/-- Every line lowers the work. -/
theorem ran_work (hi : s.Inv) (h : Ran s t W s') : s'.work + 1 ≤ s.work := by
  have hin {p : Pc} (hpc : s.pc t = p) (hp : p.place ≠ .blocked) : t ∉ s.mon.waiting :=
    hi.coherent.not_asleep (by rw [place_of_pc hpc]; exact hp)
  cases h with
  | pushLock hpc hm | popLock hpc hm | popRelock hpc hm =>
    obtain ⟨-, hw, rfl⟩ := Monitor.acquire_eq_some.mp hm
    exact work_line hpc hw rfl rfl (by simp [Pc.lines])
  | pushFull hpc _ | pushRoom hpc _ | pushCopy hpc _ | popEmpty hpc _ | popSome hpc _
  | popCopy hpc _ =>
    exact work_line hpc (hin hpc (by simp [Pc.place])) rfl rfl (by simp [Pc.lines])
  | @pushSignal m mon hpc _ =>
    have hle := linesLeft_goto { s with mon } t (.pushUnlock m 0)
    refine work_goto 4 hpc (hin hpc (by simp [Pc.place])) (linesLeft_woken hi rfl) ?_
    simp only [Pc.lines] at hle ⊢
    omega
  | pushUnlock hpc hm | popUnlock hpc hm =>
    obtain ⟨-, rfl⟩ := Monitor.release_eq_some.mp hm
    exact work_line hpc (hin hpc (by simp [Pc.place])) rfl rfl (by simp [Pc.lines])
  | popSleep hpc hm =>
    obtain ⟨-, rfl⟩ := Monitor.wait_eq_some.mp hm
    -- asleep it has nothing left to run
    have hasleep : (QState.goto { s with mon := ⟨none, insert t s.mon.waiting⟩ } t
        .popAsleep).linesLeft t = 0 := if_pos (Finset.mem_insert_self _ _)
    refine work_goto 0 hpc (hin hpc (by simp [Pc.place]))
      (linesLeft_kept rfl (Finset.subset_insert _ _)) ?_
    rw [hasleep]
    simp [Pc.lines]

end Line

end QState

namespace QAct

variable {T : Type}

def isCall : QAct T → Bool
  | .call _ _ => true
  | _ => false

def isRun : QAct T → Bool
  | .run _ _ => true
  | _ => false

def isWake : QAct T → Bool
  | .wake _ => true
  | _ => false

/-- What a step may add to the work, with `n` threads. -/
def brings (n : Nat) : QAct T → Nat
  | .call _ _ => 4 * n + 5
  | .wake _ => 4
  | .run _ _ => 0

theorem total_brings (n : Nat) (as : List (QAct T)) :
    total (brings n) as = (4 * n + 5) * as.countP isCall + 4 * as.countP isWake := by
  rw [← total_eq_mul (fun a : QAct T => if a.isCall then 4 * n + 5 else 0) fun _ => rfl,
    ← total_eq_mul (fun a : QAct T => if a.isWake then 4 else 0) fun _ => rfl]
  refine total_add (fun a => ?_) as
  cases a <;> simp [brings, isCall, isWake]

end QAct

namespace QState

variable {T : Type} [DecidableEq T] [Fintype T] {s s' : QState T} {t : T}

/-- A call adds its own lines. -/
theorem entry_work {op : Op} (h : s.call t op = some s') :
    s'.work ≤ s.work + op.entry.lines (Fintype.card T) := by
  obtain ⟨-, rfl⟩ := call_eq_some.mp h
  refine sum_pay (t := t) (d := 0) (k := 0) ?_ fun u hne => ?_
  · have hle := linesLeft_goto (s.emit (.call t op)) t op.entry
    omega
  · rw [linesLeft, linesLeft, goto_mon, goto_pc, Function.update_of_ne hne]
    exact Nat.le_refl _

theorem call_work {op : Op} (h : s.call t op = some s') :
    s'.work ≤ s.work + (4 * Fintype.card T + 5) := by
  have hle := entry_work h
  have hentry := op.lines_entry (Fintype.card T)
  omega

theorem wake_work (h4 : (s.pc t).lines (Fintype.card T) ≤ 4) {mon : Monitor T}
    (h : s.mon.wake t = some mon) : ({ s with mon } : QState T).work ≤ s.work + 4 := by
  obtain ⟨-, rfl⟩ := Monitor.wake_eq_some.mp h
  refine sum_pay (t := t) (d := 0) (k := 0) ?_ fun u hne => ?_
  · have hle := linesLeft_le { s with mon := ⟨s.mon.owner, s.mon.waiting.erase t⟩ } t
    simp only at hle
    omega
  · have hsame : u ∈ s.mon.waiting.erase t ↔ u ∈ s.mon.waiting := by simp [hne]
    simp only [linesLeft, hsame]
    exact Nat.le_refl _

/-- A line lowers the work; only calls and spurious wake-ups add to it. -/
theorem step_work {a : QAct T} (hi : s.Inv) (h : s.step a = some s') :
    s'.work + (if a.isRun then 1 else 0) ≤ s.work + a.brings (Fintype.card T) := by
  cases a with
  | call t op => exact call_work h
  | run t woken => exact ran_work hi (ran_of_run h)
  | wake t =>
    obtain ⟨mon, hm, rfl⟩ := Option.map_eq_some_iff.mp h
    refine wake_work ?_ hm
    rw [pc_of_asleep hi (Monitor.wake_eq_some.mp hm).1]
    exact Nat.le_refl _

omit [Fintype T] in
/-- A push that has decided its result leaves a message in the queue: its own, or one of
those that it found there. -/
theorem Inv.stocked (hi : s.Inv) {m : AppMsg} {ret : Int} (hp : (s.pc t).done = [.push m ret]) :
    0 < s.q.count := by
  have hown : s.mon.owner = some t := by
    refine (hi.coherent.owner t).2 ?_
    show (s.pc t).place = .inside
    cases hpc : s.pc t with
    | pushSignal _ | pushUnlock _ _ => rfl
    | _ => rw [hpc] at hp; simp [Pc.done] at hp
  obtain ⟨q₀, hq₀, hruns⟩ := hi.seq
  rw [hi.done, pending_of_owner hown rfl, hp] at hruns
  obtain ⟨q, hq, hlast⟩ := hruns.last
  obtain ⟨g, rfl⟩ := seqQueue_init hq₀
  have hnext := ((seqQueue_ok (MsgQueue.ok_clear g) hq).1.next hlast).2
  have hlen := hi.ok.length_contents
  by_cases h0 : ret = 0
  · rw [Call.op, if_pos h0] at hnext
    obtain ⟨-, hc⟩ := hnext
    rw [hc, List.length_append, List.length_singleton] at hlen
    omega
  · rw [Call.op, if_neg h0] at hnext
    obtain ⟨hfull, hc⟩ := hnext
    rw [hc, hfull] at hlen
    have := MsgQueue.queueMaxSize_eq
    omega

omit [Fintype T] in
/-- No line of a push takes a message out. -/
theorem ran_pushing_count (hi : s.Inv) {W : Finset T} {m : AppMsg} (h : Ran s t W s')
    (hp : (s.pc t).Pushing m) : s.q.count ≤ s'.q.count := by
  cases h with
  | @pushCopy m' q hpc hcopy =>
    have hlt : s.q.count < queueMaxSize := by simpa [hpc, Pc.Fact] using hi.fact t
    obtain ⟨q', hq', -, -, hcount⟩ := hi.ok.copyIn m' hlt
    obtain rfl := Option.some.inj (hcopy.symm.trans hq')
    simp only [goto_q, emit_q]
    omega
  | pushLock _ _ | pushFull _ _ | pushRoom _ _ | pushSignal _ _ | pushUnlock _ _ =>
    exact Int.le_refl _
  | popLock hpc _ | popEmpty hpc _ | popSome hpc _ | popSleep hpc _ | popRelock hpc _
  | popCopy hpc _ | popUnlock hpc _ => rw [hpc] at hp; exact hp.elim

omit [Fintype T] in
/-- A thread outside the queue's code has finished all its calls. -/
theorem Inv.finished (hi : s.Inv) (hp : s.pc t = .idle) : Finished (ownEvents t s.log) := by
  obtain ⟨l, hl, hown⟩ := hi.calls t
  rw [hown, hp]
  simpa [Pc.opened] using hl

end QState

section Results

variable {T : Type} [DecidableEq T] [Fintype T] {s₀ s : QState T}

/-- **The only deadlock of the queue.** In every reachable state of any number of threads
no line of `msg_queue_push` and `msg_queue_pop` can be run exactly if every thread is
outside the two functions or asleep in `pthread_cond_wait` on the empty queue. So a push
never waits for good, and then every thread that is not such a consumer has finished
all its calls. -/
theorem msgQueue_stuck_iff (h : (queueSys T).Reach s) :
    ((∀ t woken, s.run t woken = none) ↔
      ∀ t, s.pc t = .idle ∨ t ∈ s.mon.waiting ∧ s.q.count = 0) ∧
    ((∀ t woken, s.run t woken = none) →
      ∀ t, Finished (ownEvents t s.log) ∨ s.pc t = .popAsleep ∧ s.q.count = 0) := by
  have hi := queue_inv h
  have hiff : (∀ t woken, s.run t woken = none) ↔
      ∀ t, s.pc t = .idle ∨ t ∈ s.mon.waiting ∧ s.q.count = 0 := by
    rw [QState.stuck_iff hi]
    refine ⟨fun hx t => ?_, fun hx t => ?_⟩
    · rcases hx t with hp | hw
      · exact .inl hp
      · exact .inr ⟨hw, QState.asleep_empty hi (queue_wakeInv h) hx ⟨t, hw⟩⟩
    · exact (hx t).imp_right And.left
  refine ⟨hiff, fun hstuck t => ?_⟩
  rcases hiff.mp hstuck t with hp | ⟨hw, h0⟩
  · exact .inl (hi.finished hp)
  · exact .inr ⟨QState.pc_of_asleep hi hw, h0⟩

/-- **The queue's calls end.** However a run of `n` threads is scheduled, it runs at most
`4 n + 5` lines for each call and 4 for each spurious wake-up. -/
theorem msgQueue_lines_bounded {as : List (QAct T)} (hinit : (queueSys T).Init s₀)
    (h : (queueSys T).Runs s₀ as s) :
    as.countP QAct.isRun + s.work ≤
      (4 * Fintype.card T + 5) * as.countP QAct.isCall + 4 * as.countP QAct.isWake := by
  have hstart : s₀.work = 0 := by
    obtain ⟨q, -, rfl⟩ := hinit
    refine Finset.sum_eq_zero fun t _ => ?_
    exact Nat.eq_zero_of_le_zero (QState.linesLeft_le _ t)
  obtain ⟨-, hpay⟩ := Sys.Runs.pay (I := (queueSys T).Reach) QState.work
    (fun a => if a.isRun then 1 else 0) (QAct.brings (Fintype.card T))
    (fun _ _ _ hr hn => ⟨.next hr hn, QState.step_work (queue_inv hr) hn⟩) (.init hinit) h
  rw [hstart, QAct.total_brings, total_eq_mul (k := 1) (p := QAct.isRun) _ fun _ => rfl] at hpay
  omega

end Results

/-- Two consumers fall asleep, a push wakes the first, and it takes the message. -/
def oneServed : List (QAct (Fin 3)) := twoAsleep ++ List.replicate 4 (.run ⟨0, Nat.succ_pos 2⟩ ∅)

theorem oneServed_runs :
    (Sys.exec QState.step (QState.start (MsgQueue.clear default)) oneServed).isSome := by
  decide +kernel

/-- The second consumer sleeps on the empty queue, and nothing can be run. -/
theorem msgQueue_stuck_iff_oneServed :
    ∃ s : QState (Fin 3), s.mon.waiting = {1} ∧ ∀ t woken, s.run t woken = none :=
  ⟨_, by decide +kernel, (msgQueue_stuck_iff
    (Sys.reach_exec (queueSys_start default) oneServed_runs)).1.mpr (by decide +kernel)⟩

theorem msgQueue_lines_bounded_oneServed :
    oneServed.countP QAct.isRun = 15 ∧ oneServed.countP QAct.isCall = 3 ∧
      oneServed.countP QAct.isRun ≤ 17 * 3 + 4 * 0 := by
  have hle := msgQueue_lines_bounded (queueSys_start default)
    (Sys.runs_exec (Option.some_get oneServed_runs).symm)
  exact ⟨by decide, by decide, Nat.le_trans (Nat.le_add_right _ _) hle⟩

end LinuxApp.Core
