import LinuxApp.App.SharedQueue
import LinuxApp.Core.Progress

/-!
# Shutdown

`Stranded`: the GUI worker sleeps in `msg_queue_pop` on the empty queue and the RPMSG
worker, the only thread that pushes, has returned; nothing is left that could wake it.
`GuiSafe` is what has to hold when the RPMSG worker returns: `main` is on its way to
`EXIT_FAILURE` and no GUI worker exists, or the flag is cleared and a GUI worker that
is in its pop without a packet will find one. A worker that returns so keeps the GUI
worker safe for good (`GuiSafe.keep`); from any other return the GUI worker's own
steps, which nobody has to interfere with, end in the wait (`doomed_steps`).

`Lost`: the GUI worker waits on the empty queue and the RPMSG worker will push no more,
because it has left its loop or finds the flag cleared at the next test. Once stranded,
the GUI worker is lost, and `main` never returns (`Lost.forever`).
-/

namespace LinuxApp.App

open Lib LinuxApp.Core Drivers

/-- `main` is on its way to return `EXIT_FAILURE`. -/
def MainPc.failing : MainPc → Bool
  | .destroyOnlyRx | .rpmsgFailed | .guiFailed | .joinAfterFail => true
  | .destroyRx .failure | .destroyTx .failure | .exited .failure => true
  | _ => false

theorem not_mayRun_of_failing {p : MainPc} (h : p.failing = true) : p.mayRun .gui = false := by
  cases p <;> first | rfl | cases h

/-- Between the two creations. -/
theorem eq_createGui {p : MainPc} (hmade : p.notYet .rpmsg = false) (hnone : p.mayRun .gui = false)
    (hs : p.succeeding = false) (hf : p.failing = false) : p = .createGui := by
  cases p with
  | createGui => rfl
  | destroyRx e | destroyTx e | exited e =>
    cases e with
    | success => cases hs
    | failure => cases hf
  | signalInt | signalTerm | initRx | initTx | createRpmsg => cases hmade
  | destroyOnlyRx | rpmsgFailed | guiFailed | joinAfterFail => cases hf
  | joinRpmsg | joinGui => cases hnone

instance : Fintype Worker := ⟨{.rpmsg, .gui}, fun t => by cases t <;> decide⟩

namespace AppState

/-- The GUI worker sleeps on the empty queue and nobody is left who pushes. -/
def Stranded (s : AppState) : Prop :=
  s.rpmsg = .returned ∧ .gui ∈ s.rx.mon.waiting ∧ s.rx.q.count = 0

/-- The GUI worker does without the RPMSG worker from here on. -/
def GuiSafe (s : AppState) : Prop :=
  s.main.failing = true ∨
    s.running = false ∧ ((s.rx.pc .gui).awaiting = true → 0 < s.rx.q.count)

instance (s : AppState) : Decidable s.GuiSafe := inferInstanceAs (Decidable (_ ∨ _))

/-- The step is the return of `rpmsg_worker_func`. -/
def RpmsgReturns (s s' : AppState) : Prop := s.rpmsg ≠ .returned ∧ s'.rpmsg = .returned

section Step

variable {s s' : AppState}

theorem not_guiSafe : ¬ s.GuiSafe ↔ s.main.failing = false ∧
    (s.running = true ∨ (s.rx.pc .gui).awaiting = true ∧ s.rx.q.count ≤ 0) := by
  unfold GuiSafe
  cases s.main.failing <;> cases s.running <;> simp

/-- The RPMSG worker's return is seen in its own state only. -/
theorem returns_frame (h : Ran s s') (hr : s.RpmsgReturns s') :
    s'.main = s.main ∧ s'.gui = s.gui ∧ s'.running = s.running ∧ s'.rx = s.rx ∧
      s.rpmsg.alive = true := by
  obtain ⟨hne, hret⟩ := hr
  cases h with
  | signal _ | wake _ => exact absurd hret hne
  | main h =>
    obtain ⟨-, -, -, -, -, -, -, hr, -⟩ := mainRan_frame h
    rcases hr with hr | ⟨-, hr⟩
    · exact absurd (hr ▸ hret) hne
    · rw [hr] at hret; cases hret
  | gui h => exact absurd ((guiRan_frame h).2.1 ▸ hret) hne
  | rpmsg h =>
    obtain ⟨hm, hg, hrun, -, hal, -⟩ := rpmsgRan_frame h
    refine ⟨hm, hg, hrun, ?_, hal⟩
    cases h with
    | start _ _ _ | poll _ _ | again _ _ | leave _ _ | nothing _ _ _ | close _ _ => rfl
    | received _ _ _ | pushed _ _ _ => cases hret
    | push hpc _ hr =>
      obtain ⟨rx, -, rfl⟩ := runRx_eq_some.mp hr
      exact absurd hret hne

theorem guiSafe_returns (h : Ran s s') (hr : s.RpmsgReturns s') : s'.GuiSafe ↔ s.GuiSafe := by
  obtain ⟨hm, -, hrun, hrx, -⟩ := returns_frame h hr
  rw [GuiSafe, GuiSafe, hm, hrun, hrx]

theorem not_rpmsgRan (hret : s.rpmsg = .returned) : ¬ RpmsgRan s s' := by
  intro h
  obtain ⟨-, -, -, -, hal, -⟩ := rpmsgRan_frame h
  rw [hret] at hal
  cases hal

/-- Once it has returned, the RPMSG worker stays returned. -/
theorem returned_step (ht : s.Threads) (hret : s.rpmsg = .returned) (h : Ran s s') :
    s'.rpmsg = .returned := by
  cases h with
  | signal _ | wake _ => exact hret
  | gui h => rw [(guiRan_frame h).2.1, hret]
  | main h =>
    obtain ⟨-, -, -, -, -, -, -, hr, -⟩ := mainRan_frame h
    rcases hr with hr | ⟨hm, -⟩
    · rw [hr, hret]
    · have hnot := ht.notYet .rpmsg (by rw [hm]; rfl)
      simp [created, hret] at hnot
  | rpmsg h => exact absurd h (not_rpmsgRan hret)

theorem gui_of_awaiting (hi : s.RxLink) (ha : (s.rx.pc .gui).awaiting = true) : s.gui = .pop := by
  by_contra hne
  rw [hi.guiIdle hne] at ha
  cases ha

theorem Stranded.awaiting (hs : s.Stranded) (hi : s.Inv) : (s.rx.pc .gui).awaiting = true := by
  obtain ⟨hret, hw, -⟩ := hs
  have hq := queue_inv (hi.link.reach_of_created (by simp [hret]))
  rw [QState.pc_of_asleep hq hw]
  rfl

/-! ## A safe return -/

/-- `main` leaves the queue alone once the RPMSG worker exists. -/
theorem main_q (ht : s.Threads) (hret : s.rpmsg ≠ .notCreated) (h : MainRan s s') :
    s'.rx.q = s.rx.q := by
  cases h with
  | initRx hm _ =>
    have hnot := ht.notYet .rpmsg (by rw [hm]; rfl)
    simp [created, hret] at hnot
  | _ => rfl

theorem failing_main (hm : s.main.failing = true) (h : MainRan s s') :
    s'.main.failing = true := by
  cases h with
  | @destroyRx e hpc | @destroyTx e hpc =>
    rw [hpc] at hm
    cases e with
    | success => cases hm
    | failure => rfl
  | destroyOnlyRx _ | rpmsgFailed _ | guiFailed _ | joinAfterFail _ _ => rfl
  | signalInt hpc | signalTerm hpc | initRx hpc _ | initTx hpc _ | createRpmsg hpc | noRpmsg hpc
  | createGui hpc | noGui hpc | joinRpmsg hpc _ | joinGui hpc _ => rw [hpc] at hm; cases hm
  | notRegistered hpc => rfl

theorem GuiSafe.keep (hs : s.GuiSafe) (hi : s.Inv) (hret : s.rpmsg = .returned)
    (h : Ran s s') : s'.GuiSafe := by
  rcases hs with hf | ⟨hoff, hc⟩
  · left
    cases h with
    | signal _ | wake _ => exact hf
    | main h => exact failing_main hf h
    | rpmsg h => rw [(rpmsgRan_frame h).1]; exact hf
    | gui h => rw [(guiRan_frame h).1]; exact hf
  · right
    cases h with
    | signal _ => exact ⟨rfl, hc⟩
    | wake _ => exact ⟨hoff, hc⟩
    | main h =>
      obtain ⟨-, -, -, -, hpc, -, -, -, -, hrun⟩ := mainRan_frame h
      refine ⟨by rcases hrun with hrun | hrun <;> simp [hrun, hoff], ?_⟩
      rw [hpc, main_q hi.threads (by simp [hret]) h]
      exact hc
    | rpmsg h => exact absurd h (not_rpmsgRan hret)
    | gui h =>
      refine ⟨(guiRan_frame h).2.2.1.trans hoff, ?_⟩
      cases h with
      | start _ | leave _ _ | handle _ | stop _ => exact hc
      | again _ hon _ => rw [hoff] at hon; cases hon
      | pop hpc _ hr | popped hpc _ hr =>
        obtain ⟨rx, hrx, rfl⟩ := runRx_eq_some.mp hr
        exact QState.ran_stocked (QState.ran_of_run hrx) (hi.link.guiPop hpc) hc

theorem GuiSafe.steps (hs : s.GuiSafe) (hr : appSys.Reach s) (hret : s.rpmsg = .returned)
    (h : appSys.Steps s s') : s'.GuiSafe := by
  have hkeep : ∀ u a u', appSys.Reach u → (u.rpmsg = .returned ∧ u.GuiSafe) →
      appSys.Next u a u' → u'.rpmsg = .returned ∧ u'.GuiSafe := by
    intro u a u' hu ⟨hret, hsafe⟩ hn
    have hran := ran_of_step hn
    exact ⟨returned_step (app_inv hu).threads hret hran, hsafe.keep (app_inv hu) hret hran⟩
  exact (h.keep hkeep hr ⟨hret, hs⟩).2

/-- In a run whose returns all are safe the GUI worker stays safe. -/
theorem safe_of_safe_returns
    (hr : (appSys.restrict fun u _ u' => u.RpmsgReturns u' → u.GuiSafe).Reach s)
    (hret : s.rpmsg = .returned) : s.GuiSafe := by
  induction hr with
  | init h => rw [h.rpmsg] at hret; cases hret
  | @next s s' a hr hn ih =>
    have hran := ran_of_step hn.1
    by_cases hs : s.rpmsg = .returned
    · exact (ih hs).keep (app_inv hr.of_restrict) hs hran
    · exact (guiSafe_returns hran ⟨hs, hret⟩).mpr (hn.2 ⟨hs, hret⟩)

/-- A safe GUI worker is not stranded. -/
theorem GuiSafe.not_stranded (hs : s.GuiSafe) (hi : s.Inv) : ¬ s.Stranded := by
  intro hst
  have ha := hst.awaiting hi
  rcases hs with hf | ⟨-, hc⟩
  · have hdead := hi.threads.not_alive (not_mayRun_of_failing hf)
    rw [alive, gui_of_awaiting hi.link ha] at hdead
    cases hdead
  · have hpos := hc ha
    have h0 := hst.2.2
    omega

/-! ## Any other return -/

/-- The RPMSG worker has returned and the GUI worker is not safe. -/
structure Doomed (s : AppState) : Prop where
  reach : appSys.Reach s
  returned : s.rpmsg = .returned
  notFailing : s.main.failing = false
  awaits : s.running = true ∨ (s.rx.pc .gui).awaiting = true ∧ s.rx.q.count ≤ 0

/-- How far the GUI worker is from its next wait. -/
def rank (s : AppState) : Nat :=
  if .gui ∈ s.rx.mon.waiting then 0
  else match s.gui, s.rx.pc .gui with
    | .notCreated, _ => 8
    | .start, _ => 7
    | .handle _, _ => 5
    | .loop, _ => 4
    | _, .popLock | _, .popAsleep => 3
    | _, .popTest => 2
    | _, .popUnlock _ => 6
    | _, _ => 1

/-- Each packet costs the GUI worker one more round. -/
def distance (s : AppState) : Nat := 10 * s.rx.q.count.toNat + s.rank

theorem Doomed.queue (hd : s.Doomed) : s.rx.Inv ∧ s.rx.WakeInv := by
  have hr := (app_inv hd.reach).link.reach_of_created (by simp [hd.returned])
  exact ⟨queue_inv hr, queue_wakeInv hr⟩

/-- Nobody keeps a doomed GUI worker from the mutex. -/
theorem Doomed.mutex (hd : s.Doomed) : s.rx.mon.owner = none ∨ s.rx.mon.owner = some .gui := by
  rcases ho : s.rx.mon.owner with _ | ⟨_ | _⟩
  · exact .inl rfl
  · have hin := (hd.queue.1.coherent.owner .rpmsg).1 ho
    rw [QState.place_of_pc ((app_inv hd.reach).link.rpmsgIdle (by simp [hd.returned]))] at hin
    cases hin
  · exact .inr rfl

/-- Asleep, a doomed GUI worker is stranded. -/
theorem Doomed.asleep (hd : s.Doomed) (hw : .gui ∈ s.rx.mon.waiting) : s.Stranded := by
  obtain ⟨hq, hwake⟩ := hd.queue
  refine ⟨hd.returned, hw, QState.asleep_empty hq hwake (fun t => ?_) ⟨.gui, hw⟩⟩
  cases t with
  | rpmsg => exact .inl ((app_inv hd.reach).link.rpmsgIdle (by simp [hd.returned]))
  | gui => exact .inr hw

/-- Outside its pop a doomed GUI worker still sees the flag set. -/
theorem Doomed.running (hd : s.Doomed) (hp : (s.rx.pc .gui).awaiting = false) :
    s.running = true := by
  rcases hd.awaits with hon | ⟨ha, -⟩
  · exact hon
  · rw [hp] at ha; cases ha

theorem Doomed.idle (hd : s.Doomed) (hg : s.gui ≠ .pop) :
    s.rx.pc .gui = .idle ∧ s.running = true := by
  have hidle := (app_inv hd.reach).link.guiIdle hg
  exact ⟨hidle, hd.running (by rw [hidle]; rfl)⟩

/-- Where a doomed GUI worker stands. -/
theorem Doomed.where (hd : s.Doomed) :
    s.main = .createGui ∧ s.gui = .notCreated ∨
      s.gui = .start ∨ s.gui = .loop ∨ s.gui = .pop ∨ ∃ m, s.gui = .handle m := by
  have hi := app_inv hd.reach
  have hnotFlag : s.gui ≠ .stopping ∧ s.gui ≠ .returned := by
    refine ⟨fun hg => ?_, fun hg => ?_⟩
    · have hoff := hi.flags.gui (.inl hg)
      rw [(hd.idle (by simp [hg])).2] at hoff
      cases hoff
    · have hoff := hi.flags.gui (.inr hg)
      rw [(hd.idle (by simp [hg])).2] at hoff
      cases hoff
  cases hg : s.gui with
  | start => exact .inr (.inl rfl)
  | loop => exact .inr (.inr (.inl rfl))
  | pop => exact .inr (.inr (.inr (.inl rfl)))
  | handle m => exact .inr (.inr (.inr (.inr ⟨m, rfl⟩)))
  | stopping => exact absurd hg hnotFlag.1
  | returned => exact absurd hg hnotFlag.2
  | notCreated =>
    refine .inl ⟨?_, rfl⟩
    have hnone : s.main.mayRun .gui = false := by
      by_contra hm
      have hc := hi.threads.created .gui (by simpa using hm)
      simp [created, hg] at hc
    have hmade : s.main.notYet .rpmsg = false := by
      by_contra hm
      have hc := hi.threads.notYet .rpmsg (by simpa using hm)
      simp [created, hd.returned] at hc
    have hsucc : s.main.succeeding = false := by
      by_contra hm
      have hr := hi.flags.success (by simpa using hm)
      rw [hg] at hr
      cases hr
    exact eq_createGui hmade hnone hsucc hd.notFailing

/-- A step of a doomed state that leaves the flag set leaves it doomed. -/
theorem Doomed.next (hd : s.Doomed) {a : Act} (hn : s.step a = some s')
    (hr : s'.rpmsg = s.rpmsg) (hm : s'.main.failing = false) (hon : s'.running = true) :
    s'.Doomed := ⟨.next hd.reach hn, hr.trans hd.returned, hm, .inl hon⟩

theorem Doomed.awake (hd : s.Doomed) (hg : s.gui ≠ .pop) : .gui ∉ s.rx.mon.waiting := by
  refine hd.queue.1.coherent.not_asleep ?_
  rw [QState.place_of_pc (hd.idle hg).1]
  decide

/-- The doomed GUI worker's steps outside its pop, and its creation. -/
theorem Doomed.progress_outside (hd : s.Doomed) (hg : s.gui ≠ .pop) :
    ∃ a t, appSys.Next s a t ∧ t.Doomed ∧ t.distance < s.distance := by
  have hw := hd.awake hg
  obtain ⟨hidle, hon⟩ := hd.idle hg
  rcases hd.where with ⟨hm, hn⟩ | hs | hl | hp | ⟨m, hh⟩
  · have hstep : s.step (.main 0 0) = some { s with main := .joinRpmsg, gui := .start } := by
      simp [step, mainStep, hm]
    refine ⟨_, _, hstep, hd.next hstep rfl rfl hon, ?_⟩
    simp [distance, rank, hw, hn]
  · have hstep : s.step (.gui ∅) =
        some { s with gui := .loop, output := s.output ++ [guiStarted] } := by
      simp [step, guiStep, hs]
    refine ⟨_, _, hstep, hd.next hstep rfl hd.notFailing hon, ?_⟩
    simp [distance, rank, hw, hs]
  · have hcall : s.rx.call .gui .pop =
        some ((s.rx.emit (.call .gui .pop)).goto .gui Op.pop.entry) :=
      QState.call_eq_some.mpr ⟨hidle, rfl⟩
    have hstep : s.step (.gui ∅) = some { s with
        rx := (s.rx.emit (.call .gui .pop)).goto .gui Op.pop.entry, gui := .pop } := by
      simp only [step, guiStep, hl, hon, if_true, hcall, Option.map_some]
    refine ⟨_, _, hstep, hd.next hstep rfl hd.notFailing hon, ?_⟩
    simp [distance, rank, hw, hl, Op.entry]
  · exact absurd hp hg
  · have hstep : s.step (.gui ∅) =
        some { s with gui := .loop, output := s.output ++ report m } := by
      simp [step, guiStep, hh]
    refine ⟨_, _, hstep, hd.next hstep rfl hd.notFailing hon, ?_⟩
    simp [distance, rank, hw, hh]

/-- A line of the doomed GUI worker in its pop, before the unlock. -/
theorem Doomed.line (hd : s.Doomed) (hg : s.gui = .pop) {rx : QState Worker} {woken : Finset Worker}
    (hno : ∀ m, s.rx.pc .gui ≠ .popUnlock m) (hrun : s.rx.run .gui woken = some rx)
    (hawaits : s.running = true ∨ (rx.pc .gui).awaiting = true ∧ rx.q.count ≤ 0)
    (hless : distance { s with rx } < s.distance) :
    ∃ a t, appSys.Next s a t ∧ t.Doomed ∧ t.distance < s.distance := by
  have hrx := runRx_eq_some.mpr ⟨rx, hrun, rfl⟩
  have hstep : s.step (.gui woken) = some ({ s with rx }.logSync .rx
      ((lineUses (s.rx.pc .gui)).map fun p => (p, .use))) := by
    simp only [step, guiStep, hg, hrx, Option.bind_eq_bind, Option.bind_some]
  exact ⟨_, _, hstep, ⟨.next hd.reach hstep, hd.returned, hd.notFailing, hawaits⟩, hless⟩

/-- A line of the doomed GUI worker in its pop leads on towards the wait. -/
theorem Doomed.progress_pop (hd : s.Doomed) (hg : s.gui = .pop) {rx : QState Worker}
    {woken : Finset Worker} (hw : .gui ∉ s.rx.mon.waiting)
    (hrun : s.rx.run .gui woken = some rx) :
    ∃ a t, appSys.Next s a t ∧ t.Doomed ∧ t.distance < s.distance := by
  have hpop := (app_inv hd.reach).link.guiPop hg
  have hq := hd.queue.1
  have hran := QState.ran_of_run hrun
  cases hran with
  | @popUnlock m mon hpc hm =>
    have hon := hd.running (by rw [hpc]; rfl)
    obtain ⟨-, rfl⟩ := Monitor.release_eq_some.mp hm
    have hrx := runRx_eq_some.mpr ⟨_, hrun, rfl⟩
    have hstep := (show s.step (.gui woken) = _ by
      simp only [step, guiStep, hg, hrx, hpc, Option.bind_eq_bind, Option.bind_some]
      rfl)
    refine ⟨_, _, hstep, hd.next hstep rfl hd.notFailing hon, ?_⟩
    simp [distance, rank, logSync, hw, hg, hpc]
  | @popCopy m q hpc hcopy =>
    have hpos : 0 < s.rx.q.count := by simpa [hpc, Pc.Fact] using hq.fact .gui
    have hon : s.running = true := by
      rcases hd.awaits with hon | ⟨-, hle⟩
      · exact hon
      · omega
    obtain ⟨m', q', hcopy', -, -, hcount⟩ := hq.ok.copyOut hpos
    obtain ⟨-, rfl⟩ := Prod.mk.inj (Option.some.inj (hcopy.symm.trans hcopy'))
    refine hd.line hg (by simp [hpc]) hrun (.inl hon) ?_
    simp [distance, rank, hw, hg, hpc, hcount]
    omega
  | popLock hpc hm | popRelock hpc hm =>
    obtain ⟨-, -, rfl⟩ := Monitor.acquire_eq_some.mp hm
    refine hd.line hg (by simp [hpc]) hrun ?_ ?_
    · exact hd.awaits.imp id (And.imp_left fun _ => by simp [Pc.awaiting])
    · simp [distance, rank, hw, hg, hpc]
  | popSleep hpc hm =>
    obtain ⟨-, rfl⟩ := Monitor.wait_eq_some.mp hm
    refine hd.line hg (by simp [hpc]) hrun ?_ ?_
    · exact hd.awaits.imp id (And.imp_left fun _ => by simp [Pc.awaiting])
    · simp [distance, rank, hw, hg, hpc]
  | popEmpty hpc _ | popSome hpc _ =>
    refine hd.line hg (by simp [hpc]) hrun ?_ ?_
    · exact hd.awaits.imp id (And.imp_left fun _ => by simp [Pc.awaiting])
    · simp [distance, rank, hw, hg, hpc]
  | pushLock hpc _ | pushFull hpc _ | pushRoom hpc _ | pushCopy hpc _ | pushSignal hpc _
  | pushUnlock hpc _ => rw [hpc] at hpop; exact hpop.elim

theorem Doomed.progress (hd : s.Doomed) :
    s.Stranded ∨ ∃ a t, appSys.Next s a t ∧ t.Doomed ∧ t.distance < s.distance := by
  by_cases hg : s.gui = .pop
  · by_cases hw : .gui ∈ s.rx.mon.waiting
    · exact .inl (hd.asleep hw)
    · have hpop := (app_inv hd.reach).link.guiPop hg
      have hpc : s.rx.pc .gui ≠ .idle := by
        intro hp
        rw [hp] at hpop
        exact hpop
      obtain ⟨woken, rx, hrun⟩ := QState.run_enabled hd.queue.1 hpc hw hd.mutex
      exact .inr (hd.progress_pop hg hw hrun)
  · exact .inr (hd.progress_outside hg)

/-- A doomed GUI worker left to itself ends up stranded. -/
theorem doomed_steps (hd : s.Doomed) : ∃ t, appSys.Steps s t ∧ t.Stranded :=
  Sys.Steps.descend distance (fun _ h => h.progress) hd

/-! ## No way out -/

/-- The RPMSG worker polls its device no more. -/
def Finishing (s : AppState) : Prop :=
  s.rpmsg = .stopping ∨ s.rpmsg = .returned ∨
    s.running = false ∧ (s.rpmsg = .start ∨ s.rpmsg = .loop)

structure Lost (s : AppState) : Prop where
  awaiting : (s.rx.pc .gui).awaiting = true
  empty : s.rx.q.count = 0
  finishing : s.Finishing

theorem Finishing.created (hf : s.Finishing) : s.rpmsg ≠ .notCreated := by
  rcases hf with h | h | ⟨-, h | h⟩ <;> simp [h]

theorem Finishing.main (hf : s.Finishing) (ht : s.Threads) (h : MainRan s s') :
    s'.Finishing := by
  obtain ⟨-, -, -, -, -, -, -, hr, -, hrun⟩ := mainRan_frame h
  rcases hr with hr | ⟨hm, -⟩
  · have hoff : s.running = false → s'.running = false := by
      rcases hrun with hrun | hrun
      · rw [hrun]; exact id
      · exact fun _ => hrun
    rw [Finishing, hr]
    exact hf.imp id (Or.imp id (And.imp_left hoff))
  · have hnot := ht.notYet .rpmsg (by rw [hm]; rfl)
    simp [AppState.created, hf.created] at hnot

theorem Finishing.rpmsg (hf : s.Finishing) (h : RpmsgRan s s') :
    s'.Finishing ∧ s'.rx = s.rx := by
  cases h with
  | start hpc _ _ =>
    refine ⟨?_, rfl⟩
    have hoff : s.running = false := by
      rcases hf with hp | hp | ⟨hoff, -⟩
      · rw [hpc] at hp; cases hp
      · rw [hpc] at hp; cases hp
      · exact hoff
    unfold Finishing
    dsimp only
    split
    · exact .inr (.inl rfl)
    · exact .inr (.inr ⟨hoff, .inr rfl⟩)
  | leave _ _ => exact ⟨.inl rfl, rfl⟩
  | close _ _ => exact ⟨.inr (.inl rfl), rfl⟩
  | again hpc hon =>
    rcases hf with hp | hp | ⟨hoff, -⟩
    · rw [hpc] at hp; cases hp
    · rw [hpc] at hp; cases hp
    · rw [hoff] at hon; cases hon
  | poll hpc _ | received hpc _ _ | nothing hpc _ _ | push hpc _ _ | pushed hpc _ _ =>
    rcases hf with hp | hp | ⟨-, hp | hp⟩ <;> rw [hpc] at hp <;> cases hp

theorem Lost.step (hl : s.Lost) (hi : s.Inv) (h : Ran s s') : s'.Lost := by
  obtain ⟨ha, h0, hf⟩ := hl
  have hgui := gui_of_awaiting hi.link ha
  cases h with
  | signal _ => exact ⟨ha, h0, hf.imp id (Or.imp id (And.imp_left fun _ => rfl))⟩
  | wake _ => exact ⟨ha, h0, hf⟩
  | main h =>
    obtain ⟨-, -, -, -, hpc, -⟩ := mainRan_frame h
    refine ⟨by rw [hpc]; exact ha, ?_, hf.main hi.threads h⟩
    rw [main_q hi.threads hf.created h]
    exact h0
  | rpmsg h =>
    obtain ⟨hf', hrx⟩ := hf.rpmsg h
    exact ⟨by rw [hrx]; exact ha, by rw [hrx]; exact h0, hf'⟩
  | gui h =>
    have hf' : s'.Finishing := by
      obtain ⟨-, hr, hrun, -⟩ := guiRan_frame h
      rw [Finishing, hr, hrun]
      exact hf
    have hq := queue_inv (hi.link.reach_of_created hf.created)
    cases h with
    | start hpc | again hpc _ _ | leave hpc _ | handle hpc | stop hpc =>
      rw [hgui] at hpc; cases hpc
    | popped _ hu _ => rw [hu] at ha; cases ha
    | pop _ _ hr =>
      obtain ⟨rx, hrx, rfl⟩ := runRx_eq_some.mp hr
      obtain ⟨ha', h0'⟩ := QState.ran_empty hq (QState.ran_of_run hrx) ha h0
      exact ⟨ha', h0', hf'⟩

/-- From a lost state `main` never returns. -/
theorem Lost.forever (hl : s.Lost) (hr : appSys.Reach s) (h : appSys.Steps s s') :
    ∀ e, s'.main ≠ .exited e := by
  have hl' : s'.Lost := h.keep (fun _ _ _ hr hi hn => Lost.step hi (app_inv hr) (ran_of_step hn))
    hr hl
  have hi := app_inv (hr.steps h)
  intro e hm
  have hgui := gui_of_awaiting hi.link hl'.awaiting
  have hmay := hi.threads.mayRun .gui (by rw [alive, hgui]; rfl)
  rw [hm] at hmay
  cases hmay

theorem Stranded.lost (hs : s.Stranded) (hi : s.Inv) : s.Lost :=
  ⟨hs.awaiting hi, hs.2.2, .inr (.inl hs.1)⟩

end Step

end AppState

/-- **Shutdown.** The GUI worker is not stranded in a state that a run reaches in which
every return of the RPMSG worker finds it safe; and no state in which it is stranded can
follow a return exactly if it was safe just before. -/
theorem gui_never_stranded_iff (s : AppState) :
    ((appSys.restrict fun u _ u' => u.RpmsgReturns u' → u.GuiSafe).Reach s → ¬ s.Stranded) ∧
    ∀ a s', appSys.Reach s → appSys.Next s a s' → s.RpmsgReturns s' →
      ((∀ t, appSys.Steps s' t → ¬ t.Stranded) ↔ s.GuiSafe) := by
  refine ⟨fun hr hs => ?_, fun a s' hr hn hret => ?_⟩
  · exact (AppState.safe_of_safe_returns hr hs.1).not_stranded (app_inv hr.of_restrict) hs
  · have hran := AppState.ran_of_step hn
    have hr' : appSys.Reach s' := .next hr hn
    rw [← AppState.guiSafe_returns hran hret]
    refine ⟨fun h => ?_, fun hsafe t ht hs => ?_⟩
    · by_contra hno
      obtain ⟨hf, haw⟩ := AppState.not_guiSafe.mp hno
      obtain ⟨t, ht, hs⟩ := AppState.doomed_steps ⟨hr', hret.2, hf, haw⟩
      exact h t ht hs
    · have hsafe' := hsafe.steps hr' hret.2 ht
      exact hsafe'.not_stranded (app_inv (hr'.steps ht)) hs

theorem heartbeatStop_runs : (Sys.exec AppState.step processStart heartbeatStop).isSome := by
  decide +kernel

/-- The RPMSG worker is about to close its device and return. -/
def heartbeatStopped : AppState :=
  (Sys.exec AppState.step processStart heartbeatStop).get heartbeatStop_runs

theorem closeDevice_runs : (heartbeatStopped.step closeDevice).isSome := by decide +kernel

theorem gui_never_stranded_iff_heartbeat :
    ∃ s, appSys.Next heartbeatStopped closeDevice s ∧ s.rpmsg = .returned ∧
      ∀ t, appSys.Steps s t → ¬ t.Stranded := by
  have hr : appSys.Reach heartbeatStopped := Sys.reach_exec processStart_init heartbeatStop_runs
  have hn : appSys.Next heartbeatStopped closeDevice (Option.get _ closeDevice_runs) :=
    (Option.some_get closeDevice_runs).symm
  have hret : heartbeatStopped.RpmsgReturns (Option.get _ closeDevice_runs) :=
    ⟨by decide +kernel, by decide +kernel⟩
  have hsafe : heartbeatStopped.GuiSafe := by decide +kernel
  obtain ⟨-, hiff⟩ := gui_never_stranded_iff heartbeatStopped
  exact ⟨_, hn, hret.2, (hiff _ _ hr hn hret).mpr hsafe⟩

/-- No packet comes: the GUI worker falls asleep on the empty queue, `poll` times out
once, `SIGINT` arrives, and the RPMSG worker leaves. -/
def silentRun : List Act :=
  bringUp ++ [openDevice] ++ List.replicate 5 (.gui ∅) ++
    [.rpmsg [] ∅, .rpmsg [⟨.poll 3 pollIn 50, .timeout⟩] ∅, .signal .sigint, .rpmsg [] ∅,
      closeDevice]

theorem silentRun_runs : (Sys.exec AppState.step processStart silentRun).isSome := by
  decide +kernel

/-- After `SIGINT` the GUI worker is stranded, and `main` waits for it for ever. -/
theorem silentRun_strands_gui :
    ∃ s, appSys.Reach s ∧ s.running = false ∧ s.Stranded ∧
      ∀ t, appSys.Steps s t → ∀ e, t.main ≠ .exited e := by
  have hr : appSys.Reach _ := Sys.reach_exec processStart_init silentRun_runs
  have hs : AppState.Stranded ((Sys.exec AppState.step processStart silentRun).get
      silentRun_runs) := ⟨by decide +kernel, by decide +kernel, by decide +kernel⟩
  exact ⟨_, hr, by decide +kernel, hs, fun t ht => (hs.lost (app_inv hr)).forever hr ht⟩

end LinuxApp.App
