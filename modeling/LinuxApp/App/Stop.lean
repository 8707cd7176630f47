import LinuxApp.App.Progress
import LinuxApp.App.Telemetry

/-!
# The work left after a stop

`AppState.work` weighs the positions of the three threads and adds the queue's own work.
With the flag cleared no loop is entered again and every step of a thread lowers it
(`step_work`); only a spurious wake-up adds to it. What a stop still lets through has a
budget of its own: one packet for a worker that is past its test of the flag.
-/

namespace LinuxApp.App

open Lib LinuxApp.Core Drivers

/-- The steps of `main` from here to its return. -/
def MainPc.work : MainPc → Nat
  | .signalInt => 16
  | .signalTerm => 15
  | .initRx => 14
  | .initTx => 13
  | .createRpmsg => 12
  | .createGui => 8
  | .guiFailed | .joinRpmsg => 4
  | .rpmsgFailed | .joinAfterFail | .joinGui => 3
  | .destroyRx _ => 2
  | .destroyOnlyRx | .destroyTx _ => 1
  | .exited _ => 0

/-- The steps of the RPMSG worker outside the queue, and those its last push may bring. -/
def RpmsgPc.work : RpmsgPc → Nat
  | .notCreated | .returned => 0
  | .stopping => 1
  | .loop | .push => 2
  | .start => 3
  | .recv => 16
  | .poll => 17

/-- The steps of the GUI worker outside the queue. -/
def GuiPc.work : GuiPc → Nat
  | .notCreated | .returned => 0
  | .stopping => 1
  | .loop => 2
  | .start | .pop | .handle _ => 3

def AppState.work (s : AppState) : Nat := s.main.work + s.rpmsg.work + s.gui.work + s.rx.work

namespace AppState

variable {s s' : AppState}

theorem rx_work (s : AppState) : s.rx.work = s.rx.linesLeft .rpmsg + s.rx.linesLeft .gui := rfl

/-- A line of a worker in its queue call lowers the work. -/
theorem runRx_work (hq : s.rx.Inv) {t : Worker} {woken : Finset Worker}
    (h : s.runRx t woken = some s') : s'.rx.work + 1 ≤ s.rx.work ∧
      s'.main = s.main ∧ s'.rpmsg = s.rpmsg ∧ s'.gui = s.gui := by
  obtain ⟨rx, hrx, rfl⟩ := runRx_eq_some.mp h
  exact ⟨QState.ran_work hq (QState.ran_of_run hrx), rfl, rfl, rfl⟩

theorem main_work (h : MainRan s s') : s'.work + 1 ≤ s.work := by
  obtain ⟨-, -, -, -, hpc, hmon, -, -, -, -⟩ := mainRan_frame h
  have hrx : s'.rx.work = s.rx.work := by
    simp only [rx_work, QState.linesLeft, hpc, hmon]
  unfold work
  rw [hrx]
  cases h with
  | notRegistered hm =>
    rcases hm with hm | hm <;> simp only [hm, MainPc.work] <;> omega
  | initRx hm _ | initTx hm _ =>
    simp only [logSync, hm]
    split <;> simp only [MainPc.work] <;> omega
  | signalInt hm | signalTerm hm | destroyOnlyRx hm | createRpmsg hm | noRpmsg hm | rpmsgFailed hm
  | createGui hm | noGui hm | guiFailed hm | joinAfterFail hm _ | joinRpmsg hm _ | joinGui hm _
  | destroyRx hm | destroyTx hm =>
    simp only [logSync, hm, MainPc.work, RpmsgPc.work, GuiPc.work]
    omega

theorem rpmsg_work (hi : s.Inv) (hoff : s.running = false) (h : RpmsgRan s s') :
    s'.work + 1 ≤ s.work := by
  obtain ⟨hm, hg, -, -, hal, -⟩ := rpmsgRan_frame h
  have hq := queue_inv (hi.link.reach hi.threads (show s.alive .rpmsg = true from hal)).2
  unfold work
  rw [hm, hg]
  cases h with
  | again _ hon => rw [hoff] at hon; cases hon
  | start hpc _ _ | poll hpc _ =>
    rw [hpc]
    dsimp only
    split <;> simp only [RpmsgPc.work] <;> omega
  | leave hpc _ | nothing hpc _ _ | close hpc _ =>
    simp only [hpc, RpmsgPc.work]
    omega
  | received hpc _ hcall =>
    have hle := QState.call_work hcall
    simp only [hpc, RpmsgPc.work, show Fintype.card Worker = 2 from rfl] at hle ⊢
    omega
  | push hpc _ hr =>
    obtain ⟨hle, -, hr', -⟩ := runRx_work hq hr
    rw [hr']
    omega
  | pushed hpc _ hr =>
    have hle := (runRx_work hq hr).1
    simp only [hpc, RpmsgPc.work]
    omega

theorem gui_work (hi : s.Inv) (hoff : s.running = false) (h : GuiRan s s') :
    s'.work + 1 ≤ s.work := by
  obtain ⟨hm, hrp, -, -, -, -, hal, -⟩ := guiRan_frame h
  have hq := queue_inv (hi.link.reach hi.threads (show s.alive .gui = true from hal)).2
  unfold work
  rw [hm, hrp]
  cases h with
  | again _ hon _ => rw [hoff] at hon; cases hon
  | start hpc | leave hpc _ | handle hpc | stop hpc =>
    simp only [hpc, GuiPc.work]
    omega
  | pop hpc _ hr =>
    obtain ⟨hle, -, -, hg'⟩ := runRx_work hq hr
    rw [hg']
    omega
  | popped hpc _ hr =>
    have hle := (runRx_work hq hr).1
    simp only [hpc, GuiPc.work]
    omega

/-- A worker in the wait set, or outside the queue, has few lines left. -/
theorem wake_lines (hi : s.Inv) {t : Worker} (hw : t ∈ s.rx.mon.waiting) :
    (s.rx.pc t).lines (Fintype.card Worker) ≤ 4 := by
  by_cases hidle : s.rx.pc t = .idle
  · rw [hidle]
    exact Nat.zero_le _
  · have hal : s.alive t = true := by
      cases t with
      | rpmsg =>
        have hpush : s.rpmsg = .push := by
          by_contra hne
          exact hidle (hi.link.rpmsgIdle hne)
        rw [alive, hpush]; rfl
      | gui =>
        have hpop : s.gui = .pop := by
          by_contra hne
          exact hidle (hi.link.guiIdle hne)
        rw [alive, hpop]; rfl
    rw [QState.pc_of_asleep (queue_inv (hi.link.reach hi.threads hal).2) hw]
    exact Nat.le_refl _

end AppState

namespace Act

/-- A spurious wake-up. -/
def isWake : Act → Bool
  | .wake _ => true
  | _ => false

/-- The steps a label stands for, of those that `AppState.work` counts. -/
def cost (a : Act) : Nat := if a.isThread then 1 else 0

/-- What a spurious wake-up adds to the work. -/
def gain (a : Act) : Nat := if a.isWake then 4 else 0

end Act

namespace AppState

variable {s s' : AppState}

/-- With the flag cleared every step of a thread lowers the work. -/
theorem step_work (hi : s.Inv) (hoff : s.running = false) {a : Act} (h : s.step a = some s') :
    s'.running = false ∧ s'.work + a.cost ≤ s.work + a.gain := by
  cases a with
  | signal sig =>
    simp only [step, signalStep] at h
    split at h
    case h_1 | h_2 | h_3 => cases h
    case h_4 => cases h; exact ⟨rfl, Nat.le_refl _⟩
  | main r r' =>
    have hran := mainRan_of_step h
    refine ⟨?_, main_work hran⟩
    rcases (mainRan_frame hran).2.2.2.2.2.2.2.2.2 with hr | hr
    · rw [hr, hoff]
    · exact hr
  | rpmsg es woken =>
    have hran := rpmsgRan_of_step h
    exact ⟨(rpmsgRan_frame hran).2.2.1.trans hoff, rpmsg_work hi hoff hran⟩
  | gui woken =>
    have hran := guiRan_of_step h
    exact ⟨(guiRan_frame hran).2.2.1.trans hoff, gui_work hi hoff hran⟩
  | wake t =>
    obtain ⟨mon, hm, rfl⟩ := Option.map_eq_some_iff.mp h
    have hle := QState.wake_work (wake_lines hi (Monitor.wake_eq_some.mp hm).1) hm
    refine ⟨hoff, ?_⟩
    simp only [work, Act.cost, Act.gain, Act.isThread, Act.isWake, Bool.false_eq_true, if_false,
      if_true]
    omega

/-- Where some thread can take a step, one lowers the work. -/
theorem falls (hi : s.Inv) (hoff : s.running = false) (hs : ¬ s.Stuck) :
    ∃ a t, s.step a = some t ∧ t.running = false ∧ t.work < s.work := by
  simp only [Stuck, not_forall] at hs
  obtain ⟨a, ha, hne⟩ := hs
  obtain ⟨t, ht⟩ := Option.ne_none_iff_exists'.mp hne
  obtain ⟨hoff', hle⟩ := step_work hi hoff ht
  refine ⟨a, t, ht, hoff', ?_⟩
  cases a with
  | signal _ | wake _ => cases ha
  | main _ _ | rpmsg _ _ | gui _ =>
    simp only [Act.cost, Act.gain, Act.isThread, Act.isWake, Bool.false_eq_true, if_false,
      if_true] at hle
    omega

/-! ## How much is left -/

theorem rpmsg_share (hi : s.RxLink) : s.rpmsg.work + s.rx.linesLeft .rpmsg ≤ 17 := by
  have hle := QState.linesLeft_le s.rx .rpmsg
  by_cases hpush : s.rpmsg = .push
  · have hp := hi.rpmsgPush hpush
    have hlines : (s.rx.pc .rpmsg).lines (Fintype.card Worker) ≤ 13 := by
      revert hp
      cases s.rx.pc .rpmsg <;> simp [Pc.Pushing, Pc.lines, show Fintype.card Worker = 2 from rfl]
    rw [hpush, RpmsgPc.work]
    omega
  · rw [hi.rpmsgIdle hpush, Pc.lines] at hle
    have hwork : s.rpmsg.work ≤ 17 := by cases s.rpmsg <;> simp [RpmsgPc.work]
    omega

theorem gui_share (hi : s.RxLink) : s.gui.work + s.rx.linesLeft .gui ≤ 7 := by
  have hle := QState.linesLeft_le s.rx .gui
  by_cases hpop : s.gui = .pop
  · have hp := hi.guiPop hpop
    have hlines : (s.rx.pc .gui).lines (Fintype.card Worker) ≤ 4 := by
      revert hp
      cases s.rx.pc .gui <;> simp [Pc.Popping, Pc.lines]
    rw [hpop, GuiPc.work]
    omega
  · rw [hi.guiIdle hpop, Pc.lines] at hle
    have hwork : s.gui.work ≤ 3 := by cases s.gui <;> simp [GuiPc.work]
    omega

/-- A worker that is not created has nothing to run. -/
theorem notCreated_share (hi : s.RxLink) :
    (s.rpmsg = .notCreated → s.rpmsg.work + s.rx.linesLeft .rpmsg = 0) ∧
    (s.gui = .notCreated → s.gui.work + s.rx.linesLeft .gui = 0) := by
  refine ⟨fun hn => ?_, fun hn => ?_⟩
  · have hle := QState.linesLeft_le s.rx .rpmsg
    rw [hi.rpmsgIdle (by simp [hn]), Pc.lines] at hle
    simp only [hn, RpmsgPc.work]
    omega
  · have hle := QState.linesLeft_le s.rx .gui
    rw [hi.guiIdle (by simp [hn]), Pc.lines] at hle
    simp only [hn, GuiPc.work]
    omega

theorem work_le (hi : s.Inv) : s.work ≤ 28 := by
  have hr := rpmsg_share hi.link
  have hg := gui_share hi.link
  have hnr := (notCreated_share hi.link).1
  have hng := (notCreated_share hi.link).2
  have hcr := hi.threads.notYet .rpmsg
  have hcg := hi.threads.notYet .gui
  simp only [created, decide_eq_false_iff_not, not_not] at hcr hcg
  unfold work
  rw [rx_work]
  cases hm : s.main with
  | signalInt | signalTerm | initRx | initTx | createRpmsg =>
    have hr0 := hnr (hcr (by rw [hm]; rfl))
    have hg0 := hng (hcg (by rw [hm]; rfl))
    simp only [MainPc.work]
    omega
  | createGui =>
    have hg0 := hng (hcg (by rw [hm]; rfl))
    simp only [MainPc.work]
    omega
  | _ =>
    simp only [MainPc.work]
    omega

end AppState

/-- **A stop takes effect in bounded time.** Once the flag is cleared, no run of the three
threads is longer than 28 steps and four more for each spurious wake-up, whatever the
device answers; and some run comes to a point where no thread can take a step. -/
theorem stop_bounded {s : AppState} (h : appSys.Reach s) (hoff : s.running = false) :
    (∀ as t, appSys.Runs s as t →
      as.countP Act.isThread ≤ 28 + 4 * as.countP Act.isWake) ∧
    ∃ t, appSys.Steps s t ∧ t.running = false ∧ t.Stuck := by
  refine ⟨fun as t hruns => ?_, ?_⟩
  · have hpay := (Sys.Runs.pay (I := fun u => appSys.Reach u ∧ u.running = false) AppState.work
      Act.cost Act.gain (fun u a u' hu hn => ?_) ⟨h, hoff⟩ hruns).2
    · rw [total_eq_mul (k := 1) (p := Act.isThread) Act.cost fun _ => rfl,
        total_eq_mul (k := 4) (p := Act.isWake) Act.gain fun _ => rfl] at hpay
      have hle := AppState.work_le (app_inv h)
      omega
    · have hstep := AppState.step_work (app_inv hu.1) hu.2 hn
      exact ⟨⟨.next hu.1 hn, hstep.1⟩, hstep.2⟩
  · refine Sys.Steps.descend (I := fun u => appSys.Reach u ∧ u.running = false) AppState.work
      (fun u hu => ?_) ⟨h, hoff⟩
    by_cases hs : u.Stuck
    · exact .inl ⟨hu.2, hs⟩
    · obtain ⟨a, t, ht, hoff', hlt⟩ := AppState.falls (app_inv hu.1) hu.2 hs
      exact .inr ⟨a, t, ht, ⟨.next hu.1 ht, hoff'⟩, hlt⟩

/-- At most 28 steps after the stop of the heartbeat run. -/
theorem stop_bounded_heartbeat :
    (∀ as t, appSys.Runs heartbeatStopped as t →
      as.countP Act.isThread ≤ 28 + 4 * as.countP Act.isWake) ∧
    ∃ t, appSys.Steps heartbeatStopped t ∧ t.running = false ∧ t.Stuck :=
  stop_bounded (Sys.reach_exec processStart_init heartbeatStop_runs) (by decide +kernel)

/-! ## What a stop still lets through -/

/-- One for a consumer that has not taken its message yet. -/
def mayPop (p : Pc) : Nat := if p.awaiting then 1 else 0

/-- A line of a consumer takes at most what it still may. -/
theorem ran_budget {T : Type} [DecidableEq T] {s s' : QState T} {t : T} {W : Finset T}
    (h : QState.Ran s t W s') (hp : (s.pc t).Popping) :
    ∃ xs, dequeued s'.log = dequeued s.log ++ xs ∧
      xs.length + mayPop (s'.pc t) ≤ mayPop (s.pc t) := by
  by_cases hu : ∃ m, s.pc t = .popUnlock m
  · obtain ⟨m, hu⟩ := hu
    refine ⟨[], by rw [QState.ran_unlock_dequeued h hu, List.append_nil], ?_⟩
    rcases QState.ran_popping h hp with ⟨-, hidle⟩ | ⟨hno, -⟩
    · simp [hidle, mayPop, Pc.awaiting]
    · exact absurd hu (hno m)
  · refine ⟨_, QState.ran_dequeued h fun m hm => hu ⟨m, hm⟩, ?_⟩
    cases h with
    | popUnlock hpc _ => exact absurd ⟨_, hpc⟩ hu
    | popLock hpc _ | popEmpty hpc _ | popSome hpc _ | popSleep hpc _ | popRelock hpc _
    | popCopy hpc _ => simp [hpc, mayPop, Pc.awaiting, Pc.inHand]
    | pushLock hpc _ | pushFull hpc _ | pushRoom hpc _ | pushCopy hpc _ | pushSignal hpc _
    | pushUnlock hpc _ => rw [hpc] at hp; exact hp.elim

/-- One for an RPMSG worker that is past its test of the flag and has not read yet. -/
def RpmsgPc.mayReceive : RpmsgPc → Nat
  | .poll | .recv => 1
  | _ => 0

namespace AppState

variable {s s' : AppState}

theorem step_receives (hoff : s.running = false) (h : Ran s s') :
    ∃ xs, s'.received = s.received ++ xs ∧
      xs.length + s'.rpmsg.mayReceive ≤ s.rpmsg.mayReceive := by
  cases h with
  | signal _ | wake _ => exact ⟨[], (List.append_nil _).symm, by simp⟩
  | main h =>
    obtain ⟨-, hr, -, -, -, -, -, hp, -⟩ := mainRan_frame h
    refine ⟨[], by rw [hr, List.append_nil], ?_⟩
    rcases hp with hp | ⟨-, hp⟩
    · simp [hp]
    · simp [hp, RpmsgPc.mayReceive]
  | gui h =>
    obtain ⟨-, hp, -, -, hr, -⟩ := guiRan_frame h
    exact ⟨[], by rw [hr, List.append_nil], by simp [hp]⟩
  | rpmsg h =>
    cases h with
    | again _ hon => rw [hoff] at hon; cases hon
    | @received _ m _ _ hpc _ _ => exact ⟨[m], rfl, by simp [hpc, RpmsgPc.mayReceive]⟩
    | start hpc _ _ | poll hpc _ =>
      refine ⟨[], (List.append_nil _).symm, ?_⟩
      simp only [hpc]
      split <;> simp [RpmsgPc.mayReceive]
    | leave hpc _ | nothing hpc _ _ | close hpc _ =>
      exact ⟨[], (List.append_nil _).symm, by simp [hpc, RpmsgPc.mayReceive]⟩
    | push hpc _ hr | pushed hpc _ hr =>
      obtain ⟨rx, -, rfl⟩ := runRx_eq_some.mp hr
      exact ⟨[], (List.append_nil _).symm, by simp [hpc, RpmsgPc.mayReceive, logSync]⟩

theorem step_pops (hi : s.Inv) (hoff : s.running = false) (h : Ran s s') :
    ∃ xs, dequeued s'.rx.log = dequeued s.rx.log ++ xs ∧
      xs.length + mayPop (s'.rx.pc .gui) ≤ mayPop (s.rx.pc .gui) := by
  cases h with
  | signal _ | wake _ => exact ⟨[], (List.append_nil _).symm, by simp⟩
  | main h =>
    obtain ⟨-, -, -, -, hpc, -, hlog, -⟩ := mainRan_frame h
    exact ⟨[], by rw [hlog, List.append_nil], by simp [hpc]⟩
  | rpmsg h =>
    cases h with
    | start _ _ _ | again _ _ | leave _ _ | poll _ _ | nothing _ _ _ | close _ _ =>
      exact ⟨[], (List.append_nil _).symm, by simp⟩
    | received _ _ hcall =>
      refine ⟨[], by rw [List.append_nil]; exact (QState.call_log hcall).2, ?_⟩
      simp [(QState.call_pc hcall).2 .gui (by decide)]
    | push hpc _ hr | pushed hpc _ hr =>
      obtain ⟨rx, hrx, rfl⟩ := runRx_eq_some.mp hr
      have hran := QState.ran_of_run hrx
      refine ⟨[], ?_, ?_⟩
      · rw [List.append_nil]
        exact QState.ran_push_dequeued hran (hi.link.rpmsgPush hpc)
      · simp [logSync, QState.ran_other hran (show Worker.gui ≠ .rpmsg by decide)]
  | gui h =>
    cases h with
    | again _ hon _ => rw [hoff] at hon; cases hon
    | start _ | leave _ _ | handle _ | stop _ => exact ⟨[], (List.append_nil _).symm, by simp⟩
    | pop hpc _ hr | popped hpc _ hr =>
      obtain ⟨rx, hrx, rfl⟩ := runRx_eq_some.mp hr
      exact ran_budget (QState.ran_of_run hrx) (hi.link.guiPop hpc)

end AppState

/-- **A stop is prompt.** Once the flag is cleared, whatever is still done, the RPMSG worker
takes at most one more packet off the device, and only if it was already past its test
of the flag, and the GUI worker takes at most one more out of the queue, and only if it
was already waiting for it. -/
theorem stop_prompt {s t : AppState} (h : appSys.Reach s) (hoff : s.running = false)
    (hs : appSys.Steps s t) :
    (∃ xs, t.received = s.received ++ xs ∧ xs.length ≤ s.rpmsg.mayReceive) ∧
    ∃ xs, dequeued t.rx.log = dequeued s.rx.log ++ xs ∧
      xs.length ≤ mayPop (s.rx.pc .gui) := by
  have hkeep : ∀ u a v, (appSys.Reach u ∧ u.running = false) → appSys.Next u a v →
      appSys.Reach v ∧ v.running = false := fun u a v hu hn =>
    ⟨.next hu.1 hn, (AppState.step_work (app_inv hu.1) hu.2 hn).1⟩
  refine ⟨?_, ?_⟩
  · obtain ⟨-, xs, hxs, hle⟩ := Sys.Steps.grow (I := fun u => appSys.Reach u ∧ u.running = false)
      AppState.received (fun u => u.rpmsg.mayReceive) (fun u a v hu hn => ⟨hkeep u a v hu hn,
        AppState.step_receives hu.2 (AppState.ran_of_step hn)⟩) ⟨h, hoff⟩ hs
    exact ⟨xs, hxs, by omega⟩
  · obtain ⟨-, xs, hxs, hle⟩ := Sys.Steps.grow (I := fun u => appSys.Reach u ∧ u.running = false)
      (fun u => dequeued u.rx.log) (fun u => mayPop (u.rx.pc .gui)) (fun u a v hu hn =>
        ⟨hkeep u a v hu hn, AppState.step_pops (app_inv hu.1) hu.2 (AppState.ran_of_step hn)⟩)
      ⟨h, hoff⟩ hs
    exact ⟨xs, hxs, by omega⟩

/-- The RPMSG worker of the heartbeat run receives nothing more. -/
theorem stop_prompt_heartbeat :
    ∃ t, appSys.Steps heartbeatStopped t ∧ t.rpmsg = .returned ∧
      t.received = heartbeatStopped.received := by
  have hr : appSys.Reach heartbeatStopped := Sys.reach_exec processStart_init heartbeatStop_runs
  have hs : appSys.Steps heartbeatStopped (Option.get _ closeDevice_runs) :=
    .head (show heartbeatStopped.step closeDevice = _ from (Option.some_get _).symm) (.refl _)
  obtain ⟨⟨xs, hxs, hle⟩, -⟩ := stop_prompt hr (by decide +kernel) hs
  have hnone : heartbeatStopped.rpmsg.mayReceive = 0 := by decide +kernel
  obtain rfl := List.eq_nil_of_length_eq_zero (Nat.eq_zero_of_le_zero (hnone ▸ hle))
  exact ⟨_, hs, by decide +kernel, by rw [hxs, List.append_nil]⟩

end LinuxApp.App
