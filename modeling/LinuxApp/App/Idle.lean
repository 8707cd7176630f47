import LinuxApp.App.Pipeline
import LinuxApp.App.Stop

/-!
# The GUI worker does not spin

`msg_queue_pop` sleeps on an empty queue, so the GUI worker has work only for packets.
`AppState.owed` is what it may still do before it sleeps, with the queue's lines of both
workers; a packet popped pays for the six steps of the next turn of the loop, a packet
received for the lines of its push and of those its signal may wake. The RPMSG worker,
which polls, has no such bound.
-/

namespace LinuxApp.App

open Lib LinuxApp.Core Drivers

/-- The steps up to the next sleep, without the lines of the queue. -/
def GuiPc.turn : GuiPc → Nat
  | .notCreated | .start => 6
  | .loop => 5
  | .stopping => 1
  | .pop | .handle _ | .returned => 0

namespace AppState

def owed (s : AppState) : Nat := s.rx.work + s.gui.turn + 6 * s.unprinted.length

/-- What the packets popped and received have paid for. -/
def earned (s : AppState) : Nat := 6 * (dequeued s.rx.log).length + 13 * s.received.length

variable {s s' : AppState}

theorem main_owed (ht : s.Threads) (h : MainRan s s') :
    s'.owed = s.owed ∧ s'.earned = s.earned := by
  obtain ⟨-, hrecv, -, -, hpc, hmon, hlog, -, hg, -⟩ := mainRan_frame h
  have hrx : s'.rx.work = s.rx.work := by
    simp only [rx_work, QState.linesLeft, hpc, hmon]
  refine ⟨?_, by rw [earned, earned, hlog, hrecv]⟩
  rcases hg with hg | ⟨hm, hg⟩
  · rw [owed, owed, hrx, hg, unprinted, unprinted, hg, hpc]
  · have hnot := ht.notYet .gui (by rw [hm]; rfl)
    simp only [created, decide_eq_false_iff_not, not_not] at hnot
    rw [owed, owed, hrx, hg, hnot, unprinted_of_ne (by simp [hg]), unprinted_of_ne (by simp [hnot]),
      hpc]
    rfl

theorem rpmsg_owed (hi : s.Inv) (h : RpmsgRan s s') :
    s'.owed + s.earned ≤ s.owed + s'.earned := by
  obtain ⟨-, hg, -, -, hal, -⟩ := rpmsgRan_frame h
  have hq := queue_inv (hi.link.reach hi.threads (show s.alive .rpmsg = true from hal)).2
  have hpush : s.rpmsg = .push → ∀ {woken rx}, s.rx.run .rpmsg woken = some rx →
      rx.work + 1 ≤ s.rx.work ∧ dequeued rx.log = dequeued s.rx.log ∧
        rx.pc .gui = s.rx.pc .gui := by
    intro hpc woken rx hrx
    have hran := QState.ran_of_run hrx
    exact ⟨QState.ran_work hq hran, QState.ran_push_dequeued hran (hi.link.rpmsgPush hpc),
      QState.ran_other hran (by decide)⟩
  have hun : s'.rx.pc .gui = s.rx.pc .gui → s'.unprinted = s.unprinted := by
    intro hpc
    rw [unprinted, unprinted, hg, hpc]
  unfold owed earned
  rw [hg]
  cases h with
  | start _ _ _ | again _ _ | leave _ _ | poll _ _ | nothing _ _ _ | close _ _ =>
    rw [hun rfl]
  | received hpc _ hcall =>
    obtain ⟨-, hother⟩ := QState.call_pc hcall
    have hlog := (QState.call_log hcall).2
    have hle := QState.entry_work hcall
    rw [hun (hother .gui (by decide))]
    simp only [hlog, List.length_append, List.length_singleton, Op.entry, Pc.lines,
      show Fintype.card Worker = 2 from rfl] at hle ⊢
    omega
  | push hpc _ hr | pushed hpc _ hr =>
    obtain ⟨rx, hrx, rfl⟩ := runRx_eq_some.mp hr
    obtain ⟨hle, hdeq, hother⟩ := hpush hpc hrx
    rw [hun hother]
    simp only [logSync]
    rw [hdeq]
    omega

theorem gui_owed (h₀ : appSys.Reach s) (h : GuiRan s s') :
    s'.owed + 1 + s.earned ≤ s.owed + s'.earned := by
  have hi := app_inv h₀
  obtain ⟨-, -, -, -, hrecv, -, hal, -⟩ := guiRan_frame h
  have hq := queue_inv (hi.link.reach hi.threads (show s.alive .gui = true from hal)).2
  unfold owed earned
  rw [hrecv]
  cases h with
  | start hpc | leave hpc _ | stop hpc =>
    rw [unprinted_of_ne (by simp), unprinted_of_ne (by simp [hpc]), hpc]
    simp only [GuiPc.turn]
    omega
  | handle hpc =>
    rw [unprinted_of_ne (by simp), inHand_idle hi.link (by simp [hpc])]
    simp only [unprinted, hpc, GuiPc.turn, List.length_nil, List.length_singleton]
    omega
  | again hpc _ hcall =>
    obtain ⟨hself, -⟩ := QState.call_pc hcall
    have hle := QState.entry_work hcall
    rw [unprinted_of_ne (by simp), (QState.call_log hcall).2, hpc]
    simp only [hself, Op.entry, Pc.inHand, Pc.lines, GuiPc.turn, List.length_nil] at hle ⊢
    omega
  | pop hpc hno hr =>
    obtain ⟨rx, hrx, rfl⟩ := runRx_eq_some.mp hr
    have hran := QState.ran_of_run hrx
    have hle := QState.ran_work hq hran
    simp only [logSync, unprinted, hpc, GuiPc.turn]
    cases line_moves hq hran with
    | accept hm _ _ _ _ _ | drop hm _ _ _ _ _ =>
      rw [Pc.unoffered_of_popping (hi.link.guiPop hpc)] at hm
      cases hm
    | take hm hm' _ _ hdeq =>
      rw [hm, hm', hdeq, List.length_append, List.length_nil, List.length_singleton]
      omega
    | none _ hm _ _ hdeq =>
      rw [hm.resolve_right fun hex => hex.elim hno, hdeq]
      omega
  | popped hpc hu hr =>
    obtain ⟨rx, hrx, rfl⟩ := runRx_eq_some.mp hr
    have hran := QState.ran_of_run hrx
    have hle := QState.ran_work hq hran
    obtain ⟨-, -, hdeq⟩ := unlock_moves hq hran hu
    simp only [logSync, unprinted, hpc, hu, hdeq, GuiPc.turn, Pc.inHand, List.length_singleton]
    omega

end AppState

namespace Act

def isGui : Act → Bool
  | .gui _ => true
  | _ => false

def guiCost (a : Act) : Nat := if a.isGui then 1 else 0

end Act

theorem owed_step {s t : AppState} {a : Act} (h : appSys.Reach s) (hn : s.step a = some t) :
    t.owed + a.guiCost + s.earned ≤ s.owed + a.gain + t.earned := by
  have hi := app_inv h
  cases a with
  | signal sig =>
    simp only [AppState.step, AppState.signalStep] at hn
    split at hn
    case h_1 | h_2 | h_3 => cases hn
    case h_4 => cases hn; exact Nat.le_refl _
  | main r r' =>
    obtain ⟨howed, hearned⟩ := AppState.main_owed hi.threads (AppState.mainRan_of_step hn)
    rw [howed, hearned]
    exact Nat.le_refl _
  | rpmsg es woken => exact AppState.rpmsg_owed hi (AppState.rpmsgRan_of_step hn)
  | gui woken => exact AppState.gui_owed h (AppState.guiRan_of_step hn)
  | wake t =>
    obtain ⟨mon, hm, rfl⟩ := Option.map_eq_some_iff.mp hn
    have hle := QState.wake_work (AppState.wake_lines hi (Monitor.wake_eq_some.mp hm).1) hm
    have hun : AppState.unprinted { s with rx := { s.rx with mon } } = s.unprinted := rfl
    simp only [AppState.owed, AppState.earned, Act.guiCost, Act.gain, Act.isGui, Act.isWake, hun,
      Bool.false_eq_true, if_false, if_true]
    omega

/-- **The GUI worker does not spin.** Over every run from the start of the process the GUI
worker takes at most 6 steps for each packet popped, 13 for each packet received, 4 for
each spurious wake-up and 6 more, however often it is scheduled. -/
theorem gui_steps_paid {s₀ s : AppState} {as : List Act} (hi : appSys.Init s₀)
    (h : appSys.Runs s₀ as s) :
    as.countP Act.isGui ≤
      6 * (dequeued s.rx.log).length + 13 * s.received.length + 4 * as.countP Act.isWake + 6 := by
  have hstep : ∀ s a t, appSys.Reach s → appSys.Next s a t → appSys.Reach t ∧
      t.owed + a.guiCost + s.earned ≤ s.owed + a.gain + t.earned :=
    fun s a t hr hn => ⟨.next hr hn, owed_step hr hn⟩
  obtain ⟨-, hle⟩ := Sys.Runs.earn AppState.owed AppState.earned Act.guiCost Act.gain hstep
    (.init hi) h
  have hstart : s₀.owed = 6 := by
    obtain ⟨q, hq⟩ := hi.rx
    rw [AppState.owed, AppState.unprinted_of_ne (by simp [hi.gui]), hi.gui, hq]
    rfl
  rw [total_eq_mul (k := 1) (p := Act.isGui) Act.guiCost fun _ => rfl,
    total_eq_mul (k := 4) (p := Act.isWake) Act.gain fun _ => rfl, hstart] at hle
  unfold AppState.earned at hle
  omega

/-- One heartbeat: 12 steps of the GUI worker, and 25 paid for. -/
theorem gui_steps_paid_heartbeat :
    heartbeatRun.countP Act.isGui = 12 ∧ (dequeued heartbeatEnd.rx.log).length = 1 ∧
      heartbeatRun.countP Act.isGui ≤ 25 := by
  have hruns : appSys.Runs processStart heartbeatRun heartbeatEnd :=
    Sys.runs_exec (Option.some_get heartbeatRun_runs).symm
  have hpaid := gui_steps_paid processStart_init hruns
  have hpop : (dequeued heartbeatEnd.rx.log).length = 1 := by decide +kernel
  have hrecv : heartbeatEnd.received.length = 1 := by decide +kernel
  have hwake : heartbeatRun.countP Act.isWake = 0 := by decide +kernel
  rw [hpop, hrecv, hwake] at hpaid
  exact ⟨by decide +kernel, hpop, hpaid⟩

end LinuxApp.App
