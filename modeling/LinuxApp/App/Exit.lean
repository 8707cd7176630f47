import LinuxApp.App.Stop
import LinuxApp.App.Telemetry

/-!
# When `main` can still return

Nothing leads out of a `Lost` state, where the GUI worker waits for a packet that the
RPMSG worker will not push any more. From any other state `main` can return:
the device sends one more packet if the GUI worker needs one (`feed`), a signal clears
the flag, and then every step of a thread keeps the GUI worker served (`Served.step`)
and lowers the work. A process that a signal kills is no return of `main`, and the model
has none: see `signalStep`.

`app_silent`: on the way to `EXIT_FAILURE` there is no GUI worker, so that the exit status
tells whether the dashboard ran (`exit_status`).
-/

namespace LinuxApp.App

open Lib LinuxApp.Core Drivers

namespace AppState

/-- A GUI worker in its pop will find a packet. -/
def Fed (s : AppState) : Prop := (s.rx.pc .gui).awaiting = true → 0 < s.rx.q.count

section Step

variable {s s' : AppState}

/-! ## One more packet -/

/-- How far the RPMSG worker is from its next push. -/
def toPush (s : AppState) : Nat :=
  20 * (match s.rpmsg with
    | .start => 4
    | .loop => 3
    | .poll => 2
    | .recv => 1
    | _ => 0) + s.rx.work

/-- The RPMSG worker may still push. -/
def MayFeed (s : AppState) : Prop := s.rpmsg ≠ .notCreated ∧ ¬ s.Finishing

/-- While the RPMSG worker pushes into the empty queue a line can be run. -/
theorem push_step (h : appSys.Reach s) (hpc : s.rpmsg = .push) (hno : ¬ s.Fed) :
    ∃ a t, s.step a = some t ∧ t.MayFeed ∧ t.toPush < s.toPush := by
  have hi := app_inv h
  have hq := queue_inv (hi.link.reach_of_created (by simp [hpc]))
  have hpush := hi.link.rpmsgPush hpc
  have hsome : ∃ t woken rx, s.rx.run t woken = some rx := by
    by_contra hnone
    have hstuck := (QState.stuck_iff hq).mp fun t woken => by
      by_contra hne
      obtain ⟨rx, hrx⟩ := Option.ne_none_iff_exists'.mp hne
      exact hnone ⟨t, woken, rx, hrx⟩
    rcases hstuck .rpmsg with hp | hw
    · rw [hp] at hpush; exact hpush
    · rw [QState.pc_of_asleep hq hw] at hpush; exact hpush
  obtain ⟨t, woken, rx, hrx⟩ := hsome
  obtain ⟨a, u, -, hu, rfl, -, hr⟩ := line_step hi.link hrx
  have hwork := QState.ran_work hq (QState.ran_of_run hrx)
  rcases hr with hr | ⟨rfl, m, r, hp⟩
  · refine ⟨a, u, hu, ⟨by simp [hr, hpc], ?_⟩, ?_⟩
    · rintro (hf | hf | ⟨-, hf | hf⟩) <;> rw [hr, hpc] at hf <;> cases hf
    · simp only [toPush, hr, hpc]
      omega
  · -- at its unlock the push has left a message behind
    have hpos : 0 < s.rx.q.count := hq.stocked (t := .rpmsg) (m := m) (by rw [hp]; rfl)
    exact absurd (fun _ => hpos) hno

/-- The device can bring the RPMSG worker closer to a push. -/
theorem MayFeed.step (hf : s.MayFeed) (h : appSys.Reach s) (hno : ¬ s.Fed) :
    ∃ a t, s.step a = some t ∧ t.MayFeed ∧ t.toPush < s.toPush := by
  have hopened := (uses_device h).opened
  have hon : s.rpmsg = .start ∨ s.rpmsg = .loop → s.running = true := by
    intro hp
    by_contra hoff
    exact hf.2 (.inr (.inr ⟨by simpa using hoff, hp⟩))
  cases hpc : s.rpmsg with
  | notCreated => exact absurd hpc hf.1
  | stopping => exact absurd (.inl hpc) hf.2
  | returned => exact absurd (.inr (.inl hpc)) hf.2
  | push => exact push_step h hpc hno
  | start =>
    obtain ⟨es, drv, hs⟩ := start_step hpc ((device_inv h).before (by rw [hpc]; rfl)).1
    refine ⟨_, _, hs, ⟨by simp, ?_⟩, ?_⟩
    · simp [Finishing, hon (.inl hpc)]
    · simp only [toPush, hpc]
      omega
  | loop =>
    have hs := loop_step hpc
    rw [hon (.inr hpc), if_pos rfl] at hs
    refine ⟨_, _, hs, ⟨by simp, by simp [Finishing]⟩, ?_⟩
    simp only [toPush, hpc]
    omega
  | poll =>
    obtain ⟨es, drv, hs⟩ := poll_step hpc (hopened (by rw [hpc]; rfl)) (.ready pollIn)
    rw [if_pos (by decide)] at hs
    refine ⟨_, _, hs, ⟨by simp, by simp [Finishing]⟩, ?_⟩
    simp only [toPush, hpc]
    omega
  | recv =>
    have hidle := (app_inv h).link.rpmsgIdle (by simp [hpc])
    obtain ⟨es, drv, rx, hcall, hs⟩ := recv_step hpc (hopened (by rw [hpc]; rfl)) hidle default
    have hwork := QState.call_work hcall
    refine ⟨_, _, hs, ⟨by simp, by simp [Finishing]⟩, ?_⟩
    simp only [toPush, hpc, show Fintype.card Worker = 2 from rfl] at hwork ⊢
    omega

/-- Whoever is not lost can be fed. -/
theorem feed (h : appSys.Reach s) (hno : ¬ s.Lost) : ∃ t, appSys.Steps s t ∧ t.Fed := by
  by_cases hfed : s.Fed
  · exact ⟨s, .refl s, hfed⟩
  · obtain ⟨ha, hle⟩ : (s.rx.pc .gui).awaiting = true ∧ s.rx.q.count ≤ 0 := by
      simpa [Fed] using hfed
    have hi := app_inv h
    have hgui := gui_of_awaiting hi.link ha
    have hc := created_of_gui h (by rw [hgui]; rfl)
    have hpos := (queue_inv (hi.link.reach_of_created hc)).ok.count
    have hmay : s.MayFeed := ⟨hc, fun hf => hno ⟨ha, by omega, hf⟩⟩
    refine Sys.Steps.descend (I := fun u => appSys.Reach u ∧ u.MayFeed) toPush ?_ ⟨h, hmay⟩
    rintro u ⟨hu, hf⟩
    by_cases hfu : u.Fed
    · exact .inl hfu
    · obtain ⟨a, t, hs, ht, hlt⟩ := hf.step hu hfu
      exact .inr ⟨a, t, hs, ⟨.next hu hs, ht⟩, hlt⟩

/-! ## After the stop -/

/-- The flag is cleared and the GUI worker will not wait in vain. -/
structure Served (s : AppState) : Prop where
  off : s.running = false
  fed : s.Fed

theorem Served.step (hs : s.Served) (hr : appSys.Reach s) (h : Ran s s') : s'.Served := by
  have hi := app_inv hr
  obtain ⟨hoff, hc⟩ := hs
  cases h with
  | signal _ => exact ⟨rfl, hc⟩
  | wake _ => exact ⟨hoff, hc⟩
  | main h =>
    obtain ⟨-, -, -, -, hpc, -, -, -, -, hrun⟩ := mainRan_frame h
    refine ⟨by rcases hrun with hrun | hrun <;> simp [hrun, hoff], ?_⟩
    intro ha
    rw [hpc] at ha
    have hgui := gui_of_awaiting hi.link ha
    rw [main_q hi.threads (created_of_gui hr (by rw [hgui]; rfl)) h]
    exact hc ha
  | gui h =>
    refine ⟨(guiRan_frame h).2.2.1.trans hoff, ?_⟩
    cases h with
    | start _ | leave _ _ | handle _ | stop _ => exact hc
    | again _ hon _ => rw [hoff] at hon; cases hon
    | pop hpc _ hr | popped hpc _ hr =>
      obtain ⟨rx, hrx, rfl⟩ := runRx_eq_some.mp hr
      exact QState.ran_stocked (QState.ran_of_run hrx) (hi.link.guiPop hpc) hc
  | rpmsg h =>
    obtain ⟨-, -, hrun, -, hal, -⟩ := rpmsgRan_frame h
    have hq := queue_inv (hi.link.reach hi.threads (show s.alive .rpmsg = true from hal)).2
    refine ⟨hrun.trans hoff, ?_⟩
    cases h with
    | start _ _ _ | leave _ _ | again _ _ | poll _ _ | nothing _ _ _ | close _ _ => exact hc
    | received _ _ hcall =>
      obtain ⟨-, rfl⟩ := QState.call_eq_some.mp hcall
      exact hc
    | push hpc _ hr | pushed hpc _ hr =>
      obtain ⟨rx, hrx, rfl⟩ := runRx_eq_some.mp hr
      have hran := QState.ran_of_run hrx
      have hle := QState.ran_pushing_count hq hran (hi.link.rpmsgPush hpc)
      intro ha
      have hpos := hc (by rw [← QState.ran_other hran (by decide)]; exact ha)
      exact Int.lt_of_lt_of_le hpos hle

/-- Left to itself, a served application lets `main` return. -/
theorem Served.exits (hs : s.Served) (h : appSys.Reach s) :
    ∃ t, appSys.Steps s t ∧ ∃ e, t.main = .exited e := by
  refine Sys.Steps.descend (I := fun u => appSys.Reach u ∧ u.Served) work ?_ ⟨h, hs⟩
  rintro u ⟨hu, hsu⟩
  by_cases hstuck : u.Stuck
  · rcases hstuck.ends hu with he | ⟨-, hst⟩
    · exact .inl he
    · have hpos := hsu.fed (hst.awaiting (app_inv hu))
      have h0 := hst.2.2
      omega
  · obtain ⟨a, t, ht, -, hlt⟩ := falls (app_inv hu) hsu.off hstuck
    exact .inr ⟨a, t, ht, ⟨.next hu ht, hsu.step hu (ran_of_step ht)⟩, hlt⟩

/-- A signal, or before that the failure to register its handler, lets `main` return. -/
theorem Fed.exits (hf : s.Fed) (h : appSys.Reach s) :
    ∃ t, appSys.Steps s t ∧ ∃ e, t.main = .exited e := by
  by_cases hexit : ∃ e, s.main = .exited e
  · exact ⟨s, .refl s, hexit⟩
  · by_cases hm : s.main = .signalInt
    · have hs : s.step (.main sigErr 0) = some { s with main := .exited .failure } := by
        simp only [step, mainStep, hm, if_true]
      exact ⟨_, .head hs (.refl _), _, rfl⟩
    · have hs : s.step (.signal .sigint) = some { s with running := false } := by
        simp only [step, signalStep]
        split
        case h_1 h1 => exact absurd h1 hm
        case h_2 _ e h2 => exact absurd ⟨e, h2⟩ hexit
        case h_3 h3 => cases h3
        case h_4 => rfl
      have hserved : Served { s with running := false } := ⟨rfl, hf⟩
      obtain ⟨t, ht, he⟩ := hserved.exits (.next h hs)
      exact ⟨t, .head hs ht, he⟩

end Step

end AppState

/-- **When `main` can still return.** From a reachable state some continuation makes
`main` return exactly if it is not so that the GUI worker waits on the empty queue while
the RPMSG worker has left its loop or will leave it at the next test. -/
theorem exit_possible_iff {s : AppState} (h : appSys.Reach s) :
    (∃ t, appSys.Steps s t ∧ ∃ e, t.main = .exited e) ↔ ¬ s.Lost := by
  refine ⟨fun hx hl => ?_, fun hno => ?_⟩
  · obtain ⟨t, ht, e, he⟩ := hx
    exact hl.forever h ht e he
  · obtain ⟨t, ht, hf⟩ := AppState.feed h hno
    obtain ⟨u, hu, he⟩ := hf.exits (h.steps ht)
    exact ⟨u, ht.trans hu, he⟩

/-- `SIGINT` arrives while the GUI worker sleeps and the RPMSG worker is about to test the
flag. -/
def silentStop : List Act :=
  bringUp ++ [openDevice] ++ List.replicate 5 (.gui ∅) ++ [.signal .sigint]

theorem silentStop_runs : (Sys.exec AppState.step processStart silentStop).isSome := by
  decide +kernel

def silentStopped : AppState :=
  (Sys.exec AppState.step processStart silentStop).get silentStop_runs

/-- In the heartbeat run `main` can still return; after `SIGINT` on a silent device it can not. -/
theorem exit_possible_iff_heartbeat :
    (∃ t, appSys.Steps heartbeatStopped t ∧ ∃ e, t.main = .exited e) ∧
    ¬ ∃ t, appSys.Steps silentStopped t ∧ ∃ e, t.main = .exited e := by
  have hr : appSys.Reach heartbeatStopped := Sys.reach_exec processStart_init heartbeatStop_runs
  have hr' : appSys.Reach silentStopped := Sys.reach_exec processStart_init silentStop_runs
  have hfed : ¬ heartbeatStopped.Lost := fun hl => absurd hl.awaiting (by decide +kernel)
  have hlost : silentStopped.Lost :=
    ⟨by decide +kernel, by decide +kernel,
      .inr (.inr ⟨by decide +kernel, .inr (by decide +kernel)⟩)⟩
  exact ⟨(exit_possible_iff hr).mpr hfed, fun hx => (exit_possible_iff hr').mp hx hlost⟩

/-! ## The exit status -/

/-- `main` turns to `EXIT_FAILURE` only before it creates the GUI worker. -/
theorem failing_from {s s' : AppState} (h : AppState.MainRan s s')
    (hf : s'.main.failing = true) :
    (s.main.failing = true ∨ s.main.notYet .gui = true) ∧ s'.gui = s.gui := by
  cases h with
  | notRegistered hpc =>
    rcases hpc with hpc | hpc <;> exact ⟨.inr (by rw [hpc]; rfl), rfl⟩
  | initRx hpc _ | initTx hpc _ | noRpmsg hpc | noGui hpc => exact ⟨.inr (by rw [hpc]; rfl), rfl⟩
  | destroyOnlyRx hpc | rpmsgFailed hpc | guiFailed hpc | joinAfterFail hpc _ =>
    exact ⟨.inl (by rw [hpc]; rfl), rfl⟩
  | @destroyRx e hpc | @destroyTx e hpc =>
    cases e with
    | success => cases hf
    | failure => exact ⟨.inl (by rw [hpc]; rfl), rfl⟩
  | signalInt _ | signalTerm _ | createRpmsg _ | createGui _ | joinRpmsg _ _ | joinGui _ _ =>
    cases hf

theorem app_silent {s : AppState} (h : appSys.Reach s) (hf : s.main.failing = true) :
    s.gui = .notCreated := by
  induction h with
  | init h =>
    rw [h.main] at hf
    cases hf
  | next hr hn ih =>
    have ht := (app_inv hr).threads
    cases AppState.ran_of_step hn with
    | signal _ | wake _ => exact ih hf
    | main h =>
      obtain ⟨hfrom, hg⟩ := failing_from h hf
      rw [hg]
      rcases hfrom with hfail | hnot
      · exact ih hfail
      · have hc := ht.notYet .gui hnot
        simpa [AppState.created] using hc
    | rpmsg h =>
      obtain ⟨hm, hg, -⟩ := AppState.rpmsgRan_frame h
      rw [hg]
      exact ih (hm ▸ hf)
    | gui h =>
      obtain ⟨hm, -, -, -, -, -, hal, -⟩ := AppState.guiRan_frame h
      have hdead := ht.not_alive (not_mayRun_of_failing (hm ▸ hf))
      rw [AppState.alive, hal] at hdead
      cases hdead

/-- No descriptor is open while the RPMSG worker is not alive. -/
theorem closed_of_not_alive {s : AppState} (h : appSys.Reach s) (hal : s.rpmsg.alive = false) :
    s.drv.fds = ∅ := by
  have hd := device_inv h
  cases hr : s.rpmsg with
  | notCreated => exact (hd.before (by rw [hr]; rfl)).1
  | returned =>
    have hi := driver_inv (hd.after (by rw [hr]; rfl))
    rw [hi.table, RpmsgCtx.held_closed (hd.closed hr)]
  | _ => rw [hr] at hal; cases hal

/-- **The exit status.** `main` returns `EXIT_SUCCESS` exactly if the GUI worker has run and
returned, and `EXIT_FAILURE` exactly if it was never created. After a success the stop
flag is cleared, the RPMSG worker has returned and the output is complete: the two
banners and between them the report of every packet popped. After a failure nothing
was printed or popped. Either way the device is closed. -/
theorem exit_status {s : AppState} (h : appSys.Reach s) {e : Exit} (hm : s.main = .exited e) :
    (e = .success ↔ s.gui = .returned) ∧ (e = .failure ↔ s.gui = .notCreated) ∧
    (e = .success → s.running = false ∧ s.rpmsg = .returned ∧
      s.output = guiStarted :: (dequeued s.rx.log).flatMap report ++ [guiStopping]) ∧
    (e = .failure → s.output = [] ∧ dequeued s.rx.log = []) ∧ s.drv.fds = ∅ := by
  have hi := app_inv h
  have htel := telemetry_inv h
  have hfds := closed_of_not_alive h (hi.threads.not_alive (t := .rpmsg) (by rw [hm]; rfl))
  cases e with
  | success =>
    have hgui := hi.flags.success (by rw [hm]; rfl)
    obtain ⟨hoff, -, -⟩ := hi.exited hm
    have hret := app_joined h (.inr (by rw [hm]; rfl))
    exact ⟨by simp [hgui], by simp [hgui], fun _ => ⟨hoff, hret, htel.exited hi hm⟩, by simp, hfds⟩
  | failure =>
    have hgui := app_silent h (by rw [hm]; rfl)
    have hnone := htel.early (by rw [hgui]; rfl)
    obtain ⟨handled, hdeq, hout⟩ := htel.printed
    obtain ⟨rfl, -⟩ := List.append_eq_nil_iff.mp (hdeq.symm.trans hnone)
    refine ⟨by simp [hgui], by simp [hgui], by simp, fun _ => ⟨?_, hnone⟩, hfds⟩
    rw [hout, hgui]
    rfl

theorem exit_status_heartbeat :
    heartbeatEnd.gui = .returned ∧ heartbeatEnd.output.length = 3 ∧
      heartbeatEnd.output =
        guiStarted :: (dequeued heartbeatEnd.rx.log).flatMap report ++ [guiStopping] := by
  have hm : heartbeatEnd.main = .exited .success := by decide +kernel
  obtain ⟨hgui, -, hsucc, -, -⟩ := exit_status heartbeatEnd_reach hm
  exact ⟨hgui.mp rfl, by decide +kernel, (hsucc rfl).2.2⟩

end LinuxApp.App
