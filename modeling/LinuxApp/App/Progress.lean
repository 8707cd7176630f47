import LinuxApp.App.DeviceUse
import LinuxApp.App.Shutdown

/-!
# Progress of the application

When can no thread take a step? `app_stuck_iff`: only when `main` has returned, or when
it joins the GUI worker and that one is stranded. The step lemmas on the way name, for
each position of the RPMSG worker, system calls that the device may answer with.
-/

namespace LinuxApp.App

open Lib LinuxApp.Core Drivers
open Prog (replay)

namespace Act

/-- A step of one of the three threads. -/
def isThread : Act → Bool
  | .main _ _ | .rpmsg _ _ | .gui _ => true
  | _ => false

end Act

namespace AppState

/-- `main` has joined the RPMSG worker before it joins the GUI worker. -/
def Joined (s : AppState) : Prop :=
  s.main = .joinGui ∨ s.main.succeeding = true → s.rpmsg = .returned

section Step

variable {s s' : AppState}

theorem Joined.step (hi : s.Joined) (h : Ran s s') : s'.Joined := by
  cases h with
  | signal _ | wake _ => exact hi
  | gui h =>
    obtain ⟨hm, hr, -⟩ := guiRan_frame h
    rw [Joined, hm, hr]
    exact hi
  | rpmsg h =>
    intro hj
    rw [(rpmsgRan_frame h).1] at hj
    exact absurd h (not_rpmsgRan (hi hj))
  | main h =>
    intro hj
    cases h with
    | joinRpmsg _ hret => exact hret
    | joinGui hpc _ => exact hi (.inl hpc)
    | @destroyRx e hpc | @destroyTx e hpc =>
      refine hi (.inr ?_)
      cases e with
      | failure => rcases hj with hj | hj <;> cases hj
      | success => rw [hpc]; rfl
    | initRx _ _ | initTx _ _ =>
      simp only [logSync_main] at hj
      split at hj <;> simp [MainPc.succeeding] at hj
    | _ => simp [MainPc.succeeding] at hj

end Step

end AppState

theorem app_joined {s : AppState} (h : appSys.Reach s) : s.Joined := by
  induction h with
  | init h => simp [AppState.Joined, h.main, MainPc.succeeding]
  | next _ hn ih => exact ih.step (AppState.ran_of_step hn)

namespace AppState

variable {s s' : AppState}

/-- While the GUI worker lives the RPMSG worker has been created. -/
theorem created_of_gui (h : appSys.Reach s) (hal : s.gui.alive = true) :
    s.rpmsg ≠ .notCreated := by
  have ht := (app_inv h).threads
  have hmay := ht.mayRun .gui hal
  by_cases hj : s.main = .joinRpmsg
  · have hc := ht.created .rpmsg (by rw [hj]; rfl)
    simpa [created] using hc
  · have hg : s.main = .joinGui := by
      revert hmay hj
      cases s.main <;> simp [MainPc.mayRun]
    simp [app_joined h (.inl hg)]

/-! ## Steps that the RPMSG worker can take -/

/-- `open` may succeed. -/
theorem start_step (hpc : s.rpmsg = .start) (hfds : s.drv.fds = ∅) :
    ∃ es drv, s.step (.rpmsg es ∅) = some { s with drv, rpmsg := .loop } := by
  obtain ⟨ctx, hc⟩ : ∃ ctx, rpmsgCtxInit (some s.drv.ctx) = some ctx := ⟨_, rfl⟩
  obtain ⟨es, drv, hexec⟩ : ∃ es drv,
      { s.drv with ctx }.exec (.openDev (some argDevPath)) es = some (0, drv) := by
    have hopen : replay ((DrvCall.openDev (some argDevPath)).run (some ctx)) _ = some (0, _) :=
      rpmsgOpen_iff.mpr
        ⟨[], ctx, .fd 3, (close_closed (rpmsgCtxInit_ok hc).2).mpr ⟨rfl, rfl⟩, rfl, rfl, rfl⟩
    exact ⟨_, _, DrvState.exec_eq_some.mpr ⟨_, {3}, hopen, by rw [hfds]; rfl, rfl⟩⟩
  refine ⟨es, drv, ?_⟩
  simp only [step, rpmsgStep, hpc, hc, Option.bind_eq_bind, Option.bind_some, hexec]
  rfl

theorem loop_step (hpc : s.rpmsg = .loop) : s.step (.rpmsg [] ∅) =
    some { s with rpmsg := if s.running then .poll else .stopping } := by
  simp only [step, rpmsgStep, hpc]
  split <;> rfl

/-- `poll` may answer anything. -/
theorem poll_step (hpc : s.rpmsg = .poll) (ho : s.drv.ctx.isOpen = true) (a : PollAnswer) :
    ∃ es drv, s.step (.rpmsg es ∅) =
      some { s with drv, rpmsg := if pollResult a > 0 then .recv else .loop } := by
  obtain ⟨es, drv, hexec⟩ : ∃ es drv,
      s.drv.exec (.pollReady 50) es = some (pollResult a, drv) := by
    have hrun : replay ((DrvCall.pollReady 50).run (some s.drv.ctx)) _ =
        some (pollResult a, some s.drv.ctx) :=
      (Prog.replay_map (S := Posix)).mpr ⟨_, (rpmsgPollReady_open ho).mpr ⟨a, rfl, rfl⟩, rfl⟩
    exact ⟨_, _, DrvState.exec_eq_some.mpr ⟨_, _, hrun, rfl, rfl⟩⟩
  refine ⟨es, drv, ?_⟩
  simp only [step, rpmsgStep, hpc, Option.bind_eq_bind, Option.bind_some, hexec]

/-- `read` may bring any packet. -/
theorem recv_step (hpc : s.rpmsg = .recv) (ho : s.drv.ctx.isOpen = true)
    (hidle : s.rx.pc .rpmsg = .idle) (m : AppMsg) :
    ∃ es drv rx, s.rx.call .rpmsg (.push m) = some rx ∧ s.step (.rpmsg es ∅) =
      some { s with drv, rxMsg := m, rx, rpmsg := .push, received := s.received ++ [m] } := by
  obtain ⟨es, drv, hrecv⟩ : ∃ es drv, s.drv.recv s.rxMsg 0 es = some (0, m, drv) := by
    have hwhole := (readResult_whole s.drv.ctx s.rxMsg.toList (.data m.toList m.fits)).mpr
      ⟨_, _, rfl, m.length_toList⟩
    have hbuf : AppMsg.ofList (store s.rxMsg.toList m.toList) = m := by
      rw [store_whole (by simp), AppMsg.ofList_toList]
    have hout : some m = some (AppMsg.ofList (readResult s.drv.ctx s.rxMsg.toList
        (.data m.toList m.fits)).2.2) := congrArg some hbuf.symm
    have hrun : replay (rpmsgRecvMsg (some s.drv.ctx) (some s.rxMsg) 0) _ =
        some (0, _, some m) := (rpmsgRecvMsg_open ho).mpr
      ⟨_, .through (.data m.toList m.fits) (.now rfl), hwhole.symm, rfl, hout⟩
    exact ⟨_, _, DrvState.recv_eq_some.mpr ⟨_, _, hrun, rfl, rfl⟩⟩
  obtain ⟨rx, hcall⟩ : ∃ rx, s.rx.call .rpmsg (.push m) = some rx :=
    ⟨_, QState.call_eq_some.mpr ⟨hidle, rfl⟩⟩
  refine ⟨es, drv, rx, hcall, ?_⟩
  simp only [step, rpmsgStep, hpc, Option.bind_eq_bind, Option.bind_some, hrecv, if_true, hcall]

theorem close_step (hpc : s.rpmsg = .stopping) (ho : s.drv.ctx.isOpen = true) :
    ∃ es drv, s.step (.rpmsg es ∅) = some { s with drv, rpmsg := .returned } := by
  obtain ⟨es, drv, hexec⟩ : ∃ es drv, s.drv.exec .close es = some (0, drv) := by
    have hrun : replay (DrvCall.close.run (some s.drv.ctx)) _ = some (0, _) :=
      close_run.mpr ⟨_, (close_open ho).mpr ⟨.closed, rfl, rfl⟩, rfl, rfl⟩
    exact ⟨_, _, DrvState.exec_eq_some.mpr ⟨_, _, hrun, rfl, rfl⟩⟩
  refine ⟨es, drv, ?_⟩
  simp only [step, rpmsgStep, hpc, Option.bind_eq_bind, Option.bind_some, hexec]

/-! ## Who can take a step -/

/-- A worker waits in its queue call only. -/
theorem rpmsg_enabled (h : appSys.Reach s) (hal : s.rpmsg.alive = true) (hne : s.rpmsg ≠ .push) :
    ∃ a t, a.isThread = true ∧ s.step a = some t := by
  have hopened := (uses_device h).opened
  cases hpc : s.rpmsg with
  | notCreated | returned => rw [hpc] at hal; cases hal
  | push => exact absurd hpc hne
  | start =>
    obtain ⟨es, drv, hs⟩ := start_step hpc ((device_inv h).before (by rw [hpc]; rfl)).1
    exact ⟨_, _, rfl, hs⟩
  | loop => exact ⟨.rpmsg [] ∅, _, rfl, loop_step hpc⟩
  | poll =>
    obtain ⟨es, drv, hs⟩ := poll_step hpc (hopened (by rw [hpc]; rfl)) .timeout
    exact ⟨_, _, rfl, hs⟩
  | recv =>
    have hidle := (app_inv h).link.rpmsgIdle hne
    obtain ⟨es, drv, rx, -, hs⟩ := recv_step hpc (hopened (by rw [hpc]; rfl)) hidle default
    exact ⟨_, _, rfl, hs⟩
  | stopping =>
    obtain ⟨es, drv, hs⟩ := close_step hpc (hopened (by rw [hpc]; rfl))
    exact ⟨_, _, rfl, hs⟩

theorem gui_enabled (hi : s.RxLink) (hal : s.gui.alive = true) (hne : s.gui ≠ .pop) :
    ∃ a t, a.isThread = true ∧ s.step a = some t := by
  suffices hs : ∃ t, s.step (.gui ∅) = some t by
    obtain ⟨t, hs⟩ := hs
    exact ⟨_, _, rfl, hs⟩
  cases hpc : s.gui with
  | notCreated | returned => rw [hpc] at hal; cases hal
  | pop => exact absurd hpc hne
  | start | handle m | stopping =>
    simp only [step, guiStep, hpc]
    exact ⟨_, rfl⟩
  | loop =>
    have hcall : s.rx.call .gui .pop = _ := QState.call_eq_some.mpr ⟨hi.guiIdle hne, rfl⟩
    simp only [step, guiStep, hpc, hcall]
    split <;> exact ⟨_, rfl⟩

/-- A line of the queue's code that can be run is a step of its thread, which goes on in
its own function only after the unlock. -/
theorem line_step (hi : s.RxLink) {t : Worker} {woken : Finset Worker} {rx : QState Worker}
    (hrun : s.rx.run t woken = some rx) :
    ∃ a u, a.isThread = true ∧ s.step a = some u ∧ u.rx = rx ∧ u.running = s.running ∧
      (u.rpmsg = s.rpmsg ∨ t = .rpmsg ∧ ∃ m r, s.rx.pc .rpmsg = .pushUnlock m r) := by
  have hbusy : s.rx.pc t ≠ .idle := by
    intro hp
    unfold QState.run at hrun
    rw [hp] at hrun
    cases hrun
  have hrx := runRx_eq_some.mpr ⟨rx, hrun, rfl⟩
  cases t with
  | rpmsg =>
    have hpc : s.rpmsg = .push := by
      by_contra hne
      exact hbusy (hi.rpmsgIdle hne)
    suffices hs : ∃ u, s.step (.rpmsg [] woken) = some u ∧ u.rx = rx ∧ u.running = s.running ∧
        (u.rpmsg = s.rpmsg ∨ ∃ m r, s.rx.pc .rpmsg = .pushUnlock m r) by
      obtain ⟨u, hs, hu, hrunning, hr⟩ := hs
      exact ⟨_, u, rfl, hs, hu, hrunning, hr.imp_right fun h => ⟨rfl, h⟩⟩
    simp only [step, rpmsgStep, hpc, hrx, Option.bind_eq_bind, Option.bind_some]
    split
    · next m r hp => exact ⟨_, rfl, rfl, rfl, .inr ⟨m, r, hp⟩⟩
    · exact ⟨_, rfl, rfl, rfl, .inl rfl⟩
  | gui =>
    have hpc : s.gui = .pop := by
      by_contra hne
      exact hbusy (hi.guiIdle hne)
    suffices hs : ∃ u, s.step (.gui woken) = some u ∧ u.rx = rx ∧ u.running = s.running ∧
        u.rpmsg = s.rpmsg by
      obtain ⟨u, hs, hu, hrunning, hr⟩ := hs
      exact ⟨_, u, rfl, hs, hu, hrunning, .inl hr⟩
    simp only [step, guiStep, hpc, hrx, Option.bind_eq_bind, Option.bind_some]
    split <;> exact ⟨_, rfl, rfl, rfl, rfl⟩

/-- `main` waits in its joins only. -/
theorem main_enabled (hexit : ∀ e, s.main ≠ .exited e)
    (hr : s.main = .joinAfterFail ∨ s.main = .joinRpmsg → s.rpmsg = .returned)
    (hg : s.main = .joinGui → s.gui = .returned) :
    ∃ a t, a.isThread = true ∧ s.step a = some t := by
  suffices hs : ∃ t, s.step (.main 0 0) = some t by
    obtain ⟨t, hs⟩ := hs
    exact ⟨_, _, rfl, hs⟩
  cases hpc : s.main with
  | exited e => exact absurd hpc (hexit e)
  | joinAfterFail =>
    simp only [step, mainStep, hpc, hr (.inl hpc), if_true]
    exact ⟨_, rfl⟩
  | joinRpmsg =>
    simp only [step, mainStep, hpc, hr (.inr hpc), if_true]
    exact ⟨_, rfl⟩
  | joinGui =>
    simp only [step, mainStep, hpc, hg hpc, if_true]
    exact ⟨_, rfl⟩
  | _ =>
    simp only [step, mainStep, hpc]
    exact ⟨_, rfl⟩

/-! ## The only deadlock -/

/-- No thread can take a step. -/
def Stuck (s : AppState) : Prop := ∀ a, a.isThread = true → s.step a = none

theorem Stuck.not_enabled (hs : s.Stuck) : ¬ ∃ a t, a.isThread = true ∧ s.step a = some t := by
  rintro ⟨a, t, ha, h⟩
  rw [hs a ha] at h
  cases h

/-- A stuck worker that is alive is in its queue call. -/
theorem Stuck.asleep (hs : s.Stuck) (h : appSys.Reach s) {t : Worker} (hal : s.alive t = true) :
    s.rx.pc t = .popAsleep ∧ t ∈ s.rx.mon.waiting ∧ s.rx.q.count = 0 := by
  have hi := app_inv h
  obtain ⟨-, hreach⟩ := hi.link.reach hi.threads hal
  have hq := queue_inv hreach
  have hbusy : s.rx.pc t ≠ .idle := by
    cases t with
    | rpmsg =>
      have hpush : s.rpmsg = .push := by
        by_contra hne
        exact hs.not_enabled (rpmsg_enabled h hal hne)
      intro hp
      have := hi.link.rpmsgPush hpush
      rw [hp] at this
      exact this
    | gui =>
      have hpop : s.gui = .pop := by
        by_contra hne
        exact hs.not_enabled (gui_enabled hi.link hal hne)
      intro hp
      have := hi.link.guiPop hpop
      rw [hp] at this
      exact this
  have hlines : ∀ u woken, s.rx.run u woken = none := by
    intro u woken
    by_contra hne
    obtain ⟨rx, hrun⟩ := Option.ne_none_iff_exists'.mp hne
    obtain ⟨a, v, ha, hv, -⟩ := line_step hi.link hrun
    exact hs.not_enabled ⟨a, v, ha, hv⟩
  have hall := (QState.stuck_iff hq).mp hlines
  have hw := (hall t).resolve_left hbusy
  exact ⟨QState.pc_of_asleep hq hw, hw, QState.asleep_empty hq (queue_wakeInv hreach) hall ⟨t, hw⟩⟩

/-- The RPMSG worker never sleeps. -/
theorem Stuck.rpmsg (hs : s.Stuck) (h : appSys.Reach s) : s.rpmsg.alive = false := by
  by_contra hal
  obtain ⟨hp, -, -⟩ := hs.asleep h (show s.alive .rpmsg = true by simpa [alive] using hal)
  have hi := (app_inv h).link
  by_cases hpush : s.rpmsg = .push
  · have := hi.rpmsgPush hpush
    rw [hp] at this
    exact this
  · rw [hi.rpmsgIdle hpush] at hp
    cases hp

/-- What keeps every thread from a step. -/
theorem Stuck.ends (hs : s.Stuck) (h : appSys.Reach s) :
    (∃ e, s.main = .exited e) ∨ s.main = .joinGui ∧ s.Stranded := by
  have hi := app_inv h
  by_contra hno
  obtain ⟨hexit, hjoin⟩ := not_or.mp hno
  have hdead := hs.rpmsg h
  refine hs.not_enabled (main_enabled (fun e he => hexit ⟨e, he⟩) ?_ ?_)
  · intro hm
    have hc := hi.threads.created .rpmsg (by rcases hm with hm | hm <;> rw [hm] <;> rfl)
    simp only [created, decide_eq_true_eq] at hc
    revert hdead hc
    cases s.rpmsg <;> simp [RpmsgPc.alive]
  · intro hm
    by_contra hg
    have hc := hi.threads.created .gui (by rw [hm]; rfl)
    simp only [created, decide_eq_true_eq] at hc
    have hal : s.alive .gui = true := by
      revert hg hc
      rw [alive]
      cases s.gui <;> simp [GuiPc.alive]
    obtain ⟨-, hw, h0⟩ := hs.asleep h hal
    exact hjoin ⟨hm, app_joined h (.inl hm), hw, h0⟩

/-- A stranded GUI worker has no step. -/
theorem Stranded.no_gui (hs : s.Stranded) (hi : s.Inv) (woken : Finset Worker) :
    s.step (.gui woken) = none := by
  have hg := gui_of_awaiting hi.link (hs.awaiting hi)
  have hq := queue_inv (hi.link.reach_of_created (by simp [hs.1]))
  have hnone : s.rx.run .gui woken = none := by
    unfold QState.run
    rw [QState.pc_of_asleep hq hs.2.1]
    exact Option.map_eq_none_iff.mpr (if_neg fun h => h.2 hs.2.1)
  have hrx : s.runRx .gui woken = none := by rw [runRx, hnone, Option.map_none]
  simp only [step, guiStep, hg, hrx, Option.bind_eq_bind, Option.bind_none]

/-- Workers that are not alive take no step. -/
theorem stuck_of_main (hm : ∀ r r', s.step (.main r r') = none) (hr : s.rpmsg.alive = false)
    (hg : ∀ woken, s.step (.gui woken) = none) : s.Stuck := by
  intro a ha
  cases a with
  | signal _ | wake _ => cases ha
  | main r r' => exact hm r r'
  | gui woken => exact hg woken
  | rpmsg es woken =>
    by_contra hne
    obtain ⟨t, hs⟩ := Option.ne_none_iff_exists'.mp hne
    have hal := (rpmsgRan_frame (rpmsgRan_of_step hs)).2.2.2.2.1
    rw [hr] at hal
    cases hal

end AppState

/-- **The only deadlock of the application.** In every reachable state no thread can take
a step exactly if `main` has returned, or `main` joins the GUI worker while that one
sleeps on the empty queue and the RPMSG worker has returned. -/
theorem app_stuck_iff {s : AppState} (h : appSys.Reach s) :
    s.Stuck ↔ (∃ e, s.main = .exited e) ∨ s.main = .joinGui ∧ s.Stranded := by
  have hi := app_inv h
  refine ⟨fun hs => hs.ends h, fun hx => ?_⟩
  rcases hx with ⟨e, hm⟩ | ⟨hm, hs⟩
  · refine AppState.stuck_of_main (fun r r' => ?_) ?_ fun woken => ?_
    · simp only [AppState.step, AppState.mainStep, hm]
    · exact hi.threads.not_alive (show s.main.mayRun .rpmsg = false by rw [hm]; rfl)
    · by_contra hne
      obtain ⟨t, hg⟩ := Option.ne_none_iff_exists'.mp hne
      have hal := (AppState.guiRan_frame (AppState.guiRan_of_step hg)).2.2.2.2.2.2.1
      have hdead := hi.threads.not_alive (show s.main.mayRun .gui = false by rw [hm]; rfl)
      rw [AppState.alive, hal] at hdead
      cases hdead
  · refine AppState.stuck_of_main (fun r r' => ?_) (by rw [hs.1]; rfl) (hs.no_gui hi)
    have hg := AppState.gui_of_awaiting hi.link (hs.awaiting hi)
    simp only [AppState.step, AppState.mainStep, hm, hg, reduceCtorEq, if_false]

theorem strandedRun_runs :
    (Sys.exec AppState.step processStart (silentRun ++ [.main 0 0])).isSome := by
  decide +kernel

/-- After `SIGINT` on a silent device nothing moves any more. -/
theorem app_stuck_iff_silent : ∃ s : AppState, s.main = .joinGui ∧ s.Stuck := by
  have hm : ((Sys.exec AppState.step processStart (silentRun ++ [.main 0 0])).get
      strandedRun_runs).main = .joinGui := by decide +kernel
  have hs : AppState.Stranded ((Sys.exec AppState.step processStart
      (silentRun ++ [.main 0 0])).get strandedRun_runs) :=
    ⟨by decide +kernel, by decide +kernel, by decide +kernel⟩
  exact ⟨_, hm, (app_stuck_iff (Sys.reach_exec processStart_init strandedRun_runs)).mpr
    (.inr ⟨hm, hs⟩)⟩

end LinuxApp.App
