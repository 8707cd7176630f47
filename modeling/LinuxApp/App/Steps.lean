import LinuxApp.App.State

/-!
# What a step of the application does

One inversion lemma a thread: `MainRan`, `RpmsgRan` and `GuiRan` list the lines of
the three functions with their guards and results, and `ran_of_step` says that a
step of the system is one of these, a signal, or a spurious wake-up. The invariants
go by cases on these and never unfold the step functions.
-/

namespace LinuxApp.App

open Lib LinuxApp.Core Drivers

namespace AppState

/-- The lines of `main`. -/
inductive MainRan (s : AppState) : AppState → Prop where
  | signalInt : s.main = .signalInt → MainRan s { s with main := .signalTerm }
  | signalTerm : s.main = .signalTerm → MainRan s { s with main := .initRx }
  | notRegistered : s.main = .signalInt ∨ s.main = .signalTerm →
      MainRan s { s with main := .exited .failure }
  | initRx {r r' ret q ops} : s.main = .initRx →
      msgQueueInit (some s.rx.q) r r' = (ret, some q, ops) →
      MainRan s ({ s with
        rx := { s.rx with q }
        main := if ret ≠ 0 then .exited .failure else .initTx }.logSync .rx ops)
  | initTx {r r' ret q ops} : s.main = .initTx →
      msgQueueInit (some s.tx) r r' = (ret, some q, ops) →
      MainRan s ({ s with
        tx := q
        main := if ret ≠ 0 then .destroyOnlyRx else .createRpmsg }.logSync .tx ops)
  | destroyOnlyRx : s.main = .destroyOnlyRx →
      MainRan s
        ({ s with main := .exited .failure }.logSync .rx (msgQueueDestroy (some s.rx.q)))
  | createRpmsg : s.main = .createRpmsg →
      MainRan s { s with main := .createGui, rpmsg := .start }
  | noRpmsg : s.main = .createRpmsg → MainRan s { s with main := .rpmsgFailed }
  | rpmsgFailed : s.main = .rpmsgFailed →
      MainRan s { s with main := .destroyRx .failure, running := false }
  | createGui : s.main = .createGui → MainRan s { s with main := .joinRpmsg, gui := .start }
  | noGui : s.main = .createGui → MainRan s { s with main := .guiFailed }
  | guiFailed : s.main = .guiFailed →
      MainRan s { s with main := .joinAfterFail, running := false }
  | joinAfterFail : s.main = .joinAfterFail → s.rpmsg = .returned →
      MainRan s { s with main := .destroyRx .failure }
  | joinRpmsg : s.main = .joinRpmsg → s.rpmsg = .returned →
      MainRan s { s with main := .joinGui }
  | joinGui : s.main = .joinGui → s.gui = .returned →
      MainRan s { s with main := .destroyRx .success }
  | destroyRx {e} : s.main = .destroyRx e →
      MainRan s ({ s with main := .destroyTx e }.logSync .rx (msgQueueDestroy (some s.rx.q)))
  | destroyTx {e} : s.main = .destroyTx e →
      MainRan s ({ s with main := .exited e }.logSync .tx (msgQueueDestroy (some s.tx)))

theorem mainRan_of_step {s s' : AppState} {r r' : Int} (h : s.mainStep r r' = some s') :
    MainRan s s' := by
  unfold mainStep at h
  split at h
  case h_1 hpc =>
    cases h
    split
    · exact .notRegistered (.inl hpc)
    · exact .signalInt hpc
  case h_2 hpc =>
    cases h
    split
    · exact .notRegistered (.inr hpc)
    · exact .signalTerm hpc
  case h_3 hpc =>
    generalize hi : msgQueueInit (some s.rx.q) r r' = out at h
    obtain ⟨ret, q, ops⟩ := out
    obtain ⟨q, rfl, h⟩ := Option.bind_eq_some_iff.mp h
    cases h
    exact .initRx hpc hi
  case h_4 hpc =>
    generalize hi : msgQueueInit (some s.tx) r r' = out at h
    obtain ⟨ret, q, ops⟩ := out
    obtain ⟨q, rfl, h⟩ := Option.bind_eq_some_iff.mp h
    cases h
    exact .initTx hpc hi
  case h_5 hpc => cases h; exact .destroyOnlyRx hpc
  case h_6 hpc =>
    split at h
    · cases h; exact .noRpmsg hpc
    · cases h; exact .createRpmsg hpc
  case h_7 hpc => cases h; exact .rpmsgFailed hpc
  case h_8 hpc =>
    split at h
    · cases h; exact .noGui hpc
    · cases h; exact .createGui hpc
  case h_9 hpc => cases h; exact .guiFailed hpc
  case h_10 hpc =>
    split at h
    · next hr => cases h; exact .joinAfterFail hpc hr
    · cases h
  case h_11 hpc =>
    split at h
    · next hr => cases h; exact .joinRpmsg hpc hr
    · cases h
  case h_12 hpc =>
    split at h
    · next hr => cases h; exact .joinGui hpc hr
    · cases h
  case h_13 hpc => cases h; exact .destroyRx hpc
  case h_14 hpc => cases h; exact .destroyTx hpc
  case h_15 => cases h

/-- The lines of `rpmsg_worker_func`. -/
inductive RpmsgRan (s : AppState) : AppState → Prop where
  | start {es ctx drv} {ret : Int} : s.rpmsg = .start → rpmsgCtxInit (some s.drv.ctx) = some ctx →
      { s.drv with ctx }.exec (.openDev (some argDevPath)) es = some (ret, drv) →
      RpmsgRan s { s with drv, rpmsg := if ret ≠ 0 then .returned else .loop }
  | again : s.rpmsg = .loop → s.running = true → RpmsgRan s { s with rpmsg := .poll }
  | leave : s.rpmsg = .loop → s.running = false → RpmsgRan s { s with rpmsg := .stopping }
  | poll {es ready drv} : s.rpmsg = .poll →
      s.drv.exec (.pollReady 50) es = some (ready, drv) →
      RpmsgRan s { s with drv, rpmsg := if ready > 0 then .recv else .loop }
  | received {es m drv rx} : s.rpmsg = .recv → s.drv.recv s.rxMsg 0 es = some (0, m, drv) →
      s.rx.call .rpmsg (.push m) = some rx →
      RpmsgRan s
        { s with drv, rxMsg := m, rx, rpmsg := .push, received := s.received ++ [m] }
  | nothing {es ret m drv} : s.rpmsg = .recv → ret ≠ 0 →
      s.drv.recv s.rxMsg 0 es = some (ret, m, drv) →
      RpmsgRan s { s with drv, rxMsg := m, rpmsg := .loop }
  | push {woken s'} : s.rpmsg = .push → (∀ m r, s.rx.pc .rpmsg ≠ .pushUnlock m r) →
      s.runRx .rpmsg woken = some s' → RpmsgRan s s'
  | pushed {woken s' m r} : s.rpmsg = .push → s.rx.pc .rpmsg = .pushUnlock m r →
      s.runRx .rpmsg woken = some s' → RpmsgRan s { s' with rpmsg := .loop }
  | close {es ret drv} : s.rpmsg = .stopping → s.drv.exec .close es = some (ret, drv) →
      RpmsgRan s { s with drv, rpmsg := .returned }

theorem rpmsgRan_of_step {s s' : AppState} {es : Exchanges} {woken : Finset Worker}
    (h : s.rpmsgStep es woken = some s') : RpmsgRan s s' := by
  unfold rpmsgStep at h
  split at h
  case h_1 => cases h
  case h_2 => cases h
  case h_3 hpc =>
    obtain ⟨ctx, hc, h⟩ := Option.bind_eq_some_iff.mp h
    obtain ⟨⟨ret, drv⟩, hd, h⟩ := Option.bind_eq_some_iff.mp h
    cases h
    exact .start hpc hc hd
  case h_4 hpc =>
    split at h
    · next hr => cases h; exact .again hpc hr
    · next hr => cases h; exact .leave hpc (Bool.eq_false_iff.mpr hr)
  case h_5 hpc =>
    obtain ⟨⟨ready, drv⟩, hd, h⟩ := Option.bind_eq_some_iff.mp h
    cases h
    exact .poll hpc hd
  case h_6 hpc =>
    obtain ⟨⟨ret, m, drv⟩, hd, h⟩ := Option.bind_eq_some_iff.mp h
    dsimp only at h
    split at h
    · next h0 =>
      subst h0
      obtain ⟨rx, hrx, h⟩ := Option.bind_eq_some_iff.mp h
      cases h
      exact .received hpc hd hrx
    · next h0 =>
      cases h
      exact .nothing hpc h0 hd
  case h_7 hpc =>
    obtain ⟨s₁, hs, h⟩ := Option.bind_eq_some_iff.mp h
    split at h
    · next hu => cases h; exact .pushed hpc hu hs
    · next hu => cases h; exact .push hpc hu hs
  case h_8 hpc =>
    obtain ⟨⟨ret, drv⟩, hd, h⟩ := Option.bind_eq_some_iff.mp h
    cases h
    exact .close hpc hd

/-- The lines of `gui_worker_func`. -/
inductive GuiRan (s : AppState) : AppState → Prop where
  | start : s.gui = .start →
      GuiRan s { s with gui := .loop, output := s.output ++ [guiStarted] }
  | again {rx} : s.gui = .loop → s.running = true → s.rx.call .gui .pop = some rx →
      GuiRan s { s with rx, gui := .pop }
  | leave : s.gui = .loop → s.running = false → GuiRan s { s with gui := .stopping }
  | pop {woken s'} : s.gui = .pop → (∀ m, s.rx.pc .gui ≠ .popUnlock m) →
      s.runRx .gui woken = some s' → GuiRan s s'
  | popped {woken s' m} : s.gui = .pop → s.rx.pc .gui = .popUnlock m →
      s.runRx .gui woken = some s' → GuiRan s { s' with gui := .handle m }
  | handle {m} : s.gui = .handle m →
      GuiRan s { s with gui := .loop, output := s.output ++ report m }
  | stop : s.gui = .stopping →
      GuiRan s { s with gui := .returned, output := s.output ++ [guiStopping] }

theorem guiRan_of_step {s s' : AppState} {woken : Finset Worker}
    (h : s.guiStep woken = some s') : GuiRan s s' := by
  unfold guiStep at h
  split at h
  case h_1 => cases h
  case h_2 => cases h
  case h_3 hpc => cases h; exact .start hpc
  case h_4 hpc =>
    split at h
    · next hr =>
      obtain ⟨rx, hrx, rfl⟩ := Option.map_eq_some_iff.mp h
      exact .again hpc hr hrx
    · next hr => cases h; exact .leave hpc (Bool.eq_false_iff.mpr hr)
  case h_5 hpc =>
    obtain ⟨s₁, hs, h⟩ := Option.bind_eq_some_iff.mp h
    split at h
    · next hu => cases h; exact .popped hpc hu hs
    · next hu => cases h; exact .pop hpc hu hs
  case h_6 hpc => cases h; exact .handle hpc
  case h_7 hpc => cases h; exact .stop hpc

/-- A step of any kind. -/
inductive Ran (s : AppState) : AppState → Prop where
  | signal : (∀ e, s.main ≠ .exited e) → Ran s { s with running := false }
  | main {s'} : MainRan s s' → Ran s s'
  | rpmsg {s'} : RpmsgRan s s' → Ran s s'
  | gui {s'} : GuiRan s s' → Ran s s'
  | wake {t mon} : s.rx.mon.wake t = some mon → Ran s { s with rx := { s.rx with mon } }

theorem ran_of_step {s s' : AppState} {a : Act} (h : s.step a = some s') : Ran s s' := by
  cases a with
  | signal sig =>
    simp only [step, signalStep] at h
    split at h
    case h_1 | h_2 | h_3 => cases h
    case h_4 _ hexit _ => cases h; exact .signal hexit
  | main r r' => exact .main (mainRan_of_step h)
  | rpmsg es woken => exact .rpmsg (rpmsgRan_of_step h)
  | gui woken => exact .gui (guiRan_of_step h)
  | wake t =>
    obtain ⟨mon, hm, rfl⟩ := Option.map_eq_some_iff.mp h
    exact .wake hm

theorem runRx_eq_some {s s' : AppState} {t : Worker} {woken : Finset Worker} :
    s.runRx t woken = some s' ↔ ∃ rx, s.rx.run t woken = some rx ∧
      { s with rx }.logSync .rx ((lineUses (s.rx.pc t)).map fun p => (p, .use)) = s' :=
  Option.map_eq_some_iff

end AppState

end LinuxApp.App
