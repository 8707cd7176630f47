import LinuxApp.App.Threads

/-!
# `rx_queue` inside the application

`RxLink`: the queue's own position of a worker is idle exactly when the worker is
not in its queue call, the RPMSG worker pushes what is in its `rx_msg`, and from its
initialisation on the queue's state is a reachable state of the queue with two
threads. The theorems about the queue apply to the application through it.
-/

namespace LinuxApp.App

open Lib LinuxApp.Core Drivers

/-- `rx_queue` is not initialised yet. -/
def MainPc.fresh : MainPc → Bool
  | .signalInt | .signalTerm | .initRx => true
  | _ => false

theorem not_mayRun_of_fresh {p : MainPc} (h : p.fresh = true) (t : Worker) :
    p.mayRun t = false := by
  cases p <;> simp_all [MainPc.fresh, MainPc.mayRun]

namespace AppState

structure RxLink (s : AppState) : Prop where
  rpmsgIdle : s.rpmsg ≠ .push → s.rx.pc .rpmsg = .idle
  rpmsgPush : s.rpmsg = .push → (s.rx.pc .rpmsg).Pushing s.rxMsg
  guiIdle : s.gui ≠ .pop → s.rx.pc .gui = .idle
  guiPop : s.gui = .pop → (s.rx.pc .gui).Popping
  rx : s.main.fresh = true ∧ s.rpmsg = .notCreated ∧ (∃ q, s.rx = .start q) ∨
    s.main.fresh = false ∧ ((queueSys Worker).Reach s.rx ∨
      s.main = .exited .failure ∧ s.rpmsg = .notCreated)

section Step

variable {s s' : AppState}

/-- While a worker is alive the queue is initialised. -/
theorem RxLink.reach (hi : s.RxLink) (ht : s.Threads) {t : Worker} (hal : s.alive t = true) :
    s.main.fresh = false ∧ (queueSys Worker).Reach s.rx := by
  have hmay := ht.mayRun t hal
  rcases hi.rx with ⟨hf, -⟩ | ⟨hf, hr | ⟨he, -⟩⟩
  · rw [not_mayRun_of_fresh hf t] at hmay
    cases hmay
  · exact ⟨hf, hr⟩
  · rw [he] at hmay
    cases hmay

theorem RxLink.reach_of_created (hi : s.RxLink) (hc : s.rpmsg ≠ .notCreated) :
    (queueSys Worker).Reach s.rx := by
  rcases hi.rx with ⟨-, hr, -⟩ | ⟨-, hr | ⟨-, hr⟩⟩
  · exact absurd hr hc
  · exact hr
  · exact absurd hr hc

theorem RxLink.reach_at (hi : s.RxLink) (hf : s.main.fresh = false)
    (he : s.main ≠ .exited .failure) : (queueSys Worker).Reach s.rx := by
  rcases hi.rx with ⟨hf', -⟩ | ⟨-, hr | ⟨he', -⟩⟩
  · rw [hf] at hf'; cases hf'
  · exact hr
  · exact absurd he' he

theorem Threads.not_alive (ht : s.Threads) {t : Worker} (hm : s.main.mayRun t = false) :
    s.alive t = false := by
  by_contra hal
  have hmay := ht.mayRun t (by simpa using hal)
  rw [hm] at hmay
  cases hmay

/-- What `main` does to the queue's state: it initialises it, or leaves it. -/
theorem rx_main (hi : s.RxLink) (h : MainRan s s') :
    s'.main.fresh = true ∧ s'.rpmsg = .notCreated ∧ (∃ q, s'.rx = .start q) ∨
    s'.main.fresh = false ∧ ((queueSys Worker).Reach s'.rx ∨
      s'.main = .exited .failure ∧ s'.rpmsg = .notCreated) := by
  cases h with
  | signalInt hm | signalTerm hm =>
    rcases hi.rx with ⟨-, hr, hq⟩ | ⟨hf, -⟩
    · exact .inl ⟨rfl, hr, hq⟩
    · rw [hm] at hf; cases hf
  | notRegistered hm =>
    rcases hi.rx with ⟨-, hr, -⟩ | ⟨hf, -⟩
    · exact .inr ⟨rfl, .inr ⟨rfl, hr⟩⟩
    · rcases hm with hm | hm <;> rw [hm] at hf <;> cases hf
  | initRx hm hinit =>
    rcases hi.rx with ⟨-, -, q, hq⟩ | ⟨hf, -⟩
    · refine .inr ⟨?_, .inl ?_⟩
      · simp only [logSync]
        split <;> rfl
      · obtain rfl := msgQueueInit_clear hinit
        rw [hq]
        exact .init (queueSys_start q)
    · rw [hm] at hf; cases hf
  | initTx hm _ =>
    refine .inr ⟨?_, .inl (hi.reach_at (by rw [hm]; rfl) (by simp [hm]))⟩
    simp only [logSync]
    split <;> rfl
  | destroyOnlyRx hm | createRpmsg hm | noRpmsg hm | rpmsgFailed hm | createGui hm | noGui hm
  | guiFailed hm | joinAfterFail hm _ | joinRpmsg hm _ | joinGui hm _ | destroyRx hm
  | destroyTx hm =>
    exact .inr ⟨rfl, .inl (hi.reach_at (by rw [hm]; rfl) (by simp [hm]))⟩

theorem RxLink.main (hi : s.RxLink) (ht : s.Threads) (h : MainRan s s') : s'.RxLink := by
  obtain ⟨-, -, hmsg, -, hpc, -, -, hr, hg, -⟩ := mainRan_frame h
  have hrp : s'.rpmsg = .push → s.rpmsg = .push := by
    intro hs
    rcases hr with hr | ⟨-, hr⟩
    · rwa [← hr]
    · rw [hr] at hs; cases hs
  have hgp : s'.gui = .pop → s.gui = .pop := by
    intro hs
    rcases hg with hg | ⟨-, hg⟩
    · rwa [← hg]
    · rw [hg] at hs; cases hs
  refine ⟨?_, ?_, ?_, ?_, ?_⟩
  · intro hs
    rw [hpc]
    refine hi.rpmsgIdle fun hpush => ?_
    rcases hr with hr | ⟨hm, -⟩
    · exact hs (hr ▸ hpush)
    · have hal := ht.not_alive (show s.main.mayRun .rpmsg = false by rw [hm]; rfl)
      rw [alive, hpush] at hal; cases hal
  · intro hs
    rw [hpc, hmsg]
    exact hi.rpmsgPush (hrp hs)
  · intro hs
    rw [hpc]
    refine hi.guiIdle fun hpop => ?_
    rcases hg with hg | ⟨hm, -⟩
    · exact hs (hg ▸ hpop)
    · have hal := ht.not_alive (show s.main.mayRun .gui = false by rw [hm]; rfl)
      rw [alive, hpop] at hal; cases hal
  · intro hs
    rw [hpc]
    exact hi.guiPop (hgp hs)
  · exact rx_main hi h

/-- What a worker step leaves to the other worker. -/
theorem RxLink.rx_next (hi : s.RxLink) (ht : s.Threads) {t : Worker} (hal : s.alive t = true)
    (hm : s'.main = s.main)
    (hr : (queueSys Worker).Reach s.rx → (queueSys Worker).Reach s'.rx) :
    s'.main.fresh = true ∧ s'.rpmsg = .notCreated ∧ (∃ q, s'.rx = .start q) ∨
    s'.main.fresh = false ∧ ((queueSys Worker).Reach s'.rx ∨
      s'.main = .exited .failure ∧ s'.rpmsg = .notCreated) := by
  obtain ⟨hf, hreach⟩ := hi.reach ht hal
  exact .inr ⟨hm ▸ hf, .inl (hr hreach)⟩

/-- The GUI worker's half, where neither its position nor its line in the queue changes. -/
theorem RxLink.gui_kept (hi : s.RxLink) (hg : s'.gui = s.gui)
    (hpc : s'.rx.pc .gui = s.rx.pc .gui) :
    (s'.gui ≠ .pop → s'.rx.pc .gui = .idle) ∧ (s'.gui = .pop → (s'.rx.pc .gui).Popping) := by
  rw [hg, hpc]
  exact ⟨hi.guiIdle, hi.guiPop⟩

/-- The RPMSG worker's half. -/
theorem RxLink.rpmsg_kept (hi : s.RxLink) (hr : s'.rpmsg = s.rpmsg) (hm : s'.rxMsg = s.rxMsg)
    (hpc : s'.rx.pc .rpmsg = s.rx.pc .rpmsg) :
    (s'.rpmsg ≠ .push → s'.rx.pc .rpmsg = .idle) ∧
      (s'.rpmsg = .push → (s'.rx.pc .rpmsg).Pushing s'.rxMsg) := by
  rw [hr, hm, hpc]
  exact ⟨hi.rpmsgIdle, hi.rpmsgPush⟩

theorem RxLink.rpmsg (hi : s.RxLink) (ht : s.Threads) (h : RpmsgRan s s') : s'.RxLink := by
  obtain ⟨hm, hg, -, -, hal, -⟩ := rpmsgRan_frame h
  have hal' : s.alive .rpmsg = true := hal
  cases h with
  | start hpc _ _ | poll hpc _ =>
    have hidle := hi.rpmsgIdle (by simp [hpc])
    refine ⟨fun _ => hidle, ?_, hi.guiIdle, hi.guiPop, hi.rx_next ht hal' hm id⟩
    intro hs
    dsimp only at hs
    split at hs <;> cases hs
  | again hpc _ | leave hpc _ | nothing hpc _ _ | close hpc _ =>
    exact ⟨fun _ => hi.rpmsgIdle (by simp [hpc]), nofun, hi.guiIdle, hi.guiPop,
      hi.rx_next ht hal' hm id⟩
  | received hpc _ hcall =>
    obtain ⟨hself, hother⟩ := QState.call_pc hcall
    obtain ⟨hidle, hpop⟩ := hi.gui_kept hg (hother .gui (by decide))
    refine ⟨fun hs => absurd rfl hs, ?_, hidle, hpop,
      hi.rx_next ht hal' hm fun h => QState.reach_call h hcall⟩
    intro _
    dsimp only
    rw [hself]
    rfl
  | push hpc hno hrun =>
    obtain ⟨rx, hrx, rfl⟩ := runRx_eq_some.mp hrun
    have hran := QState.ran_of_run hrx
    obtain ⟨hidle, hpop⟩ := hi.gui_kept hg (QState.ran_other hran (by decide))
    refine ⟨fun hs => absurd hpc hs, ?_, hidle, hpop,
      hi.rx_next ht hal' hm fun h => QState.reach_run h hrx⟩
    intro _
    rcases QState.ran_pushing hran (hi.rpmsgPush hpc) with ⟨⟨r, hu⟩, -⟩ | ⟨-, hp⟩
    · exact absurd hu (hno _ _)
    · exact hp
  | pushed hpc hu hrun =>
    obtain ⟨rx, hrx, rfl⟩ := runRx_eq_some.mp hrun
    have hran := QState.ran_of_run hrx
    obtain ⟨hidle, hpop⟩ := hi.gui_kept hg (QState.ran_other hran (by decide))
    refine ⟨?_, nofun, hidle, hpop, hi.rx_next ht hal' hm fun h => QState.reach_run h hrx⟩
    intro _
    rcases QState.ran_pushing hran (hi.rpmsgPush hpc) with ⟨-, hidle⟩ | ⟨hno, -⟩
    · exact hidle
    · exact absurd hu (hno _ _)

theorem RxLink.gui (hi : s.RxLink) (ht : s.Threads) (h : GuiRan s s') : s'.RxLink := by
  obtain ⟨hm, hr, -, -, -, hmsg, hal, -⟩ := guiRan_frame h
  have hal' : s.alive .gui = true := hal
  cases h with
  | start hpc | leave hpc _ | handle hpc | stop hpc =>
    exact ⟨hi.rpmsgIdle, hi.rpmsgPush, fun _ => hi.guiIdle (by simp [hpc]), nofun,
      hi.rx_next ht hal' hm id⟩
  | again hpc _ hcall =>
    obtain ⟨hself, hother⟩ := QState.call_pc hcall
    obtain ⟨hidle, hpush⟩ := hi.rpmsg_kept hr hmsg (hother .rpmsg (by decide))
    refine ⟨hidle, hpush, fun hs => absurd rfl hs, ?_,
      hi.rx_next ht hal' hm fun h => QState.reach_call h hcall⟩
    intro _
    dsimp only
    rw [hself]
    trivial
  | pop hpc hno hrun =>
    obtain ⟨rx, hrx, rfl⟩ := runRx_eq_some.mp hrun
    have hran := QState.ran_of_run hrx
    obtain ⟨hidle, hpush⟩ := hi.rpmsg_kept hr hmsg (QState.ran_other hran (by decide))
    refine ⟨hidle, hpush, fun hs => absurd hpc hs, ?_,
      hi.rx_next ht hal' hm fun h => QState.reach_run h hrx⟩
    intro _
    rcases QState.ran_popping hran (hi.guiPop hpc) with ⟨⟨m, hu⟩, -⟩ | ⟨-, hp⟩
    · exact absurd hu (hno _)
    · exact hp
  | popped hpc hu hrun =>
    obtain ⟨rx, hrx, rfl⟩ := runRx_eq_some.mp hrun
    have hran := QState.ran_of_run hrx
    obtain ⟨hidle, hpush⟩ := hi.rpmsg_kept hr hmsg (QState.ran_other hran (by decide))
    refine ⟨hidle, hpush, ?_, nofun, hi.rx_next ht hal' hm fun h => QState.reach_run h hrx⟩
    intro _
    rcases QState.ran_popping hran (hi.guiPop hpc) with ⟨-, hidle⟩ | ⟨hno, -⟩
    · exact hidle
    · exact absurd hu (hno _)

theorem RxLink.step (hi : s.RxLink) (ht : s.Threads) (h : Ran s s') : s'.RxLink := by
  cases h with
  | signal _ => exact ⟨hi.rpmsgIdle, hi.rpmsgPush, hi.guiIdle, hi.guiPop, hi.rx⟩
  | main h => exact hi.main ht h
  | rpmsg h => exact hi.rpmsg ht h
  | gui h => exact hi.gui ht h
  | @wake t mon hw =>
    refine ⟨hi.rpmsgIdle, hi.rpmsgPush, hi.guiIdle, hi.guiPop, ?_⟩
    rcases hi.rx with ⟨-, -, q, hq⟩ | ⟨hf, hreach | he⟩
    · obtain ⟨hin, -⟩ := Monitor.wake_eq_some.mp hw
      rw [hq] at hin
      cases hin
    · refine .inr ⟨hf, .inl (.next hreach (a := .wake t) ?_)⟩
      show QState.step s.rx (.wake t) = _
      rw [QState.step, hw]
      rfl
    · exact .inr ⟨hf, .inr he⟩

end Step

/-- What holds in every state of the application, whatever the device does. -/
structure Inv (s : AppState) : Prop where
  threads : s.Threads
  flags : s.Flags
  link : s.RxLink

end AppState

theorem app_inv {s : AppState} (h : appSys.Reach s) : s.Inv := by
  induction h with
  | init h =>
    have hm := h.main
    obtain ⟨q, hq⟩ := h.rx
    refine ⟨⟨?_, ?_, ?_⟩, ⟨?_, ?_, ?_⟩, ⟨?_, ?_, ?_, ?_, ?_⟩⟩
    · intro t hal
      cases t with
      | rpmsg => rw [AppState.alive, h.rpmsg] at hal; cases hal
      | gui => rw [AppState.alive, h.gui] at hal; cases hal
    · intro t ht
      rw [hm] at ht; cases ht
    · intro t _
      cases t with
      | rpmsg => rw [AppState.created, h.rpmsg]; rfl
      | gui => rw [AppState.created, h.gui]; rfl
    · simp [h.rpmsg]
    · simp [h.gui]
    · simp [hm, MainPc.succeeding]
    · intro _
      rw [hq]; rfl
    · simp [h.rpmsg]
    · intro _
      rw [hq]; rfl
    · simp [h.gui]
    · exact .inl ⟨by rw [hm]; rfl, h.rpmsg, q, hq⟩
  | next _ hn ih =>
    have hran := AppState.ran_of_step hn
    exact ⟨ih.threads.step hran, ih.flags.step hran, ih.link.step ih.threads hran⟩

end LinuxApp.App
