import LinuxApp.App.Steps

/-!
# Who runs when

`Threads`: a worker is alive only while `main` stands at a line where that worker
may run (between its creation and its join), has been created there, and has not
been before.
`Flags`: a worker that left its loop on the flag has seen it cleared, and
`EXIT_SUCCESS` is on its way only once the GUI worker has returned. The flag is
never set again.
-/

namespace LinuxApp.App

open Lib LinuxApp.Core Drivers

def RpmsgPc.alive : RpmsgPc → Bool
  | .notCreated | .returned => false
  | _ => true

def GuiPc.alive : GuiPc → Bool
  | .notCreated | .returned => false
  | _ => true

/-- `main` has created the worker and not joined it. -/
def MainPc.mayRun : MainPc → Worker → Bool
  | .createGui, .rpmsg | .guiFailed, .rpmsg | .joinAfterFail, .rpmsg => true
  | .joinRpmsg, _ => true
  | .joinGui, .gui => true
  | _, _ => false

/-- `main` has not come to the creation of the worker. -/
def MainPc.notYet : MainPc → Worker → Bool
  | .signalInt, _ | .signalTerm, _ | .initRx, _ | .initTx, _ | .createRpmsg, _ => true
  | .createGui, .gui => true
  | _, _ => false

/-- `main` is on its way to return `EXIT_SUCCESS`. -/
def MainPc.succeeding : MainPc → Bool
  | .destroyRx .success | .destroyTx .success | .exited .success => true
  | _ => false

namespace AppState

def alive (s : AppState) : Worker → Bool
  | .rpmsg => s.rpmsg.alive
  | .gui => s.gui.alive

def created (s : AppState) : Worker → Bool
  | .rpmsg => decide (s.rpmsg ≠ .notCreated)
  | .gui => decide (s.gui ≠ .notCreated)

structure Threads (s : AppState) : Prop where
  mayRun : ∀ t, s.alive t = true → s.main.mayRun t = true
  created : ∀ t, s.main.mayRun t = true → s.created t = true
  notYet : ∀ t, s.main.notYet t = true → s.created t = false

structure Flags (s : AppState) : Prop where
  rpmsg : s.rpmsg = .stopping → s.running = false
  gui : s.gui = .stopping ∨ s.gui = .returned → s.running = false
  success : s.main.succeeding = true → s.gui = .returned

section Step

variable {s s' : AppState}

/-- A worker step leaves `main` and the other worker alone. -/
theorem rpmsgRan_frame (h : RpmsgRan s s') :
    s'.main = s.main ∧ s'.gui = s.gui ∧ s'.running = s.running ∧ s'.output = s.output ∧
      s.rpmsg.alive = true ∧ s'.rpmsg ≠ .notCreated := by
  cases h with
  | start hpc _ _ =>
    refine ⟨rfl, rfl, rfl, rfl, by rw [hpc]; rfl, ?_⟩
    dsimp only
    split <;> simp
  | poll hpc _ =>
    refine ⟨rfl, rfl, rfl, rfl, by rw [hpc]; rfl, ?_⟩
    dsimp only
    split <;> simp
  | push hpc _ hr =>
    obtain ⟨rx, -, rfl⟩ := runRx_eq_some.mp hr
    refine ⟨rfl, rfl, rfl, rfl, by rw [hpc]; rfl, ?_⟩
    show s.rpmsg ≠ _
    simp [hpc]
  | pushed hpc _ hr =>
    obtain ⟨rx, -, rfl⟩ := runRx_eq_some.mp hr
    exact ⟨rfl, rfl, rfl, rfl, by rw [hpc]; rfl, by simp⟩
  | again hpc _ | leave hpc _ | received hpc _ _ | nothing hpc _ _ | close hpc _ =>
    exact ⟨rfl, rfl, rfl, rfl, by rw [hpc]; rfl, by simp⟩

theorem guiRan_frame (h : GuiRan s s') :
    s'.main = s.main ∧ s'.rpmsg = s.rpmsg ∧ s'.running = s.running ∧ s'.drv = s.drv ∧
      s'.received = s.received ∧ s'.rxMsg = s.rxMsg ∧ s.gui.alive = true ∧
      s'.gui ≠ .notCreated := by
  cases h with
  | pop hpc _ hr =>
    obtain ⟨rx, -, rfl⟩ := runRx_eq_some.mp hr
    refine ⟨rfl, rfl, rfl, rfl, rfl, rfl, by rw [hpc]; rfl, ?_⟩
    show s.gui ≠ _
    simp [hpc]
  | popped hpc _ hr =>
    obtain ⟨rx, -, rfl⟩ := runRx_eq_some.mp hr
    exact ⟨rfl, rfl, rfl, rfl, rfl, rfl, by rw [hpc]; rfl, by simp⟩
  | start hpc | again hpc _ _ | leave hpc _ | handle hpc | stop hpc =>
    exact ⟨rfl, rfl, rfl, rfl, rfl, rfl, by rw [hpc]; rfl, by simp⟩

/-- What `main` leaves alone. -/
theorem mainRan_frame (h : MainRan s s') :
    s'.drv = s.drv ∧ s'.received = s.received ∧ s'.rxMsg = s.rxMsg ∧ s'.output = s.output ∧
      s'.rx.pc = s.rx.pc ∧ s'.rx.mon = s.rx.mon ∧ s'.rx.log = s.rx.log ∧
      (s'.rpmsg = s.rpmsg ∨ s.main = .createRpmsg ∧ s'.rpmsg = .start) ∧
      (s'.gui = s.gui ∨ s.main = .createGui ∧ s'.gui = .start) ∧
      (s'.running = s.running ∨ s'.running = false) := by
  cases h with
  | createRpmsg hpc =>
    exact ⟨rfl, rfl, rfl, rfl, rfl, rfl, rfl, .inr ⟨hpc, rfl⟩, .inl rfl, .inl rfl⟩
  | createGui hpc =>
    exact ⟨rfl, rfl, rfl, rfl, rfl, rfl, rfl, .inl rfl, .inr ⟨hpc, rfl⟩, .inl rfl⟩
  | rpmsgFailed _ | guiFailed _ =>
    exact ⟨rfl, rfl, rfl, rfl, rfl, rfl, rfl, .inl rfl, .inl rfl, .inr rfl⟩
  | _ => exact ⟨rfl, rfl, rfl, rfl, rfl, rfl, rfl, .inl rfl, .inl rfl, .inl rfl⟩

/-- `main` moves to a line where no worker may run that might not before, and where
those that are alive still may. -/
theorem Threads.move (hi : s.Threads) (hr : s'.rpmsg = s.rpmsg) (hg : s'.gui = s.gui)
    (hkeep : ∀ t, s.alive t = true → s.main.mayRun t = true → s'.main.mayRun t = true)
    (hless : ∀ t, s'.main.mayRun t = true → s.main.mayRun t = true)
    (hnot : ∀ t, s'.main.notYet t = true → s.main.notYet t = true) : s'.Threads := by
  have hal : ∀ t, s'.alive t = s.alive t := by
    intro t
    cases t with
    | rpmsg => rw [alive, hr]; rfl
    | gui => rw [alive, hg]; rfl
  have hcr : ∀ t, s'.created t = s.created t := by
    intro t
    cases t with
    | rpmsg => simp [AppState.created, hr]
    | gui => simp [AppState.created, hg]
  refine ⟨?_, ?_, ?_⟩
  · intro t ht
    rw [hal] at ht
    exact hkeep t ht (hi.mayRun t ht)
  · intro t ht
    rw [hcr]
    exact hi.created t (hless t ht)
  · intro t ht
    rw [hcr]
    exact hi.notYet t (hnot t ht)

/-- A step of an alive worker `t` that stays created. -/
theorem Threads.work (hi : s.Threads) (t : Worker) (hm : s'.main = s.main)
    (ht : s.alive t = true) (hc : s'.created t = true)
    (ho : ∀ u, u ≠ t → s'.alive u = s.alive u ∧ s'.created u = s.created u) : s'.Threads := by
  refine ⟨?_, ?_, ?_⟩
  · intro u hu
    rw [hm]
    by_cases hut : u = t
    · subst hut; exact hi.mayRun u ht
    · exact hi.mayRun u ((ho u hut).1 ▸ hu)
  · intro u hu
    rw [hm] at hu
    by_cases hut : u = t
    · subst hut; exact hc
    · exact (ho u hut).2 ▸ hi.created u hu
  · intro u hu
    rw [hm] at hu
    by_cases hut : u = t
    · subst hut
      have hno := hi.notYet u hu
      rw [hi.created u (hi.mayRun u ht)] at hno
      cases hno
    · exact (ho u hut).2 ▸ hi.notYet u hu

theorem Threads.main (hi : s.Threads) (h : MainRan s s') : s'.Threads := by
  cases h with
  | createRpmsg hpc =>
    have hgui := hi.notYet .gui (by rw [hpc]; rfl)
    have hdead : s.gui.alive = false := by
      simp only [AppState.created, decide_eq_false_iff_not, not_not] at hgui
      rw [hgui]; rfl
    refine ⟨?_, ?_, ?_⟩
    · intro t ht
      cases t with
      | rpmsg => rfl
      | gui => exact absurd (show s.gui.alive = true from ht) (by simp [hdead])
    · intro t ht
      cases t with
      | rpmsg => rfl
      | gui => cases ht
    · intro t ht
      cases t with
      | rpmsg => cases ht
      | gui => exact hgui
  | createGui hpc =>
    have hcr := hi.created .rpmsg (by rw [hpc]; rfl)
    refine ⟨fun t _ => rfl, ?_, nofun⟩
    intro t _
    cases t with
    | rpmsg => exact hcr
    | gui => rfl
  | joinAfterFail hpc hret | joinRpmsg hpc hret | joinGui hpc hret =>
    refine hi.move rfl rfl ?_ ?_ nofun
    · intro t hal hmay
      cases t with
      | rpmsg => simp_all [alive, RpmsgPc.alive, MainPc.mayRun]
      | gui => simp_all [alive, GuiPc.alive, MainPc.mayRun]
    · intro t hmay
      cases t with
      | rpmsg => simp_all [MainPc.mayRun]
      | gui => simp_all [MainPc.mayRun]
  | initRx hpc _ | initTx hpc _ =>
    refine hi.move rfl rfl ?_ ?_ ?_
    · intro t _ hmay
      simp [hpc, MainPc.mayRun] at hmay
    · intro t hmay
      simp only [logSync_main] at hmay
      split at hmay <;> simp [MainPc.mayRun] at hmay
    · intro t _
      rw [hpc]; rfl
  | notRegistered hpc =>
    refine hi.move rfl rfl ?_ nofun nofun
    intro t _ hmay
    rcases hpc with hpc | hpc <;> simp [hpc, MainPc.mayRun] at hmay
  | signalInt hpc | signalTerm hpc =>
    refine hi.move rfl rfl ?_ nofun ?_
    · intro t _ hmay
      simp [hpc, MainPc.mayRun] at hmay
    · intro t _
      rw [hpc]; rfl
  | destroyOnlyRx hpc | noRpmsg hpc | rpmsgFailed hpc | destroyRx hpc | destroyTx hpc =>
    refine hi.move rfl rfl ?_ ?_ ?_
    · intro t _ hmay
      simp [hpc, MainPc.mayRun] at hmay
    · intro t hmay
      simp [MainPc.mayRun] at hmay
    · intro t hnot
      simp [MainPc.notYet] at hnot
  | noGui hpc | guiFailed hpc =>
    refine hi.move rfl rfl ?_ ?_ nofun
    · intro t _ hmay
      cases t with
      | rpmsg => rfl
      | gui => simp [hpc, MainPc.mayRun] at hmay
    · intro t hmay
      cases t with
      | rpmsg => rw [hpc]; rfl
      | gui => simp [MainPc.mayRun] at hmay

theorem Threads.step (hi : s.Threads) (h : Ran s s') : s'.Threads := by
  cases h with
  | signal _ | wake _ => exact ⟨hi.mayRun, hi.created, hi.notYet⟩
  | main h => exact hi.main h
  | rpmsg h =>
    obtain ⟨hm, hg, -, -, hal, hc⟩ := rpmsgRan_frame h
    refine hi.work .rpmsg hm hal (by simpa [AppState.created] using hc) ?_
    intro t hne
    cases t with
    | rpmsg => exact absurd rfl hne
    | gui => simp [alive, AppState.created, hg]
  | gui h =>
    obtain ⟨hm, hr, -, -, -, -, hal, hc⟩ := guiRan_frame h
    refine hi.work .gui hm hal (by simpa [AppState.created] using hc) ?_
    intro t hne
    cases t with
    | rpmsg => simp [alive, AppState.created, hr]
    | gui => exact absurd rfl hne

theorem Flags.main (hi : s.Flags) (h : MainRan s s') : s'.Flags := by
  obtain ⟨-, -, -, -, -, -, -, hr, hg, hrun⟩ := mainRan_frame h
  have hoff : s.running = false → s'.running = false := by
    rcases hrun with hrun | hrun
    · rw [hrun]; exact id
    · exact fun _ => hrun
  refine ⟨?_, ?_, ?_⟩
  · intro hs
    rcases hr with hr | ⟨-, hr⟩
    · exact hoff (hi.rpmsg (hr ▸ hs))
    · rw [hr] at hs; cases hs
  · intro hs
    rcases hg with hg | ⟨-, hg⟩
    · exact hoff (hi.gui (hg ▸ hs))
    · rw [hg] at hs; rcases hs with hs | hs <;> cases hs
  · intro hs
    cases h with
    | joinGui _ hret => exact hret
    | @destroyRx e hpc | @destroyTx e hpc =>
      cases e with
      | success => exact hi.success (by rw [hpc]; rfl)
      | failure => cases hs
    | initRx _ _ | initTx _ _ =>
      simp only [logSync] at hs
      split at hs <;> cases hs
    | _ => cases hs

theorem Flags.step (hi : s.Flags) (h : Ran s s') : s'.Flags := by
  cases h with
  | signal _ => exact ⟨fun _ => rfl, fun _ => rfl, hi.success⟩
  | wake _ => exact ⟨hi.rpmsg, hi.gui, hi.success⟩
  | main h => exact hi.main h
  | rpmsg h =>
    obtain ⟨hm, hg, hrun, -, -, -⟩ := rpmsgRan_frame h
    refine ⟨?_, by rw [hg, hrun]; exact hi.gui, by rw [hm, hg]; exact hi.success⟩
    intro hs
    cases h with
    | leave _ hoff => exact hoff
    | start _ _ _ | poll _ _ => dsimp only at hs; split at hs <;> cases hs
    | push hpc _ hr =>
      obtain ⟨rx, -, rfl⟩ := runRx_eq_some.mp hr
      replace hs : s.rpmsg = .stopping := hs
      rw [hpc] at hs; cases hs
    | pushed _ _ _ | again _ _ | received _ _ _ | nothing _ _ _ | close _ _ => cases hs
  | gui h =>
    obtain ⟨hm, hr, hrun, -, -, -, hal, -⟩ := guiRan_frame h
    refine ⟨by rw [hr, hrun]; exact hi.rpmsg, ?_, ?_⟩
    · intro hs
      cases h with
      | leave _ hoff => exact hoff
      | stop hpc => exact hi.gui (.inl hpc)
      | pop hpc _ hr =>
        obtain ⟨rx, -, rfl⟩ := runRx_eq_some.mp hr
        replace hs : s.gui = .stopping ∨ s.gui = .returned := hs
        rw [hpc] at hs; rcases hs with hs | hs <;> cases hs
      | popped _ _ _ | start _ | again _ _ _ | handle _ => rcases hs with hs | hs <;> cases hs
    · intro hs
      have hret := hi.success (hm ▸ hs)
      rw [hret] at hal; cases hal

end Step

end AppState

end LinuxApp.App
